import TrueTest.Providers.BracketAdapters

/-!
# The kill switches

`binance_kill_switch.h` and `binance_futures_kill_switch.h`, with `extract_balance` and
`extract_position_amt` of the reconcilers. A switch cancels all open orders, asks the venue what is
held and closes that with one market order.

The two take the same course and differ in what they make of the answer. The spot switch reports
success where it cannot read the balance and sells what is free only; the futures switch reports
failure where it cannot read the position.
-/

namespace TrueTest.KillSwitch

open List Brackets

/-! ## Reading the answer -/

/-- A field of a row: absent, or its text read as a number. -/
abbrev Field := Option (Option ℚ)

structure BalanceRow where
  asset : String
  free : Field
  locked : Field

/-- `extract_sv_string` and `parse_double_sv`. The search runs over the text: a field that one row
lacks is read from a later row. -/
def firstField (fields : List Field) : Option ℚ := (fields.findSome? id).join

def extractBalance (rows : List BalanceRow) (asset : String) : Option (ℚ × ℚ) := do
  let rest := rows.dropWhile (·.asset ≠ asset)
  return (← firstField (rest.map (·.free)), ← firstField (rest.map (·.locked)))

/-- The rows of `positionRisk`, by their field `positionAmt`. -/
def extractPositionAmt (rows : List Field) : Option ℚ := firstField rows

/-! ## The switches -/

/-- How a switch goes on once it has read what is held. -/
inductive Next where
  | report (ok : Bool)
  | close (side : OrderSide) (quantity : ℚ)

/-- What the venue and the clock answer during one call. -/
structure Replies (ρ : Type) where
  hasClient : Bool
  cancelStatus : Int
  /-- The reply to the cancel contains `-2011`. -/
  noOpenOrders : Bool
  queryStatus : Int
  /-- The rows of the answer, `none` for a text that is no list of rows. -/
  body : Option (List ρ)
  orderStatus : Int
  start : Int
  afterCancel : Int
  beforeOrder : Int

def accepted (status : Int) : Bool := 200 ≤ status ∧ status < 300

variable {ρ : Type}

/-- The course of both switches: the result, and the close order where one is sent. -/
def flatten (next : List ρ → Next) (deadline : Int)
    (v : Replies ρ) : Bool × Option (OrderSide × ℚ) :=
  if ¬ v.hasClient then (false, none)
  else if ¬ accepted v.cancelStatus ∧ ¬ v.noOpenOrders then (false, none)
  else if v.start + deadline ≤ v.afterCancel then (false, none)
  else if ¬ accepted v.queryStatus then (false, none)
  else match next (v.body.getD []) with
    | .report ok => (ok, none)
    | .close side quantity =>
      if v.start + deadline ≤ v.beforeOrder then (false, none)
      else (accepted v.orderStatus, some (side, quantity))

def spotNext (asset : String) (rows : List BalanceRow) : Next :=
  match extractBalance rows asset with
  | none => .report true
  | some (free, locked) =>
    -- Something locked after the cancel is a stuck order; it is looked at only where nothing is
    -- free.
    if free < dust then .report (¬ dust < locked) else .close .sell (fmtDouble free)

def futuresNext (rows : List Field) : Next :=
  match extractPositionAmt rows with
  | none => .report false
  | some amt =>
    if |amt| < dust then .report true
    else .close (if 0 < amt then .sell else .buy) (fmtDouble |amt|)

def cancelAllAndFlatten (asset : String) := flatten (spotNext asset)

/-- `BinanceFuturesKillSwitch::cancel_all_and_flatten`. -/
def cancelAllAndFlattenFutures := flatten futuresNext

/-! ## What a report of success says -/

/-- The sum of some fields; `none` if one of them is missing or no number. -/
def total (fields : List Field) : Option ℚ := (fields.mapM Option.join).map List.sum

/-- What an account reports of an asset, free or locked. -/
def spotHolding (asset : String) (rows : List BalanceRow) : Option ℚ :=
  total ((rows.filter (·.asset = asset)).flatMap fun r => [r.free, r.locked])

/-- A market order that closes the whole of a holding. -/
def Covers (holding : ℚ) (side : OrderSide) (quantity : ℚ) : Prop :=
  (side = .sell ↔ 0 < holding) ∧ |holding| ≤ quantity

/-- Success is reported only with the open orders cancelled and nothing left: the answer is well
formed, and it reports no holding or one that the accepted close order covers. -/
def Truthful (holding : List ρ → Option ℚ) (v : Replies ρ)
    (out : Bool × Option (OrderSide × ℚ)) : Prop :=
  out.1 → (accepted v.cancelStatus ∨ v.noOpenOrders) ∧ ∃ x, v.body.bind holding = some x ∧
    (|x| < dust ∨ accepted v.orderStatus ∧ ∃ side q, out.2 = some (side, q) ∧ Covers x side q)

/-- Every request is accepted, in no time. -/
def prompt (body : Option (List ρ)) : Replies ρ := ⟨true, 200, false, 200, body, 200, 0, 0, 0⟩

/-- What an answer has to report for the step that is taken on it. -/
def Next.Justified (reported : Option ℚ) : Next → Prop
  | .report ok => ok → ∃ x, reported = some x ∧ |x| < dust
  | .close side q => ∃ x, reported = some x ∧ (|x| < dust ∨ Covers x side q)

theorem flatten_truthful_iff (next : List ρ → Next) (holding : List ρ → Option ℚ)
    (body : Option (List ρ)) :
    (∀ deadline v, v.body = body → Truthful holding v (flatten next deadline v)) ↔
      (next (body.getD [])).Justified (body.bind holding) := by
  constructor
  · intro h
    have hprompt := h 1 (prompt body) rfl
    cases hnext : next (body.getD []) with
    | report ok =>
      intro hok
      simpa [flatten, prompt, hnext, accepted, Truthful, hok] using hprompt
    | close side q =>
      simpa [flatten, prompt, hnext, accepted, Truthful, Next.Justified] using hprompt
  · rintro h deadline v rfl hout
    have hcancelled : ¬ (¬ accepted v.cancelStatus ∧ ¬ v.noOpenOrders) →
        accepted v.cancelStatus ∨ v.noOpenOrders := fun hn => by_contra fun hne => hn (not_or.1 hne)
    cases hnext : next (v.body.getD []) with
    | report ok =>
      simp only [flatten, hnext] at h hout ⊢
      split_ifs at hout with hclient hcancel
      obtain ⟨x, hx, hdust⟩ := h hout
      exact ⟨hcancelled hcancel, x, hx, .inl hdust⟩
    | close side q =>
      simp only [flatten, hnext] at h hout ⊢
      split_ifs at hout ⊢ with hclient hcancel
      obtain ⟨x, hx, hheld⟩ := h
      exact ⟨hcancelled hcancel, x, hx, hheld.imp_right fun hcovers =>
        ⟨hout, side, q, rfl, hcovers⟩⟩

/-- The account reports no holding of the asset, or one that the free amount read from it covers, or
the switch reads that everything is locked and gives up. -/
def SpotSafe (asset : String) (account : Option (List BalanceRow)) : Prop :=
  let read := extractBalance (account.getD []) asset
  (∃ free locked, read = some (free, locked) ∧ free < dust ∧ dust < locked) ∨
    ∃ x, account.bind (spotHolding asset) = some x ∧ (|x| < dust ∨ ∃ free locked,
      read = some (free, locked) ∧ dust ≤ free ∧ 0 < x ∧ |x| ≤ fmtDouble free)

/-- No amount can be read, or the rows report no position, or one that the first amount covers. -/
def FuturesSafe (position : Option (List Field)) : Prop :=
  let read := extractPositionAmt (position.getD [])
  read = none ∨ ∃ x, position.bind total = some x ∧ (|x| < dust ∨ ∃ amt,
    read = some amt ∧ dust ≤ |amt| ∧ (0 < amt ↔ 0 < x) ∧ |x| ≤ fmtDouble |amt|)

theorem spotNext_justified_iff {asset : String} {account : Option (List BalanceRow)} :
    (spotNext asset (account.getD [])).Justified (account.bind (spotHolding asset)) ↔
      SpotSafe asset account := by
  rw [spotNext, SpotSafe]
  rcases extractBalance (account.getD []) asset with _ | ⟨free, locked⟩
  · simp [Next.Justified]
  · by_cases hfree : free < dust
    · by_cases hlocked : dust < locked <;> simp [Next.Justified, hfree, hlocked, not_le.2 hfree]
    · simp [Next.Justified, Covers, hfree, not_lt.1 hfree]

theorem futuresNext_justified_iff {position : Option (List Field)} :
    (futuresNext (position.getD [])).Justified (position.bind total) ↔ FuturesSafe position := by
  rw [futuresNext, FuturesSafe]
  rcases extractPositionAmt (position.getD []) with _ | amt
  · simp [Next.Justified]
  · by_cases hamt : |amt| < dust
    · simp [Next.Justified, hamt, not_le.2 hamt]
    · by_cases hpos : 0 < amt <;> simp [Next.Justified, Covers, hamt, hpos, not_lt.1 hamt]

/-- **A switch is truthful on an answer, whatever else the venue replies and however the clock runs,
iff the answer is safe.** -/
theorem cancelAllAndFlatten_truthful_iff (asset : String) (account : Option (List BalanceRow))
    (position : Option (List Field)) :
    ((∀ deadline v, v.body = account →
        Truthful (spotHolding asset) v (cancelAllAndFlatten asset deadline v)) ↔
        SpotSafe asset account) ∧
      ((∀ deadline v, v.body = position →
        Truthful total v (cancelAllAndFlattenFutures deadline v)) ↔ FuturesSafe position) :=
  ⟨(flatten_truthful_iff _ _ _).trans spotNext_justified_iff,
    (flatten_truthful_iff _ _ _).trans futuresNext_justified_iff⟩

/-- Success is reported where the account cannot be read, and where one unit of three is sold. -/
theorem cancelAllAndFlatten_untruthful :
    ¬ Truthful (spotHolding "BTC") (prompt none) (cancelAllAndFlatten "BTC" 1 (prompt none)) ∧
      let account := prompt (some [⟨"BTC", some (some 1), some (some 2)⟩])
      ¬ Truthful (spotHolding "BTC") account (cancelAllAndFlatten "BTC" 1 account) := by
  constructor
  · intro h
    obtain ⟨-, x, hx, -⟩ := h (by decide +kernel)
    cases hx
  · intro account h
    have hsold : cancelAllAndFlatten "BTC" 1 account = (true, some (.sell, 1)) := by decide +kernel
    rw [hsold] at h
    obtain ⟨-, x, hx, hheld⟩ := h rfl
    have hthree : account.body.bind (spotHolding "BTC") = some 3 := by decide +kernel
    obtain rfl : 3 = x := Option.some.inj (hthree.symm.trans hx)
    obtain hdust | ⟨-, side, q, hq, -, hle⟩ := hheld
    · norm_num [dust] at hdust
    · cases hq
      norm_num at hle

end TrueTest.KillSwitch
