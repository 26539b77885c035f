import TrueTest.Analytics.Marks
import TrueTest.Execution.Accounting
import TrueTest.Util.KeyedSum

/-!
# What analytics' books say

A fill that closes moves cash, the cost of the open quantity and the commissions of the open
quantity, and what they move by together is the profit of the trade (`close_balance`). A fill that
opens moves them by nothing together (`grow_balance`). So cash, cost and open commissions add up to
the initial balance and the profit of all closed trades, after any sequence of events whose fills
are on the grid of quantities.

The profit of the closed trades is kept three times: as a list, as wins and losses, and by symbol.
-/

namespace TrueTest

open KeyedSum Machine OpenPosition SubAnalytics

/-- A quantity on the grid within the tolerance is zero. -/
theorem OnGrid.eq_zero_of_abs {q : ℚ} (h : OnGrid q) (hsmall : ¬ dust < |q|) : q = 0 := by
  by_contra hne
  rcases lt_or_gt_of_ne hne with hneg | hpos
  · rw [abs_of_neg hneg] at hsmall
    exact hsmall (h.neg.dust_lt (neg_pos.2 hneg))
  · rw [abs_of_pos hpos] at hsmall
    exact hsmall (h.dust_lt hpos)

namespace OpenPosition

/-- What the open quantity cost, with the commissions paid for it. -/
def carried (p : OpenPosition) : ℚ := p.qty * p.avgEntry + p.openCommission

def unrealized (p : OpenPosition) : ℚ := p.qty * (p.lastPrice - p.avgEntry)

theorem sideSign_mul_self (s : OrderSide) : sideSign s * sideSign s = 1 := by
  cases s <;> norm_num [sideSign]

theorem abs_sideSign (s : OrderSide) : |sideSign s| = 1 := by
  cases s <;> norm_num [sideSign]

variable {f : FillEvent} {p : OpenPosition}

theorem abs_qty_of_closes (h : p.closes f) : |p.qty| = -(sideSign f.side * p.qty) := by
  have hopposite : p.qty * sideSign f.side < 0 := (of_decide_eq_true h).2
  have habs : |p.qty * sideSign f.side| = |p.qty| := by
    rw [abs_mul, abs_sideSign, mul_one]
  rw [← habs, abs_of_neg hopposite, mul_comm]

theorem abs_qty_pos_of_closes (h : p.closes f) : 0 < |p.qty| :=
  lt_trans (by norm_num [dust]) (of_decide_eq_true h).1

/-- The sign of the position that a fill closes. -/
theorem posSign_of_closes (h : p.closes f) :
    (if 0 < p.qty then (1 : ℚ) else -1) = -sideSign f.side := by
  have hopposite : p.qty * sideSign f.side < 0 := (of_decide_eq_true h).2
  cases hside : f.side <;> simp only [hside, sideSign] at hopposite ⊢ <;> split <;> linarith

section

variable (hp : OnGrid p.qty) (hf : OnGrid f.filledQuantity)
include hp hf

theorem qty_grid_close : OnGrid (p.qty + sideSign f.side * p.closeQty f) := by
  have hside (q : ℚ) (hq : OnGrid q) : OnGrid (sideSign f.side * q) := by
    cases f.side <;> simp only [sideSign]
    · rwa [one_mul]
    · rw [neg_one_mul]
      exact hq.neg
  rw [closeQty]
  split
  · rcases min_choice |p.qty| f.filledQuantity with hmin | hmin <;> rw [hmin]
    · rcases abs_choice p.qty with habs | habs <;> rw [habs]
      · exact hp.add (hside _ hp)
      · exact hp.add (hside _ hp.neg)
    · exact hp.add (hside _ hf)
  · rw [mul_zero, add_zero]
    exact hp

/-- On the grid the tolerance only catches a position that is closed in full. -/
theorem close_qty : (p.close f).qty = p.qty + sideSign f.side * p.closeQty f := by
  rw [close]
  split
  · next hsmall => exact ((qty_grid_close hp hf).eq_zero_of_abs (not_lt.2 hsmall.le)).symm
  · rfl

/-- The closing leg keeps the cost and the commissions of what stays open. -/
theorem close_carried (h : p.closes f) : (p.close f).carried =
      (p.qty + sideSign f.side * p.closeQty f) * p.avgEntry +
        (p.openCommission - p.openCommissionShare f) := by
  rw [close]
  split
  · next hsmall =>
    have hzero := (qty_grid_close hp hf).eq_zero_of_abs (not_lt.2 hsmall.le)
    -- Nothing stays open, so the closed part carries all commissions.
    have hall : p.closeQty f = |p.qty| := by
      have hmul : sideSign f.side * (p.qty + sideSign f.side * p.closeQty f) = 0 := by
        rw [hzero, mul_zero]
      rw [mul_add, ← mul_assoc, sideSign_mul_self, one_mul] at hmul
      rw [abs_qty_of_closes h]
      linarith
    have hshare : p.openCommissionShare f = p.openCommission := by
      rw [openCommissionShare, hall, div_self (abs_qty_pos_of_closes h).ne', mul_one]
    rw [hzero, hshare]
    simp [carried]
  · rfl

/-- **The closing leg**: what cash, cost and open commissions move by together is the profit. -/
theorem close_balance (h : p.closes f) :
    -sideSign f.side * p.closeQty f * f.fillPrice - p.closeCommission f + (p.close f).carried =
      p.carried + p.pnl f := by
  rw [close_carried hp hf h, pnl, posSign_of_closes h, carried]
  ring

end

/-- **The opening leg** moves cash against cost and open commissions. -/
theorem grow_balance {qtyLeft : ℚ} (hsame : 0 ≤ p.qty * sideSign f.side) (hpos : 0 < qtyLeft) :
    -(sideSign f.side * qtyLeft * f.fillPrice + f.commission * (qtyLeft / f.filledQuantity)) +
      (p.grow f qtyLeft).carried = p.carried := by
  have habs : |p.qty| = sideSign f.side * p.qty := by
    have h : |p.qty * sideSign f.side| = |p.qty| := by
      rw [abs_mul, abs_sideSign, mul_one]
    rw [← h, abs_of_nonneg hsame, mul_comm]
  have hne : |p.qty| + qtyLeft ≠ 0 := (add_pos_of_nonneg_of_pos (abs_nonneg _) hpos).ne'
  have hqty : p.qty + sideSign f.side * qtyLeft = sideSign f.side * (|p.qty| + qtyLeft) := by
    rw [habs, mul_add, ← mul_assoc, sideSign_mul_self, one_mul]
  have hcost : (p.qty + sideSign f.side * qtyLeft) *
      ((p.avgEntry * |p.qty| + f.fillPrice * qtyLeft) / (|p.qty| + qtyLeft)) =
        p.qty * p.avgEntry + sideSign f.side * qtyLeft * f.fillPrice := by
    rw [hqty, mul_assoc, mul_div_cancel₀ _ hne, mul_add, habs]
    have hsquare := sideSign_mul_self f.side
    linear_combination (p.avgEntry * p.qty) * hsquare
  rw [carried, grow]
  rw [hcost, carried]
  ring

end OpenPosition

namespace Analytics

variable {a : Analytics} {f : FillEvent} {balance : ℚ}

/-- Fills have a positive quantity on the grid. -/
def Regular : AnalyticsEvent → Prop
  | .fill f => 0 < f.filledQuantity ∧ OnGrid f.filledQuantity
  | _ => True

/-! ## The books -/

/-- The quantities at their last marks. -/
def markValue (a : Analytics) : ℚ :=
  keyedSum (fun p : OpenPosition => p.qty * p.lastPrice) a.openPositions

def unrealized (a : Analytics) : ℚ := keyedSum OpenPosition.unrealized a.openPositions

def openCommissions (a : Analytics) : ℚ :=
  keyedSum (fun p : OpenPosition => p.openCommission) a.openPositions

def carried (a : Analytics) : ℚ := keyedSum OpenPosition.carried a.openPositions

/-- The profit of the closed trades. -/
def realized (a : Analytics) : ℚ := a.tradeReturns.sum

structure Balanced (balance : ℚ) (a : Analytics) : Prop where
  grid : ∀ symbol, OnGrid (a.position symbol).qty
  cash : a.cash + a.carried = balance + a.realized
  wins : a.realized = a.totalWin - a.totalLoss
  perSymbol : a.realized = keyedSum totalPnl a.perSymbol

theorem balanced_init (balance : ℚ) : Balanced balance (init balance) where
  grid := fun _ => onGrid_zero
  cash := by simp [init, carried, realized]
  wins := by simp [init, realized]
  perSymbol := by simp [init, realized]

theorem position_insert (symbol s : String) (p : OpenPosition) :
    (((a.openPositions.insert symbol p).lookup s).getD {}) =
      if s = symbol then p else a.position s := by
  split
  · next h =>
    subst h
    rw [AList.lookup_insert, Option.getD_some]
  · next h => rw [AList.lookup_insert_ne h, position]

theorem carried_insert (symbol : String) (p : OpenPosition) :
    keyedSum OpenPosition.carried (a.openPositions.insert symbol p) =
      a.carried + (p.carried - (a.position symbol).carried) :=
  keyedSum_insert_getD OpenPosition.carried a.openPositions symbol p
    (by simp [OpenPosition.carried])

/-- A mark only moves the last price. -/
theorem Balanced.mark (h : Balanced balance a) (symbol : String) (price : ℚ) :
    Balanced balance (a.mark symbol price) where
  grid := by
    intro s
    rw [position]
    simp only [Analytics.mark, position_insert]
    split
    · exact h.grid symbol
    · exact h.grid s
  cash := by
    have hcarried : (a.mark symbol price).carried = a.carried := by
      refine (carried_insert symbol _).trans ?_
      simp [OpenPosition.carried]
    rw [hcarried]
    exact h.cash
  wins := h.wins
  perSymbol := h.perSymbol

section

variable (p : OpenPosition)

/-- The closing leg of a fill, without the entry of the position. -/
theorem recordClose_realized : (a.recordClose f p).realized = a.realized + p.pnl f := by
  simp [recordClose, realized]

theorem recordClose_wins : (a.recordClose f p).totalWin - (a.recordClose f p).totalLoss =
      a.totalWin - a.totalLoss + p.pnl f := by
  simp only [recordClose]
  split
  · ring
  · next h =>
    rw [abs_of_nonpos (not_lt.1 h)]
    ring

theorem recordClose_perSymbol : keyedSum totalPnl (a.recordClose f p).perSymbol =
      keyedSum totalPnl a.perSymbol + p.pnl f := by
  refine (keyedSum_insert_getD totalPnl a.perSymbol f.symbol _
    (show ({} : SubAnalytics).totalPnl = 0 from rfl)).trans ?_
  simp [record]

/-- What the opening leg leaves of cash and the cost of the position. -/
theorem recordFill_cash (qtyLeft pnl : ℚ) (hsame : dust < qtyLeft → 0 ≤ p.qty * sideSign f.side) :
    (a.recordFill f p qtyLeft pnl).cash + (a.recordFill f p qtyLeft pnl).carried =
      a.cash + a.carried + (p.carried - (a.position f.symbol).carried) := by
  have hcarried : (a.recordFill f p qtyLeft pnl).carried = a.carried +
      ((if dust < qtyLeft then p.grow f qtyLeft else p).carried -
        (a.position f.symbol).carried) := by
    refine (carried_insert f.symbol _).trans ?_
    simp
  rw [hcarried]
  simp only [recordFill, decide_eq_true_eq]
  split
  · next hopens =>
    have hpos : 0 < qtyLeft := lt_trans (by norm_num [dust]) hopens
    have hgrow := grow_balance (hsame hopens) hpos
    linarith
  · ring

theorem recordFill_position (qtyLeft pnl : ℚ) (symbol : String) :
    (a.recordFill f p qtyLeft pnl).position symbol =
      if symbol = f.symbol then (if dust < qtyLeft then p.grow f qtyLeft else p)
      else a.position symbol := by
  rw [position]
  simp only [recordFill, position_insert, decide_eq_true_eq]

end

/-- On the grid a fill moves the position by its signed quantity. -/
theorem onFill_qty (hp : OnGrid (a.position f.symbol).qty) (hf : OnGrid f.filledQuantity)
    (hpos : 0 < f.filledQuantity) :
    ((a.onFill f).position f.symbol).qty =
      (a.position f.symbol).qty + sideSign f.side * f.filledQuantity := by
  have hmet : OnGrid (a.met f).qty := hp
  have hleft : OnGrid (f.filledQuantity - (a.met f).closeQty f) := by
    rw [closeQty]
    split
    · rcases min_choice |(a.met f).qty| f.filledQuantity with hmin | hmin <;> rw [hmin]
      · rcases abs_choice (a.met f).qty with habs | habs <;> rw [habs, sub_eq_add_neg]
        · exact hf.add hmet.neg
        · exact hf.add hmet.neg.neg
      · rw [sub_self]
        exact onGrid_zero
    · rw [sub_zero]
      exact hf
  have hopen (p : OpenPosition) (L : ℚ) (hL : OnGrid L) (hnonneg : 0 ≤ L) :
      (if dust < L then p.grow f L else p).qty = p.qty + sideSign f.side * L := by
    split
    · rfl
    · next hsmall =>
      rw [hL.eq_zero_of_abs (by rwa [abs_of_nonneg hnonneg]), mul_zero, add_zero]
  have hle : 0 ≤ f.filledQuantity - (a.met f).closeQty f := by
    rw [closeQty]
    split
    · exact sub_nonneg.2 (min_le_right _ _)
    · rw [sub_zero]
      exact hpos.le
  have hqty : (a.met f).qty = (a.position f.symbol).qty := rfl
  rw [onFill]
  split
  · rw [recordFill_position, if_pos rfl, hopen _ _ hleft hle, close_qty hmet hf, hqty]
    ring
  · next hcloses =>
    have hclose : (a.met f).closeQty f = 0 := if_neg hcloses
    rw [recordFill_position, if_pos rfl, hopen _ _ hleft hle, hclose, sub_zero, hqty]

theorem onFill_position_of_ne {symbol : String} (h : symbol ≠ f.symbol) :
    (a.onFill f).position symbol = a.position symbol := by
  rw [onFill]
  split
  · rw [recordFill_position, if_neg h]
    rfl
  · rw [recordFill_position, if_neg h]

/-- What a fill opens is on the side of what its closing leg leaves. -/
theorem close_same {p : OpenPosition} (hp : OnGrid p.qty) (hf : OnGrid f.filledQuantity)
    (h : p.closes f)
    (hleft : dust < f.filledQuantity - p.closeQty f) : 0 ≤ (p.close f).qty * sideSign f.side := by
  have hpos : p.closeQty f < f.filledQuantity := by
    have hdust : 0 < dust := by norm_num [dust]
    linarith
  have hall : p.closeQty f = |p.qty| := by
    rw [closeQty, if_pos h] at hpos ⊢
    exact min_eq_left (min_lt_iff.1 hpos |>.resolve_right (lt_irrefl _)).le
  have hzero : (p.close f).qty = 0 := by
    rw [close_qty hp hf, hall, abs_qty_of_closes h]
    linear_combination (-p.qty) * sideSign_mul_self f.side
  rw [hzero, zero_mul]

theorem Balanced.fill (h : Balanced balance a) (hpos : 0 < f.filledQuantity)
    (hf : OnGrid f.filledQuantity) : Balanced balance (a.onFill f) := by
  have hmet : OnGrid (a.met f).qty := h.grid f.symbol
  have hcarried : (a.met f).carried = (a.position f.symbol).carried := rfl
  have hgrid : ∀ symbol, OnGrid ((a.onFill f).position symbol).qty := by
    intro symbol
    by_cases hsymbol : symbol = f.symbol
    · subst hsymbol
      rw [onFill_qty (h.grid _) hf hpos]
      refine (h.grid _).add ?_
      cases f.side <;> simp only [OpenPosition.sideSign]
      · rwa [one_mul]
      · rw [neg_one_mul]
        exact hf.neg
    · rw [onFill_position_of_ne hsymbol]
      exact h.grid symbol
  set p := a.met f
  by_cases hcloses : p.closes f
  · have hfill : a.onFill f =
        (a.recordClose f p).recordFill f (p.close f) (f.filledQuantity - p.closeQty f) (p.pnl f) :=
      if_pos hcloses
    have hopened := recordFill_cash (a := a.recordClose f p) (f := f) (p.close f)
      (f.filledQuantity - p.closeQty f) (p.pnl f) (close_same hmet hf hcloses)
    have hclosed := OpenPosition.close_balance hmet hf hcloses
    have hcash : (a.recordClose f p).cash = a.cash +
        (-OpenPosition.sideSign f.side * p.closeQty f * f.fillPrice - p.closeCommission f) := rfl
    have hbefore : (a.recordClose f p).carried = a.carried := rfl
    have hposition : (a.recordClose f p).position f.symbol = a.position f.symbol := rfl
    refine ⟨hgrid, ?_, ?_, ?_⟩ <;> rw [hfill]
    · have hrealized : ((a.recordClose f p).recordFill f (p.close f)
          (f.filledQuantity - p.closeQty f) (p.pnl f)).realized = a.realized + p.pnl f :=
        recordClose_realized p
      rw [hopened, hrealized, hcash, hbefore, hposition]
      have hbalance := h.cash
      rw [hcarried] at hclosed
      linarith
    · refine (recordClose_realized p).trans ?_
      rw [h.wins]
      exact (recordClose_wins p).symm
    · refine (recordClose_realized p).trans ?_
      rw [h.perSymbol]
      exact (recordClose_perSymbol p).symm
  · have hfill : a.onFill f = a.recordFill f p (f.filledQuantity - p.closeQty f) 0 := if_neg hcloses
    -- A fill that closes nothing meets no position against it.
    have hsame : 0 ≤ p.qty * OpenPosition.sideSign f.side := by
      by_contra hneg
      by_cases hsmall : dust < |p.qty|
      · exact hcloses (decide_eq_true ⟨hsmall, not_le.1 hneg⟩)
      · rw [hmet.eq_zero_of_abs hsmall, zero_mul] at hneg
        exact hneg le_rfl
    have hopened :=
      recordFill_cash (a := a) (f := f) p (f.filledQuantity - p.closeQty f) 0 fun _ => hsame
    refine ⟨hgrid, ?_, ?_, ?_⟩ <;> rw [hfill]
    · rw [hopened, hcarried, sub_self, add_zero]
      exact h.cash
    · exact h.wins
    · exact h.perSymbol

theorem Balanced.onEvent (h : Balanced balance a) (ev : AnalyticsEvent)
    (hev : Regular ev) : Balanced balance (a.onEvent ev) := by
  cases ev with
  | market m =>
    have hmark := h.mark m.symbol m.close
    exact ⟨hmark.grid, hmark.cash, hmark.wins, hmark.perSymbol⟩
  | tick t => exact h.mark t.symbol t.price
  | order => exact ⟨h.grid, h.cash, h.wins, h.perSymbol⟩
  | fill f => exact h.fill hev.1 hev.2

/-- Cost, unrealized profit and marks are three views of the open quantities. -/
theorem markValue_eq (a : Analytics) :
    a.markValue = a.unrealized + (a.carried - a.openCommissions) := by
  have hsplit : a.markValue + a.openCommissions = a.unrealized + a.carried := by
    rw [markValue, openCommissions, unrealized, carried, ← keyedSum_add, ← keyedSum_add]
    refine keyedSum_congr _ _ _ fun x _ => ?_
    simp only [OpenPosition.unrealized, OpenPosition.carried]
    ring
  linarith

def runEvents (balance : ℚ) (events : List AnalyticsEvent) : Analytics :=
  events.foldl onEvent (init balance)

theorem balanced_runEvents (balance : ℚ) {events : List AnalyticsEvent}
    (h : ∀ ev ∈ events, Regular ev) : Balanced balance (runEvents balance events) := by
  induction events using List.reverseRecOn with
  | nil => exact balanced_init balance
  | append_singleton events ev ih =>
    rw [List.forall_mem_append] at h
    rw [runEvents, List.foldl_append]
    exact (ih h.1).onEvent ev (h.2 ev (List.mem_singleton.2 rfl))

/-- The price at which an event leaves a symbol. -/
def told (symbol : String) (last : ℚ) : AnalyticsEvent → ℚ
  | .market m => if m.symbol = symbol then m.close else last
  | .tick t => if t.symbol = symbol then t.price else last
  | .fill f => if f.symbol = symbol then f.fillPrice else last
  | .order => last

/-- Positions are marked at the last price of their symbol. -/
theorem lastPrice_runEvents (balance : ℚ) (events : List AnalyticsEvent) (symbol : String) :
    ((runEvents balance events).position symbol).lastPrice = events.foldl (told symbol) 0 := by
  induction events using List.reverseRecOn with
  | nil => rfl
  | append_singleton events ev ih =>
    rw [runEvents, List.foldl_append, List.foldl_append, ← ih]
    show ((onEvent (runEvents balance events) ev).position symbol).lastPrice =
      told symbol ((runEvents balance events).position symbol).lastPrice ev
    generalize runEvents balance events = a
    have hinsert :
        ∀ s (p : OpenPosition), (((a.openPositions.insert s p).lookup symbol).getD {}).lastPrice =
        if s = symbol then p.lastPrice else (a.position symbol).lastPrice := by
      intro s p
      split
      · next hs => rw [hs, AList.lookup_insert]; rfl
      · next hs => rw [AList.lookup_insert_ne (Ne.symm hs)]; rfl
    cases ev with
    | market m => exact hinsert _ _
    | tick t => exact hinsert _ _
    | order => rfl
    | fill f =>
      have hclose : ((a.met f).close f).lastPrice = f.fillPrice := by
        rw [OpenPosition.close]
        split <;> rfl
      rw [onEvent, onFill]
      split <;> exact (hinsert _ _).trans
        (if_congr Iff.rfl (by split <;> first | rfl | exact hclose) rfl)

/-- **Analytics' books balance** after every sequence of events with fills on the grid: cash and
marks are the initial balance, the realized and the unrealized profit, less the commissions of what
is open; and the realized profit is what the wins and losses and what the symbols add up to. -/
theorem analytics_balance (balance : ℚ) (events : List AnalyticsEvent)
    (h : ∀ ev ∈ events, Regular ev) :
    let a := runEvents balance events
    a.cash + a.markValue = balance + a.realized + a.unrealized - a.openCommissions ∧
      a.realized = a.totalWin - a.totalLoss ∧
      a.realized = keyedSum totalPnl a.perSymbol := by
  intro a
  have hbalanced : Balanced balance a := balanced_runEvents balance h
  refine ⟨?_, hbalanced.wins, hbalanced.perSymbol⟩
  have hcash := hbalanced.cash
  rw [markValue_eq]
  linarith

/-- One unit bought, two sold, with commissions: a close, a flip and an open commission. -/
def flipEvents : List AnalyticsEvent :=
  [.fill { boughtAt100 with commission := 1 / 10 }, .market ⟨1, "X", 100, 106, 99, 105, 7⟩,
    .fill { boughtAt100 with
      side := .sell, filledQuantity := 2, fillPrice := 104, commission := 1 / 5 },
    .tick ⟨3, "X", 101, 1, .ask⟩]

theorem flipEvents_regular : ∀ ev ∈ flipEvents, Regular ev := by
  have hone : OnGrid 1 := ⟨10 ^ 8, by norm_num⟩
  have htwo : OnGrid 2 := ⟨2 * 10 ^ 8, by norm_num⟩
  simp [flipEvents, Regular, boughtAt100, hone, htwo]

theorem analytics_balance_of_flip :
    let a := runEvents 10000 flipEvents
    (∀ ev ∈ flipEvents, Regular ev) ∧
      (a.cash + a.markValue = 10000 + a.realized + a.unrealized - a.openCommissions ∧
        a.realized = a.totalWin - a.totalLoss ∧
        a.realized = keyedSum totalPnl a.perSymbol) ∧
      a.realized = 38 / 10 ∧ a.unrealized = 3 ∧ a.openCommissions = 1 / 10 :=
  ⟨flipEvents_regular, analytics_balance 10000 flipEvents flipEvents_regular,
    by decide +kernel, by decide +kernel, by decide +kernel⟩

end Analytics

end TrueTest
