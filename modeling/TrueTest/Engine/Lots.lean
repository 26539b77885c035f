import TrueTest.Engine.Exposure

/-!
# Lots and positions

The portfolio keeps two ledgers of the same fills: the netted position of each symbol, and a lot for
each opener. A fill always moves the position. It moves a lot only if it names an opener, and a fill
that closes takes no more from a lot than the lot has. A checkpoint restores the positions and no
lots.

So the open lots of a symbol add up to its position exactly as long as every fill is `Attributed`.
The engine attributes the fills of the orders it registers (`opener_of_registered`); those of
`unwind_positions` name no opener.
-/

namespace TrueTest

open Machine Portfolio Desk

/-! ## Sums over a table -/

section EntrySum

variable {β : Type}

/-- The sum of a quantity over the entries of a table. -/
def entrySum (v : β → ℚ) (t : AList fun _ : Nat => β) : ℚ := (t.entries.map fun x => v x.2).sum

variable (v : β → ℚ) (t : AList fun _ : Nat => β) (k : Nat)

theorem entrySum_insert (b : β) : entrySum v (t.insert k b) = v b + entrySum v (t.erase k) :=
  KeyedSum.keyedSum_insert_erase v t k b

theorem entrySum_erase : entrySum v (t.erase k) = entrySum v t - ((t.lookup k).map v).getD 0 :=
  KeyedSum.keyedSum_erase v t k

end EntrySum

/-! ## The two ledgers -/

theorem OrderSide.toward_neg (s : OrderSide) (q : ℚ) : s.toward (-q) = -s.toward q := by
  cases s <;> rfl

theorem OrderSide.toward_toward (s : OrderSide) (q : ℚ) : s.toward (s.toward q) = q := by
  cases s
  · rfl
  · exact neg_neg q

variable {q : ℚ} (p : Portfolio)

theorem OrderSide.toward_eq_zero {s : OrderSide} : s.toward q = 0 ↔ q = 0 := by
  cases s <;> simp [toward]

/-- Signed amounts agree in the amount and, unless it is zero, in the side. -/
theorem OrderSide.toward_eq_iff {s t : OrderSide} {x y : ℚ} (hx : 0 ≤ x) (hy : 0 ≤ y) :
    s.toward x = t.toward y ↔ x = y ∧ (s = t ∨ x = 0) := by
  cases s <;> cases t <;> simp [toward] <;> constructor <;> intro h <;> grind

theorem OrderSide.toward_neg_eq_iff {s t : OrderSide} {x y : ℚ} (hx : 0 ≤ x) (hy : 0 ≤ y) :
    s.toward (-x) = t.toward y ↔ x = y ∧ (s ≠ t ∨ x = 0) := by
  cases s <;> cases t <;> simp [toward] <;> constructor <;> intro h <;> grind

theorem OnGrid.toward (h : OnGrid q) (s : OrderSide) : OnGrid (s.toward q) := by
  cases s
  · exact h
  · exact h.neg

/-- On the grid the tolerance only catches what is not positive. -/
theorem OnGrid.lt_dust_iff (h : OnGrid q) : q < dust ↔ q ≤ 0 := by
  constructor
  · intro hlt
    by_contra hpos
    exact absurd hlt (not_lt.2 (h.dust_lt (not_le.1 hpos)).le)
  · intro hle
    exact hle.trans_lt ExitManager.dust_pos

/-- What a checkpoint file holds of a portfolio. -/
structure Checkpoint where
  cash : ℚ
  totalTrades : Nat
  positions : AList fun _ : String => Position

namespace Portfolio

def restoreState (c : Checkpoint) : Portfolio :=
  { p with cash := c.cash, totalTrades := c.totalTrades, positions := c.positions }

/-- The portfolio of a new engine, which may resume from a checkpoint. -/
def opened (balance : ℚ) : Option Checkpoint → Portfolio
  | none => init balance
  | some c => (init balance).restoreState c

/-- What a lot has open, signed, if it is one of the symbol. -/
def lotQty (symbol : String) (l : Lot) : ℚ :=
  if l.symbol = symbol then l.side.toward l.qtyOpen else 0

def openLots (symbol : String) : ℚ := entrySum (lotQty symbol) p.lots

/-- The open lots of every symbol add up to its position. -/
def Reconciled : Prop := ∀ symbol, p.openLots symbol = (p.position symbol).qty

/-- A fill as the portfolio of the engine takes it. -/
def bookStep (f : FillEvent) : Unit × Portfolio := ((), book p f)

/-- The fill opens or grows the lot of its own order, or it closes a part of another order's lot, on
the other side. -/
def Attributed (f : FillEvent) : Prop :=
  f.filledQuantity = 0 ∨ f.openerOrderId ≠ 0 ∧
    match p.lots.lookup f.openerOrderId with
    | none => f.openerOrderId = f.orderId
    | some l => l.symbol = f.symbol ∧
      if f.openerOrderId = f.orderId then l.side = f.side
      else l.side ≠ f.side ∧ f.filledQuantity ≤ l.qtyOpen

instance (f : FillEvent) : Decidable (p.Attributed f) := by
  rw [Attributed]
  cases p.lots.lookup f.openerOrderId <;> infer_instance

/-! ## One fill -/

/-- The symbol whose open lots a fill changes, and by how much. -/
def lotChange (f : FillEvent) : String × ℚ :=
  if f.openerOrderId = 0 then (f.symbol, 0)
  else match p.lots.lookup f.openerOrderId with
    | none => (f.symbol, if f.openerOrderId = f.orderId then f.side.toward f.filledQuantity else 0)
    | some l => (l.symbol, l.side.toward
        (if f.openerOrderId = f.orderId then f.filledQuantity
        else if l.qtyOpen - f.filledQuantity < dust then -l.qtyOpen else -f.filledQuantity))

variable {p q : Portfolio} {f : FillEvent} {l l' : Lot} {k : Nat}

/-- A lot with another open quantity. -/
theorem lotQty_update (l l' : Lot) (hsymbol : l'.symbol = l.symbol) (hside : l'.side = l.side)
    {d : ℚ} (hqty : l'.qtyOpen = l.qtyOpen + d) (symbol : String) :
    lotQty symbol l' = lotQty symbol l + if l.symbol = symbol then l.side.toward d else 0 := by
  rw [lotQty, lotQty, hsymbol, hside, hqty]
  split
  · rw [OrderSide.toward_add]
  · rw [add_zero]

theorem openLots_insert (hlots : q.lots = p.lots.insert k l') (symbol : String) :
    q.openLots symbol =
      p.openLots symbol + (lotQty symbol l' - ((p.lots.lookup k).map (lotQty symbol)).getD 0) := by
  rw [openLots, hlots, entrySum_insert, entrySum_erase, openLots]
  ring

theorem openLots_of_same (hlots : q.lots = p.lots) (symbol : String) :
    q.openLots symbol = p.openLots symbol + if f.symbol = symbol then 0 else 0 := by
  rw [openLots, hlots, openLots, ite_self, add_zero]

theorem book_lots_of_unnamed (h : f.openerOrderId = 0) : (book p f).lots = p.lots := by
  rw [book, onFill, if_neg (not_not.2 h)]
  rfl

theorem book_lots_of_none (h : f.openerOrderId ≠ 0) (hlook : p.lots.lookup f.openerOrderId = none) :
    (book p f).lots = if f.openerOrderId = f.orderId then
      p.lots.insert f.openerOrderId (newLot f f.strategyName) else p.lots := by
  rw [book, onFill, if_pos h, applyLotFill]
  split
  · split <;> rfl
  · next hsome => cases hlook.symm.trans hsome

theorem book_lots_of_some (h : f.openerOrderId ≠ 0)
    (hlook : p.lots.lookup f.openerOrderId = some l) :
    (book p f).lots = if f.openerOrderId = f.orderId then
        p.lots.insert f.openerOrderId (growLot f l)
      else if l.qtyOpen - f.filledQuantity < dust then p.lots.erase f.openerOrderId
      else p.lots.insert f.openerOrderId { l with qtyOpen := l.qtyOpen - f.filledQuantity } := by
  rw [book, onFill, if_pos h, applyLotFill]
  split
  · next hnone => cases hlook.symm.trans hnone
  · next l' hsome =>
    obtain rfl : l = l' := Option.some.inj (hlook.symm.trans hsome)
    split_ifs <;> rfl

theorem openLots_book (symbol : String) : (book p f).openLots symbol =
    p.openLots symbol + if (lotChange p f).1 = symbol then (lotChange p f).2 else 0 := by
  by_cases hopener : f.openerOrderId = 0
  · rw [lotChange, if_pos hopener]
    exact openLots_of_same (book_lots_of_unnamed hopener) symbol
  cases hlook : p.lots.lookup f.openerOrderId with
  | none =>
    have hlots := book_lots_of_none hopener hlook
    rw [lotChange, if_neg hopener, hlook]
    by_cases hown : f.openerOrderId = f.orderId
    · rw [if_pos hown] at hlots
      rw [openLots_insert hlots, hlook]
      simp only [if_pos hown, Option.map_none, Option.getD_none, sub_zero]
      rfl
    · rw [if_neg hown] at hlots
      simp only [if_neg hown]
      exact openLots_of_same hlots symbol
  | some l =>
    have hlots := book_lots_of_some hopener hlook
    rw [lotChange, if_neg hopener, hlook]
    simp only
    by_cases hown : f.openerOrderId = f.orderId
    · rw [if_pos hown] at hlots ⊢
      rw [openLots_insert hlots, hlook, lotQty_update l (growLot f l) rfl rfl rfl]
      simp
    · rw [if_neg hown] at hlots ⊢
      by_cases hdone : l.qtyOpen - f.filledQuantity < dust
      · rw [if_pos hdone] at hlots ⊢
        rw [openLots, hlots, entrySum_erase, hlook, openLots, sub_eq_add_neg]
        have hneg :
            -lotQty symbol l = if l.symbol = symbol then l.side.toward (-l.qtyOpen) else 0 := by
          rw [lotQty]
          split
          · rw [OrderSide.toward_neg]
          · exact neg_zero
        simp [hneg]
      · rw [if_neg hdone] at hlots ⊢
        rw [openLots_insert hlots, hlook, lotQty_update l
          { l with qtyOpen := l.qtyOpen - f.filledQuantity } rfl rfl (sub_eq_add_neg _ _)]
        simp

/-- All quantities are on the grid, and no lot is open for less than nothing. -/
structure Gridded (p : Portfolio) : Prop where
  positions : ∀ symbol, OnGrid (p.position symbol).qty
  lots : ∀ id l, p.lots.lookup id = some l → OnGrid l.qtyOpen ∧ 0 ≤ l.qtyOpen

theorem Gridded.lots_insert (hp : p.Gridded) (hlots : q.lots = p.lots.insert k l')
    (hl' : OnGrid l'.qtyOpen ∧ 0 ≤ l'.qtyOpen) {id : Nat} (hl : q.lots.lookup id = some l) :
    OnGrid l.qtyOpen ∧ 0 ≤ l.qtyOpen := by
  rw [hlots] at hl
  exact AList.forall_lookup_insert (P := fun _ l => OnGrid l.qtyOpen ∧ 0 ≤ l.qtyOpen)
    hl' hp.lots id l hl

/-- Two amounts at two symbols are the same everywhere. -/
theorem forall_ite_eq_iff {a b : String} {x y : ℚ} :
    (∀ symbol, (if a = symbol then x else 0) = if b = symbol then y else 0) ↔
    x = y ∧ (a = b ∨ x = 0) := by
  constructor
  · intro h
    have ha := h a
    have hb := h b
    rw [if_pos rfl] at ha hb
    by_cases hab : a = b
    · rw [if_pos hab.symm] at ha
      exact ⟨ha, .inl hab⟩
    · rw [if_neg (Ne.symm hab)] at ha
      rw [if_neg hab] at hb
      exact ⟨ha.trans hb, .inr ha⟩
  · rintro ⟨rfl, rfl | rfl⟩ symbol
    · rfl
    · rw [ite_self, ite_self]

section Step

variable (hp : p.Gridded) (hf : OnGrid f.filledQuantity) (hq : 0 ≤ f.filledQuantity)

include hp hf

theorem position_book (symbol : String) : ((book p f).position symbol).qty =
    (p.position symbol).qty + if f.symbol = symbol then f.side.toward f.filledQuantity else 0 := by
  by_cases hsymbol : f.symbol = symbol
  · subst hsymbol
    rw [if_pos rfl, book, onFill_position_self]
    have hgrid := (hp.positions f.symbol).toward f.side
    have hsum := hgrid.add hf
    have hadds :
        f.side.toward (Netting.apply f ⟨p.cash, p.position f.symbol, p.totalTrades⟩).pos.qty =
        f.side.toward (p.position f.symbol).qty + f.filledQuantity := by
      rcases Netting.apply_toward f ⟨p.cash, p.position f.symbol, p.totalTrades⟩
        with h | ⟨-, hzero, hdust⟩
      · exact h
      · rw [hzero]
        obtain ⟨hlow, hhigh⟩ := abs_lt.1 hdust
        have hle := hsum.lt_dust_iff.1 hhigh
        have hge := hsum.neg.lt_dust_iff.1 (by linarith)
        linarith
    rw [← f.side.toward_toward (Netting.apply f _).pos.qty, hadds, OrderSide.toward_add,
      OrderSide.toward_toward]
  · rw [if_neg hsymbol, add_zero, book, onFill_position_of_ne _ _ _ _ (Ne.symm hsymbol)]

include hq

theorem Gridded.book : (book p f).Gridded := by
  refine ⟨fun symbol => ?_, fun id l hl => ?_⟩
  · rw [position_book hp hf]
    split
    · exact (hp.positions symbol).add (hf.toward f.side)
    · exact (hp.positions symbol).add onGrid_zero
  · by_cases hopener : f.openerOrderId = 0
    · rw [book_lots_of_unnamed hopener] at hl
      exact hp.lots id l hl
    cases hlook : p.lots.lookup f.openerOrderId with
    | none =>
      have hlots := book_lots_of_none hopener hlook
      split_ifs at hlots
      · exact hp.lots_insert hlots ⟨hf, hq⟩ hl
      · exact hp.lots id l (hlots ▸ hl)
    | some l₀ =>
      have hlots := book_lots_of_some hopener hlook
      obtain ⟨hgrid, hnonneg⟩ := hp.lots _ l₀ hlook
      split_ifs at hlots with hown hdone
      · exact hp.lots_insert hlots ⟨hgrid.add hf, add_nonneg hnonneg hq⟩ hl
      · rw [hlots] at hl
        exact hp.lots id l (AList.lookup_of_lookup_erase hl).2
      · have hleft := ExitManager.dust_pos.le.trans (not_lt.1 hdone)
        refine hp.lots_insert hlots ⟨?_, hleft⟩ hl
        have hsub := hgrid.add hf.neg
        rwa [← sub_eq_add_neg] at hsub

/-- **One fill keeps the ledgers together exactly if it is attributed.** -/
theorem reconciled_book_iff (h : p.Reconciled) : (book p f).Reconciled ↔ p.Attributed f := by
  have hchange : (book p f).Reconciled ↔ (lotChange p f).2 = f.side.toward f.filledQuantity ∧
      ((lotChange p f).1 = f.symbol ∨ (lotChange p f).2 = 0) := by
    rw [Reconciled, ← forall_ite_eq_iff]
    refine forall_congr' fun symbol => ?_
    rw [openLots_book, position_book hp hf, h symbol, add_right_inj]
  rw [hchange, lotChange, Attributed]
  by_cases hopener : f.openerOrderId = 0
  · simp [hopener, eq_comm (a := (0 : ℚ)), OrderSide.toward_eq_zero]
  rw [if_neg hopener]
  cases hlook : p.lots.lookup f.openerOrderId with
  | none =>
    by_cases hown : f.openerOrderId = f.orderId
    · simp only [if_pos hown]
      exact iff_of_true ⟨trivial, .inl trivial⟩ (.inr ⟨hopener, hown⟩)
    · simp [hown, eq_comm (a := (0 : ℚ)), OrderSide.toward_eq_zero]
  | some l =>
    obtain ⟨hgrid, hnonneg⟩ := hp.lots _ l hlook
    by_cases hown : f.openerOrderId = f.orderId
    · simp only [if_pos hown, OrderSide.toward_eq_iff hq hq, OrderSide.toward_eq_zero]
      grind
    · simp only [if_neg hown]
      have hdone : l.qtyOpen - f.filledQuantity < dust ↔ l.qtyOpen ≤ f.filledQuantity := by
        rw [sub_eq_add_neg, (hgrid.add hf.neg).lt_dust_iff, ← sub_eq_add_neg, sub_nonpos]
      by_cases hall : l.qtyOpen ≤ f.filledQuantity
      · rw [if_pos (hdone.2 hall), OrderSide.toward_neg_eq_iff hnonneg hq, OrderSide.toward_eq_zero,
          neg_eq_zero]
        have heq : l.qtyOpen = f.filledQuantity ↔ f.filledQuantity ≤ l.qtyOpen :=
          ⟨fun h => h.ge, fun h => le_antisymm hall h⟩
        grind
      · rw [if_neg (mt hdone.1 hall), OrderSide.toward_neg_eq_iff hq hq, OrderSide.toward_eq_zero,
          neg_eq_zero]
        have hle := (not_le.1 hall).le
        grind

end Step

/-- A new portfolio has no lots. -/
theorem reconciled_opened_iff (balance : ℚ) (checkpoint : Option Checkpoint) :
    (opened balance checkpoint).Reconciled ↔
    ∀ symbol, ((opened balance checkpoint).position symbol).qty = 0 := by
  have hnone : ∀ symbol, (opened balance checkpoint).openLots symbol = 0 := by
    cases checkpoint <;> exact fun _ => rfl
  refine forall_congr' fun symbol => ?_
  rw [hnone]
  exact eq_comm

theorem gridded_opened {balance : ℚ} {checkpoint : Option Checkpoint}
    (h : ∀ symbol, OnGrid ((opened balance checkpoint).position symbol).qty) :
    (opened balance checkpoint).Gridded := by
  refine ⟨h, fun id l hl => ?_⟩
  cases checkpoint <;> cases hl

end Portfolio

/-! ## Runs of the engine -/

namespace Engine

def portfolioFills (e : Engine) : List FillEvent := bookedFills (deskCalls e.acts)

/-- A fill of an order that the engine has registered is attributed to its opener. -/
theorem opener_of_registered (e : Engine) {o : OrderEvent} {f : FillEvent}
    (hid : f.orderId = o.orderId)
    (hnone : f.openerOrderId = 0) : ((e.registerOrderMeta o).stampFillAttribution f).openerOrderId =
      if o.openerOrderId ≠ 0 then o.openerOrderId else o.orderId := by
  rw [stampFillAttribution, if_pos hnone, lookupOpener, registerOrderMeta, hid, AList.lookup_insert]
  rfl

/-- **In a run of the engine the open lots add up to the positions all along exactly if it did not
resume with a position and every fill was attributed**, to a lot of its own or to a large enough one
on the other side. -/
theorem lots_reconciled_iff (config : EngineConfig) (ops : List Op) (balance : ℚ)
    (checkpoint : Option Checkpoint)
    (hfills : ∀ f ∈ (final step (init config) ops).portfolioFills,
      OnGrid f.filledQuantity ∧ 0 ≤ f.filledQuantity) :
    let start := opened balance checkpoint
    let fills := (final step (init config) ops).portfolioFills
    (∀ p ∈ states bookStep start fills, p.Reconciled) ↔
      (∀ symbol, (start.position symbol).qty = 0) ∧ Along bookStep Attributed start fills := by
  intro start fills
  have hrun : start.Reconciled → ((∀ p ∈ states bookStep start fills, p.Reconciled) ↔
      Along bookStep Attributed start fills) := fun hstart => by
    -- Without lots to begin with, the positions are zero and hence on the grid.
    have hgrid : start.Gridded := gridded_opened fun symbol => by
      rw [(reconciled_opened_iff balance checkpoint).1 hstart symbol]
      exact onGrid_zero
    exact forall_states_iff_along (I := Gridded) (fun p f hp hf => hp.book hf.1 hf.2)
      (fun p f hp hf h => reconciled_book_iff hp hf.1 hf.2 h) hgrid hfills hstart
  rw [← reconciled_opened_iff]
  constructor
  · intro h
    have hstart := h start (start_mem_states _ _)
    exact ⟨hstart, (hrun hstart).1 h⟩
  · rintro ⟨hstart, halong⟩
    exact (hrun hstart).2 halong

/-- An order is filled in two parts, and two closes take the lot back. -/
def lotsRun : List Op :=
  [.startWorkers,
    routed (limitOrder 0 .buy 10 100) [filled 1 0 .buy 4 99 1, filled 1 0 .buy 6 100 2],
    routed { limitOrder 0 .sell 3 100 with openerOrderId := 1 } [filled 2 0 .sell 3 100 3],
    routed { limitOrder 0 .sell 7 100 with openerOrderId := 1 } [filled 3 0 .sell 7 100 4]]

theorem onGrid_natCast (n : Nat) : OnGrid n := ⟨n * 10 ^ 8, by push_cast; field_simp; norm_num⟩

theorem lots_reconciled_of_lotsRun :
    let fills := (final step (init plainExits) lotsRun).portfolioFills
    fills.map (fun f => (f.openerOrderId, f.signedQty)) = [(1, 4), (1, 6), (1, -3), (1, -7)] ∧
      ∀ p ∈ states bookStep (opened 1000 none) fills, p.Reconciled := by
  intro fills
  have hqty : ∀ f ∈ fills, ∃ n ∈ [3, 4, 6, 7], f.filledQuantity = (n : Nat) := by decide +kernel
  have hgrid : ∀ f ∈ fills, OnGrid f.filledQuantity ∧ 0 ≤ f.filledQuantity := by
    intro f hf
    obtain ⟨n, -, hn⟩ := hqty f hf
    rw [hn]
    exact ⟨onGrid_natCast n, Nat.cast_nonneg n⟩
  exact ⟨by decide +kernel, (lots_reconciled_iff plainExits lotsRun 1000 none hgrid).2
    ⟨fun _ => rfl, by decide +kernel⟩⟩

theorem dust_le_ten : dust ≤ |(10 : ℚ)| := by norm_num [dust]

/-- A position is opened, and the operator flattens it. -/
def flattenRun : List Op :=
  [.startWorkers, routed (limitOrder 0 .buy 10 100) [filled 1 0 .buy 10 100 1], .requestFlatten,
    .beginEvent
      [{ now := 1, symbol := "BTC", qty := 10, price := 100, nonflat := dust_le_ten
         dropped := false, results := []
         fills := [(handed (filled 2 1 .sell 10 100 2).bare).delivery] }]]

/-- A close is larger than the lot. -/
def overcloseRun : List Op :=
  [.startWorkers, routed (limitOrder 0 .buy 10 100) [filled 1 0 .buy 10 100 1],
    routed { limitOrder 0 .sell 15 100 with openerOrderId := 1 } [filled 2 0 .sell 15 100 2]]

/-- The operator flattens a position, a close is larger than its lot, or the engine resumes with a
position: the lots then say 10, nothing and nothing. -/
theorem lots_ne_position :
    let after := fun ops checkpoint => final bookStep (opened 1000 checkpoint)
      (final step (init plainExits) ops).portfolioFills
    let ledgers := fun (p : Portfolio) => (p.openLots "BTC", (p.position "BTC").qty)
    let resumed : Checkpoint :=
      ⟨500, 0, (∅ : AList fun _ : String => Position).insert "BTC" ⟨5, 500⟩⟩
    ledgers (after flattenRun none) = (10, 0) ∧ ledgers (after overcloseRun none) = (0, -5) ∧
      ledgers (after [] (some resumed)) = (0, 5) ∧
      ledgers (after [.startWorkers, routed (limitOrder 0 .buy 10 100) [filled 1 0 .buy 10 100 1]]
        (some resumed)) = (10, 15) := by
  refine ⟨?_, ?_, ?_, ?_⟩ <;> decide +kernel

end Engine

end TrueTest
