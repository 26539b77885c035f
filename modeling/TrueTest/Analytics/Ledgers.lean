import TrueTest.Analytics.Accounts
import TrueTest.Backtest.Effects

/-!
# The two ledgers

The engine keeps cash and quantities twice: in the portfolio and in its analytics.
`handle_engine_fill` passes every fill to both. `publish_event` passes a funding payment to the
portfolio; in inline mode it returns then, and nothing else passes it to analytics.

A fill is netted by different code on the two sides. Both close what they can and open the rest, and
both have a tolerance, but not at the same places: the portfolio nets against a position however
small and opens what is not below the tolerance, analytics net against what is above the tolerance
and open what is above it, and the portfolio takes no commission from a fill within it. `SameNet`
says for which fills none of this matters.
-/

namespace TrueTest

open Machine OpenPosition Analytics

/-! ## The portfolio's side -/

namespace Netting

variable (f : FillEvent) (n : Netting)

/-- The quantity that the closing leg leaves. -/
def leftOpen (f : FillEvent) (q c : ℚ) : ℚ :=
  if |q + sideSign f.side * c| < dust then 0 else q + sideSign f.side * c

/-- Cash after a leg of the fill. -/
def afterLeg (f : FillEvent) (cash qty commission : ℚ) : ℚ :=
  cash - sideSign f.side * qty * f.fillPrice - commission

/-- Both sides of a fill are netted by one rule. -/
theorem apply_of_opposite (h : n.pos.qty * sideSign f.side < 0) :
    let c := min |n.pos.qty| f.filledQuantity
    let left := f.filledQuantity - c
    let cash := afterLeg f n.cash c (f.commFor c)
    ((n.apply f).cash, (n.apply f).pos.qty) =
      if left < dust then (cash, leftOpen f n.pos.qty c)
      else (afterLeg f cash left (f.commFor left),
        leftOpen f n.pos.qty c + sideSign f.side * left) := by
  intro c left cash
  cases hside : f.side with
  | buy =>
    simp only [hside, sideSign, mul_one] at h
    have habs : |n.pos.qty| = -n.pos.qty := abs_of_neg h
    have hc : min f.filledQuantity (-n.pos.qty) = c := by
      rw [min_comm, ← habs]
    have hcover : ((n.coverShort f c).cash, (n.coverShort f c).pos.qty) =
        (cash, leftOpen f n.pos.qty c) := by
      rw [coverShort]
      simp only [leftOpen, cash, afterLeg, hside, sideSign, one_mul]
      split <;> simp [sub_sub]
    simp only [Prod.mk.injEq] at hcover
    simp only [apply, hside, applyBuy, if_pos h, hc]
    split
    · rw [hcover.1, hcover.2]
    · simp only [openLong, hcover.1, hcover.2, afterLeg, hside, sideSign, one_mul, sub_sub]
      rfl
  | sell =>
    simp only [hside, sideSign, mul_neg, mul_one, neg_lt_zero] at h
    have habs : |n.pos.qty| = n.pos.qty := abs_of_pos h
    have hc : min f.filledQuantity n.pos.qty = c := by
      rw [min_comm, ← habs]
    have hnonneg : 0 ≤ n.pos.qty - c := sub_nonneg.2 ((min_le_left _ _).trans habs.le)
    have hclose :
        ((n.closeLong f c).cash, (n.closeLong f c).pos.qty) = (cash, leftOpen f n.pos.qty c) := by
      have hqty : n.pos.qty + -1 * c = n.pos.qty - c := by ring
      rw [closeLong]
      simp only [leftOpen, cash, afterLeg, hside, sideSign, hqty, abs_of_nonneg hnonneg]
      split <;> simp <;> ring
    simp only [Prod.mk.injEq] at hclose
    simp only [apply, hside, applySell, if_pos h, hc]
    split
    · rw [hclose.1, hclose.2]
    · simp only [openShort, hclose.1, hclose.2, afterLeg, hside, sideSign, Prod.mk.injEq]
      constructor <;> ring

theorem apply_of_same (h : ¬ n.pos.qty * sideSign f.side < 0) :
    ((n.apply f).cash, (n.apply f).pos.qty) =
      (afterLeg f n.cash f.filledQuantity (f.commFor f.filledQuantity),
        n.pos.qty + sideSign f.side * f.filledQuantity) := by
  cases hside : f.side with
  | buy =>
    simp only [hside, sideSign, mul_one] at h
    simp [apply, hside, applyBuy, if_neg h, openLong, afterLeg, sideSign, sub_sub]
  | sell =>
    simp only [hside, sideSign, mul_neg, mul_one, neg_lt_zero] at h
    simp only [apply, hside, applySell, if_neg h, openShort, afterLeg, sideSign, Prod.mk.injEq]
    constructor <;> ring

end Netting

/-! ## Analytics' side -/

namespace Analytics

open Netting

variable {a : Analytics} {f : FillEvent}

/-- Cash and the quantity of a symbol. -/
def balanceOf (a : Analytics) (symbol : String) : ℚ × ℚ := (a.cash, (a.position symbol).qty)

theorem onFill_of_closes (h : (a.met f).closes f) : let q := (a.position f.symbol).qty
    let c := min |q| f.filledQuantity
    let left := f.filledQuantity - c
    let cash := afterLeg f a.cash c (f.commission * (c / f.filledQuantity))
    (a.onFill f).balanceOf f.symbol =
      if dust < left then
        (afterLeg f cash left (f.commission * (left / f.filledQuantity)),
          leftOpen f q c + sideSign f.side * left)
      else (cash, leftOpen f q c) := by
  intro q c left cash
  have hclose : (a.met f).closeQty f = c := if_pos h
  have hfill : a.onFill f = (a.recordClose f (a.met f)).recordFill f ((a.met f).close f) left
      ((a.met f).pnl f) := by
    rw [onFill, if_pos h, hclose]
  have hqty : ((a.met f).close f).qty = leftOpen f q c := by
    rw [close, hclose, leftOpen]
    have hmet : (a.met f).qty = q := rfl
    rw [hmet]
    split <;> rfl
  have hcash : (a.recordClose f (a.met f)).cash = cash := by
    simp only [recordClose, closeCommission, hclose, cash, afterLeg]
    ring
  rw [hfill, balanceOf, recordFill_position, if_pos rfl]
  simp only [recordFill, decide_eq_true_eq, hcash]
  split
  · simp only [grow, hqty, afterLeg, sub_sub]
  · rw [hqty]

theorem onFill_of_not_closes (h : ¬ (a.met f).closes f) : let q := (a.position f.symbol).qty
    (a.onFill f).balanceOf f.symbol =
      if dust < f.filledQuantity then
        (afterLeg f a.cash f.filledQuantity (f.commission * (f.filledQuantity / f.filledQuantity)),
          q + sideSign f.side * f.filledQuantity)
      else (a.cash, q) := by
  intro q
  have hclose : (a.met f).closeQty f = 0 := if_neg h
  have hfill : a.onFill f = a.recordFill f (a.met f) f.filledQuantity 0 := by
    rw [onFill, if_neg h, hclose, sub_zero]
  rw [hfill, balanceOf, recordFill_position, if_pos rfl]
  simp only [recordFill, decide_eq_true_eq]
  split
  · simp only [grow, afterLeg, sub_sub]
    rfl
  · rfl

end Analytics

/-! ## When the two sides agree -/

/-- The tolerances do not matter for a fill that meets the quantity `q`. -/
def SameNet (f : FillEvent) (q : ℚ) : Prop :=
  if q * sideSign f.side < 0 then
    if dust < |q| then
      if dust < f.filledQuantity then f.filledQuantity - |q| ≠ dust else f.commission = 0
    else dust < f.filledQuantity ∧ dust ≤ f.filledQuantity - |q|
  else dust < f.filledQuantity

namespace SameNet

open Netting OpenPosition

variable {f : FillEvent}

theorem dust_pos : 0 < dust := by norm_num [dust]

theorem sideSign_ne_zero (s : OrderSide) : sideSign s ≠ 0 := by
  cases s <;> norm_num [sideSign]

/-- A quantity that a fill goes against, by its amount. -/
theorem eq_of_opposite {q : ℚ} (h : q * sideSign f.side < 0) : q = -(sideSign f.side * |q|) := by
  have habs : |q| = -(q * sideSign f.side) := by
    rw [← abs_of_neg h, abs_mul, abs_sideSign, mul_one]
  rw [habs]
  linear_combination (-q) * sideSign_mul_self f.side

theorem afterLeg_inj {cash qty x y : ℚ} :
    afterLeg f cash qty x = afterLeg f cash qty y ↔ x = y := by
  simp [afterLeg]

/-- The two legs of a fill take from cash what the fill as a whole takes. -/
theorem afterLeg_afterLeg (cash : ℚ) {c left : ℚ} (hsum : c + left = f.filledQuantity) :
    afterLeg f (afterLeg f cash c (f.commission * (c / f.filledQuantity))) left
        (f.commission * (left / f.filledQuantity)) =
      afterLeg f cash f.filledQuantity (f.commission * (f.filledQuantity / f.filledQuantity)) := by
  have hshare :
      c / f.filledQuantity + left / f.filledQuantity = f.filledQuantity / f.filledQuantity := by
    rw [← add_div, hsum]
  simp only [afterLeg]
  linear_combination (-(sideSign f.side * f.fillPrice)) * hsum - f.commission * hshare

theorem commFor_of_lt (h : dust < f.filledQuantity) (q : ℚ) :
    f.commFor q = f.commission * (q / f.filledQuantity) := if_pos h

variable {a : Analytics} {n : Netting}

variable (hpos : 0 < f.filledQuantity) (hcash : n.cash = a.cash)
  (hqty : n.pos.qty = (a.position f.symbol).qty)
include hpos hcash hqty

/-- A fill against a position above the tolerance. -/
theorem iff_of_closes (hdust : dust < |n.pos.qty|) (hopposite : n.pos.qty * sideSign f.side < 0) :
    (a.onFill f).balanceOf f.symbol = ((n.apply f).cash, (n.apply f).pos.qty) ↔
      if dust < f.filledQuantity then f.filledQuantity - |n.pos.qty| ≠ dust
      else f.commission = 0 := by
  have hcloses : (a.met f).closes f := by
    rw [hqty] at hdust hopposite
    exact decide_eq_true ⟨hdust, hopposite⟩
  rw [onFill_of_closes hcloses, Netting.apply_of_opposite f n hopposite, ← hqty, ← hcash]
  set q := n.pos.qty
  rcases lt_or_ge dust f.filledQuantity with hlarge | hsmall
  · rw [if_pos hlarge, commFor_of_lt hlarge, commFor_of_lt hlarge]
    have hleft :
        f.filledQuantity - min |q| f.filledQuantity = dust ↔ f.filledQuantity - |q| = dust := by
      rcases le_total |q| f.filledQuantity with hle | hle
      · rw [min_eq_left hle]
      · rw [min_eq_right hle, sub_self]
        exact iff_of_false dust_pos.ne fun h => absurd (h ▸ dust_pos) (not_lt.2 (sub_nonpos.2 hle))
    rw [Ne, ← hleft]
    set left := f.filledQuantity - min |q| f.filledQuantity
    rcases lt_trichotomy left dust with hlt | heq | hgt
    · rw [if_neg hlt.le.not_gt, if_pos hlt]
      exact iff_of_true rfl hlt.ne
    · -- Exactly at the tolerance the portfolio opens and analytics do not.
      rw [if_neg (not_lt.2 heq.le), if_neg (not_lt.2 heq.ge)]
      refine iff_of_false (fun h => ?_) (not_not_intro heq)
      have hopened := (Prod.mk.inj h).2
      rw [heq, left_eq_add] at hopened
      exact mul_ne_zero (sideSign_ne_zero f.side) dust_pos.ne' hopened
    · rw [if_pos hgt, if_neg hgt.le.not_gt]
      exact iff_of_true rfl hgt.ne'
  · -- A fill within the tolerance closes that much; the portfolio takes no commission.
    have hmin : min |q| f.filledQuantity = f.filledQuantity := min_eq_right (hsmall.trans hdust.le)
    have hnone (x : ℚ) : f.commFor x = 0 := if_neg (not_lt.2 hsmall)
    rw [if_neg (not_lt.2 hsmall), hmin, sub_self, if_neg dust_pos.le.not_gt, if_pos dust_pos, hnone,
      Prod.mk.injEq, afterLeg_inj, div_self hpos.ne', mul_one]
    exact and_iff_left rfl

/-- A fill against a position within the tolerance. -/
theorem iff_of_small (hdust : ¬ dust < |n.pos.qty|) (hopposite : n.pos.qty * sideSign f.side < 0) :
    (a.onFill f).balanceOf f.symbol = ((n.apply f).cash, (n.apply f).pos.qty) ↔
      dust < f.filledQuantity ∧ dust ≤ f.filledQuantity - |n.pos.qty| := by
  have hcloses : ¬ (a.met f).closes f := by
    intro h
    rw [hqty] at hdust
    exact hdust (of_decide_eq_true h).1
  rw [onFill_of_not_closes hcloses, Netting.apply_of_opposite f n hopposite, ← hqty, ← hcash]
  set q := n.pos.qty
  have hne : q ≠ 0 := by
    rintro hzero
    rw [hzero, zero_mul] at hopposite
    exact lt_irrefl _ hopposite
  have habs : 0 < |q| := abs_pos.2 hne
  have hsigned := eq_of_opposite hopposite
  rcases lt_or_ge dust f.filledQuantity with hlarge | hsmall
  · have hle : |q| < f.filledQuantity := (not_lt.1 hdust).trans_lt hlarge
    have hzero : q + sideSign f.side * |q| = 0 := by
      linear_combination hsigned
    have hopen : leftOpen f q |q| = 0 := by
      rw [leftOpen, hzero, abs_zero, if_pos dust_pos]
    have hnet :
        q + sideSign f.side * f.filledQuantity = sideSign f.side * (f.filledQuantity - |q|) := by
      linear_combination hsigned
    rw [if_pos hlarge, min_eq_left hle.le, hopen, commFor_of_lt hlarge, commFor_of_lt hlarge, hnet]
    rcases lt_or_ge (f.filledQuantity - |q|) dust with hlt | hge
    · rw [if_pos hlt]
      refine iff_of_false (fun h => ?_) fun h => absurd h.2 (not_le.2 hlt)
      exact mul_ne_zero (sideSign_ne_zero f.side) (sub_pos.2 hle).ne' (Prod.mk.inj h).2
    · rw [if_neg (not_lt.2 hge), afterLeg_afterLeg _ (by ring), zero_add]
      exact iff_of_true rfl ⟨hlarge, hge⟩
  · rw [if_neg (not_lt.2 hsmall)]
    refine iff_of_false (fun h => hne ?_) fun h => absurd h.1 (not_lt.2 hsmall)
    -- Whatever the portfolio closes, what it leaves is below the tolerance.
    set c := min |q| f.filledQuantity
    have hcpos : 0 < c := lt_min habs hpos
    have hcle : c ≤ |q| := min_le_left _ _
    have hnet : q + sideSign f.side * c = -(sideSign f.side * (|q| - c)) := by
      linear_combination hsigned
    have hopen : leftOpen f q c = 0 := by
      rw [leftOpen, if_pos]
      rw [hnet, abs_neg, abs_mul, abs_sideSign, one_mul, abs_of_nonneg (sub_nonneg.2 hcle)]
      linarith
    have hleft : f.filledQuantity - c < dust := by
      linarith
    rw [if_pos hleft, hopen] at h
    exact (Prod.mk.inj h).2

/-- A fill with the position. -/
theorem iff_of_same (hsame : ¬ n.pos.qty * sideSign f.side < 0) :
    (a.onFill f).balanceOf f.symbol = ((n.apply f).cash, (n.apply f).pos.qty) ↔
      dust < f.filledQuantity := by
  have hcloses : ¬ (a.met f).closes f := by
    intro h
    rw [hqty] at hsame
    exact hsame (of_decide_eq_true h).2
  rw [onFill_of_not_closes hcloses, Netting.apply_of_same f n hsame, ← hqty, ← hcash]
  split
  · next hlarge =>
    rw [commFor_of_lt hlarge]
    exact iff_of_true rfl hlarge
  · next hsmall =>
    refine iff_of_false (fun h => ?_) hsmall
    have hmoved := (Prod.mk.inj h).2
    rw [left_eq_add] at hmoved
    exact mul_ne_zero (sideSign_ne_zero f.side) hpos.ne' hmoved

/-- **One fill**: two ledgers that agree still agree exactly if the tolerances do not matter. -/
theorem balance_eq_iff : (a.onFill f).balanceOf f.symbol = ((n.apply f).cash, (n.apply f).pos.qty) ↔
      SameNet f n.pos.qty := by
  rw [SameNet]
  split
  · next hopposite =>
    split
    · next hdust => exact iff_of_closes hpos hcash hqty hdust hopposite
    · next hdust => exact iff_of_small hpos hcash hqty hdust hopposite
  · next hsame => exact iff_of_same hpos hcash hqty hsame

end SameNet

/-! ## Sequences of events -/

/-- The portfolio and the engine's analytics. -/
structure Ledgers where
  portfolio : Portfolio
  analytics : Analytics

inductive LedgerEvent
  | fill (f : FillEvent)
  | funding (cashDelta : ℚ)
  | market (m : MarketEvent)
  | tick (t : Tick)
  | order

/-- Fills have a positive quantity. -/
def LedgerEvent.Positive : LedgerEvent → Prop
  | .fill f => 0 < f.filledQuantity
  | _ => True

namespace Ledgers

def init (balance : ℚ) : Ledgers := ⟨.init balance, .init balance⟩

/-- `handle_engine_fill`, `publish_event` of a funding payment in inline mode, and the marks. -/
def step (s : Ledgers) : LedgerEvent → Unit × Ledgers
  | .fill f => ((), ⟨s.portfolio.onFill f f.openerOrderId f.strategyName, s.analytics.onFill f⟩)
  | .funding cashDelta => ((), { s with portfolio := s.portfolio.onFunding cashDelta })
  | .market m => ((), { s with analytics := s.analytics.onMarket m })
  | .tick t => ((), { s with analytics := s.analytics.onTick t })
  | .order => ((), { s with analytics := s.analytics.onOrder })

/-- The same cash and the same quantity of every symbol. -/
def Agree (s : Ledgers) : Prop :=
  s.analytics.cash = s.portfolio.cash ∧
    ∀ symbol, (s.analytics.position symbol).qty = (s.portfolio.position symbol).qty

/-- Funding pays nothing, and the tolerances do not matter for a fill. -/
def Settles (s : Ledgers) : LedgerEvent → Prop
  | .fill f => SameNet f (s.portfolio.position f.symbol).qty
  | .funding cashDelta => cashDelta = 0
  | _ => True

theorem mark_position_qty (a : Analytics) (symbol s : String) (price : ℚ) :
    ((a.mark symbol price).position s).qty = (a.position s).qty := by
  rw [position]
  simp only [mark, position_insert]
  split
  · next h => rw [h]
  · rfl

theorem agree_fill_iff {s : Ledgers} {f : FillEvent} (hs : s.Agree) (hpos : 0 < f.filledQuantity) :
    (s.step (.fill f)).2.Agree ↔ SameNet f (s.portfolio.position f.symbol).qty := by
  set n : Netting := ⟨s.portfolio.cash, s.portfolio.position f.symbol, s.portfolio.totalTrades⟩
  have hnet := SameNet.balance_eq_iff (n := n) hpos hs.1.symm (hs.2 f.symbol).symm
  have hcash : (s.portfolio.onFill f f.openerOrderId f.strategyName).cash = (n.apply f).cash :=
    (Portfolio.onFill_netted s.portfolio f f.openerOrderId f.strategyName).1
  have hqty : ((s.portfolio.onFill f f.openerOrderId f.strategyName).position f.symbol).qty =
      (n.apply f).pos.qty :=
    congrArg Position.qty (Portfolio.onFill_position_self s.portfolio f _ _)
  rw [← hnet, ← hcash, ← hqty, balanceOf, Prod.mk.injEq]
  constructor
  · intro h
    exact ⟨h.1, h.2 f.symbol⟩
  · intro h
    refine ⟨h.1, fun symbol => ?_⟩
    by_cases hsymbol : symbol = f.symbol
    · rw [hsymbol]
      exact h.2
    · have hother := hs.2 symbol
      rw [← onFill_position_of_ne hsymbol,
        ← Portfolio.onFill_position_of_ne s.portfolio f f.openerOrderId
          f.strategyName hsymbol] at hother
      exact hother

theorem agree_step_iff {s : Ledgers} {ev : LedgerEvent} (hs : s.Agree) (hev : ev.Positive) :
    (s.step ev).2.Agree ↔ s.Settles ev := by
  cases ev with
  | fill f => exact agree_fill_iff hs hev
  | funding cashDelta =>
    constructor
    · intro h
      have hcash : s.analytics.cash = s.portfolio.cash + cashDelta := h.1
      rw [hs.1, left_eq_add] at hcash
      exact hcash
    · intro h
      refine ⟨?_, hs.2⟩
      have hzero : cashDelta = 0 := h
      rw [hzero]
      exact hs.1.trans (add_zero _).symm
  | market m =>
    refine iff_of_true ⟨hs.1, fun symbol => ?_⟩ trivial
    exact (mark_position_qty s.analytics m.symbol symbol m.close).trans (hs.2 symbol)
  | tick t =>
    refine iff_of_true ⟨hs.1, fun symbol => ?_⟩ trivial
    exact (mark_position_qty s.analytics t.symbol symbol t.price).trans (hs.2 symbol)
  | order => exact iff_of_true hs trivial

/-- **The two ledgers agree** after every event of a sequence, exactly if no funding payment moves
cash and the tolerances do not matter for any fill. -/
theorem agree_iff_settles (balance : ℚ) (events : List LedgerEvent)
    (hpos : ∀ ev ∈ events, ev.Positive) :
    (∀ s ∈ states step (init balance) events, s.Agree) ↔
      Along step Settles (init balance) events := by
  have hstep : ∀ (s : Ledgers) (ev : LedgerEvent), True → ev.Positive → s.Agree →
      ((s.step ev).2.Agree ↔ s.Settles ev) :=
    fun _ _ _ hev hs => agree_step_iff hs hev
  exact forall_states_iff_along (fun _ _ _ _ => trivial) hstep trivial hpos ⟨rfl, fun _ => rfl⟩

/-- Buy one, sell two: a close and a flip. -/
def flipLedger : List LedgerEvent :=
  [.fill { boughtAt100 with commission := 1 / 10 }, .market ⟨1, "X", 100, 106, 99, 105, 7⟩,
    .fill { boughtAt100 with
      side := .sell, filledQuantity := 2, fillPrice := 104, commission := 1 / 5 }]

theorem agree_of_flip :
    (∀ ev ∈ flipLedger, ev.Positive) ∧ (∀ s ∈ states step (init 10000) flipLedger, s.Agree) ∧
      (final step (init 10000) flipLedger).portfolio.cash = 101077 / 10 := by
  have hpositive : ∀ ev ∈ flipLedger, ev.Positive := by
    simp [flipLedger, LedgerEvent.Positive, boughtAt100]
  refine ⟨hpositive, (agree_iff_settles 10000 flipLedger hpositive).2 ?_, by decide +kernel⟩
  refine ⟨?_, trivial, ?_, trivial⟩ <;> rw [Settles, SameNet] <;> decide +kernel

/-- A funding payment reaches the portfolio only. -/
theorem not_agree_of_funding : ¬ ∀ s ∈ states step (init 10000) [.funding 5], s.Agree := by
  intro h
  have hagree : ((init 10000).step (.funding 5)).2.Agree := h _ (by simp [states])
  have hcash : (10000 : ℚ) = 10000 + 5 := hagree.1
  norm_num at hcash

end Ledgers

/-! ## The ledgers of a backtest -/

namespace Sim

variable {σ : Type}

def ledgers (s : Sim σ) : Ledgers := ⟨s.portfolio, s.analytics⟩

/-- The ledgers are those of some events. -/
def Keeps (balance : ℚ) (s : Sim σ) : Prop :=
  ∃ events, s.ledgers = final Ledgers.step (.init balance) events

variable {balance : ℚ} {s s₁ : Sim σ} (hs : s.Keeps balance)
include hs

theorem Keeps.event (ev : LedgerEvent) (h : s₁.ledgers = (s.ledgers.step ev).2) :
    s₁.Keeps balance := by
  obtain ⟨events, hevents⟩ := hs
  refine ⟨events ++ [ev], ?_⟩
  rw [h, hevents, final_append]
  rfl

theorem Keeps.same (h : s₁.ledgers = s.ledgers) : s₁.Keeps balance := by
  obtain ⟨events, hevents⟩ := hs
  exact ⟨events, h.trans hevents⟩

theorem Keeps.entry {fs : List FillEvent} (h : Entry s.books fs s₁.books) : s₁.Keeps balance := by
  generalize hb : s₁.books = b at h
  have hledgers : s₁.ledgers = ⟨b.portfolio, b.analytics⟩ := by
    rw [← hb]
    rfl
  cases h with
  | none | rejection ts symbol id reason => exact hs.same hledgers
  | order o => exact hs.event .order hledgers
  | fill f => exact hs.event (.fill f) hledgers

end Sim

namespace Backtest

variable {σ : Type} (cfg : BacktestConfig σ)

theorem keeps_closed (balance : ℚ) : Closed cfg (Sim.Keeps balance) where
  call := handler_keeps cfg (fun _ hs => hs.same rfl) fun hs hstep => hs.entry hstep.entry
  market := fun m _ hs => hs.event (.market m) rfl
  tick := fun t _ hs => hs.event (.tick t) rfl
  aggregated := fun m _ hs => hs.event (.market m) rfl
  cancelDayOrders := fun _ hs => hs.same rfl

end Backtest

end TrueTest
