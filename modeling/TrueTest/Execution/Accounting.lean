import Mathlib.Algebra.BigOperators.Ring.Finset
import TrueTest.Execution.Portfolio

/-!
# What the portfolio's books say

For quantities on the grid of the platform's fixed-point quantities (multiples of 1e-8) the
tolerances of `apply_netted_fill` only ever catch an exact zero. The netted position of a symbol is
then the average-cost account of the symbol's fills (`Matches`), and the books balance after any
sequence of fills and funding payments.
-/

namespace TrueTest

open AverageCost List Netting

/-! ## The grid of quantities -/

/-- A multiple of 1e-8. -/
def OnGrid (q : ℚ) : Prop := ∃ z : ℤ, q = z / 10 ^ 8

theorem onGrid_zero : OnGrid 0 := ⟨0, by simp⟩

theorem OnGrid.add {x y : ℚ} (hx : OnGrid x) (hy : OnGrid y) : OnGrid (x + y) := by
  obtain ⟨a, rfl⟩ := hx
  obtain ⟨b, rfl⟩ := hy
  exact ⟨a + b, by push_cast; ring⟩

theorem OnGrid.neg {x : ℚ} (hx : OnGrid x) : OnGrid (-x) := by
  obtain ⟨a, rfl⟩ := hx
  exact ⟨-a, by push_cast; ring⟩

/-- A positive quantity on the grid is well above the tolerance. -/
theorem OnGrid.dust_lt {x : ℚ} (hx : OnGrid x) (hpos : 0 < x) : dust < x := by
  obtain ⟨z, rfl⟩ := hx
  have hz : (1 : ℚ) ≤ z := by
    have hz : 0 < (z : ℚ) := by
      by_contra hneg
      exact absurd hpos (not_lt.2 (div_nonpos_of_nonpos_of_nonneg (not_lt.1 hneg) (by norm_num)))
    exact_mod_cast Int.cast_pos.1 hz
  have hgrid : (1 : ℚ) / 10 ^ 8 ≤ z / 10 ^ 8 := div_le_div_of_nonneg_right hz (by norm_num)
  have hdust : dust < 1 / 10 ^ 8 := by norm_num [dust]
  exact hdust.trans_le hgrid

/-! ## One fill -/

def FillEvent.signedQty (f : FillEvent) : ℚ :=
  match f.side with
  | .buy => f.filledQuantity
  | .sell => -f.filledQuantity

/-- A fill as a trade of the account of its symbol. -/
def FillEvent.trade (f : FillEvent) : AverageCost.Trade ℚ :=
  ⟨f.signedQty, f.fillPrice, f.commission⟩

/-- The netted position is that of the account, and its basis is the cost with the open fees. -/
structure Matches (pos : Position) (a : Account ℚ) : Prop where
  qty : pos.qty = a.qty
  costBasis : pos.costBasis = a.cost + a.fees
  grid : OnGrid pos.qty

section Fill

variable {f : FillEvent} {n : Netting} {a : Account ℚ} {q : ℚ}

section

variable (hf : OnGrid f.filledQuantity) (hpos : 0 < f.filledQuantity)
include hf hpos

theorem commFor_eq (q : ℚ) :
    f.commFor q = f.commission * (q / f.filledQuantity) := if_pos (hf.dust_lt hpos)

theorem commFor_self : f.commFor f.filledQuantity = f.commission := by
  rw [commFor_eq hf hpos, div_self hpos.ne', mul_one]

/-- The two legs of a fill pay its commission once. -/
theorem commFor_add (q : ℚ) : f.commFor q + f.commFor (f.filledQuantity - q) = f.commission := by
  rw [commFor_eq hf hpos, commFor_eq hf hpos]
  field_simp
  ring

end

theorem trade_of_same (h : 0 ≤ a.qty * q) (hq : q ≠ 0) (price fee : ℚ) :
    (a.trade q price fee).qty = a.qty + q ∧
      (a.trade q price fee).cost + (a.trade q price fee).fees =
        a.cost + a.fees + (q * price + fee) := by
  have hne := add_ne_zero_of_same hq h
  refine ⟨trade_qty a q price fee, ?_⟩
  unfold Account.trade Account.cost
  rw [if_pos h]
  field_simp
  ring

theorem trade_of_part (h : a.qty * q < 0) (hle : |q| ≤ |a.qty|) (price fee : ℚ) :
    (a.trade q price fee).cost + (a.trade q price fee).fees =
      (a.cost + a.fees) * (1 - |q| / |a.qty|) := by
  have hne : a.qty ≠ 0 := fun h0 => by simp [h0] at h
  have hratio : |q| / |a.qty| = -q / a.qty := by
    have hneg : q / a.qty < 0 := by
      rcases mul_neg_iff.1 h with ⟨ha, hq⟩ | ⟨ha, hq⟩
      · exact div_neg_of_neg_of_pos hq ha
      · exact div_neg_of_pos_of_neg hq ha
    rw [← abs_div, abs_of_neg hneg, neg_div]
  unfold Account.trade Account.cost
  rw [if_neg (not_le.2 h), if_pos hle]
  rw [hratio]
  field_simp
  ring

theorem trade_of_flip (h : a.qty * q < 0) (hlt : |a.qty| < |q|) (price fee : ℚ) :
    (a.trade q price fee).cost + (a.trade q price fee).fees =
      (a.qty + q) * price + fee * (|a.qty + q| / |q|) := by
  unfold Account.trade Account.cost
  rw [if_neg (not_le.2 h), if_neg (not_le.2 hlt)]

section

variable (hf : OnGrid f.filledQuantity) (hpos : 0 < f.filledQuantity) (hm : Matches n.pos a)
include hf hpos hm

theorem openLong_matches (hqty : 0 ≤ n.pos.qty) :
    Matches (n.openLong f f.filledQuantity).pos
      (a.trade f.filledQuantity f.fillPrice f.commission) ∧
      (n.openLong f f.filledQuantity).cash =
        n.cash - (f.filledQuantity * f.fillPrice + f.commission) := by
  have hsame : 0 ≤ a.qty * f.filledQuantity := mul_nonneg (hm.qty ▸ hqty) hpos.le
  obtain ⟨htrade, hcost⟩ := trade_of_same hsame hpos.ne' f.fillPrice f.commission
  unfold openLong
  rw [commFor_self hf hpos]
  refine ⟨⟨?_, ?_, hm.grid.add hf⟩, rfl⟩
  · rw [htrade, hm.qty]
  · rw [hcost, hm.costBasis]

/-- A buy that closes at most the short. -/
theorem coverShort_matches (hqty : n.pos.qty < 0) (hle : f.filledQuantity ≤ -n.pos.qty) :
    Matches (n.coverShort f f.filledQuantity).pos
        (a.trade f.filledQuantity f.fillPrice f.commission) ∧
      (n.coverShort f f.filledQuantity).cash =
        n.cash - (f.filledQuantity * f.fillPrice + f.commission) := by
  have haq : a.qty < 0 := hm.qty ▸ hqty
  have hneg : a.qty * f.filledQuantity < 0 := mul_neg_of_neg_of_pos haq hpos
  have habs : |f.filledQuantity| ≤ |a.qty| := by
    rw [abs_of_pos hpos, abs_of_neg haq, ← hm.qty]
    exact hle
  have hcost := trade_of_part hneg habs f.fillPrice f.commission
  have hsum := trade_qty a f.filledQuantity f.fillPrice f.commission
  have hgrid := hm.grid.add hf
  rw [abs_of_pos hpos, abs_of_neg haq] at hcost
  unfold coverShort
  rw [commFor_self hf hpos]
  dsimp only
  split_ifs with hflat
  · have hzero : n.pos.qty + f.filledQuantity = 0 := by
      by_contra hne
      have hlt : 0 < -(n.pos.qty + f.filledQuantity) :=
        neg_pos.2 (lt_of_le_of_ne (by linarith) hne)
      rw [abs_of_neg (neg_pos.1 hlt)] at hflat
      exact absurd hflat (not_lt.2 (hgrid.neg.dust_lt hlt).le)
    have hfull : f.filledQuantity = -a.qty := by
      rw [← hm.qty]
      linarith
    refine ⟨⟨?_, ?_, onGrid_zero⟩, rfl⟩
    · rw [hsum, ← hm.qty, hzero]
    · rw [hcost, hfull, div_self (neg_ne_zero.2 haq.ne), sub_self, mul_zero]
  · refine ⟨⟨?_, ?_, hgrid⟩, rfl⟩
    · rw [hsum, hm.qty]
    · rw [hcost, hm.costBasis, hm.qty]

theorem applyBuy_matches :
    Matches (n.applyBuy f).pos (a.trade f.filledQuantity f.fillPrice f.commission) ∧
      (n.applyBuy f).cash = n.cash - (f.filledQuantity * f.fillPrice + f.commission) := by
  unfold applyBuy
  split_ifs with hshort
  · rcases le_or_gt f.filledQuantity (-n.pos.qty) with hle | hgt
    · have hdust : (0 : ℚ) < dust := by norm_num [dust]
      dsimp only
      rw [min_eq_left hle, sub_self, if_pos hdust]
      exact coverShort_matches hf hpos hm hshort hle
    · -- The fill goes through zero: the close leaves nothing and the rest opens.
      have hrest : 0 < f.filledQuantity - -n.pos.qty := sub_pos.2 hgt
      have hgrid : OnGrid (f.filledQuantity - -n.pos.qty) := by
        rw [sub_neg_eq_add]
        exact hf.add hm.grid
      have hflat : n.coverShort f (-n.pos.qty) =
          ⟨n.cash - (-n.pos.qty * f.fillPrice + f.commFor (-n.pos.qty)), ⟨0, 0⟩,
           n.totalTrades + 1⟩ := by
        unfold coverShort
        simp [dust]
      rw [min_eq_right hgt.le, if_neg (not_lt.2 (hgrid.dust_lt hrest).le), hflat]
      have haq : a.qty < 0 := hm.qty ▸ hshort
      have hneg : a.qty * f.filledQuantity < 0 := mul_neg_of_neg_of_pos haq hpos
      have habs : |a.qty| < |f.filledQuantity| := by
        rw [abs_of_pos hpos, abs_of_neg haq, ← hm.qty]
        exact hgt
      have hcost := trade_of_flip hneg habs f.fillPrice f.commission
      have hsum := trade_qty a f.filledQuantity f.fillPrice f.commission
      have hopen : a.qty + f.filledQuantity = f.filledQuantity - -n.pos.qty := by
        rw [hm.qty]
        ring
      rw [hopen, abs_of_pos hrest, abs_of_pos hpos] at hcost
      have hcomm := commFor_add hf hpos (-n.pos.qty)
      unfold openLong
      refine ⟨⟨?_, ?_, ?_⟩, ?_⟩
      · rw [hsum, hopen, zero_add]
      · rw [hcost]
        dsimp only
        rw [commFor_eq hf hpos (f.filledQuantity - -n.pos.qty), zero_add]
      · rw [zero_add]
        exact hgrid
      · linarith
  · exact openLong_matches hf hpos hm (not_lt.1 hshort)

end

/-! A sell is a buy of the opposite position in the negated price. -/

def Netting.mirror (n : Netting) : Netting := { n with pos := { n.pos with qty := -n.pos.qty } }

def FillEvent.mirror (f : FillEvent) : FillEvent := { f with fillPrice := -f.fillPrice }

theorem openShort_mirror (qty : ℚ) :
    n.openShort f qty = (n.mirror.openLong f.mirror qty).mirror := by
  unfold openShort openLong mirror FillEvent.mirror FillEvent.commFor
  congr 1
  · ring
  · congr 1 <;> dsimp only <;> ring

theorem closeLong_mirror {qty : ℚ} (hle : qty ≤ n.pos.qty) :
    n.closeLong f qty = (n.mirror.coverShort f.mirror qty).mirror := by
  have habs : |-n.pos.qty + qty| = n.pos.qty - qty := by
    rw [abs_of_nonpos (by linarith)]
    ring
  have hcash : n.cash + (qty * f.fillPrice - f.commFor qty) =
      n.cash - (qty * -f.fillPrice + f.commFor qty) := by ring
  have hqty : n.pos.qty - qty = -(-n.pos.qty + qty) := by ring
  unfold closeLong coverShort mirror FillEvent.mirror
  dsimp only
  rw [habs, neg_neg]
  split_ifs
  · rw [hcash, neg_zero]
    rfl
  · rw [hcash, hqty]
    rfl

theorem applySell_mirror : n.applySell f = (n.mirror.applyBuy f.mirror).mirror := by
  have hclose := closeLong_mirror (f := f) (n := n) (min_le_right f.filledQuantity n.pos.qty)
  have hmirror : n.mirror.pos.qty = -n.pos.qty := rfl
  have hfill : f.mirror.filledQuantity = f.filledQuantity := rfl
  have hback : ∀ m : Netting, m.mirror.mirror = m := fun m => by simp [mirror]
  unfold applySell applyBuy
  rw [hmirror, hfill, neg_neg]
  by_cases hlong : 0 < n.pos.qty
  · rw [if_pos hlong, if_pos (neg_neg_of_pos hlong)]
    dsimp only
    rw [hclose]
    split_ifs
    · rfl
    · rw [openShort_mirror, hback]
  · rw [if_neg hlong, if_neg (by linarith)]
    exact openShort_mirror _

theorem Matches.mirror (hm : Matches n.pos a) : Matches n.mirror.pos a.mirror where
  qty := congrArg Neg.neg hm.qty
  costBasis := by
    rw [mirror_cost]
    exact hm.costBasis
  grid := hm.grid.neg

/-- **One fill.** The position follows the account, and cash pays the signed value and the
commission. -/
theorem apply_matches (hf : OnGrid f.filledQuantity) (hpos : 0 < f.filledQuantity)
    (hm : Matches n.pos a) :
    Matches (apply f n).pos (a.trade f.signedQty f.fillPrice f.commission) ∧
      (apply f n).cash = n.cash - (f.signedQty * f.fillPrice + f.commission) := by
  unfold apply FillEvent.signedQty
  cases f.side with
  | buy => exact applyBuy_matches hf hpos hm
  | sell =>
    obtain ⟨hmatch, hcash⟩ := applyBuy_matches (f := f.mirror) hf hpos hm.mirror
    have hback : (a.mirror.trade f.filledQuantity (-f.fillPrice) f.commission).mirror =
        a.trade (-f.filledQuantity) f.fillPrice f.commission := by
      rw [← trade_mirror, mirror_mirror, neg_neg]
    rw [applySell_mirror, ← hback]
    refine ⟨hmatch.mirror, ?_⟩
    show (n.mirror.applyBuy f.mirror).cash = _
    rw [hcash]
    show n.cash - (f.filledQuantity * -f.fillPrice + f.commission) = _
    ring

end Fill

/-! ## Sequences of fills and funding payments -/

inductive BookEvent
  | fill (f : FillEvent) (opener : Nat) (strategyName : String)
  | funding (cashDelta : ℚ)

variable (symbol : String)

namespace BookEvent

/-- The value a fill pays, with its sign. -/
def notional : BookEvent → ℚ
  | .fill f _ _ => f.signedQty * f.fillPrice
  | .funding _ => 0

def commission : BookEvent → ℚ
  | .fill f _ _ => f.commission
  | .funding _ => 0

def fundingDelta : BookEvent → ℚ
  | .fill _ _ _ => 0
  | .funding delta => delta

/-- The trade of a symbol's account. -/
def tradeOf : BookEvent → Option (AverageCost.Trade ℚ)
  | .fill f _ _ => if f.symbol = symbol then some f.trade else none
  | .funding _ => none

/-- Fills have a positive quantity on the grid. -/
def Regular : BookEvent → Prop
  | .fill f _ _ => 0 < f.filledQuantity ∧ OnGrid f.filledQuantity
  | .funding _ => True

end BookEvent

/-- The average-cost account of a symbol. -/
def account (events : List BookEvent) : Account ℚ :=
  run (events.filterMap (BookEvent.tradeOf symbol))

/-- The signed sum of a symbol's fills. -/
def netQty (events : List BookEvent) : ℚ :=
  ((events.filterMap (BookEvent.tradeOf symbol)).map Trade.qty).sum

variable {events : List BookEvent} (balance : ℚ)

namespace Portfolio

def apply (p : Portfolio) : BookEvent → Portfolio
  | .fill f opener strategyName => p.onFill f opener strategyName
  | .funding delta => p.onFunding delta

def run (balance : ℚ) (events : List BookEvent) : Portfolio := events.foldl apply (init balance)

theorem run_append (events : List BookEvent) (e : BookEvent) :
    run balance (events ++ [e]) = (run balance events).apply e := by
  simp [run]

section Steps

variable (p : Portfolio) (f : FillEvent) (opener : Nat) (strategyName : String)

/-- Lots are kept beside cash and positions. -/
theorem applyLotFill_netted : (p.applyLotFill f opener strategyName).cash = p.cash ∧
    (p.applyLotFill f opener strategyName).positions = p.positions := by
  unfold applyLotFill
  cases p.lots.lookup opener with
  | none | some l =>
    dsimp only
    split_ifs <;> exact ⟨rfl, rfl⟩

theorem onFill_netted : (p.onFill f opener strategyName).cash =
      (Netting.apply f ⟨p.cash, p.position f.symbol, p.totalTrades⟩).cash ∧
    (p.onFill f opener strategyName).positions = p.positions.insert f.symbol
      (Netting.apply f ⟨p.cash, p.position f.symbol, p.totalTrades⟩).pos := by
  unfold onFill
  split_ifs
  · exact applyLotFill_netted _ f opener strategyName
  · exact ⟨rfl, rfl⟩

theorem onFill_position_self : (p.onFill f opener strategyName).position f.symbol =
    (Netting.apply f ⟨p.cash, p.position f.symbol, p.totalTrades⟩).pos := by
  rw [position, (onFill_netted p f opener strategyName).2, AList.lookup_insert]
  rfl

theorem onFill_position_of_ne {symbol : String} (h : symbol ≠ f.symbol) :
    (p.onFill f opener strategyName).position symbol = p.position symbol := by
  rw [position, (onFill_netted p f opener strategyName).2, AList.lookup_insert_ne h, position]

theorem onFill_symbols : (p.onFill f opener strategyName).symbols = insert f.symbol p.symbols := by
  ext symbol
  rw [symbols, (onFill_netted p f opener strategyName).2, Finset.mem_insert, mem_toFinset,
    ← AList.mem_keys, AList.mem_insert, symbols, mem_toFinset, ← AList.mem_keys]

end Steps

theorem account_append (events : List BookEvent) (e : BookEvent) :
    account symbol (events ++ [e]) = match e.tradeOf symbol with
      | some t => (account symbol events).trade t.qty t.price t.fee
      | none => account symbol events := by
  unfold account
  rw [filterMap_append]
  cases h : e.tradeOf symbol with
  | none => simp [h]
  | some t => simp [h, AverageCost.run_append]

/-- What the books say after some events. -/
structure Balanced (balance : ℚ) (events : List BookEvent) (p : Portfolio) : Prop where
  cash : p.cash = balance - (events.map BookEvent.notional).sum -
    (events.map BookEvent.commission).sum + (events.map BookEvent.fundingDelta).sum
  positions : ∀ symbol, Matches (p.position symbol) (account symbol events)
  /-- Every fill's symbol has an entry. -/
  entries : ∀ e ∈ events, ∀ symbol ∉ p.symbols, e.tradeOf symbol = none

theorem balanced_init : Balanced balance [] (init balance) where
  cash := by simp [init]
  positions _ := ⟨rfl,
    by simp [init, position, account, AverageCost.run, Account.init, Account.cost],
    onGrid_zero⟩
  entries _ he := absurd he not_mem_nil

section

variable {balance : ℚ} {events : List BookEvent} {p : Portfolio} (h : Balanced balance events p)
include h

theorem Balanced.fill {f : FillEvent} (opener : Nat) (strategyName : String)
    (hpos : 0 < f.filledQuantity) (hf : OnGrid f.filledQuantity) :
    Balanced balance (events ++ [.fill f opener strategyName])
      (p.onFill f opener strategyName) := by
  obtain ⟨hmatch, hpaid⟩ :=
    apply_matches (n := ⟨p.cash, p.position f.symbol, p.totalTrades⟩) hf hpos
      (h.positions f.symbol)
  refine ⟨?_, fun symbol => ?_, fun e he symbol hsymbol => ?_⟩
  · rw [(onFill_netted p f opener strategyName).1, hpaid, h.cash]
    simp only [map_append, map_cons, map_nil, sum_append, sum_singleton,
      BookEvent.notional, BookEvent.commission, BookEvent.fundingDelta]
    ring
  · rw [account_append]
    by_cases hs : f.symbol = symbol
    · subst hs
      rw [BookEvent.tradeOf, if_pos rfl, onFill_position_self]
      exact hmatch
    · rw [BookEvent.tradeOf, if_neg hs, onFill_position_of_ne p f opener strategyName (Ne.symm hs)]
      exact h.positions symbol
  · rw [onFill_symbols, Finset.mem_insert, not_or] at hsymbol
    rcases mem_append.1 he with he | he
    · exact h.entries e he symbol hsymbol.2
    · rw [mem_singleton.1 he]
      exact if_neg (Ne.symm hsymbol.1)

theorem Balanced.funding (delta : ℚ) :
    Balanced balance (events ++ [.funding delta]) (p.onFunding delta) := by
  refine ⟨?_, fun symbol => ?_,
    forall_mem_append.2 ⟨h.entries, forall_mem_singleton.2 fun _ _ => rfl⟩⟩
  · show p.cash + delta = _
    rw [h.cash]
    simp only [map_append, map_cons, map_nil, sum_append, sum_singleton,
      BookEvent.notional, BookEvent.commission, BookEvent.fundingDelta]
    ring
  · rw [account_append]
    exact h.positions symbol

end

theorem balanced_run (h : ∀ e ∈ events, e.Regular) :
    Balanced balance events (run balance events) := by
  induction events using reverseRecOn with
  | nil => exact balanced_init balance
  | append_singleton events e ih =>
    have hrest := ih fun e he => h e (mem_append_left _ he)
    have hlast := h e (mem_append_right _ mem_cons_self)
    rw [run_append]
    cases e with
    | fill f opener strategyName => exact hrest.fill opener strategyName hlast.1 hlast.2
    | funding delta => exact hrest.funding delta

/-- The values of all fills, symbol by symbol. -/
theorem sum_notional {symbols : Finset String}
    (h : ∀ e ∈ events, ∀ symbol ∉ symbols, e.tradeOf symbol = none) :
    ∑ symbol ∈ symbols, notional (events.filterMap (BookEvent.tradeOf symbol)) =
      (events.map BookEvent.notional).sum := by
  induction events with
  | nil => simp [notional]
  | cons e events ih =>
    have hrest := ih fun e' he' => h e' (mem_cons_of_mem e he')
    rw [map_cons, sum_cons, ← hrest]
    cases e with
    | funding delta =>
      rw [BookEvent.notional, zero_add]
      rfl
    | fill f opener strategyName =>
      have hmem : f.symbol ∈ symbols := by
        by_contra hnot
        have hnone := h _ mem_cons_self f.symbol hnot
        rw [BookEvent.tradeOf, if_pos rfl] at hnone
        cases hnone
      have hsplit : ∀ symbol, notional
          ((BookEvent.fill f opener strategyName :: events).filterMap (BookEvent.tradeOf symbol)) =
          (if f.symbol = symbol then f.signedQty * f.fillPrice else 0) +
            notional (events.filterMap (BookEvent.tradeOf symbol)) := by
        intro symbol
        by_cases hs : f.symbol = symbol
        · simp [BookEvent.tradeOf, hs, notional, FillEvent.trade]
        · simp [BookEvent.tradeOf, hs]
      simp only [hsplit, Finset.sum_add_distrib, Finset.sum_ite_eq, if_pos hmem, BookEvent.notional]

/-- What the open positions cost. -/
def costBasis (p : Portfolio) : ℚ := ∑ symbol ∈ p.symbols, (p.position symbol).costBasis

/-- The profit realized on the closed quantities, before commissions. -/
def realized (symbols : Finset String) (events : List BookEvent) : ℚ :=
  ∑ symbol ∈ symbols, (account symbol events).realized

/-- The commissions of the quantities that are still open. -/
def openCommissions (symbols : Finset String) (events : List BookEvent) : ℚ :=
  ∑ symbol ∈ symbols, (account symbol events).fees

theorem Balanced.costBasis {balance : ℚ} {p : Portfolio}
    (h : Balanced balance events p) (hregular : ∀ e ∈ events, e.Regular) :
    p.costBasis = (events.map BookEvent.notional).sum + realized p.symbols events +
      openCommissions p.symbols events := by
  have htrades : ∀ symbol, ∀ t ∈ events.filterMap (BookEvent.tradeOf symbol), t.qty ≠ 0 := by
    intro symbol t ht
    obtain ⟨e, he, het⟩ := mem_filterMap.1 ht
    have hreg := hregular e he
    cases e with
    | funding delta => cases het
    | fill f opener strategyName =>
      rw [BookEvent.tradeOf] at het
      split_ifs at het
      obtain rfl := Option.some.inj het
      show f.signedQty ≠ 0
      unfold FillEvent.signedQty
      cases f.side
      · exact hreg.1.ne'
      · exact neg_ne_zero.2 hreg.1.ne'
  rw [← sum_notional h.entries, realized, openCommissions, ← Finset.sum_add_distrib,
    ← Finset.sum_add_distrib, Portfolio.costBasis]
  refine Finset.sum_congr rfl fun symbol _ => ?_
  rw [(h.positions symbol).costBasis, account, realized_eq (htrades symbol)]

/-- **The books balance.** After any fills and funding payments: cash is the initial balance less
what the fills cost and their commissions, plus funding; every netted quantity is the signed sum of
the symbol's fills; and cash and cost basis together have moved by the realized profit, less the
commissions that are not in the basis of an open position, plus funding. -/
theorem books_balance (balance : ℚ) {events : List BookEvent} (h : ∀ e ∈ events, e.Regular) :
    (run balance events).cash = balance - (events.map BookEvent.notional).sum -
        (events.map BookEvent.commission).sum + (events.map BookEvent.fundingDelta).sum ∧
      (∀ symbol, ((run balance events).position symbol).qty = netQty symbol events) ∧
      (run balance events).cash + (run balance events).costBasis - balance =
        realized (run balance events).symbols events -
          ((events.map BookEvent.commission).sum -
            openCommissions (run balance events).symbols events) +
          (events.map BookEvent.fundingDelta).sum := by
  have hbal := balanced_run balance h
  refine ⟨hbal.cash, fun symbol => ?_, ?_⟩
  · rw [(hbal.positions symbol).qty, account, run_qty, netQty]
  · rw [hbal.costBasis h, hbal.cash]
    ring

/-- A buy of 2 at 100 with commission 1. -/
def entryFill : FillEvent where
  timestamp := 0
  symbol := "BTC"
  orderId := 1
  side := .buy
  filledQuantity := 2
  fillPrice := 100
  commission := 1

/-- A sell of 3 at 110 with commission 3 takes it through zero. -/
def flipFill : FillEvent :=
  { entryFill with
    orderId := 2, side := .sell, filledQuantity := 3, fillPrice := 110, commission := 3 }

def flipEvents : List BookEvent :=
  [.fill entryFill 1 "s", .funding (-2), .fill flipFill 2 "s"]

theorem flipEvents_regular : ∀ e ∈ flipEvents, e.Regular := by
  intro e he
  simp only [flipEvents, mem_cons, not_mem_nil, or_false] at he
  rcases he with rfl | rfl | rfl
  · exact ⟨by norm_num [entryFill], ⟨2 * 10 ^ 8, by norm_num [entryFill]⟩⟩
  · trivial
  · exact ⟨by norm_num [flipFill], ⟨3 * 10 ^ 8, by norm_num [flipFill]⟩⟩

/-- Two units are closed with a profit of 20; the short of one keeps a third of its commission. -/
theorem books_balance_of_flipEvents :
    (run 1000 flipEvents).cash = 1124 ∧ ((run 1000 flipEvents).position "BTC").qty = -1 ∧
      (run 1000 flipEvents).cash + (run 1000 flipEvents).costBasis - 1000 = 20 - (4 - 1) + -2 := by
  obtain ⟨hcash, hqty, hsum⟩ := books_balance 1000 flipEvents_regular
  refine ⟨hcash.trans ?_, (hqty "BTC").trans ?_, hsum.trans ?_⟩ <;> decide +kernel

/-- The commission of an open position is in its cost basis: nothing is closed and no funding is
paid, and cash and cost basis have not moved, although a commission was paid. -/
theorem cash_add_costBasis_of_entryFill :
    let events := [BookEvent.fill entryFill 1 "s"]
    let p := run 1000 events
    p.cash + p.costBasis - 1000 ≠ realized p.symbols events -
      (events.map BookEvent.commission).sum + (events.map BookEvent.fundingDelta).sum := by
  decide +kernel

end Portfolio

end TrueTest
