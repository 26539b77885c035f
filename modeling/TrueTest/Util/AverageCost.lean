import Mathlib.Algebra.Order.Field.Basic
import Mathlib.Algebra.Order.Group.Unbundled.Abs
import Mathlib.Data.List.Induction
import Mathlib.Tactic.FieldSimp
import Mathlib.Tactic.Linarith
import Mathlib.Tactic.Ring

/-!
# Average-cost accounting

The account of one instrument: the signed open quantity, the average price it was entered at, the
fees paid to enter it, and the profit realized so far. A trade in the direction of the position
moves the average; a trade against it realizes the difference to the average for what it closes, and
what goes through zero opens a new position at the trade's price.

The profit is before fees. Whatever the trades are, it is what the open quantity cost less what was
paid for all trades (`realized_eq`).
-/

namespace AverageCost

open List

variable {K : Type} [Field K]

structure Account (K : Type) where
  qty : K
  /-- The average price of the open quantity. -/
  entry : K
  /-- The fees of the open quantity. -/
  fees : K
  realized : K

def Account.init : Account K := ⟨0, 0, 0, 0⟩

/-- What the open quantity cost, before fees. -/
def Account.cost (a : Account K) : K := a.qty * a.entry

/-- The account of the opposite position, in the negated price. -/
def Account.mirror (a : Account K) : Account K := { a with qty := -a.qty, entry := -a.entry }

theorem mirror_cost (a : Account K) : a.mirror.cost = a.cost := neg_mul_neg a.qty a.entry

theorem mirror_mirror (a : Account K) : a.mirror.mirror = a := by
  simp [Account.mirror]

variable [LinearOrder K]

/-- A trade of a signed quantity. -/
def Account.trade (a : Account K) (q price fee : K) : Account K :=
  if 0 ≤ a.qty * q then
    { a with
      qty := a.qty + q
      entry := (a.qty * a.entry + q * price) / (a.qty + q)
      fees := a.fees + fee }
  else if |q| ≤ |a.qty| then
    { a with
      qty := a.qty + q
      fees := a.fees * (1 - |q| / |a.qty|)
      realized := a.realized - q * (price - a.entry) }
  else
    { qty := a.qty + q
      entry := price
      fees := fee * (|a.qty + q| / |q|)
      realized := a.realized + a.qty * (price - a.entry) }

theorem trade_qty (a : Account K) (q price fee : K) : (a.trade q price fee).qty = a.qty + q := by
  unfold Account.trade
  split_ifs <;> rfl

/-- Buying and selling are one rule. -/
theorem trade_mirror (a : Account K) (q price fee : K) :
    a.mirror.trade (-q) (-price) fee = (a.trade q price fee).mirror := by
  have hsum : -a.qty + -q = -(a.qty + q) := (neg_add a.qty q).symm
  have hentry : (a.qty * a.entry + q * price) / -(a.qty + q) =
      -((a.qty * a.entry + q * price) / (a.qty + q)) := div_neg _
  unfold Account.trade Account.mirror
  simp only [neg_mul_neg, abs_neg, hsum, hentry]
  split_ifs
  · rfl
  · congr 1
    ring
  · congr 1
    ring

variable [IsStrictOrderedRing K]

/-- A trade that does not go against the position does not cancel it. -/
theorem add_ne_zero_of_same {x q : K} (hq : q ≠ 0) (h : 0 ≤ x * q) : x + q ≠ 0 := by
  intro hzero
  have hx : x = -q := eq_neg_of_add_eq_zero_left hzero
  rw [hx] at h
  have hpos : 0 < q * q := mul_self_pos.2 hq
  linarith

/-- What a trade costs is kept in the position or realized. -/
theorem trade_cost (a : Account K) {q : K} (hq : q ≠ 0) (price fee : K) :
    (a.trade q price fee).cost =
      a.cost + q * price + ((a.trade q price fee).realized - a.realized) := by
  unfold Account.trade Account.cost
  split_ifs with hsame hpart
  · have hne := add_ne_zero_of_same hq hsame
    field_simp
    ring
  · ring
  · ring

/-! ## Sequences of trades -/

/-- One trade: signed quantity, price and fee. -/
structure Trade (K : Type) where
  qty : K
  price : K
  fee : K

def run (trades : List (Trade K)) : Account K :=
  trades.foldl (fun a t => a.trade t.qty t.price t.fee) .init

/-- The signed sum of the trades' values. -/
def notional (trades : List (Trade K)) : K := (trades.map fun t => t.qty * t.price).sum

omit [IsStrictOrderedRing K] in
theorem run_append (trades : List (Trade K)) (t : Trade K) :
    run (trades ++ [t]) = (run trades).trade t.qty t.price t.fee := by
  simp [run]

omit [IsStrictOrderedRing K] in
theorem run_qty (trades : List (Trade K)) : (run trades).qty = (trades.map Trade.qty).sum := by
  induction trades using reverseRecOn with
  | nil => rfl
  | append_singleton trades t ih =>
    rw [run_append, trade_qty, ih]
    simp

/-- **The profit of a sequence of trades** is the cost of what is still open less what all trades
cost. -/
theorem realized_eq {trades : List (Trade K)} (h : ∀ t ∈ trades, t.qty ≠ 0) :
    (run trades).cost = notional trades + (run trades).realized := by
  induction trades using reverseRecOn with
  | nil => simp [run, notional, Account.init, Account.cost]
  | append_singleton trades t ih =>
    have hrest := ih fun t ht => h t (mem_append_left _ ht)
    have hlast := h t (mem_append_right _ mem_cons_self)
    rw [run_append, trade_cost _ hlast, hrest]
    simp only [notional, map_append, map_cons, map_nil, sum_append, sum_singleton]
    ring

end AverageCost
