import TrueTest.Orderbook.Book

/-!
# Price-time priority on a flat list

The book without its pointers: the resting orders as one list in arrival order. A side's best
order is the one of best price and, among those, of earliest arrival. Matching trades the best
bid with the best ask while they cross, and a filled order leaves the list.

Every operation of the pointer book computes one of these operations on the list of its live
orders (`TrueTest.Orderbook.Simulation`), so everything about trades is proved here.
-/

namespace TrueTest.Arrival

open List

/-- The order of a side that trades first: best price, then earliest arrival. -/
def best (s : Side) : List Order → Option Order
  | [] => none
  | o :: os =>
    if o.side = s then
      match best s os with
      | some b => if s.before b.price o.price then some b else some o
      | none => some o
    else best s os

/-- The orders after `qty` of order `id` traded; a filled order leaves. -/
def reduce (id qty : Nat) (os : List Order) : List Order :=
  os.filterMap fun o =>
    if o.orderId = id then
      if o.remainingQuantity ≤ qty then none else some (o.less qty)
    else some o

def cancel (id : Nat) (os : List Order) : List Order := os.filter fun o => o.orderId ≠ id

/-- What a bid and an ask trade, each at its own price. -/
def tradeOf (bid ask : Order) : Trade :=
  let qty := min bid.remainingQuantity ask.remainingQuantity
  ⟨⟨bid.orderId, bid.price, qty⟩, ⟨ask.orderId, ask.price, qty⟩⟩

variable (os : List Order)

/-- One trade between the best orders, or `none` when they do not cross. -/
def matchStep : Option (Trade × List Order) :=
  match best .buy os, best .sell os with
  | some bid, some ask =>
    if bid.price < ask.price then none
    else
      let qty := min bid.remainingQuantity ask.remainingQuantity
      some (tradeOf bid ask, reduce ask.orderId qty (reduce bid.orderId qty os))
  | _, _ => none

def matchLoop : Nat → List Order → Trades × List Order
  | 0, os => ([], os)
  | fuel + 1, os =>
    match matchStep os with
    | none => ([], os)
    | some (trade, os) => (trade :: (matchLoop fuel os).1, (matchLoop fuel os).2)

/-- Match until the best orders no longer cross: every trade fills an order. -/
def matchAll : Trades × List Order := matchLoop os.length os

/-- The order types that never rest. -/
def aggressive (o : Order) : Bool :=
  o.orderType = .fillOrKill ∨ o.orderType = .immediateOrCancel

/-- The best order of a side leaves if it is of an aggressive type. -/
def cancelAggressive (s : Side) (os : List Order) : List Order :=
  match best s os with
  | some o => if aggressive o then cancel o.orderId os else os
  | none => os

def matchOrders : Trades × List Order :=
  ((matchAll os).1, cancelAggressive .sell (cancelAggressive .buy (matchAll os).2))

def canMatch (s : Side) (price : Int) (os : List Order) : Bool :=
  match best s.contra os with
  | some o => s.crosses price o.price
  | none => false

/-- The quantity resting against an order of side `s` at `price`. -/
def crossingQty (s : Side) (price : Int) (os : List Order) : Nat :=
  ((os.filter fun o => o.side = s.contra ∧ s.crosses price o.price).map
    Order.remainingQuantity).sum

/-- Whether `add_order` turns an order away: its id is live, or it is a fill-or-kill or
immediate-or-cancel that the book cannot serve. The quantity on offer is summed in 64 bits. -/
def refuses (o : Order) : Prop :=
  o.orderId ∈ os.map Order.orderId ∨
  (o.orderType = .fillOrKill ∧ (canMatch o.side o.price os = false ∨
    crossingQty o.side o.price os % 2 ^ 64 < o.remainingQuantity)) ∨
  (o.orderType = .immediateOrCancel ∧ canMatch o.side o.price os = false)

instance (o : Order) : Decidable (refuses os o) := by
  unfold refuses; infer_instance

def add (o : Order) (os : List Order) : Trades × List Order :=
  if refuses os o then ([], os) else matchOrders (os ++ [o])

def lookup (id : Nat) (os : List Order) : Option Order := os.find? fun o => o.orderId = id

/-- `match_order`: cancel, then add again at the back under the old type. -/
def matchOrder (m : OrderModify) (os : List Order) : Trades × List Order :=
  match lookup m.orderId os with
  | none => ([], os)
  | some o =>
    add (Order.new o.orderType m.orderId m.side m.price m.quantity) (cancel m.orderId os)

/-- `modify_order`: cancel, then put back at the back; nothing is matched. -/
def modifyOrder (id : Nat) (price : Int) (qty : Nat) (os : List Order) : List Order :=
  match lookup id os with
  | none => os
  | some o => cancel id os ++ [Order.new o.orderType id o.side price qty]

/-- The quantity a trade list executed for one order. -/
def executed (ts : Trades) (id : Nat) : Nat :=
  (ts.map fun t => (if t.bidTrade.orderId = id then t.bidTrade.quantity else 0) +
    if t.askTrade.orderId = id then t.askTrade.quantity else 0).sum

/-- The ids of the list are distinct. -/
def IdsNodup : Prop := (os.map Order.orderId).Nodup

/-- Every bid is priced below every ask. -/
def Uncrossed : Prop :=
  ∀ b ∈ os, ∀ a ∈ os, b.side = .buy → a.side = .sell → b.price < a.price

variable {s : Side} {o x : Order} {os pre post os' : List Order} {id qty fuel : Nat} {t : Trade}

@[simp] theorem executed_nil (id : Nat) : executed [] id = 0 := rfl

theorem executed_cons (t : Trade) (ts : Trades) (id : Nat) :
    executed (t :: ts) id = ((if t.bidTrade.orderId = id then t.bidTrade.quantity else 0) +
      if t.askTrade.orderId = id then t.askTrade.quantity else 0) + executed ts id := by
  simp [executed]

theorem executed_append (ts us : Trades) (id : Nat) :
    executed (ts ++ us) id = executed ts id + executed us id := by
  simp [executed]

theorem executed_eq_zero {ts : Trades}
    (h : ∀ t ∈ ts, t.bidTrade.orderId ≠ id ∧ t.askTrade.orderId ≠ id) : executed ts id = 0 := by
  induction ts with
  | nil => rfl
  | cons t ts ih =>
    obtain ⟨ht, hts⟩ := forall_mem_cons.1 h
    rw [executed_cons, if_neg ht.1, if_neg ht.2, ih hts]

/-! ## The best order -/

theorem best_eq_none_iff : best s os = none ↔ ∀ x ∈ os, x.side ≠ s := by
  induction os with
  | nil => simp [best]
  | cons y os ih =>
    rw [best, forall_mem_cons, ← ih]
    by_cases hy : y.side = s
    · cases hb : best s os with
      | none => simp [hy]
      | some b => by_cases hlt : s.before b.price y.price <;> simp [hy, hlt]
    · simp [hy]

section

variable (h : best s os = some o)
include h

/-- The best order splits the list: the orders of its side before it are priced worse, those
after it not better. -/
theorem best_split : ∃ pre post, os = pre ++ o :: post ∧ o.side = s ∧
    (∀ x ∈ pre, x.side = s → s.before o.price x.price) ∧
    ∀ x ∈ post, x.side = s → ¬ s.before x.price o.price := by
  induction os generalizing o with
  | nil => cases h
  | cons y os ih =>
    rw [best] at h
    by_cases hy : y.side = s
    · rw [if_pos hy] at h
      cases hb : best s os with
      | none =>
        rw [hb] at h
        cases h
        exact ⟨[], os, rfl, hy, by simp, fun x hx hxs => absurd hxs (best_eq_none_iff.1 hb x hx)⟩
      | some b =>
        rw [hb] at h
        dsimp only at h
        obtain ⟨pre, post, rfl, hbs, hpre, hpost⟩ := ih hb
        by_cases hlt : s.before b.price y.price
        · rw [if_pos hlt] at h
          cases h
          refine ⟨y :: pre, post, rfl, hbs, fun x hx => ?_, hpost⟩
          rcases mem_cons.1 hx with rfl | hx
          · exact fun _ => hlt
          · exact hpre x hx
        · rw [if_neg hlt] at h
          cases h
          refine ⟨[], pre ++ b :: post, rfl, hy, by simp, fun x hx hxs hxy => hlt ?_⟩
          rw [mem_append, mem_cons] at hx
          rcases hx with hx | rfl | hx
          · exact Side.before_trans (hpre x hx hxs) hxy
          · exact hxy
          · exact Side.before_of_not_of_before (hpost x hx hxs) hxy
    · rw [if_neg hy] at h
      obtain ⟨pre, post, rfl, hos, hpre, hpost⟩ := ih h
      refine ⟨y :: pre, post, rfl, hos, fun x hx hxs => ?_, hpost⟩
      rcases mem_cons.1 hx with rfl | hx
      · exact absurd hxs hy
      · exact hpre x hx hxs

theorem best_mem : o ∈ os := by
  obtain ⟨pre, post, rfl, -⟩ := best_split h
  simp

theorem best_side : o.side = s := by
  obtain ⟨-, -, -, ho, -⟩ := best_split h
  exact ho

/-- No order of the side is priced better. -/
theorem best_le (hx : x ∈ os) (hxs : x.side = s) : ¬ s.before x.price o.price := by
  obtain ⟨pre, post, rfl, -, hpre, hpost⟩ := best_split h
  rw [mem_append, mem_cons] at hx
  rcases hx with hx | rfl | hx
  · exact fun hlt => Side.before_irrefl (Side.before_trans hlt (hpre x hx hxs))
  · exact Side.before_irrefl
  · exact hpost x hx hxs

end

theorem best_append_cons (ho : o.side = s) (hpre : ∀ x ∈ pre, x.side = s → s.before o.price x.price)
    (hpost : ∀ x ∈ post, x.side = s → ¬ s.before x.price o.price) :
    best s (pre ++ o :: post) = some o := by
  induction pre with
  | nil =>
    rw [nil_append, best, if_pos ho]
    cases hb : best s post with
    | none => rfl
    | some b => exact if_neg (hpost b (best_mem hb) (best_side hb))
  | cons x pre ih =>
    have hrest := ih fun y hy => hpre y (mem_cons_of_mem _ hy)
    rw [cons_append, best]
    split_ifs with hx
    · rw [hrest]
      exact if_pos (hpre x mem_cons_self hx)
    · rw [hrest]

/-! ## Crossing -/

theorem matchStep_eq_none_iff : matchStep os = none ↔ Uncrossed os := by
  unfold matchStep
  cases hb : best .buy os with
  | none =>
    refine iff_of_true rfl fun b hbm a _ hbs _ => ?_
    exact absurd hbs (best_eq_none_iff.1 hb b hbm)
  | some bid =>
    cases ha : best .sell os with
    | none =>
      refine iff_of_true rfl fun b _ a ham _ has => ?_
      exact absurd has (best_eq_none_iff.1 ha a ham)
    | some ask =>
      dsimp only
      constructor
      · intro h b hbm a ham hbs has
        have hlt : bid.price < ask.price := by
          by_contra hc
          rw [if_neg hc] at h
          cases h
        have h₁ : ¬ b.price > bid.price := best_le hb hbm hbs
        have h₂ : ¬ a.price < ask.price := best_le ha ham has
        omega
      · intro h
        exact if_pos (h bid (best_mem hb) ask (best_mem ha) (best_side hb) (best_side ha))

theorem canMatch_eq_false_iff {price : Int} : canMatch s price os = false ↔
    ∀ x ∈ os, x.side = s.contra → ¬ s.crosses price x.price := by
  unfold canMatch
  cases hb : best s.contra os with
  | none =>
    refine iff_of_true rfl fun x hx hxs => absurd hxs (best_eq_none_iff.1 hb x hx)
  | some b =>
    rw [decide_eq_false_iff_not]
    constructor
    · intro h x hx hxs hc
      exact h (Side.crosses_of_not_before (best_le hb hx hxs) hc)
    · intro h
      exact h b (best_mem hb) (best_side hb)

/-! ## The matching loop -/

theorem length_reduce_le (id qty : Nat) (os : List Order) : (reduce id qty os).length ≤ os.length :=
  length_filterMap_le _ _

theorem length_reduce_lt (ho : o ∈ os) (hid : o.orderId = id) (hq : o.remainingQuantity ≤ qty) :
    (reduce id qty os).length < os.length := by
  obtain ⟨pre, post, rfl⟩ := append_of_mem ho
  have h₁ := length_reduce_le id qty pre
  have h₂ := length_reduce_le id qty post
  unfold reduce at h₁ h₂ ⊢
  rw [filterMap_append, filterMap_cons_none (by rw [if_pos hid, if_pos hq])]
  simp only [length_append, length_cons]
  omega

theorem mem_reduce_of_ne (hx : x ∈ os) (hid : x.orderId ≠ id) : x ∈ reduce id qty os :=
  mem_filterMap.2 ⟨x, hx, if_neg hid⟩

/-- One iteration: a crossing best bid and best ask, and what their trade leaves. -/
theorem matchStep_eq_some (h : matchStep os = some (t, os')) :
    ∃ bid ask, best .buy os = some bid ∧ best .sell os = some ask ∧ ask.price ≤ bid.price ∧
      t = tradeOf bid ask ∧ os' = reduce ask.orderId t.askTrade.quantity
        (reduce bid.orderId t.bidTrade.quantity os) := by
  unfold matchStep at h
  cases hb : best .buy os with
  | none => rw [hb] at h; cases h
  | some bid =>
    cases ha : best .sell os with
    | none => rw [hb, ha] at h; cases h
    | some ask =>
      rw [hb, ha] at h
      dsimp only at h
      by_cases hlt : bid.price < ask.price
      · rw [if_pos hlt] at h; cases h
      · rw [if_neg hlt] at h
        cases h
        exact ⟨bid, ask, rfl, rfl, Int.not_lt.1 hlt, rfl, rfl⟩

/-- Every trade fills an order, so the list gets shorter. -/
theorem matchStep_length_lt (h : matchStep os = some (t, os')) : os'.length < os.length := by
  obtain ⟨bid, ask, hb, ha, -, rfl, rfl⟩ := matchStep_eq_some h
  by_cases hle : bid.remainingQuantity ≤ ask.remainingQuantity
  · refine (length_reduce_le _ _ _).trans_lt (length_reduce_lt (best_mem hb) rfl ?_)
    exact le_min le_rfl hle
  · have hask : ask.remainingQuantity ≤ min bid.remainingQuantity ask.remainingQuantity :=
      le_min (Nat.le_of_not_le hle) le_rfl
    by_cases hid : ask.orderId = bid.orderId
    · exact (length_reduce_le _ _ _).trans_lt (length_reduce_lt (best_mem ha) hid hask)
    · exact (length_reduce_lt (mem_reduce_of_ne (best_mem ha) hid) rfl hask).trans_le
        (length_reduce_le _ _ _)

theorem matchLoop_of_none (h : matchStep os = none) : matchLoop fuel os = ([], os) := by
  cases fuel with
  | zero => rfl
  | succ fuel => rw [matchLoop, h]

theorem matchLoop_of_some (h : matchStep os = some (t, os')) :
    matchLoop (fuel + 1) os = (t :: (matchLoop fuel os').1, (matchLoop fuel os').2) := by
  rw [matchLoop, h]

/-- Fuel past the number of orders changes nothing. -/
theorem matchLoop_eq_matchAll (h : os.length ≤ fuel) : matchLoop fuel os = matchAll os := by
  suffices hstable : ∀ k fuel (os : List Order), os.length ≤ fuel →
      matchLoop (fuel + k) os = matchLoop fuel os by
    obtain ⟨k, rfl⟩ := Nat.exists_eq_add_of_le h
    exact hstable k os.length os le_rfl
  intro k fuel
  induction fuel with
  | zero =>
    intro os hlen
    rw [length_eq_zero_iff.1 (Nat.le_zero.1 hlen)]
    exact (matchLoop_of_none rfl).trans (matchLoop_of_none rfl).symm
  | succ fuel ih =>
    intro os hlen
    cases hstep : matchStep os with
    | none => rw [matchLoop_of_none hstep, matchLoop_of_none hstep]
    | some r =>
      obtain ⟨t, os'⟩ := r
      have hlt := matchStep_length_lt hstep
      rw [Nat.add_right_comm, matchLoop_of_some hstep, matchLoop_of_some hstep, ih os' (by omega)]

/-- The unfolding of `matchAll` at a trade. -/
theorem matchAll_of_some (h : matchStep os = some (t, os')) :
    matchAll os = (t :: (matchAll os').1, (matchAll os').2) := by
  have hlt := matchStep_length_lt h
  rw [← matchLoop_eq_matchAll (Nat.le_succ os.length), matchLoop_of_some h,
    matchLoop_eq_matchAll hlt.le]

/-- Induction along the trades of `matchAll`. -/
theorem matchAll_induction {P : List Order → Prop} (stop : ∀ os, matchStep os = none → P os)
    (step : ∀ os t os', matchStep os = some (t, os') → P os' → P os) (os : List Order) : P os := by
  induction hn : os.length using Nat.strong_induction_on generalizing os with
  | _ n ih =>
    cases hstep : matchStep os with
    | none => exact stop os hstep
    | some r =>
      exact step os r.1 r.2 hstep (ih _ (hn ▸ matchStep_length_lt hstep) r.2 rfl)

theorem uncrossed_matchAll (os : List Order) : Uncrossed (matchAll os).2 := by
  induction os using matchAll_induction with
  | stop os h =>
    rw [matchAll, matchLoop_of_none h]
    exact matchStep_eq_none_iff.1 h
  | step os t os' h ih =>
    rw [matchAll_of_some h]
    exact ih

/-! ## Distinct ids -/

theorem mem_reduce (hx : x ∈ reduce id qty os) :
    ∃ y ∈ os, (y.orderId ≠ id ∧ x = y) ∨
      (y.orderId = id ∧ qty < y.remainingQuantity ∧ x = y.less qty) := by
  obtain ⟨y, hy, he⟩ := mem_filterMap.1 hx
  refine ⟨y, hy, ?_⟩
  by_cases hid : y.orderId = id
  · rw [if_pos hid] at he
    by_cases hq : y.remainingQuantity ≤ qty
    · rw [if_pos hq] at he; cases he
    · rw [if_neg hq] at he
      exact .inr ⟨hid, Nat.lt_of_not_le hq, (Option.some.inj he).symm⟩
  · rw [if_neg hid] at he
    exact .inl ⟨hid, (Option.some.inj he).symm⟩

/-- The ids left are a sublist of the ids before. -/
theorem map_orderId_reduce (id qty : Nat) (os : List Order) :
    ((reduce id qty os).map Order.orderId).Sublist (os.map Order.orderId) := by
  induction os with
  | nil => exact .slnil
  | cons y os ih =>
    unfold reduce at ih ⊢
    rw [filterMap_cons]
    split
    · exact ih.cons _
    · rename_i z hz
      have hid : z.orderId = y.orderId := by
        split_ifs at hz <;> cases hz <;> rfl
      rw [map_cons, map_cons, hid]
      exact ih.cons_cons _

theorem IdsNodup.reduce (h : IdsNodup os) (id qty : Nat) : IdsNodup (reduce id qty os) :=
  h.sublist (map_orderId_reduce id qty os)

theorem IdsNodup.cancel (h : IdsNodup os) (id : Nat) : IdsNodup (cancel id os) :=
  h.sublist (filter_sublist.map _)

end TrueTest.Arrival
