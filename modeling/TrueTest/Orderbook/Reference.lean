import TrueTest.Orderbook.Invariant

/-!
# The naive price-time reference

The book matches by inserting the aggressor and looping over the two best levels, and cleans up by
looking at the best order of each side. The reference does what a reader of an exchange rulebook
expects: an incoming order walks the contra orders, best price first and then earliest arrival,
and its remainder rests if it is good till cancel.

The two agree because a book that only ever took orders through `add_order` is uncrossed and holds
no fill-or-kill or immediate-or-cancel order (`Quiet`): an aggressor that crosses is then strictly
better than every order of its side, so the loop trades it until it is done or no longer crosses.
-/

namespace TrueTest.Reference

open Arrival List
open Orderbook (Request)

/-- The trade of an incoming order with a resting one. -/
def trade (incoming resting : Order) : Trade :=
  match incoming.side with
  | .buy => tradeOf incoming resting
  | .sell => tradeOf resting incoming

/-- Trade with the best contra order while it crosses: the trades, what is left of the incoming
order, and the resting orders. Every trade but the last fills a resting order. -/
def walk : Nat → Order → List Order → Trades × Option Order × List Order
  | 0, o, os => ([], some o, os)
  | fuel + 1, o, os =>
    match best o.side.contra os with
    | none => ([], some o, os)
    | some c =>
      if o.side.crosses o.price c.price then
        let qty := min o.remainingQuantity c.remainingQuantity
        let os := reduce c.orderId qty os
        if o.remainingQuantity ≤ qty then ([trade o c], none, os)
        else (trade o c :: (walk fuel (o.less qty) os).1, (walk fuel (o.less qty) os).2)
      else ([], some o, os)

def add (o : Order) (os : List Order) : Trades × List Order :=
  if o.orderId ∈ os.map Order.orderId then ([], os)
  else if o.orderType = .fillOrKill ∧ crossingQty o.side o.price os < o.remainingQuantity then
    ([], os)
  else
    let r := walk os.length o os
    (r.1, r.2.2 ++ if o.orderType = .goodTillCancel then r.2.1.toList else [])

def handle (os : List Order) : Request → Trades × List Order
  | .add type id s price qty => add (Order.new type id s price qty) os
  | .cancel id => ([], cancel id os)
  | .matchOrder m =>
    match lookup m.orderId os with
    | none => ([], os)
    | some o =>
      add (Order.new o.orderType m.orderId m.side m.price m.quantity) (cancel m.orderId os)
  | .clear => ([], [])

/-- Uncrossed, and everything that rests is good till cancel. -/
structure Quiet (os : List Order) : Prop where
  uncrossed : Uncrossed os
  gtc : ∀ o ∈ os, o.orderType = .goodTillCancel

variable {s : Side} {o x c : Order} {os os' : List Order} {id qty fuel : Nat}

/-! ## Reducing -/

theorem reduce_of_not_mem (h : id ∉ os.map Order.orderId) : reduce id qty os = os := by
  conv_rhs => rw [← filterMap_some (l := os)]
  refine filterMap_congr fun y hy => if_neg fun he => h ?_
  rw [← he]
  exact mem_map_of_mem hy

theorem reduce_append (os os' : List Order) :
    reduce id qty (os ++ os') = reduce id qty os ++ reduce id qty os' :=
  filterMap_append

theorem reduce_singleton (o : Order) : reduce o.orderId qty [o] =
    if o.remainingQuantity ≤ qty then [] else [o.less qty] := by
  unfold reduce
  by_cases h : o.remainingQuantity ≤ qty <;> simp [h]

/-- What is left of an order keeps its id, side, price and type. -/
theorem mem_reduce_fields (hx : x ∈ reduce id qty os) : ∃ y ∈ os, x.orderId = y.orderId ∧
    x.side = y.side ∧ x.price = y.price ∧ x.orderType = y.orderType := by
  obtain ⟨y, hy, ⟨-, rfl⟩ | ⟨-, -, rfl⟩⟩ := mem_reduce hx
  · exact ⟨x, hy, rfl, rfl, rfl, rfl⟩
  · exact ⟨y, hy, rfl, rfl, rfl, rfl⟩

/-! ## Quiet lists -/

theorem Uncrossed.of_fields (h : Uncrossed os)
    (hsub : ∀ x ∈ os', ∃ y ∈ os, x.side = y.side ∧ x.price = y.price) : Uncrossed os' := by
  intro b hb a ha hbs has
  obtain ⟨b', hb', hbs', hbp⟩ := hsub b hb
  obtain ⟨a', ha', has', hap⟩ := hsub a ha
  rw [hbp, hap]
  exact h b' hb' a' ha' (hbs'.symm.trans hbs) (has'.symm.trans has)

theorem Uncrossed.reduce (h : Uncrossed os) (id qty : Nat) : Uncrossed (reduce id qty os) :=
  Uncrossed.of_fields h fun x hx => by
    obtain ⟨y, hy, -, hs, hp, -⟩ := mem_reduce_fields hx
    exact ⟨y, hy, hs, hp⟩

theorem Quiet.of_fields (h : Quiet os)
    (hsub : ∀ x ∈ os', ∃ y ∈ os, x.side = y.side ∧ x.price = y.price ∧
      x.orderType = y.orderType) :
    Quiet os' where
  uncrossed := by
    refine Uncrossed.of_fields h.uncrossed fun x hx => ?_
    obtain ⟨y, hy, hs, hp, -⟩ := hsub x hx
    exact ⟨y, hy, hs, hp⟩
  gtc := by
    intro x hx
    obtain ⟨y, hy, -, -, ht⟩ := hsub x hx
    rw [ht]
    exact h.gtc y hy

theorem Quiet.cancel (h : Quiet os) : Quiet (cancel id os) :=
  h.of_fields fun x hx => ⟨x, (mem_filter.1 hx).1, rfl, rfl, rfl⟩

theorem quiet_nil : Quiet [] := ⟨nofun, fun _ ho =>
  absurd ho not_mem_nil⟩

/-- Appending an order that crosses nothing. -/
theorem Uncrossed.append (h : Uncrossed os) (hc : canMatch o.side o.price os = false) :
    Uncrossed (os ++ [o]) := by
  rw [canMatch_eq_false_iff] at hc
  intro b hb a ha hbs has
  rw [mem_append, mem_singleton] at hb ha
  rcases hb with hb | rfl <;> rcases ha with ha | rfl
  · exact h b hb a ha hbs has
  · have := hc b hb (by rw [has]; exact hbs)
    rw [has] at this
    exact Int.not_le.1 this
  · have := hc a ha (by rw [hbs]; exact has)
    rw [hbs] at this
    exact Int.not_le.1 this
  · rw [hbs] at has; cases has

/-- In an uncrossed list an order that crosses is better than every order of its side. -/
theorem Uncrossed.before_of_crosses (h : Uncrossed os) (hc : c ∈ os) (hcs : c.side = o.side.contra)
    (hx : o.side.crosses o.price c.price) : ∀ y ∈ os, y.side = o.side →
    o.side.before o.price y.price := by
  intro y hy hys
  cases hs : o.side with
  | buy =>
    rw [hs] at hcs hx hys
    have hlt := h y hy c hc hys hcs
    exact lt_of_lt_of_le hlt hx
  | sell =>
    rw [hs] at hcs hx hys
    have hlt := h c hc y hy hcs hys
    exact lt_of_le_of_lt hx hlt

/-! ## The incoming order in the loop -/

theorem best_append_of_ne (h : o.side ≠ s) : best s (os ++ [o]) = best s os := by
  induction os with
  | nil => simp [best, h]
  | cons y os ih => rw [cons_append, best, best, ih]

theorem best_append_self (ho : o.side = s)
    (h : ∀ y ∈ os, y.side = s → s.before o.price y.price) : best s (os ++ [o]) = some o :=
  best_append_cons ho h nofun

/-- One step of the loop is one trade of the incoming order. -/
theorem matchStep_incoming (hun : Uncrossed os) (hfresh : o.orderId ∉ os.map Order.orderId)
    (hc : best o.side.contra os = some c) (hx : o.side.crosses o.price c.price)
    (hq : qty = min o.remainingQuantity c.remainingQuantity) :
    matchStep (os ++ [o]) = some (trade o c,
      reduce c.orderId qty os ++ if o.remainingQuantity ≤ qty then [] else [o.less qty]) := by
  have hcm := best_mem hc
  have hne : c.orderId ≠ o.orderId := fun he => hfresh (he ▸ mem_map_of_mem hcm)
  have hself : best o.side (os ++ [o]) = some o :=
    best_append_self rfl (Uncrossed.before_of_crosses hun hcm (best_side hc) hx)
  have hcontra : best o.side.contra (os ++ [o]) = some c := by
    rw [best_append_of_ne (Side.contra_ne _).symm, hc]
  -- The two reductions act on the two parts of the list.
  have hrest : ∀ p, reduce c.orderId p (if o.remainingQuantity ≤ qty then [] else [o.less qty]) =
      if o.remainingQuantity ≤ qty then [] else [o.less qty] := fun p => by
    refine reduce_of_not_mem ?_
    split_ifs
    · exact not_mem_nil
    · simpa using hne
  have ho : reduce o.orderId qty (os ++ [o]) =
      os ++ if o.remainingQuantity ≤ qty then [] else [o.less qty] := by
    rw [reduce_append, reduce_of_not_mem hfresh, reduce_singleton]
  have hreduce : reduce o.orderId qty (reduce c.orderId qty os) = reduce c.orderId qty os := by
    refine reduce_of_not_mem fun hm => hfresh ?_
    exact (map_orderId_reduce _ _ _).subset hm
  have hsingle : reduce c.orderId qty [o] = [o] :=
    reduce_of_not_mem (by simpa using hne)
  unfold matchStep trade
  cases hs : o.side with
  | buy =>
    rw [hs] at hself hcontra hx
    rw [hself, show best .sell (os ++ [o]) = some c from hcontra]
    dsimp only
    rw [if_neg (Int.not_lt.2 hx), ← hq, ho, reduce_append, hrest]
  | sell =>
    rw [hs] at hself hcontra hx
    rw [hself, show best .buy (os ++ [o]) = some c from hcontra]
    dsimp only
    rw [if_neg (Int.not_lt.2 hx), min_comm, ← hq, reduce_append, hsingle, reduce_append,
      hreduce, reduce_singleton]

/-- The loop on a list with an incoming order at its end is the reference's walk. -/
theorem matchAll_incoming (hun : Uncrossed os)
    (hfresh : o.orderId ∉ os.map Order.orderId) (hfuel : os.length ≤ fuel) :
    matchAll (os ++ [o]) =
      ((walk fuel o os).1, (walk fuel o os).2.2 ++ (walk fuel o os).2.1.toList) := by
  have hstop : canMatch o.side o.price os = false → matchAll (os ++ [o]) = ([], os ++ [o]) :=
    fun hc => matchLoop_of_none (matchStep_eq_none_iff.2 (Uncrossed.append hun hc))
  fun_induction walk fuel o os with
  | case1 o os =>
    refine hstop ?_
    rw [length_eq_zero_iff.1 (Nat.le_zero.1 hfuel)]
    rfl
  | case2 fuel o os hc => exact hstop (by rw [canMatch, hc])
  | case3 fuel o os c hc hx qty rest hfill =>
    rw [matchAll_of_some (matchStep_incoming hun hfresh hc hx rfl), if_pos hfill, append_nil,
      matchAll, matchLoop_of_none (matchStep_eq_none_iff.2 (Uncrossed.reduce hun _ _))]
    simp [rest, qty]
  | case4 fuel o os c hc hx qty rest hfill ih =>
    -- The resting order was filled, so the list got shorter.
    have hcq : c.remainingQuantity ≤ qty := by omega
    have hlen : rest.length < os.length := length_reduce_lt (best_mem hc) rfl hcq
    have hun' : Uncrossed rest := Uncrossed.reduce hun _ _
    have hfresh' : (o.less qty).orderId ∉ rest.map Order.orderId :=
      fun hm => hfresh ((map_orderId_reduce _ _ _).subset hm)
    rw [matchAll_of_some (matchStep_incoming hun hfresh hc hx rfl), if_neg hfill,
      ih hun' hfresh' (by omega) fun hc' =>
        matchLoop_of_none (matchStep_eq_none_iff.2 (Uncrossed.append hun' hc'))]
  | case5 fuel o os c hc hx => exact hstop (by rw [canMatch, hc]; exact decide_eq_false hx)

/-- What the walk leaves in the book are orders that were there. -/
theorem mem_walk (hx : x ∈ (walk fuel o os).2.2) : ∃ y ∈ os,
    x.orderId = y.orderId ∧ x.side = y.side ∧ x.price = y.price ∧ x.orderType = y.orderType := by
  fun_induction walk fuel o os with
  | case1 | case2 | case5 => exact ⟨x, hx, rfl, rfl, rfl, rfl⟩
  | case3 => exact mem_reduce_fields hx
  | case4 fuel o os c hc hcross qty rest hfill ih =>
    obtain ⟨y, hy, hi, hs, hp, ht⟩ := ih hx
    obtain ⟨z, hz, hi', hs', hp', ht'⟩ := mem_reduce_fields hy
    exact ⟨z, hz, hi.trans hi', hs.trans hs', hp.trans hp', ht.trans ht'⟩

/-- What the walk leaves of the incoming order is that order with less remaining. -/
theorem walk_remainder (hx : (walk fuel o os).2.1 = some x) :
    x.orderId = o.orderId ∧ x.side = o.side ∧ x.price = o.price ∧ x.orderType = o.orderType := by
  fun_induction walk fuel o os with
  | case1 | case2 | case5 => cases hx; exact ⟨rfl, rfl, rfl, rfl⟩
  | case3 => cases hx
  | case4 fuel o os c hc hcross qty rest hfill ih => exact ih hx

/-! ## Cleaning up -/

theorem aggressive_eq_false_iff : aggressive o = false ↔ o.orderType = .goodTillCancel := by
  unfold aggressive
  cases o.orderType <;> simp

theorem cancelAggressive_of_gtc
    (h : ∀ y ∈ os, y.side = s → y.orderType = .goodTillCancel) : cancelAggressive s os = os := by
  unfold cancelAggressive
  cases hb : best s os with
  | none => rfl
  | some b =>
    have hgtc := aggressive_eq_false_iff.2 (h b (best_mem hb) (best_side hb))
    simp [hgtc]

/-- An aggressive order at the end that is better than its side is what gets cancelled. -/
theorem cancelAggressive_last (hx : aggressive x = true) (hfresh : x.orderId ∉ os.map Order.orderId)
    (hbest : ∀ y ∈ os, y.side = x.side → x.side.before x.price y.price) :
    cancelAggressive x.side (os ++ [x]) = os := by
  rw [cancelAggressive, best_append_self rfl hbest]
  dsimp only
  rw [if_pos hx, cancel, filter_append, filter_singleton]
  have hself : cancel x.orderId os = os := Orderbook.cancel_of_not_mem hfresh
  rw [cancel] at hself
  rw [hself]
  simp

/-- `match_orders` after an order was appended to a quiet list. -/
theorem matchOrders_incoming (hquiet : Quiet os) (hfresh : o.orderId ∉ os.map Order.orderId)
    (hacc : o.orderType = .goodTillCancel ∨ canMatch o.side o.price os = true) :
    matchOrders (os ++ [o]) = ((walk os.length o os).1, (walk os.length o os).2.2 ++
      if o.orderType = .goodTillCancel then (walk os.length o os).2.1.toList else []) := by
  rw [matchOrders, matchAll_incoming hquiet.uncrossed hfresh le_rfl]
  set w := walk os.length o os
  have hgtc : ∀ y ∈ w.2.2, y.orderType = .goodTillCancel := fun y hy => by
    obtain ⟨z, hz, -, -, -, ht⟩ := mem_walk hy
    rw [ht]; exact hquiet.gtc z hz
  congr 1
  cases hrem : w.2.1 with
  | none =>
    simp only [Option.toList_none, append_nil, ite_self]
    rw [cancelAggressive_of_gtc fun y hy _ => hgtc y hy,
      cancelAggressive_of_gtc fun y hy _ => hgtc y hy]
  | some x =>
    obtain ⟨hxi, hxs, hxp, hxt⟩ := walk_remainder hrem
    simp only [Option.toList_some]
    split_ifs with ho
    · have hall : ∀ y ∈ w.2.2 ++ [x], y.orderType = .goodTillCancel :=
        forall_mem_append.2 ⟨hgtc, forall_mem_singleton.2 (hxt.trans ho)⟩
      rw [cancelAggressive_of_gtc fun y hy _ => hall y hy,
        cancelAggressive_of_gtc fun y hy _ => hall y hy]
    · rw [append_nil]
      -- The order crossed, so its remainder is the best of its side.
      have hagg : aggressive x = true := by
        rw [← Bool.not_eq_false, aggressive_eq_false_iff, hxt]; exact ho
      have hfresh' : x.orderId ∉ w.2.2.map Order.orderId := fun hm => by
        obtain ⟨y, hy, he⟩ := mem_map.1 hm
        obtain ⟨z, hz, hzi, -⟩ := mem_walk hy
        rw [hxi] at he
        exact hfresh (by rw [← he, hzi]; exact mem_map_of_mem hz)
      have hbetter : ∀ y ∈ w.2.2, y.side = x.side → x.side.before x.price y.price := by
        intro y hy hys
        obtain ⟨z, hz, -, hzs, hzp, -⟩ := mem_walk hy
        obtain ⟨c, hc, hcs, hcx⟩ :
            ∃ c ∈ os, c.side = o.side.contra ∧ o.side.crosses o.price c.price := by
          have hcan := hacc.resolve_left ho
          by_contra hno
          have : canMatch o.side o.price os = false := canMatch_eq_false_iff.2 fun y hy hys hyx =>
            hno ⟨y, hy, hys, hyx⟩
          rw [hcan] at this
          cases this
        rw [hxs, hxp, hzp]
        exact Uncrossed.before_of_crosses hquiet.uncrossed hc hcs hcx z hz
          (hzs.symm.trans (hys.trans hxs))
      have hlast := cancelAggressive_last hagg hfresh' hbetter
      cases hside : x.side with
      | buy =>
        rw [hside] at hlast
        rw [hlast, cancelAggressive_of_gtc fun y hy _ => hgtc y hy]
      | sell =>
        rw [hside] at hlast
        have hbuy : cancelAggressive .buy (w.2.2 ++ [x]) = w.2.2 ++ [x] := by
          refine cancelAggressive_of_gtc fun y hy hys => ?_
          rcases mem_append.1 hy with hy | hy
          · exact hgtc y hy
          · rw [mem_singleton.1 hy, hside] at hys; cases hys
        rw [hbuy, hlast]

/-! ## Adding -/

/-- The 64-bit sum of the crossing quantity decides a fill-or-kill as the true sum does. -/
def FokExact (os : List Order) (o : Order) : Prop :=
  o.orderType = .fillOrKill → o.orderId ∉ os.map Order.orderId →
    o.remainingQuantity ≤ crossingQty o.side o.price os →
      o.remainingQuantity ≤ crossingQty o.side o.price os % 2 ^ 64

theorem walk_of_not_canMatch (h : canMatch o.side o.price os = false) :
    walk fuel o os = ([], some o, os) := by
  fun_cases walk fuel o os with
  | case1 | case2 | case5 => rfl
  | case3 fuel _ _ c hc hx | case4 fuel _ _ c hc hx => simp [canMatch, hc, hx] at h

/-- On a quiet list `add_order` is the reference's. -/
theorem add_eq (hquiet : Quiet os) (hfok : FokExact os o) : Arrival.add o os = add o os := by
  rw [Arrival.add, add]
  by_cases hdup : o.orderId ∈ os.map Order.orderId
  · rw [if_pos hdup, if_pos (.inl hdup)]
  rw [if_neg hdup]
  cases hcan : canMatch o.side o.price os with
  | false =>
    -- Nothing crosses: the walk is empty and only a good-till-cancel order rests.
    rw [walk_of_not_canMatch hcan]
    cases htype : o.orderType with
    | goodTillCancel =>
      rw [if_neg (by simp [refuses, hdup, htype]), if_neg (by simp),
        matchOrders_incoming hquiet hdup (.inl htype), walk_of_not_canMatch hcan, if_pos htype]
      rfl
    | fillOrKill =>
      rw [if_pos (.inr (.inl ⟨htype, .inl hcan⟩))]
      by_cases hlt : crossingQty o.side o.price os < o.remainingQuantity
      · rw [if_pos ⟨rfl, hlt⟩]
      · rw [if_neg fun hc => hlt hc.2]
        simp
    | immediateOrCancel =>
      rw [if_pos (.inr (.inr ⟨htype, hcan⟩)), if_neg (by simp)]
      simp
  | true =>
    have hrefuse : refuses os o ↔
        o.orderType = .fillOrKill ∧ crossingQty o.side o.price os < o.remainingQuantity := by
      unfold refuses
      rw [hcan]
      simp only [hdup, Bool.true_eq_false, false_or, and_false, or_false]
      refine and_congr_right fun htype => ?_
      constructor
      · intro hlt
        by_contra hge
        have := hfok htype hdup (Nat.le_of_not_lt hge)
        omega
      · exact fun hlt => (Nat.mod_le _ _).trans_lt hlt
    by_cases href : refuses os o
    · rw [if_pos href, if_pos (hrefuse.1 href)]
    · rw [if_neg href, if_neg fun h => href (hrefuse.2 h),
        matchOrders_incoming hquiet hdup (.inr hcan)]

/-- A fill-or-kill that the 64-bit sum turns away although enough rests trades in the reference
and not in the book. -/
theorem add_ne_of_not_fokExact (h : ¬ FokExact os o) :
    (Arrival.add o os).1 = [] ∧ (add o os).1 ≠ [] := by
  simp only [FokExact, Classical.not_imp, Nat.not_le] at h
  obtain ⟨htype, hdup, hle, hlt⟩ := h
  have hcan : canMatch o.side o.price os = true := by
    by_contra hno
    have hnone := canMatch_eq_false_iff.1 (Bool.not_eq_true _ ▸ hno)
    have hempty :
        (os.filter fun y => y.side = o.side.contra ∧ o.side.crosses o.price y.price) = [] :=
      filter_eq_nil_iff.2 fun y hy hc => hnone y hy
        (of_decide_eq_true hc).1 (of_decide_eq_true hc).2
    rw [crossingQty, hempty] at hle hlt
    simp at hle hlt
    omega
  constructor
  · rw [Arrival.add, if_pos (.inr (.inl ⟨htype, .inr hlt⟩))]
  · rw [add, if_neg hdup, if_neg fun hc => absurd hle (Nat.not_le.2 hc.2)]
    cases hc : best o.side.contra os with
    | none => rw [canMatch, hc] at hcan; cases hcan
    | some c =>
      rw [canMatch, hc] at hcan
      obtain ⟨k, hk⟩ := Nat.exists_eq_add_one.2 (length_pos_of_mem (best_mem hc))
      rw [hk, walk, hc]
      dsimp only
      rw [if_pos (of_decide_eq_true hcan)]
      split_ifs <;> exact cons_ne_nil _ _

/-- An order that is not turned away is new, and rests or finds a crossing order. -/
theorem accepted_of_not_refuses (h : ¬ refuses os o) : o.orderId ∉ os.map Order.orderId ∧
    (o.orderType = .goodTillCancel ∨ canMatch o.side o.price os = true) := by
  unfold refuses at h
  simp only [not_or, not_and, Bool.not_eq_false] at h
  obtain ⟨hfresh, hfok, hioc⟩ := h
  refine ⟨hfresh, ?_⟩
  cases htype : o.orderType with
  | goodTillCancel => exact .inl rfl
  | fillOrKill => exact .inr (hfok htype).1
  | immediateOrCancel => exact .inr (hioc htype)

/-- `add_order` keeps a list quiet, whatever it decides about a fill-or-kill. -/
theorem quiet_add (hquiet : Quiet os) (o : Order) : Quiet (Arrival.add o os).2 := by
  rw [Arrival.add]
  split_ifs with href
  · exact hquiet
  · obtain ⟨hfresh, hacc⟩ := accepted_of_not_refuses href
    have hsub : ∀ x ∈ (matchOrders (os ++ [o])).2, x ∈ (matchAll (os ++ [o])).2 := by
      have hcancel : ∀ s (ys : List Order), cancelAggressive s ys ⊆ ys := by
        intro s ys
        unfold cancelAggressive
        cases best s ys with
        | none => exact Subset.refl _
        | some b =>
          dsimp only
          split_ifs
          · exact filter_sublist.subset
          · exact Subset.refl _
      exact fun x hx => hcancel _ _ (hcancel _ _ hx)
    refine ⟨Uncrossed.of_fields (uncrossed_matchAll (os ++ [o])) fun x hx =>
      ⟨x, hsub x hx, rfl, rfl⟩, fun x hx => ?_⟩
    rw [matchOrders_incoming hquiet hfresh hacc, mem_append] at hx
    rcases hx with hx | hx
    · obtain ⟨y, hy, -, -, -, ht⟩ := mem_walk hx
      rw [ht]
      exact hquiet.gtc y hy
    · split_ifs at hx with ho
      · obtain ⟨-, -, -, ht⟩ := walk_remainder (Option.mem_toList.1 hx)
        rw [ht]
        exact ho
      · cases hx

theorem lookup_mem (h : lookup id os = some o) : o ∈ os ∧ o.orderId = id :=
  ⟨mem_of_find?_eq_some h, by simpa using find?_some h⟩

/-- Every request keeps a list quiet. -/
theorem quiet_handle (hquiet : Quiet os) (r : Request) :
    Quiet (Orderbook.handleArrival os r).2 := by
  cases r with
  | add type id s price qty => exact quiet_add hquiet _
  | cancel id => exact hquiet.cancel
  | matchOrder m =>
    show Quiet (matchOrder m os).2
    rw [matchOrder]
    cases lookup m.orderId os with
    | none => exact hquiet
    | some o => exact quiet_add hquiet.cancel _
  | clear => exact quiet_nil

/-- The requests on which a fill-or-kill is decided rightly. -/
def RequestExact (os : List Order) : Request → Prop
  | .add type id s price qty => FokExact os (Order.new type id s price qty)
  | _ => True

theorem handle_eq (hquiet : Quiet os) {r : Request} (hr : RequestExact os r) :
    Orderbook.handleArrival os r = handle os r := by
  cases r with
  | add type id s price qty => exact add_eq hquiet hr
  | cancel id | clear => rfl
  | matchOrder m =>
    show matchOrder m os = handle os (.matchOrder m)
    rw [matchOrder, handle]
    cases hl : lookup m.orderId os with
    | none => rfl
    | some o =>
      -- A resting order is good till cancel, so its replacement is no fill-or-kill.
      have hgtc := hquiet.gtc o (lookup_mem hl).1
      refine add_eq hquiet.cancel fun htype => ?_
      rw [show (Order.new o.orderType _ _ _ _).orderType = o.orderType from rfl, hgtc] at htype
      cases htype

end TrueTest.Reference

namespace TrueTest.Orderbook

open Arrival List

variable {ob : Orderbook} {os : List Order} {r : Request}

/-! ## The book against the reference -/

/-- The orders resting on one side at one price, in queue order. -/
def restingAt (ob : Orderbook) (s : Side) (price : Int) : List Order :=
  match splitLevel (ob.levels s) price with
  | some (_, lvl, _) => (ob.queue lvl).map ob.orderOf
  | none => []

/-- Every level of the book holds the orders of a list, in its order. -/
def SameResting (ob : Orderbook) (os : List Order) : Prop :=
  ∀ s price, ob.restingAt s price = os.filter fun o => o.side = s ∧ o.price = price

/-- The quantity in the queues against an order of side `s` at `price`; unlike `available`, it
does not wrap. -/
def restingAgainst (ob : Orderbook) (s : Side) (price : Int) : Nat :=
  ob.qtySum (ob.queuedNodes.filter fun n =>
    (ob.orderOf n).side = s.contra ∧ s.crosses price (ob.orderOf n).price)

/-- If a new fill-or-kill finds its quantity in the book, it also finds it modulo 2^64. -/
def SumExact (ob : Orderbook) : Request → Prop
  | .add .fillOrKill id s price qty => ob.orderMap.lookup id = none →
      qty ≤ ob.restingAgainst s price → qty ≤ ob.restingAgainst s price % 2 ^ 64
  | _ => True

theorem Models.sameResting (h : Models ob os) : SameResting ob os := by
  obtain ⟨P, ⟨L, F, hrep, rfl⟩, rfl⟩ := h
  intro s price
  rw [map_orders_ptrOf, restingAt]
  by_cases hex : ∃ lvl ∈ ob.levels s, lvl.price = price
  · obtain ⟨lvl, hlvl, rfl⟩ := hex
    obtain ⟨pre, post, hl⟩ := append_of_mem hlvl
    rw [hl, splitLevel_eq (fun l hlm => (hrep.around hl (.inl hlm)).2) rfl]
    dsimp only
    rw [hrep.queue_eq hlvl, filter_map]
    rfl
  · have hnone : ∀ l ∈ ob.levels s, l.price ≠ price := fun l hl hp => hex ⟨l, hl, hp⟩
    rw [splitLevel_eq_none hnone]
    refine (filter_eq_nil_iff.2 fun o ho hc => ?_).symm
    obtain ⟨m, hm, rfl⟩ := mem_map.1 ho
    obtain ⟨hms, hmp⟩ := of_decide_eq_true hc
    obtain ⟨l, hl, hlp⟩ := hrep.covered m hm
    rw [hms] at hl
    exact hnone l hl (hlp.trans hmp)

theorem Models.restingAgainst (h : Models ob os) (s : Side) (price : Int) :
    ob.restingAgainst s price = crossingQty s price os := by
  obtain ⟨P, ⟨L, F, hrep, rfl⟩, rfl⟩ := h
  rw [map_orders_ptrOf, restingAgainst, crossingQty, filter_map, map_map]
  exact ((hrep.perm_queuedNodes.filter _).map _).sum_eq

theorem Models.lookup_eq_none (h : Models ob os) {id : Nat} :
    ob.orderMap.lookup id = none ↔ id ∉ os.map Order.orderId := by
  obtain ⟨P, h, rfl⟩ := h
  exact h.lookup_eq_none

theorem Models.sumExact_iff (h : Models ob os) (r : Request) :
    SumExact ob r ↔ Reference.RequestExact os r := by
  cases r with
  | add type id s price qty =>
    cases type with
    | fillOrKill =>
      show (_ → _ → _) ↔ (_ → _ → _ → _)
      rw [h.lookup_eq_none, h.restingAgainst]
      exact ⟨fun hs _ => hs, fun hs => hs rfl⟩
    | goodTillCancel | immediateOrCancel => exact iff_of_true trivial fun ht => by cases ht
  | cancel id | matchOrder m | clear => exact Iff.rfl

/-- The book and the reference list agree, and the list is quiet. -/
def Agrees (ob : Orderbook) (os : List Order) : Prop := Models ob os ∧ Reference.Quiet os

theorem Agrees.handle (h : Agrees ob os) (hr : SumExact ob r) :
    (ob.handle r).1 = (Reference.handle os r).1 ∧
      Agrees (ob.handle r).2 (Reference.handle os r).2 := by
  obtain ⟨hm, hq⟩ := h
  have heq := Reference.handle_eq hq ((hm.sumExact_iff r).1 hr)
  obtain ⟨htrades, hm'⟩ := hm.handle r
  rw [heq] at htrades hm'
  exact ⟨htrades, hm', heq ▸ Reference.quiet_handle hq r⟩

/-- A request the 64-bit sum decides wrongly shows in the trades. -/
theorem Agrees.sumExact (h : Agrees ob os)
    (htrades : (ob.handle r).1 = (Reference.handle os r).1) : SumExact ob r := by
  obtain ⟨hm, -⟩ := h
  rw [hm.sumExact_iff]
  by_contra hno
  cases r with
  | add type id s price qty =>
    obtain ⟨hbook, href⟩ := Reference.add_ne_of_not_fokExact hno
    rw [(hm.handle _).1] at htrades
    exact href (htrades.symm.trans hbook)
  | cancel id | matchOrder m | clear => exact hno trivial

/-- **The book computes the naive reference exactly when no fill-or-kill is turned away by a
wrapped sum**: the trades of every request and the orders resting after it are the same. -/
theorem handle_eq_reference_iff (rs : List Request) :
    (Machine.outputs handle init rs = Machine.outputs Reference.handle [] rs ∧
      List.Forall₂ SameResting (Machine.states handle init rs)
        (Machine.states Reference.handle [] rs)) ↔
    Machine.Along handle SumExact init rs := by
  have hinit : Agrees init [] := ⟨models_init, Reference.quiet_nil⟩
  have hstep : ∀ ob os r, Agrees ob os → SumExact ob r → _ := fun ob os r h hr => h.handle hr
  constructor
  · rintro ⟨hout, -⟩
    exact (Machine.outputs_eq_iff hstep (fun _ _ _ h => h.sumExact) hinit).1 hout
  · intro hal
    obtain ⟨hout, hstates⟩ := Machine.simulation hstep hinit hal
    exact ⟨hout, hstates.imp fun _ _ h => h.1.sameResting⟩

/-- Two asks that together hold 2^64, and a fill-or-kill for one unit. -/
def wrappedRun : List Request :=
  [.add .goodTillCancel 1 .sell 10 (2 ^ 63), .add .goodTillCancel 2 .sell 10 (2 ^ 63),
    .add .fillOrKill 3 .buy 10 1]

/-- The book turns the fill-or-kill away, the reference fills it. -/
theorem handle_ne_reference_of_wrapped :
    Machine.outputs handle init wrappedRun ≠ Machine.outputs Reference.handle [] wrappedRun := by
  decide +kernel

end TrueTest.Orderbook
