import TrueTest.Orderbook.Incoming

/-!
# Orders that stay on the book

Who follows a resting order by its object wants to know when the book lets go of it. In a book that
anyone may write to, crossed or not, a good-till-cancel order leaves by matching only when nothing
of it remains. `Keeps` says this of an operation for the orders that the operation does not itself
pull. It composes, and there is one lemma for each operation of the book, the level-two feeds
included.
-/

namespace TrueTest.Arrival

open List Orderbook

variable {os os' : List Order} {x o : Order} {id qty : Nat} {s : Side}

/-! ## Matching -/

theorem mem_reduce_of_lt (hx : x ∈ os)
    (hlt : (if id = x.orderId then qty else 0) < x.remainingQuantity) :
    x.less (if id = x.orderId then qty else 0) ∈ reduce id qty os := by
  by_cases hid : id = x.orderId
  · rw [if_pos hid] at hlt ⊢
    refine mem_filterMap.2 ⟨x, hx, ?_⟩
    rw [if_pos hid.symm, if_neg (Nat.not_le.2 hlt)]
  · rw [if_neg hid]
    exact mem_reduce_of_ne hx (Ne.symm hid)

/-- A trade takes its quantity from the orders it names, and they stay if something is left. -/
theorem stays_matchStep {t : Trade} (h : matchStep os = some (t, os')) (hx : x ∈ os)
    (hlt : executed [t] x.orderId < x.remainingQuantity) :
    x.less (executed [t] x.orderId) ∈ os' := by
  obtain ⟨bid, ask, -, -, -, rfl, rfl⟩ := matchStep_eq_some h
  have hsum : executed [tradeOf bid ask] x.orderId =
      (if bid.orderId = x.orderId then (tradeOf bid ask).bidTrade.quantity else 0) +
        if ask.orderId = x.orderId then (tradeOf bid ask).askTrade.quantity else 0 := by
    rw [executed_cons, executed_nil, Nat.add_zero]
    rfl
  rw [hsum] at hlt ⊢
  rw [← less_less]
  refine mem_reduce_of_lt (mem_reduce_of_lt hx (by omega)) ?_
  rw [Order.less_orderId, Order.less_remainingQuantity]
  omega

theorem IdsNodup.matchAll (h : IdsNodup os) : IdsNodup (matchAll os).2 := by
  induction os using matchAll_induction with
  | stop os hstop =>
    rw [Arrival.matchAll, matchLoop_of_none hstop]
    exact h
  | step os t os' hstep ih =>
    rw [matchAll_of_some hstep]
    obtain ⟨bid, ask, -, -, -, -, rfl⟩ := matchStep_eq_some hstep
    exact ih ((h.reduce _ _).reduce _ _)

theorem stays_matchAll (hx : x ∈ os)
    (hlt : executed (matchAll os).1 x.orderId < x.remainingQuantity) :
    x.less (executed (matchAll os).1 x.orderId) ∈ (matchAll os).2 := by
  induction os using matchAll_induction generalizing x with
  | stop os hstop =>
    rw [matchAll, matchLoop_of_none hstop]
    exact hx
  | step os t os' hstep ih =>
    rw [matchAll_of_some hstep, ← singleton_append, executed_append] at hlt ⊢
    have hx' := stays_matchStep hstep hx (by omega)
    rw [← less_less]
    refine ih hx' ?_
    rw [Order.less_orderId, Order.less_remainingQuantity]
    omega

theorem mem_cancelAggressive (hids : IdsNodup os) (hx : x ∈ os)
    (htype : x.orderType = .goodTillCancel) : x ∈ cancelAggressive s os := by
  rw [cancelAggressive]
  cases hb : best s os with
  | none => exact hx
  | some o =>
    dsimp only
    split_ifs with ha
    · refine mem_filter.2 ⟨hx, decide_eq_true fun hid => ?_⟩
      -- The order that is pulled would be `x`, which is not of an aggressive type.
      rw [← eq_of_orderId_eq hids hx (best_mem hb) hid,
        Reference.aggressive_eq_false_iff.2 htype] at ha
      cases ha
    · exact hx

theorem IdsNodup.cancelAggressive (h : IdsNodup os) : IdsNodup (cancelAggressive s os) := by
  rw [Arrival.cancelAggressive]
  cases best s os with
  | none => exact h
  | some o =>
    dsimp only
    split
    · exact h.cancel _
    · exact h

/-- In any book, an order that can rest leaves by matching only when it is filled. -/
theorem stays_matchOrders (hids : IdsNodup os) (hx : x ∈ os) (htype : x.orderType = .goodTillCancel)
    (hlt : executed (matchOrders os).1 x.orderId < x.remainingQuantity) :
    x.less (executed (matchOrders os).1 x.orderId) ∈ (matchOrders os).2 := by
  have hbuy := mem_cancelAggressive (s := .buy) hids.matchAll (stays_matchAll hx hlt) htype
  exact mem_cancelAggressive hids.matchAll.cancelAggressive hbuy htype

theorem stays_add (hids : IdsNodup (os ++ [o])) (hx : x ∈ os ++ [o])
    (htype : x.orderType = .goodTillCancel)
    (hlt : executed (add o os).1 x.orderId < x.remainingQuantity) :
    x.less (executed (add o os).1 x.orderId) ∈ (add o os).2 := by
  by_cases href : refuses os o
  · rw [add, if_pos href]
    rcases mem_append.1 hx with hx | hx
    · exact hx
    · -- Under a new id only the types that never rest are turned away.
      exfalso
      rw [mem_singleton.1 hx] at htype
      rcases href with hdup | ⟨hfok, -⟩ | ⟨hioc, -⟩
      · rw [IdsNodup, map_append] at hids
        exact (nodup_append.1 hids).2.2 _ hdup _ (mem_singleton_self _) rfl
      · rw [htype] at hfok
        cases hfok
      · rw [htype] at hioc
        cases hioc
  · rw [add, if_neg href] at hlt ⊢
    exact stays_matchOrders hids hx htype hlt

end TrueTest.Arrival

namespace TrueTest.Orderbook

open Arrival List

variable {ob ob₁ ob₂ : Orderbook} {P P₁ P₂ : List Nat} {S T : Order → Prop} {N M : Nat → Prop}
  {id r : Nat}

/-! ## Operations that keep orders -/

/-- An operation that took the objects `P` of the book to `P₁`, seen by who follows the orders in
`S`. No object changes but by fills, a good-till-cancel order of `S` stays while something of it
remains, and what is new has an id in `N`. -/
structure Keeps (S : Order → Prop) (N : Nat → Prop) (ob : Orderbook) (P : List Nat)
    (ob₁ : Orderbook) (P₁ : List Nat) : Prop where
  holds : Holds ob₁ P₁
  orderCount : ob.orderCount ≤ ob₁.orderCount
  object : ∀ r, r < ob.orderCount → ∃ qty, ob₁.orders r = (ob.orders r).less qty
  stays : ∀ r ∈ P, S (ob.orders r) → (ob.orders r).orderType = .goodTillCancel →
    0 < (ob₁.orders r).remainingQuantity → r ∈ P₁
  origin : ∀ r ∈ P₁, r ∈ P ∨ N (ob₁.orders r).orderId

theorem Keeps.refl (h : Holds ob P) : Keeps S N ob P ob P where
  holds := h
  orderCount := le_rfl
  object := fun _ _ => ⟨0, rfl⟩
  stays := fun _ hr _ _ _ => hr
  origin := fun _ hr => .inl hr

theorem Keeps.mono (h : Keeps S N ob P ob₁ P₁) (hS : ∀ o, T o → S o) (hN : ∀ id, N id → M id) :
    Keeps T M ob P ob₁ P₁ where
  holds := h.holds
  orderCount := h.orderCount
  object := h.object
  stays := fun r hr hT => h.stays r hr (hS _ hT)
  origin := fun r hr => (h.origin r hr).imp_right (hN _)

theorem Keeps.trans (h₁ : Keeps S N ob P ob₁ P₁) (h₂ : Keeps S N ob₁ P₁ ob₂ P₂) (h : Holds ob P)
    (hS : ∀ o qty, S o → S (o.less qty)) : Keeps S N ob P ob₂ P₂ where
  holds := h₂.holds
  orderCount := h₁.orderCount.trans h₂.orderCount
  object := fun r hr => by
    obtain ⟨q₁, he₁⟩ := h₁.object r hr
    obtain ⟨q₂, he₂⟩ := h₂.object r (hr.trans_le h₁.orderCount)
    exact ⟨q₁ + q₂, by rw [he₂, he₁, less_less]⟩
  stays := fun r hr hSr htype hrem => by
    obtain ⟨q₁, he₁⟩ := h₁.object r (h.lt hr)
    obtain ⟨q₂, he₂⟩ := h₂.object r ((h.lt hr).trans_le h₁.orderCount)
    have hrem₁ : 0 < (ob₁.orders r).remainingQuantity := by
      rw [he₂, Order.less_remainingQuantity] at hrem
      omega
    refine h₂.stays r (h₁.stays r hr hSr htype hrem₁) ?_ ?_ hrem
    · rw [he₁]
      exact hS _ _ hSr
    · rw [he₁]
      exact htype
  origin := fun r hr => by
    rcases h₂.origin r hr with hr₁ | hN
    · refine (h₁.origin r hr₁).imp_right fun hN => ?_
      obtain ⟨q₂, he₂⟩ := h₂.object r (h₁.holds.lt hr₁)
      rw [he₂]
      exact hN
    · exact .inr hN

/-! ## What each operation keeps -/

theorem Effect.mem_of_orders_mem {ts : Trades} (heff : Effect ob P ts ob₁ P₁) (h : Holds ob P)
    (hr : r ∈ P) (hmem : ob₁.orders r ∈ P₁.map ob₁.orders) : r ∈ P₁ := by
  obtain ⟨r', hr', he⟩ := mem_map.1 hmem
  have hr'P := heff.sublist.subset hr'
  have hid : (ob.orders r').orderId = (ob.orders r).orderId := by
    have := congrArg Order.orderId he
    rwa [heff.object r' hr'P, heff.object r hr] at this
  rwa [h.eq_of_orderId_eq hr'P hr hid] at hr'

/-- An operation that pulls orders and trades nothing. -/
theorem Effect.keeps (heff : Effect ob P [] ob₁ P₁) (h : Holds ob P)
    (hS : ∀ r ∈ P, S (ob.orders r) → ob.orders r ∈ P₁.map ob₁.orders) : Keeps S N ob P ob₁ P₁ where
  holds := heff.holds
  orderCount := heff.orderCount.ge
  object := fun r _ => ⟨0, congrFun heff.orders_eq r⟩
  stays := fun r hr hSr _ _ =>
    heff.mem_of_orders_mem h hr ((congrFun heff.orders_eq r).symm ▸ hS r hr hSr)
  origin := fun _ hr => .inl (heff.sublist.subset hr)

theorem Keeps.cancelOrder (h : Holds ob P) (id : Nat) :
    ∃ P₁, Keeps (fun o => o.orderId ≠ id) N ob P (ob.cancelOrder id) P₁ := by
  obtain ⟨P₁, heff, hmap⟩ := h.cancelOrder id
  refine ⟨P₁, heff.keeps h fun r hr hid => ?_⟩
  rw [hmap]
  exact mem_filter.2 ⟨mem_map_of_mem hr, decide_eq_true hid⟩

theorem RestedNew.keeps {o : Order} (hnew : RestedNew ob P o ob₁) (hN : N o.orderId) :
    Keeps S N ob P ob₁ (P ++ [ob.orderCount]) where
  holds := hnew.holds
  orderCount := hnew.orderCount ▸ Nat.le_succ _
  object := fun r hr => ⟨0, hnew.orders_of_lt r hr⟩
  stays := fun _ hr _ _ _ => mem_append_left _ hr
  origin := fun r hr => by
    rcases mem_append.1 hr with hr | hr
    · exact .inl hr
    · rw [mem_singleton.1 hr, hnew.orders_self]
      exact .inr hN

theorem Keeps.modifyOrder (h : Holds ob P) (id : Nat) (price : Int) (qty : Nat) :
    ∃ P₁, Keeps (fun o => o.orderId ≠ id) (· ∈ (P.map ob.orders).map Order.orderId) ob P
      (ob.modifyOrder id price qty).2 P₁ := by
  cases hn : ob.orderMap.lookup id with
  | none =>
    rw [Orderbook.modifyOrder, hn]
    exact ⟨P, .refl h⟩
  | some n =>
    obtain ⟨P₁, heff, hmap, hnew⟩ := h.modifyOrder_of_some hn price qty
    have hlive : id ∈ (P.map ob.orders).map Order.orderId := by
      by_contra hno
      rw [h.lookup_eq_none.2 hno] at hn
      cases hn
    have hcancel : Keeps (fun o => o.orderId ≠ id) (· ∈ (P.map ob.orders).map Order.orderId) ob P
        (ob.cancelOrder id) P₁ := by
      refine heff.keeps h fun r hr hid => ?_
      rw [hmap]
      exact mem_filter.2 ⟨mem_map_of_mem hr, decide_eq_true hid⟩
    exact ⟨_, hcancel.trans (hnew.keeps hlive) h fun _ _ hid => hid⟩

section Add

variable (type : ObOrderType) (s : Side) (price : Int) (qty : Nat)

/-- Keeping the orders of `S` while a new one comes in. Its object is the last one, and under a new
id its remainder rests if it can. -/
structure KeepsNew (S : Order → Prop) (N : Nat → Prop) (ob : Orderbook) (P : List Nat) (o : Order)
    (ob₁ : Orderbook) (P₁ : List Nat) : Prop extends Keeps S N ob P ob₁ P₁ where
  self_lt : ob.orderCount < ob₁.orderCount
  object_self : ∃ k, ob₁.orders ob.orderCount = o.less k
  rests : o.orderId ∉ (P.map ob.orders).map Order.orderId → o.orderType = .goodTillCancel →
    0 < (ob₁.orders ob.orderCount).remainingQuantity → ob.orderCount ∈ P₁

/-- `create_order` and `add_order` under an id of `N`. -/
theorem Keeps.addOrder (h : Holds ob P) (hN : N id) :
    ∃ P₁, KeepsNew S N ob P (Order.new type id s price qty)
      ((ob.createOrder type id s price qty).2.addOrder ob.orderCount).2 P₁ := by
  have hlt := fun r (hr : r < ob.orderCount) => createOrder_orders_of_lt type id s price qty hr
  by_cases hfresh : id ∈ (P.map ob.orders).map Order.orderId
  · rw [h.addOrder_of_live type s price qty hfresh]
    exact ⟨P, ⟨h.createOrder type id s price qty, Nat.le_succ _, fun r hr => ⟨0, hlt r hr⟩,
      fun _ hr _ _ _ => hr, fun _ hr => .inl hr⟩, Nat.lt_succ_self _,
      ⟨0, createOrder_orders_self type id s price qty⟩, fun hno => absurd hfresh hno⟩
  · obtain ⟨P₁, harr⟩ := h.arrived type s price qty hfresh
    set o := Order.new type id s price qty
    have hids : IdsNodup (P.map ob.orders ++ [o]) := by
      rw [IdsNodup, map_append, map_singleton]
      refine nodup_append.2 ⟨h.idsNodup, nodup_singleton _, fun x hx y hy he => hfresh ?_⟩
      have hxid : x = id := he.trans (mem_singleton.1 hy)
      exact hxid ▸ hx
    have hadd := fun x => @stays_add _ x o hids
    rw [← harr.result] at hadd
    refine ⟨P₁, ⟨harr.holds, harr.orderCount.le, fun r hr => ?_, fun r hr _ htype hrem => ?_,
      fun r hr => ?_⟩, harr.orderCount, ⟨_, harr.object_self⟩, fun _ htype hrem => ?_⟩
    · by_cases hrP : r ∈ P
      · exact ⟨_, harr.object r hrP⟩
      · exact ⟨0, harr.frame r hr hrP⟩
    · refine harr.mem r (mem_append_left _ hr) ?_
      rw [harr.object r hr] at hrem ⊢
      rw [Order.less_remainingQuantity] at hrem
      exact hadd _ (mem_append_left _ (mem_map_of_mem hr)) htype (Nat.lt_of_sub_pos hrem)
    · rcases mem_append.1 (harr.subset hr) with hr | hr
      · exact .inl hr
      · rw [mem_singleton.1 hr, harr.object_self]
        exact .inr hN
    · refine harr.mem _ (by simp) ?_
      rw [harr.object_self] at hrem ⊢
      rw [Order.less_remainingQuantity] at hrem
      exact hadd o (by simp) htype (Nat.lt_of_sub_pos hrem)

end Add

/-! ## Level-two feeds -/

def snapshotIds (gen : OrderIdGenerator) (bids asks : List (Int × Nat)) : List Nat :=
  (snapshotOrders gen bids asks).map Order.orderId

/-- `apply_l2_snapshot` keeps no order: the book is cleared first. -/
theorem Keeps.applyL2Snapshot (h : Holds ob P) (gen : OrderIdGenerator)
    (bids asks : List (Int × Nat)) (hids : (snapshotIds gen bids asks).Nodup) :
    ∃ P₁, Keeps (fun _ => False) (· ∈ snapshotIds gen bids asks) ob P
      (ob.applyL2Snapshot gen bids asks).1 P₁ := by
  obtain ⟨P₁, hholds, hmap, hcount, horders⟩ := h.applyL2Snapshot gen bids asks hids
  refine ⟨P₁, hholds, hcount, fun r hr => ⟨0, horders r hr⟩, fun _ _ hf => hf.elim,
    fun r hr => .inr ?_⟩
  rw [snapshotIds, ← hmap, map_map]
  exact mem_map_of_mem hr

/-- `apply_l2_update` keeps the orders off its side and price. -/
theorem Keeps.applyL2Update (h : Holds ob P) (gen : OrderIdGenerator) (s : Side) (price : Int)
    (qty : Nat) (hid : gen.next.1 ∉ (P.map ob.orders).map Order.orderId) :
    ∃ P₁, Keeps (fun o => ¬ (o.side = s ∧ o.price = price)) (· = gen.next.1) ob P
      (ob.applyL2Update gen s price qty).1 P₁ := by
  obtain ⟨P₁, heff, hmap⟩ := h.drain s price
  have hdrain := heff.keeps (S := fun o => ¬ (o.side = s ∧ o.price = price))
    (N := (· = gen.next.1)) h fun r hr hoff => by
      rw [heff.orders_eq, hmap]
      exact mem_filter.2 ⟨mem_map_of_mem hr, decide_eq_true hoff⟩
  rw [Orderbook.applyL2Update]
  split_ifs with hq
  · have hfresh : gen.next.1 ∉ (P₁.map ob.orders).map Order.orderId := fun hm =>
      hid (((heff.sublist.map _).map _).subset hm)
    have hnew :=
      heff.holds.restNew .goodTillCancel s price qty (by rw [heff.orders_eq]; exact hfresh)
    exact ⟨_, hdrain.trans (hnew.keeps rfl) h fun _ _ hoff => hoff⟩
  · exact ⟨P₁, hdrain⟩

end TrueTest.Orderbook
