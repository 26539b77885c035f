import TrueTest.Orderbook.Crossing

/-!
# What activity on the book does to an order

An order that rests in a quiet book is hit by an incoming order at most once, loses what was
executed, and stays for as long as something of it remains. `Activity S` says this for a stretch of
activity by others and for the orders whose ids are in `S`: the view of a party that holds
pointers to its own orders and sees the trades.
-/

namespace TrueTest.Reference

open Arrival List

variable {o x c : Order} {os : List Order} {ts : Trades} {id qty fuel : Nat}

/-! ## The trades of a walk -/

/-- The bid or the ask half of a trade. -/
def half (s : Side) (t : Trade) : TradeInfo :=
  match s with
  | .buy => t.bidTrade
  | .sell => t.askTrade

theorem half_trade (o c : Order) : half o.side (trade o c) =
    ⟨o.orderId, o.price, min o.remainingQuantity c.remainingQuantity⟩ := by
  unfold half trade
  cases o.side with
  | buy => rfl
  | sell => simp only [tradeOf, min_comm]

theorem half_contra_trade (o c : Order) : half o.side.contra (trade o c) =
    ⟨c.orderId, c.price, min o.remainingQuantity c.remainingQuantity⟩ := by
  unfold half trade
  cases o.side with
  | buy => rfl
  | sell => simp only [tradeOf, min_comm, Side.contra]

/-- What a trade executes, by its two halves. -/
theorem executed_cons_half (s : Side) (t : Trade) (ts : Trades) (id : Nat) :
    executed (t :: ts) id =
      ((if (half s t).orderId = id then (half s t).quantity else 0) +
        if (half s.contra t).orderId = id then (half s.contra t).quantity else 0) +
        executed ts id := by
  rw [executed_cons]
  cases s with
  | buy => rfl
  | sell => exact congrArg (· + executed ts id) (Nat.add_comm _ _)

theorem executed_trade_cons (o c : Order) (ts : Trades) (id : Nat) :
    executed (trade o c :: ts) id =
      ((if o.orderId = id then min o.remainingQuantity c.remainingQuantity else 0) +
        if c.orderId = id then min o.remainingQuantity c.remainingQuantity else 0) +
        executed ts id := by
  rw [executed_cons_half o.side, half_trade, half_contra_trade]

/-- The trades of one incoming order: it is a party to each, with a resting order of the other
side, and with no resting order twice. -/
structure Takes (o : Order) (os : List Order) (ts : Trades) : Prop where
  own : ∀ t ∈ ts, (half o.side t).orderId = o.orderId
  counter : ∀ t ∈ ts, ∃ c ∈ os, (half o.side.contra t).orderId = c.orderId
  nodup : (ts.map fun t => (half o.side.contra t).orderId).Nodup

theorem takes_nil (o : Order) (os : List Order) : Takes o os [] where
  own := nofun
  counter := nofun
  nodup := nodup_nil

/-- A walk leaves of every order what was not executed. -/
structure Walked (o : Order) (os : List Order) (r : Trades × Option Order × List Order) : Prop
    extends Takes o os r.1 where
  remainder : executed r.1 o.orderId < o.remainingQuantity →
    r.2.1 = some (o.less (executed r.1 o.orderId))
  stays : ∀ x ∈ os, executed r.1 x.orderId < x.remainingQuantity →
    x.less (executed r.1 x.orderId) ∈ r.2.2

theorem not_mem_reduce (hids : IdsNodup os) (hc : c ∈ os) (hq : c.remainingQuantity ≤ qty) :
    c.orderId ∉ (reduce c.orderId qty os).map Order.orderId := by
  intro hmem
  obtain ⟨x, hx, hxid⟩ := mem_map.1 hmem
  obtain ⟨y, hy, ⟨hne, rfl⟩ | ⟨hyid, hlt, -⟩⟩ := mem_reduce hx
  · exact hne hxid
  · have hyc := Orderbook.eq_of_orderId_eq hids hy hc hyid
    subst hyc
    exact absurd hlt (Nat.not_lt.2 hq)

theorem walked_stop (o : Order) (os : List Order) : Walked o os ([], some o, os) where
  toTakes := takes_nil o os
  remainder := fun _ => rfl
  stays := fun _ hx _ => hx

section

variable (hids : IdsNodup os) (hfresh : o.orderId ∉ os.map Order.orderId) (hc : c ∈ os)
  (hq : qty = min o.remainingQuantity c.remainingQuantity)
include hids hfresh hc hq

/-- The trade that fills the incoming order. -/
theorem walked_last (hfill : o.remainingQuantity ≤ qty) :
    Walked o os ([trade o c], none, reduce c.orderId qty os) := by
  have hne : c.orderId ≠ o.orderId := fun he => hfresh (he ▸ mem_map_of_mem hc)
  refine ⟨⟨fun t ht => ?_, fun t ht => ?_, nodup_singleton _⟩, fun hlt => ?_, fun x hx hlt => ?_⟩
  · rw [mem_singleton.1 ht, half_trade]
  · rw [mem_singleton.1 ht, half_contra_trade]
    exact ⟨c, hc, rfl⟩
  · rw [executed_trade_cons, if_pos rfl, if_neg hne, ← hq, executed_nil] at hlt
    omega
  · have hxo : o.orderId ≠ x.orderId := fun he => hfresh (he ▸ mem_map_of_mem hx)
    rw [executed_trade_cons, if_neg hxo, ← hq, executed_nil] at hlt ⊢
    by_cases hxc : c.orderId = x.orderId
    · have hcx := Orderbook.eq_of_orderId_eq hids hc hx hxc
      subst hcx
      rw [if_pos rfl] at hlt ⊢
      refine mem_filterMap.2 ⟨c, hx, ?_⟩
      rw [if_pos rfl, if_neg (by omega), Nat.zero_add, Nat.add_zero]
    · rw [if_neg hxc]
      exact mem_reduce_of_ne hx (Ne.symm hxc)

/-- A trade that fills a resting order, and the rest of the walk. -/
theorem walked_cons (hfill : ¬ o.remainingQuantity ≤ qty) {r : Trades × Option Order × List Order}
    (hr : Walked (o.less qty) (reduce c.orderId qty os) r) :
    Walked o os (trade o c :: r.1, r.2) := by
  have hne : c.orderId ≠ o.orderId := fun he => hfresh (he ▸ mem_map_of_mem hc)
  have hqc : qty = c.remainingQuantity := by omega
  have hcounter : ∀ t ∈ r.1, ∃ c' ∈ reduce c.orderId qty os,
      (half o.side.contra t).orderId = c'.orderId := hr.counter
  refine ⟨⟨fun t ht => ?_, fun t ht => ?_, ?_⟩, fun hlt => ?_, fun x hx hlt => ?_⟩
  · rcases mem_cons.1 ht with rfl | ht
    · rw [half_trade]
    · exact hr.own t ht
  · rcases mem_cons.1 ht with rfl | ht
    · rw [half_contra_trade]
      exact ⟨c, hc, rfl⟩
    · obtain ⟨c', hc', he⟩ := hcounter t ht
      obtain ⟨y, hy, hyid, -⟩ := mem_reduce_fields hc'
      exact ⟨y, hy, he.trans hyid⟩
  · rw [map_cons, half_contra_trade]
    refine nodup_cons.2 ⟨fun hmem => ?_, hr.nodup⟩
    obtain ⟨t, ht, he⟩ := mem_map.1 hmem
    obtain ⟨c', hc', he'⟩ := hcounter t ht
    have hcid : c'.orderId = c.orderId := he'.symm.trans he
    exact not_mem_reduce hids hc hqc.ge (mem_map.2 ⟨c', hc', hcid⟩)
  · rw [executed_trade_cons, if_pos rfl, if_neg hne, ← hq, Nat.add_zero] at hlt ⊢
    have hrest := hr.remainder
    rw [Order.less_orderId, Order.less_remainingQuantity, Orderbook.less_less] at hrest
    exact hrest (by omega)
  · have hxo : o.orderId ≠ x.orderId := fun he => hfresh (he ▸ mem_map_of_mem hx)
    rw [executed_trade_cons, if_neg hxo, ← hq, Nat.zero_add] at hlt ⊢
    by_cases hxc : c.orderId = x.orderId
    · -- The order that was filled has nothing left to stay with.
      have hcx := Orderbook.eq_of_orderId_eq hids hc hx hxc
      subst hcx
      rw [if_pos rfl] at hlt
      omega
    · rw [if_neg hxc, Nat.zero_add] at hlt ⊢
      exact hr.stays x (mem_reduce_of_ne hx (Ne.symm hxc)) hlt

end

theorem walked_walk (hids : IdsNodup os) (hfresh : o.orderId ∉ os.map Order.orderId) :
    Walked o os (walk fuel o os) := by
  fun_induction walk fuel o os with
  | case1 o os | case2 _ o os | case5 _ o os => exact walked_stop o os
  | case3 fuel o os c hc hx qty rest hfill => exact walked_last hids hfresh (best_mem hc) rfl hfill
  | case4 fuel o os c hc hx qty rest hfill ih =>
    refine walked_cons hids hfresh (best_mem hc) rfl hfill (ih (hids.reduce _ _) fun hm => ?_)
    exact hfresh ((map_orderId_reduce _ _ _).subset hm)

/-- What `add_order` did with a new order. -/
structure Incoming (o : Order) (os : List Order) (r : Trades × List Order) : Prop
    extends Takes o os r.1 where
  rests : o.orderType = .goodTillCancel → executed r.1 o.orderId < o.remainingQuantity →
    o.less (executed r.1 o.orderId) ∈ r.2
  stays : ∀ x ∈ os, executed r.1 x.orderId < x.remainingQuantity →
    x.less (executed r.1 x.orderId) ∈ r.2

theorem incoming_add (hquiet : Quiet os) (hids : IdsNodup os)
    (hfresh : o.orderId ∉ os.map Order.orderId) : Incoming o os (Arrival.add o os) := by
  rw [Arrival.add]
  split_ifs with href
  · refine ⟨takes_nil o os, fun htype _ => ?_, fun x hx _ => hx⟩
    rcases href with hdup | ⟨hfok, -⟩ | ⟨hioc, -⟩
    · exact absurd hdup hfresh
    · rw [hfok] at htype; cases htype
    · rw [hioc] at htype; cases htype
  · rw [matchOrders_incoming hquiet hfresh (accepted_of_not_refuses href).2]
    have hw := @walked_walk o os os.length hids hfresh
    refine ⟨hw.toTakes, fun htype hlt => ?_, fun x hx hlt => mem_append_left _ (hw.stays x hx hlt)⟩
    refine mem_append_right _ ?_
    rw [if_pos htype, hw.remainder hlt]
    exact mem_singleton_self _

/-! ## Orders that trade once -/

/-- The orders an incoming order can trade with. -/
def crossing (o : Order) (os : List Order) : List Order :=
  os.filter fun x => x.side = o.side.contra ∧ o.side.crosses o.price x.price

theorem walk_of_crossing_nil (h : crossing o os = []) (fuel : Nat) :
    walk fuel o os = ([], some o, os) := by
  refine walk_of_not_canMatch (canMatch_eq_false_iff.2 fun x hx hxs hc => ?_)
  exact filter_eq_nil_iff.1 h x hx (decide_eq_true ⟨hxs, hc⟩)

/-- A walk makes at most one trade if one order crosses, or if the first one covers it. -/
theorem length_walk_le_one (hids : IdsNodup os) (h : (crossing o os).length ≤ 1 ∨
      ∀ c, best o.side.contra os = some c → o.remainingQuantity ≤ c.remainingQuantity)
    (fuel : Nat) : (walk fuel o os).1.length ≤ 1 := by
  cases fuel with
  | zero => exact Nat.zero_le _
  | succ fuel =>
    rw [walk]
    cases hc : best o.side.contra os with
    | none => exact Nat.zero_le _
    | some c =>
      dsimp only
      by_cases hx : o.side.crosses o.price c.price
      · rw [if_pos hx]
        by_cases hfill : o.remainingQuantity ≤ min o.remainingQuantity c.remainingQuantity
        · rw [if_pos hfill]
          exact le_rfl
        · rw [if_neg hfill]
          -- The order that was hit is filled, and no other one crosses.
          have hlt : c.remainingQuantity < o.remainingQuantity := by omega
          have hone : (crossing o os).length ≤ 1 :=
            h.resolve_right fun hall => absurd (hall c hc) (Nat.not_le.2 hlt)
          set q := min o.remainingQuantity c.remainingQuantity
          have hcq : c.remainingQuantity ≤ q := by omega
          have hnil : crossing (o.less q) (reduce c.orderId q os) = [] := by
            refine filter_eq_nil_iff.2 fun x hxr hcross => ?_
            obtain ⟨hxs, hxc⟩ := of_decide_eq_true hcross
            obtain ⟨y, hy, hyid, hys, hyp, -⟩ := mem_reduce_fields hxr
            have hyc : y ∈ crossing o os :=
              mem_filter.2 ⟨hy, decide_eq_true ⟨hys.symm.trans hxs, hyp ▸ hxc⟩⟩
            have hcc : c ∈ crossing o os :=
              mem_filter.2 ⟨best_mem hc, decide_eq_true ⟨best_side hc, hx⟩⟩
            have hcy : y = c := by
              obtain ⟨z, hz⟩ := length_eq_one_iff.1 (le_antisymm hone (length_pos_of_mem hcc))
              rw [hz] at hyc hcc
              rw [mem_singleton.1 hyc, mem_singleton.1 hcc]
            refine not_mem_reduce hids (best_mem hc) hcq ?_
            exact mem_map.2 ⟨x, hxr, by rw [hyid, hcy]⟩
          rw [walk_of_crossing_nil hnil]
          exact le_rfl
      · rw [if_neg hx]
        exact Nat.zero_le _

theorem length_add_le_one (hquiet : Quiet os) (hids : IdsNodup os) (h : (crossing o os).length ≤ 1 ∨
      ∀ c, best o.side.contra os = some c → o.remainingQuantity ≤ c.remainingQuantity) :
    (Arrival.add o os).1.length ≤ 1 := by
  rw [Arrival.add]
  by_cases href : refuses os o
  · rw [if_pos href]
    exact Nat.zero_le _
  · obtain ⟨hfresh, hacc⟩ := accepted_of_not_refuses href
    rw [if_neg href, matchOrders_incoming hquiet hfresh hacc]
    exact length_walk_le_one hids h _

/-! ## Orders that are filled -/

theorem reduce_filled (hids : IdsNodup os) (hc : c ∈ os) (hq : c.remainingQuantity ≤ qty) :
    ∃ pre post, os = pre ++ c :: post ∧ reduce c.orderId qty os = pre ++ post := by
  obtain ⟨pre, post, rfl⟩ := append_of_mem hc
  refine ⟨pre, post, rfl, ?_⟩
  rw [IdsNodup, map_append, map_cons] at hids
  obtain ⟨-, hpost, hdisj⟩ := nodup_append.1 hids
  have hpre : c.orderId ∉ pre.map Order.orderId := fun hm => hdisj _ hm _ mem_cons_self rfl
  have hsingle : reduce c.orderId qty [c] = [] := by rw [reduce_singleton, if_pos hq]
  have hcons : reduce c.orderId qty (c :: post) = post := by
    rw [← singleton_append, reduce_append, hsingle, reduce_of_not_mem (nodup_cons.1 hpost).1,
      nil_append]
  rw [reduce_append, reduce_of_not_mem hpre, hcons]

theorem crossingQty_reduce (hids : IdsNodup os) (hc : c ∈ os) (hq : c.remainingQuantity ≤ qty)
    {s : Side} {price : Int} (hside : c.side = s.contra) (hcross : s.crosses price c.price) :
    crossingQty s price os = c.remainingQuantity +
      crossingQty s price (reduce c.orderId qty os) := by
  obtain ⟨pre, post, rfl, hred⟩ := reduce_filled hids hc hq
  rw [hred]
  simp only [crossingQty, filter_append, filter_cons, map_append, sum_append, hside,
    hcross, and_self, decide_true, if_true, map_cons, sum_cons]
  omega

/-- A walk executes what it can: all of the incoming order, or all that crosses it. -/
theorem executed_walk (hids : IdsNodup os) (hfresh : o.orderId ∉ os.map Order.orderId)
    (hfuel : os.length ≤ fuel) : executed (walk fuel o os).1 o.orderId =
      min o.remainingQuantity (crossingQty o.side o.price os) := by
  have hstop : ∀ os, canMatch o.side o.price os = false → crossingQty o.side o.price os = 0 := by
    intro os hno
    refine sum_eq_zero fun q hq => ?_
    obtain ⟨x, hx, rfl⟩ := mem_map.1 hq
    obtain ⟨hx, hcross⟩ := mem_filter.1 hx
    obtain ⟨hxs, hxc⟩ := of_decide_eq_true hcross
    exact absurd hxc (canMatch_eq_false_iff.1 hno x hx hxs)
  have hne :
      ∀ {o c : Order} {os}, o.orderId ∉ os.map Order.orderId → best o.side.contra os = some c →
      c.orderId ≠ o.orderId := fun hfresh hc he => hfresh (he ▸ mem_map_of_mem (best_mem hc))
  fun_induction walk fuel o os with
  | case1 o os =>
    rw [length_eq_zero_iff.1 (Nat.le_zero.1 hfuel)]
    exact (Nat.min_zero _).symm
  | case2 fuel o os hc => rw [hstop os (by rw [canMatch, hc]), Nat.min_zero, executed_nil]
  | case3 fuel o os c hc hx qty rest hfill =>
    have hle : c.remainingQuantity ≤ crossingQty o.side o.price os :=
      single_le_sum (fun _ _ => Nat.zero_le _) _ (mem_map_of_mem (mem_filter.2
        ⟨best_mem hc, decide_eq_true ⟨best_side hc, hx⟩⟩))
    rw [executed_trade_cons, if_pos rfl, if_neg (hne hfresh hc), executed_nil]
    omega
  | case4 fuel o os c hc hx qty rest hfill ih =>
    have hcq : c.remainingQuantity ≤ qty := by omega
    have hlt : rest.length < os.length := length_reduce_lt (best_mem hc) rfl hcq
    have hrest := ih (hids.reduce _ _) (fun hm => hfresh ((map_orderId_reduce _ _ _).subset hm))
      (by omega) hstop
    have hsum : _ = _ + crossingQty o.side o.price rest :=
      crossingQty_reduce hids (best_mem hc) hcq (best_side hc) hx
    rw [executed_trade_cons, if_pos rfl, if_neg (hne hfresh hc)]
    rw [Order.less_orderId, Order.less_remainingQuantity] at hrest
    have hrest' : _ = min (o.remainingQuantity - qty) (crossingQty o.side o.price rest) := hrest
    omega
  | case5 fuel o os c hc hx =>
    rw [hstop os (by rw [canMatch, hc]; exact decide_eq_false hx), Nat.min_zero, executed_nil]

/-- The other party of every trade of a walk rests on the other side. -/
theorem walk_counter (fuel : Nat) (o : Order) (os : List Order) : ∀ t ∈ (walk fuel o os).1,
    ∃ c ∈ os, c.side = o.side.contra ∧ (half o.side.contra t).orderId = c.orderId := by
  fun_induction walk fuel o os with
  | case1 | case2 | case5 => simp
  | case3 fuel o os c hc =>
    rw [forall_mem_singleton, half_contra_trade]
    exact ⟨c, best_mem hc, best_side hc, rfl⟩
  | case4 fuel o os c hc hx qty rest hfill ih =>
    refine forall_mem_cons.2 ⟨?_, fun t ht => ?_⟩
    · rw [half_contra_trade]
      exact ⟨c, best_mem hc, best_side hc, rfl⟩
    · obtain ⟨x, hx, hxs, hxt⟩ := ih t ht
      obtain ⟨y, hy, hid, hside, -⟩ := mem_reduce_fields hx
      exact ⟨y, hy, hside.symm.trans hxs, hxt.trans hid⟩

end TrueTest.Reference

namespace TrueTest.Orderbook

open Arrival Reference List

variable {ob ob₁ ob₂ : Orderbook} {P P₁ P₂ : List Nat} {ts ts₁ ts₂ : Trades} {S : Nat → Prop}
  {r id : Nat} {o : Order}

/-! ## Activity -/

/-- What activity by others, with trades `ts`, did to the orders whose ids are in `S`. -/
structure Activity (S : Nat → Prop) (ob : Orderbook) (P : List Nat) (ts : Trades)
    (ob' : Orderbook) (P' : List Nat) : Prop where
  holds : Holds ob' P'
  quiet : Quiet (P'.map ob'.orders)
  orderCount : ob.orderCount ≤ ob'.orderCount
  orderId : ∀ r, r < ob.orderCount → (ob'.orders r).orderId = (ob.orders r).orderId
  object : ∀ r ∈ P, S (ob.orders r).orderId →
    ob'.orders r = (ob.orders r).less (executed ts (ob.orders r).orderId)
  bound : ∀ r ∈ P, S (ob.orders r).orderId →
    executed ts (ob.orders r).orderId ≤ (ob.orders r).remainingQuantity
  frame : ∀ r, r < ob.orderCount → r ∉ P → ob'.orders r = ob.orders r
  stays : ∀ r ∈ P, S (ob.orders r).orderId →
    executed ts (ob.orders r).orderId < (ob.orders r).remainingQuantity → r ∈ P'
  members : ∀ r ∈ P', r ∈ P ∨ ob.orderCount ≤ r
  origin : ∀ r ∈ P', S (ob'.orders r).orderId → r ∈ P
  absent : ∀ id, S id → (∀ r ∈ P, (ob.orders r).orderId ≠ id) → executed ts id = 0

theorem Holds.eq_of_orderId_eq (h : Holds ob P) {r r' : Nat} (hr : r ∈ P) (hr' : r' ∈ P)
    (he : (ob.orders r).orderId = (ob.orders r').orderId) : r = r' := by
  have hnd : (P.map fun r => (ob.orders r).orderId).Nodup := by
    have hids := h.idsNodup
    rwa [IdsNodup, map_map] at hids
  exact inj_on_of_nodup_map hnd hr hr' he

theorem Activity.refl (h : Holds ob P) (hq : Quiet (P.map ob.orders)) :
    Activity S ob P [] ob P where
  holds := h
  quiet := hq
  orderCount := le_rfl
  orderId := fun _ _ => rfl
  object := fun _ _ _ => rfl
  bound := fun _ _ _ => Nat.zero_le _
  frame := fun _ _ _ => rfl
  stays := fun _ hr _ _ => hr
  members := fun _ hr => .inl hr
  origin := fun _ hr _ => hr
  absent := fun _ _ _ => rfl

section

variable (h₁ : Activity S ob P ts₁ ob₁ P₁) (h₂ : Activity S ob₁ P₁ ts₂ ob₂ P₂) (h : Holds ob P)
include h₁ h₂ h

/-- An order of `S` that left in a first stretch is not executed in a second. -/
theorem Activity.executed_eq_zero (hr : r ∈ P) (hS : S (ob.orders r).orderId) (hr₁ : r ∉ P₁) :
    executed ts₂ (ob.orders r).orderId = 0 := by
  refine h₂.absent _ hS fun r' hr' he => hr₁ ?_
  have hr'P := h₁.origin r' hr' (he ▸ hS)
  rw [h₁.orderId r' (h.lt hr'P)] at he
  rwa [h.eq_of_orderId_eq hr'P hr he] at hr'

theorem Activity.trans : Activity S ob P (ts₁ ++ ts₂) ob₂ P₂ := by
  -- An order of `S`, as it is between the two stretches.
  have hmid : ∀ r ∈ P, S (ob.orders r).orderId → r ∈ P₁ →
      (ob₁.orders r).orderId = (ob.orders r).orderId ∧ (ob₁.orders r).remainingQuantity =
        (ob.orders r).remainingQuantity - executed ts₁ (ob.orders r).orderId := by
    intro r hr hS _
    rw [h₁.object r hr hS]
    exact ⟨rfl, rfl⟩
  refine ⟨h₂.holds, h₂.quiet, h₁.orderCount.trans h₂.orderCount, fun r hlt => ?_,
    fun r hr hS => ?_, fun r hr hS => ?_, fun r hlt hr => ?_, fun r hr hS hlt => ?_, fun r hr => ?_,
    fun r hr hS => ?_, fun id hS hno => ?_⟩
  · rw [h₂.orderId r (hlt.trans_le h₁.orderCount), h₁.orderId r hlt]
  · rw [executed_append, ← less_less, ← h₁.object r hr hS]
    by_cases hr₁ : r ∈ P₁
    · obtain ⟨hid, -⟩ := hmid r hr hS hr₁
      rw [← hid]
      exact h₂.object r hr₁ (hid ▸ hS)
    · rw [h₁.executed_eq_zero h₂ h hr hS hr₁]
      exact h₂.frame r ((h.lt hr).trans_le h₁.orderCount) hr₁
  · rw [executed_append]
    have hb₁ := h₁.bound r hr hS
    by_cases hr₁ : r ∈ P₁
    · obtain ⟨hid, hrem⟩ := hmid r hr hS hr₁
      have hb₂ := h₂.bound r hr₁ (hid ▸ hS)
      rw [hid, hrem] at hb₂
      omega
    · rw [h₁.executed_eq_zero h₂ h hr hS hr₁]
      exact hb₁
  · have hr₁ : r ∉ P₁ := fun hr₁ =>
      (h₁.members r hr₁).elim hr fun hge => absurd hlt (Nat.not_lt.2 hge)
    rw [h₂.frame r (hlt.trans_le h₁.orderCount) hr₁, h₁.frame r hlt hr]
  · rw [executed_append] at hlt
    have hr₁ := h₁.stays r hr hS (by omega)
    obtain ⟨hid, hrem⟩ := hmid r hr hS hr₁
    refine h₂.stays r hr₁ (hid ▸ hS) ?_
    rw [hid, hrem]
    omega
  · rcases h₂.members r hr with hr₁ | hge
    · exact h₁.members r hr₁
    · exact .inr (h₁.orderCount.trans hge)
  · have hr₁ := h₂.origin r hr hS
    rw [h₂.orderId r (h₁.holds.lt hr₁)] at hS
    exact h₁.origin r hr₁ hS
  · rw [executed_append, h₁.absent id hS hno, h₂.absent id hS fun r hr₁ he => ?_]
    have hrP := h₁.origin r hr₁ (he ▸ hS)
    exact hno r hrP ((h₁.orderId r (h.lt hrP)).symm.trans he)

end

/-- The effect of a cancel, for the orders outside of which the cancelled one is. -/
theorem Effect.activity (heff : Effect ob P [] ob₁ P₁) (h : Holds ob P)
    (hq : Quiet (P.map ob.orders)) (hmap : P₁.map ob₁.orders = cancel id (P.map ob.orders))
    (hid : ¬ S id) : Activity S ob P [] ob₁ P₁ := by
  have horders := heff.orders_eq
  exact {
    holds := heff.holds
    quiet := hmap ▸ hq.cancel
    orderCount := heff.orderCount.ge
    orderId := fun r _ => by rw [horders]
    object := fun r _ _ => by rw [horders]; rfl
    bound := fun _ _ _ => Nat.zero_le _
    frame := fun r _ _ => by rw [horders]
    stays := fun r hr hS _ => by
      have hmem : ob.orders r ∈ P₁.map ob₁.orders := by
        rw [hmap]
        exact mem_filter.2 ⟨mem_map_of_mem hr, decide_eq_true fun he => hid (he ▸ hS)⟩
      obtain ⟨r', hr', he⟩ := mem_map.1 hmem
      rw [horders] at he
      rwa [h.eq_of_orderId_eq (heff.sublist.subset hr') hr (by rw [he])] at hr'
    members := fun r hr => .inl (heff.sublist.subset hr)
    origin := fun r hr _ => heff.sublist.subset hr
    absent := fun _ _ _ => rfl }

theorem RestedNew.activity (hnew : RestedNew ob P o ob₁) (h : Holds ob P)
    (hq : Quiet (P.map ob.orders ++ [o])) (hid : ¬ S o.orderId) :
    Activity S ob P [] ob₁ (P ++ [ob.orderCount]) where
  holds := hnew.holds
  quiet := by rw [hnew.map h]; exact hq
  orderCount := hnew.orderCount ▸ Nat.le_succ _
  orderId := fun r hr => by rw [hnew.orders_of_lt r hr]
  object := fun r hr _ => hnew.orders_of_lt r (h.lt hr)
  bound := fun _ _ _ => Nat.zero_le _
  frame := fun r hr _ => hnew.orders_of_lt r hr
  stays := fun r hr _ _ => mem_append_left _ hr
  members := fun r hr => by
    rcases mem_append.1 hr with hr | hr
    · exact .inl hr
    · exact .inr (mem_singleton.1 hr).ge
  origin := fun r hr hS => by
    rcases mem_append.1 hr with hr | hr
    · exact hr
    · rw [mem_singleton.1 hr, hnew.orders_self] at hS
      exact absurd hS hid
  absent := fun _ _ _ => rfl

/-- Cancelling an order outside `S`. -/
theorem Activity.cancelOrder (h : Holds ob P) (hq : Quiet (P.map ob.orders)) (hid : ¬ S id) :
    ∃ P', Activity S ob P [] (ob.cancelOrder id) P' ∧
      ∀ r ∈ P', ((ob.cancelOrder id).orders r).orderId ≠ id := by
  obtain ⟨P', heff, hmap⟩ := h.cancelOrder id
  refine ⟨P', heff.activity h hq hmap hid, fun r hr he => not_mem_cancel id (P.map ob.orders) ?_⟩
  rw [← hmap]
  exact mem_map.2 ⟨_, mem_map_of_mem hr, he⟩

/-- Modifying a live order outside `S` to a price behind the other side. -/
theorem Activity.modifyOrder (h : Holds ob P) (hq : Quiet (P.map ob.orders)) (hid : ¬ S id)
    {n : Nat} (hn : ob.orderMap.lookup id = some n) {price : Int} (qty : Nat)
    (hbehind : ob.canMatch (ob.orderOf n).side price = false) :
    ∃ P', Activity S ob P [] (ob.modifyOrder id price qty).2 P' := by
  obtain ⟨P₁, heff, hmap, hnew⟩ := h.modifyOrder_of_some hn price qty
  have hlookup := h.lookup_eq_some hn
  have hquiet : Quiet (P₁.map (ob.cancelOrder id).orders ++
      [Order.new (ob.orderOf n).orderType id (ob.orderOf n).side price qty]) := by
    have hiff := @quiet_modifyOrder_iff _ h.idsNodup hq id qty price _ hlookup
    rw [Arrival.modifyOrder, hlookup] at hiff
    rw [hmap]
    refine hiff.2 ?_
    obtain ⟨L, F, hrep, rfl⟩ := h
    rw [map_orders_ptrOf, ← hrep.canMatch]
    exact hbehind
  exact ⟨_, (heff.activity h hq hmap hid).trans (hnew.activity heff.holds hquiet hid) h⟩

section Add

variable (type : ObOrderType) (s : Side) (price : Int) (qty : Nat)

/-- Under an id that is live the order is turned away; only its object is new. -/
theorem Holds.addOrder_of_live (h : Holds ob P) (hlive : id ∈ (P.map ob.orders).map Order.orderId) :
    (ob.createOrder type id s price qty).2.addOrder ob.orderCount =
      ([], (ob.createOrder type id s price qty).2) := by
  have hc := h.createOrder type id s price qty
  rw [Orderbook.addOrder, if_pos]
  rw [createOrder_orders_self, ← Option.ne_none_iff_isSome, Ne, hc.lookup_eq_none,
    h.map_createOrder]
  exact not_not.2 hlive

/-- What `create_order` and `add_order` under a new id do to the objects. The new one is the
last. -/
structure Arrived (ob : Orderbook) (P : List Nat) (o : Order) (ts : Trades) (ob' : Orderbook)
    (P' : List Nat) : Prop where
  holds : Holds ob' P'
  orderCount : ob.orderCount < ob'.orderCount
  object : ∀ r ∈ P, ob'.orders r = (ob.orders r).less (executed ts (ob.orders r).orderId)
  bound : ∀ r ∈ P, executed ts (ob.orders r).orderId ≤ (ob.orders r).remainingQuantity
  object_self : ob'.orders ob.orderCount = o.less (executed ts o.orderId)
  bound_self : executed ts o.orderId ≤ o.remainingQuantity
  frame : ∀ r, r < ob.orderCount → r ∉ P → ob'.orders r = ob.orders r
  subset : P' ⊆ P ++ [ob.orderCount]
  result : (ts, P'.map ob'.orders) = Arrival.add o (P.map ob.orders)
  /-- What the arrival list holds under its new value is an object the book holds. -/
  mem : ∀ r ∈ P ++ [ob.orderCount], ob'.orders r ∈ P'.map ob'.orders → r ∈ P'
  absent : ∀ id, id ≠ o.orderId → (∀ r ∈ P, (ob.orders r).orderId ≠ id) → executed ts id = 0

theorem Holds.arrived (h : Holds ob P) (hfresh : id ∉ (P.map ob.orders).map Order.orderId) :
    ∃ P', Arrived ob P (Order.new type id s price qty)
      ((ob.createOrder type id s price qty).2.addOrder ob.orderCount).1
      ((ob.createOrder type id s price qty).2.addOrder ob.orderCount).2 P' := by
  set o := Order.new type id s price qty
  set ob₁ := (ob.createOrder type id s price qty).2 with hob₁
  have hlt : ∀ r ∈ P, ob₁.orders r = ob.orders r := fun r hr =>
    createOrder_orders_of_lt type id s price qty (h.lt hr)
  have hself : ob₁.orders ob.orderCount = o := createOrder_orders_self type id s price qty
  obtain ⟨P', heff, hres⟩ := (h.createOrder type id s price qty).addOrder (Nat.lt_succ_self _)
    h.orderCount_not_mem
  rw [← hob₁] at heff hres
  set ts := (ob₁.addOrder ob.orderCount).1
  set ob' := (ob₁.addOrder ob.orderCount).2
  rw [hself, hob₁, h.map_createOrder] at hres
  have hp : ob.orderCount ∈ P ++ [ob.orderCount] := by simp
  have hP : ∀ r ∈ P, r ∈ P ++ [ob.orderCount] := fun r => mem_append_left _
  have hobject : ∀ r ∈ P, ob'.orders r =
      (ob.orders r).less (executed ts (ob.orders r).orderId) := fun r hr => by
    rw [heff.object r (hP r hr), hlt r hr]
  have hobject_self : ob'.orders ob.orderCount = o.less (executed ts o.orderId) := by
    rw [heff.object _ hp, hself]
  have hids : ((P ++ [ob.orderCount]).map fun r => (ob'.orders r).orderId).Nodup := by
    have hmap : P.map (fun r => (ob'.orders r).orderId) = (P.map ob.orders).map Order.orderId := by
      rw [map_map]
      exact map_congr_left fun r hr => by rw [hobject r hr]; rfl
    rw [map_append, hmap, map_singleton, hobject_self, Order.less_orderId]
    refine nodup_append.2 ⟨h.idsNodup, nodup_singleton _, fun x hx y hy he => hfresh ?_⟩
    have hxid : x = id := he.trans (mem_singleton.1 hy)
    exact hxid ▸ hx
  refine ⟨P', {
    holds := heff.holds
    orderCount := heff.orderCount.ge
    object := hobject
    bound := fun r hr => by
      have hb := heff.bound r (hP r hr)
      rwa [hlt r hr] at hb
    object_self := hobject_self
    bound_self := by
      have hb := heff.bound _ hp
      rwa [hself] at hb
    frame := fun r hrlt hr => ?_
    subset := heff.sublist.subset
    result := hres
    mem := fun r hr hin => ?_
    absent := fun id' hne hno => executed_eq_zero fun t ht => ?_ }⟩
  · rw [heff.frame r fun hr' => ?_]
    · exact createOrder_orders_of_lt type id s price qty hrlt
    · rcases mem_append.1 hr' with hr' | hr'
      · exact hr hr'
      · exact hrlt.ne (mem_singleton.1 hr')
  · obtain ⟨r', hr', he⟩ := mem_map.1 hin
    have hrr := inj_on_of_nodup_map hids (heff.sublist.subset hr') hr (congrArg Order.orderId he)
    exact hrr ▸ hr'
  · have hno' : ∀ r ∈ P ++ [ob.orderCount], (ob₁.orders r).orderId ≠ id' := by
      intro r hr
      rcases mem_append.1 hr with hr | hr
      · rw [hlt r hr]
        exact hno r hr
      · rw [mem_singleton.1 hr, hself]
        exact hne.symm
    obtain ⟨⟨b, hb, -, hbid, -⟩, a, ha, -, haid, -⟩ := heff.parties t ht
    exact ⟨hbid ▸ hno' b hb, haid ▸ hno' a ha⟩

/-- `create_order` and `add_order` of an order outside `S`; the new object is the last one. If
the id is new, the order takes from the resting ones and its remainder rests. -/
structure Added (S : Nat → Prop) (ob : Orderbook) (P : List Nat) (o : Order) (ts : Trades)
    (ob' : Orderbook) (P' : List Nat) : Prop extends Activity S ob P ts ob' P' where
  takes : Takes o (P.map ob.orders) ts
  subset : P' ⊆ P ++ [ob.orderCount]
  object_self : ob'.orders ob.orderCount = o.less (executed ts o.orderId)
  bound_self : executed ts o.orderId ≤ o.remainingQuantity
  rests : o.orderType = .goodTillCancel → executed ts o.orderId < o.remainingQuantity →
    ob.orderCount ∈ P'

theorem Holds.added (h : Holds ob P) (hq : Quiet (P.map ob.orders))
    (hfresh : id ∉ (P.map ob.orders).map Order.orderId) (hid : ¬ S id) :
    ∃ P', Added S ob P (Order.new type id s price qty)
      ((ob.createOrder type id s price qty).2.addOrder ob.orderCount).1
      ((ob.createOrder type id s price qty).2.addOrder ob.orderCount).2 P' := by
  obtain ⟨P', harr⟩ := h.arrived type s price qty hfresh
  have hinc := incoming_add (o := Order.new type id s price qty) hq h.idsNodup hfresh
  rw [← harr.result] at hinc
  refine ⟨P', {
    holds := harr.holds
    quiet := by
      have hqadd := quiet_add hq (Order.new type id s price qty)
      rwa [← harr.result] at hqadd
    orderCount := harr.orderCount.le
    orderId := fun r hrlt => by
      by_cases hr : r ∈ P
      · rw [harr.object r hr]; rfl
      · rw [harr.frame r hrlt hr]
    object := fun r hr _ => harr.object r hr
    bound := fun r hr _ => harr.bound r hr
    frame := harr.frame
    stays := fun r hr _ hlt => by
      refine harr.mem r (mem_append_left _ hr) ?_
      rw [harr.object r hr]
      exact hinc.stays _ (mem_map_of_mem hr) hlt
    members := fun r hr => by
      rcases mem_append.1 (harr.subset hr) with hr | hr
      · exact .inl hr
      · exact .inr (mem_singleton.1 hr).ge
    origin := fun r hr hS => by
      rcases mem_append.1 (harr.subset hr) with hr | hr
      · exact hr
      · rw [mem_singleton.1 hr, harr.object_self] at hS
        exact absurd hS hid
    absent := fun id' hS => harr.absent id' fun (he : id' = id) => hid (he ▸ hS)
    takes := hinc.toTakes
    subset := harr.subset
    object_self := harr.object_self
    bound_self := harr.bound_self
    rests := fun htype hlt => by
      refine harr.mem _ (by simp) ?_
      rw [harr.object_self]
      exact hinc.rests htype hlt }⟩

/-- Another party's order, under an id outside `S`. -/
theorem Activity.addOrder (h : Holds ob P) (hq : Quiet (P.map ob.orders)) (hid : ¬ S id) :
    ∃ P', Activity S ob P ((ob.createOrder type id s price qty).2.addOrder ob.orderCount).1
      ((ob.createOrder type id s price qty).2.addOrder ob.orderCount).2 P' := by
  by_cases hfresh : id ∈ (P.map ob.orders).map Order.orderId
  · have hlt := fun r (hr : r < ob.orderCount) =>
      createOrder_orders_of_lt type id s price qty hr
    rw [h.addOrder_of_live type s price qty hfresh]
    exact ⟨P, {
      holds := h.createOrder type id s price qty
      quiet := h.map_createOrder type id s price qty ▸ hq
      orderCount := Nat.le_succ _
      orderId := fun r hr => by rw [hlt r hr]
      object := fun r hr _ => hlt r (h.lt hr)
      bound := fun _ _ _ => Nat.zero_le _
      frame := fun r hr _ => hlt r hr
      stays := fun _ hr _ _ => hr
      members := fun _ hr => .inl hr
      origin := fun _ hr _ => hr
      absent := fun _ _ _ => rfl }⟩
  · obtain ⟨P', hadd⟩ := h.added type s price qty hq hfresh hid
    exact ⟨P', hadd.toActivity⟩

end Add

/-! ## Orders that trade once -/

/-- The order of a side that trades first. -/
def frontOrder (ob : Orderbook) (s : Side) : Option Order :=
  match ob.levels s with
  | [] => none
  | l :: _ => l.head.map ob.orderOf

/-- An order of side `s` finds at most one order to trade with, or the first one covers it. -/
def TradesOnce (ob : Orderbook) (s : Side) (price : Int) (qty : Nat) : Prop :=
  (ob.queuedNodes.filter fun n =>
    (ob.orderOf n).side = s.contra ∧ s.crosses price (ob.orderOf n).price).length ≤ 1 ∨
  (ob.frontOrder s.contra).all fun c => qty ≤ c.remainingQuantity

instance (s : Side) (price : Int) (qty : Nat) : Decidable (TradesOnce ob s price qty) := by
  unfold TradesOnce; infer_instance

theorem Holds.best_eq_frontOrder (h : Holds ob P) (s : Side) :
    best s (P.map ob.orders) = ob.frontOrder s := by
  obtain ⟨L, F, hrep, rfl⟩ := h
  rw [map_orders_ptrOf, frontOrder]
  cases hl : ob.levels s with
  | nil => exact hrep.best_eq_none hl
  | cons lvl rest =>
    obtain ⟨n, hhead, -, hbest⟩ := hrep.front hl
    rw [hbest]
    dsimp only
    rw [hhead]
    rfl

theorem Holds.tradesOnce (h : Holds ob P) (ho : TradesOnce ob o.side o.price o.remainingQuantity) :
    (crossing o (P.map ob.orders)).length ≤ 1 ∨
      ∀ c, best o.side.contra (P.map ob.orders) = some c →
        o.remainingQuantity ≤ c.remainingQuantity := by
  rcases ho with hone | hfront
  · left
    obtain ⟨L, F, hrep, rfl⟩ := h
    rw [map_orders_ptrOf, crossing, filter_map, length_map]
    rwa [(hrep.perm_queuedNodes.filter _).length_eq] at hone
  · right
    intro c hc
    rw [h.best_eq_frontOrder] at hc
    rw [hc] at hfront
    exact of_decide_eq_true hfront

variable (h : Holds ob P) (hq : Quiet (P.map ob.orders)) {s : Side} {price : Int} {qty : Nat}
include h hq

theorem Holds.length_trades_le_one (type : ObOrderType) (ho : TradesOnce ob s price qty) :
    ((ob.createOrder type id s price qty).2.addOrder ob.orderCount).1.length ≤ 1 := by
  obtain ⟨P', -, hres⟩ := (h.createOrder type id s price qty).addOrder (Nat.lt_succ_self _)
    h.orderCount_not_mem
  rw [createOrder_orders_self, h.map_createOrder] at hres
  have hlen :=
    length_add_le_one (o := Order.new type id s price qty) hq h.idsNodup (h.tradesOnce ho)
  rwa [← hres] at hlen

/-! ## Orders that are filled -/

section

variable {type : ObOrderType} (htype : type ≠ .fillOrKill)
  (hfresh : id ∉ (P.map ob.orders).map Order.orderId)
include htype hfresh

/-- An order that is no fill-or-kill walks the book. -/
theorem Holds.addOrder_trades : ((ob.createOrder type id s price qty).2.addOrder ob.orderCount).1 =
      (walk (P.map ob.orders).length (Order.new type id s price qty) (P.map ob.orders)).1 := by
  set o := Order.new type id s price qty
  have hnew : ¬ o.orderId ∈ (P.map ob.orders).map Order.orderId := hfresh
  have hnofok : ¬ o.orderType = .fillOrKill := htype
  obtain ⟨P', -, hres⟩ := (h.createOrder type id s price qty).addOrder (Nat.lt_succ_self _)
    h.orderCount_not_mem
  rw [createOrder_orders_self, h.map_createOrder, add_eq hq fun hfok => absurd hfok hnofok,
    Reference.add, if_neg hnew, if_neg fun hfok => hnofok hfok.1] at hres
  exact congrArg Prod.fst hres

/-- It takes what it can of what rests against it. -/
theorem Holds.addOrder_executed :
    executed ((ob.createOrder type id s price qty).2.addOrder ob.orderCount).1 id =
      min qty (ob.restingAgainst s price) := by
  rw [h.addOrder_trades hq htype hfresh, Models.restingAgainst ⟨P, h, rfl⟩]
  exact executed_walk h.idsNodup hfresh le_rfl

end

/-- A good-till-cancel order that finds its quantity resting against it is filled. -/
theorem Holds.addOrder_filled (hfresh : id ∉ (P.map ob.orders).map Order.orderId)
    (hqty : qty ≤ ob.restingAgainst s price) :
    (((ob.createOrder .goodTillCancel id s price qty).2.addOrder ob.orderCount).2.orders
      ob.orderCount).remainingQuantity = 0 := by
  obtain ⟨P', heff, -⟩ := (h.createOrder .goodTillCancel id s price qty).addOrder
    (Nat.lt_succ_self _) h.orderCount_not_mem
  have hex :
      executed ((ob.createOrder .goodTillCancel id s price qty).2.addOrder ob.orderCount).1 id =
      qty := by
    rw [h.addOrder_executed hq (by decide) hfresh, min_eq_left hqty]
  rw [heff.object _ (mem_append_right _ mem_cons_self), createOrder_orders_self]
  exact Nat.sub_eq_zero_of_le hex.ge

end TrueTest.Orderbook
