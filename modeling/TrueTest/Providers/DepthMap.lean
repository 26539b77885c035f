import Mathlib.Data.Finsupp.Basic
import TrueTest.Providers.DepthFeed

/-!
# The level-two feed writes a depth map

A venue's depth feed knows nothing of orders: it names prices and quantities. What it means is a
finitely supported map from prices to quantities for each side. A snapshot gives each price the sum
of its entries, an update replaces the quantity of one price.

**Theorem (`refines_of_l2Feed`).** After `apply_l2_snapshot` and any sequence of `apply_l2_update`,
`get_order_infos` lists exactly the support of that map, each price with its quantity, best price
first.

The book gets there by minting one synthetic order for every entry, with ids from a 64-bit counter
that wraps. Two live orders may therefore share an id, and the id map then loses one of them.
Neither feed operation reads the ids after the first `clear`, so the proof runs beside the book a
*twin*, equal to it except for ids and id map, whose ids are all different. The twin satisfies the
invariant of `TrueTest.Orderbook.Rep`, and the twins have the same levels.
-/

namespace TrueTest.Orderbook

open Arrival List Function

/-! ## Twins -/

/-- The book with other ids on its order objects and another id map. -/
def relabel (ob : Orderbook) (f : Nat → Nat) (m : AList fun _ : Nat => Nat) : Orderbook :=
  { ob with orders := fun r => { ob.orders r with orderId := f r }, orderMap := m }

/-- Two books that differ in ids and id map only. -/
def Twin (ob ob' : Orderbook) : Prop := ∃ f m, ob' = ob.relabel f m

variable {ob ob' : Orderbook} {P : List Nat} (f : Nat → Nat) (m : AList fun _ : Nat => Nat)
  (s : Side) {price : Int}

theorem Twin.refl (ob : Orderbook) : Twin ob ob :=
  ⟨fun r => (ob.orders r).orderId, ob.orderMap, rfl⟩

theorem relabel_levels : (ob.relabel f m).levels s = ob.levels s := by
  cases s <;> rfl

theorem relabel_setLevels
    (ls : List PriceLevel) : (ob.relabel f m).setLevels s ls = (ob.setLevels s ls).relabel f m := by
  cases s <;> rfl

theorem Twin.levels (h : Twin ob ob') (s : Side) : ob'.levels s = ob.levels s := by
  obtain ⟨f, m, rfl⟩ := h
  exact relabel_levels f m s

theorem Twin.orderInfos (h : Twin ob ob') (s : Side) : ob'.orderInfos s = ob.orderInfos s := by
  rw [Orderbook.orderInfos, h.levels, Orderbook.orderInfos]

theorem Twin.orderCount (h : Twin ob ob') : ob'.orderCount = ob.orderCount := by
  obtain ⟨f, m, rfl⟩ := h
  rfl

theorem Twin.createOrder (h : Twin ob ob') (type : ObOrderType) (id id' : Nat) (s : Side)
    (price : Int)
    (qty : Nat) :
    Twin (ob.createOrder type id s price qty).2 (ob'.createOrder type id' s price qty).2 := by
  obtain ⟨f, m, rfl⟩ := h
  refine ⟨update f ob.orderCount id', m, ?_⟩
  have horders :
      update (ob.relabel f m).orders ob.orderCount (Order.new type id' s price qty) = fun r =>
        { update ob.orders ob.orderCount (Order.new type id s price qty) r with
          orderId := update f ob.orderCount id' r } := by
    funext r
    by_cases hr : r = ob.orderCount
    · simp [hr, Order.new]
    · simp [hr, relabel]
  exact congrArg (fun orders => { ob with
    orders := orders, orderCount := ob.orderCount + 1, orderMap := m }) horders

theorem relabel_allocNode :
    (ob.relabel f m).allocNode = (ob.allocNode.1, ob.allocNode.2.relabel f m) := by
  cases hfree : ob.freeNodes with
  | none =>
    have hgrow : (ob.relabel f m).allocNode = (ob.growNodes.freeNodes.getD 0, { ob.growNodes with
        freeNodes := (ob.growNodes.nodes (ob.growNodes.freeNodes.getD 0)).next
        nodes := update ob.growNodes.nodes (ob.growNodes.freeNodes.getD 0)
          ⟨none, none, none⟩ }.relabel f m) := by
      rw [allocNode, show (ob.relabel f m).freeNodes = none from hfree]
      rfl
    rw [hgrow, allocNode, hfree]
    rfl
  | some n =>
    rw [allocNode, allocNode, show (ob.relabel f m).freeNodes = some n from hfree, hfree]
    rfl

theorem Twin.restOrder (h : Twin ob ob') (p : Nat) : Twin (ob.restOrder p) (ob'.restOrder p) := by
  obtain ⟨f, m, rfl⟩ := h
  refine ⟨f, m.insert (f p) ob.allocNode.1, ?_⟩
  rw [restOrder, relabel_allocNode, restOrder]
  dsimp only [relabel]
  generalize (ob.allocNode.2.orders p).side = s
  cases s <;> rfl

theorem Twin.dropNode (h : Twin ob ob') (s : Side) (pre : List PriceLevel) (lvl : PriceLevel)
    (post : List PriceLevel) (n : Nat) :
    Twin (ob.dropNode s pre lvl post n) (ob'.dropNode s pre lvl post n) := by
  obtain ⟨f, m, rfl⟩ := h
  refine ⟨f, m.erase (f ((ob.nodes n).val.getD 0)), ?_⟩
  cases s <;> rfl

theorem Twin.orderOf_remainingQuantity (h : Twin ob ob') (n : Nat) :
    (ob'.orderOf n).remainingQuantity = (ob.orderOf n).remainingQuantity := by
  obtain ⟨f, m, rfl⟩ := h
  rfl

theorem Twin.nodes (h : Twin ob ob') : ob'.nodes = ob.nodes := by
  obtain ⟨f, m, rfl⟩ := h
  rfl

theorem Twin.nodeCount (h : Twin ob ob') : ob'.nodeCount = ob.nodeCount := by
  obtain ⟨f, m, rfl⟩ := h
  rfl

theorem Twin.drainLevel (pre post : List PriceLevel) (fuel : Nat) (lvl : PriceLevel)
    (h : Twin ob ob') :
    Twin (drainLevel s pre post fuel lvl ob) (drainLevel s pre post fuel lvl ob') := by
  induction fuel generalizing lvl ob ob' with
  | zero => exact h
  | succ fuel ih =>
    rw [drainLevel, drainLevel]
    cases lvl.head with
    | none => exact h
    | some n =>
      dsimp only
      rw [h.nodes, h.orderOf_remainingQuantity]
      exact ih _ (h.dropNode s pre lvl post n)

theorem Twin.removeLevelIfEmpty (h : Twin ob ob') (s : Side) (price : Int) :
    Twin (ob.removeLevelIfEmpty s price) (ob'.removeLevelIfEmpty s price) := by
  obtain ⟨f, m, rfl⟩ := h
  refine ⟨f, m, ?_⟩
  rw [removeLevelIfEmpty, relabel_levels, relabel_setLevels, removeLevelIfEmpty]

/-! ## Depth maps -/

/-- A quantity for every price of each side, positive at finitely many prices. -/
abbrev Depth := Side → Int →₀ Nat

variable (d : Depth)

namespace Depth

/-- The map that some entries spell: each price has the sum of its entries. -/
noncomputable def ofEntries (levels : List (Int × Nat)) : Int →₀ Nat :=
  (levels.map fun l => Finsupp.single l.1 l.2).sum

noncomputable def snapshot (bids asks : List (Int × Nat)) : Depth
  | .buy => ofEntries bids
  | .sell => ofEntries asks

/-- `s` gets `qty` more at a price. -/
noncomputable def add (d : Depth) (s : Side) (price : Int) (qty : Nat) : Depth :=
  update d s (d s + Finsupp.single price qty)

/-- The quantity of one price is replaced; a zero takes the price out of the support. -/
noncomputable def update (d : Depth) (s : Side) (price : Int) (qty : Nat) : Depth :=
  Function.update d s ((d s).update price qty)

theorem ofEntries_apply (levels : List (Int × Nat)) (price : Int) :
    ofEntries levels price = levelQty price levels := by
  induction levels with
  | nil => rfl
  | cons l levels ih =>
    obtain ⟨p, q⟩ := l
    rw [ofEntries, map_cons, sum_cons, Finsupp.add_apply]
    rw [ofEntries] at ih
    rw [ih]
    by_cases hp : p = price
    · simp [levelQty, hp]
    · simp [levelQty, hp]

/-- To replace a quantity is to drop it and add the new one. -/
theorem add_erase (price : Int) (qty : Nat) :
    add (Function.update d s ((d s).erase price)) s price qty = d.update s price qty := by
  rw [add, update, update_self, update_idem, Finsupp.update_eq_erase_add_single]

theorem update_zero (price : Int) :
    d.update s price 0 = Function.update d s ((d s).erase price) := by
  rw [update, Finsupp.update_eq_erase_add_single, Finsupp.single_zero, add_zero]

end Depth

theorem qtyOf_offLevel_self (price : Int) (os : List Order) :
    qtyOf s price (offLevel s price os) = 0 := by
  rw [qtyOf, offLevel, filter_filter]
  have hnone : (os.filter fun o => (decide (o.side = s ∧ o.price = price)) &&
      decide (¬ (o.side = s ∧ o.price = price))) = [] := by
    refine filter_eq_nil_iff.2 fun o _ => ?_
    by_cases ho : o.side = s ∧ o.price = price <;> simp [ho]
  rw [hnone]
  rfl

theorem qtyOf_offLevel_of_ne {s t : Side} {p : Int} (os : List Order)
    (h : ¬ (t = s ∧ p = price)) : qtyOf t p (offLevel s price os) = qtyOf t p os := by
  rw [qtyOf, offLevel, filter_filter, qtyOf]
  congr 2
  refine filter_congr fun o _ => ?_
  by_cases ho : o.side = t ∧ o.price = p
  · obtain ⟨rfl, rfl⟩ := ho
    simp [h]
  · simp [ho]

/-- A twin of the book is well formed, and its orders add up to the depth map. -/
def Shows (ob : Orderbook) (d : Depth) : Prop :=
  ∃ ob' P, Twin ob ob' ∧ Holds ob' P ∧ ∀ s price, qtyOf s price (P.map ob'.orders) = d s price

variable {d : Depth}

theorem Shows.clear (h : Holds ob P) : Shows ob.clear 0 :=
  ⟨ob.clear, [], .refl _, h.clear.holds, fun _ _ => rfl⟩

/-- Minting an order adds its quantity, whatever its id. -/
theorem Shows.rest (h : Shows ob d) (type : ObOrderType) (id : Nat) (s : Side) (price : Int)
    (qty : Nat) :
    Shows ((ob.createOrder type id s price qty).2.restOrder ob.orderCount)
      (d.add s price qty) := by
  obtain ⟨ob', P, htwin, hholds, hqty⟩ := h
  obtain ⟨id', hid'⟩ :=
    Infinite.exists_notMem_finset ((P.map ob'.orders).map Order.orderId).toFinset
  have hnew := hholds.restNew type s price qty (mt mem_toFinset.2 hid')
  rw [htwin.orderCount] at hnew
  refine ⟨_, _, (htwin.createOrder type id id' s price qty).restOrder _, hnew.holds, ?_⟩
  intro t p
  rw [← htwin.orderCount] at hnew ⊢
  rw [hnew.map hholds, qtyOf_append, hqty, Depth.add]
  by_cases hts : t = s
  · subst hts
    by_cases hp : p = price
    · simp [qtyOf, Order.new, hp]
    · simp [qtyOf, Order.new, hp, Ne.symm hp]
  · simp [qtyOf, Order.new, hts, Ne.symm hts]

/-- Draining a level drops its price from the map. -/
theorem Shows.drain (h : Shows ob d) (s : Side) (price : Int) :
    Shows ((match splitLevel (ob.levels s) price with
        | some (pre, lvl, post) => drainLevel s pre post (ob.nodeCount + 1) lvl ob
        | none => ob).removeLevelIfEmpty s price)
      (update d s ((d s).erase price)) := by
  obtain ⟨ob', P, htwin, hholds, hqty⟩ := h
  obtain ⟨P', heff, hmap⟩ := hholds.drain s price
  rw [← heff.orders_eq] at hmap
  refine ⟨_, P', ?_, heff.holds, ?_⟩
  · rw [htwin.levels, htwin.nodeCount]
    refine Twin.removeLevelIfEmpty ?_ s price
    cases splitLevel (ob.levels s) price with
    | none => exact htwin
    | some split => exact Twin.drainLevel s split.1 split.2.2 _ split.2.1 htwin
  · intro t p
    rw [hmap, heff.orders_eq]
    by_cases hlevel : t = s ∧ p = price
    · obtain ⟨rfl, rfl⟩ := hlevel
      rw [qtyOf_offLevel_self, update_self, Finsupp.erase_same]
    · rw [qtyOf_offLevel_of_ne _ hlevel, hqty]
      by_cases hts : t = s
      · subst hts
        have hp : p ≠ price := fun hp => hlevel ⟨rfl, hp⟩
        rw [update_self, Finsupp.erase_ne hp]
      · rw [update_of_ne hts]

theorem Shows.seedLevels (h : Shows ob d) (s : Side) (levels : List (Int × Nat))
    (gen : OrderIdGenerator) :
    Shows (seedLevels s levels (ob, gen)).1
      (update d s (d s + Depth.ofEntries levels)) := by
  induction levels generalizing ob d gen with
  | nil =>
    rw [Depth.ofEntries, map_nil, sum_nil, add_zero, update_eq_self]
    exact h
  | cons level levels ih =>
    obtain ⟨price, qty⟩ := level
    have hcons : Depth.ofEntries ((price, qty) :: levels) =
        Finsupp.single price qty + Depth.ofEntries levels := rfl
    rw [seedLevels, hcons]
    split_ifs with hq
    · rw [hq, Finsupp.single_zero, zero_add]
      exact ih h gen
    · have hrest := ih (h.rest .goodTillCancel gen.next.1 s price qty) gen.next.2
      rw [Depth.add, update_self, update_idem, add_assoc] at hrest
      exact hrest

theorem Shows.applyL2Snapshot (h : Holds ob P) (gen : OrderIdGenerator)
    (bids asks : List (Int × Nat)) :
    Shows (ob.applyL2Snapshot gen bids asks).1 (Depth.snapshot bids asks) := by
  have hbids := (Shows.clear h).seedLevels .buy bids gen
  have hasks := hbids.seedLevels .sell asks (Orderbook.seedLevels .buy bids (ob.clear, gen)).2
  have hboth : update (update (0 : Depth) .buy ((0 : Depth) .buy +
      Depth.ofEntries bids)) .sell (update (0 : Depth) .buy ((0 : Depth) .buy +
      Depth.ofEntries bids) .sell + Depth.ofEntries asks) = Depth.snapshot bids asks := by
    funext s
    cases s <;> simp [Depth.snapshot]
  rw [hboth] at hasks
  exact hasks

theorem Shows.applyL2Update (h : Shows ob d) (gen : OrderIdGenerator) (s : Side) (price : Int)
    (qty : Nat) : Shows (ob.applyL2Update gen s price qty).1 (d.update s price qty) := by
  have hdrain := h.drain s price
  rw [Orderbook.applyL2Update]
  split_ifs with hq
  · rw [← Depth.add_erase]
    exact hdrain.rest .goodTillCancel gen.next.1 s price qty
  · rw [Nat.eq_zero_of_not_pos hq, Depth.update_zero]
    exact hdrain

/-! ## What the book lists -/

/-- The level of a price holds what the orders at the price have left. -/
theorem Rep.totalQty_eq {L F : List Nat} (h : Rep ob L F) {s : Side} {l : PriceLevel}
    (hl : l ∈ ob.levels s) :
    l.totalQty = UInt64.ofNat (qtyOf s l.price ((L.map ob.ptrOf).map ob.orders)) := by
  rw [(h.level s l hl).total, map_orders_ptrOf, qtyOf, filter_map, map_map]
  rfl

theorem exists_of_qtyOf_pos {s : Side} {os : List Order} (h : 0 < qtyOf s price os) :
    ∃ o ∈ os, o.side = s ∧ o.price = price := by
  by_contra hnone
  have hnil : (os.filter fun o => o.side = s ∧ o.price = price) = [] :=
    filter_eq_nil_iff.2 fun o ho hat => hnone ⟨o, ho, of_decide_eq_true hat⟩
  rw [qtyOf, hnil] at h
  exact absurd h (lt_irrefl 0)

/-- `get_order_infos` lists the support of the map with its quantities, best price first. -/
structure Refines (ob : Orderbook) (d : Depth) : Prop where
  lists : ∀ s price q, (price, q) ∈ ob.orderInfos s ↔ price ∈ (d s).support ∧ q.toNat = d s price
  bids_descending : (ob.orderInfos .buy).Pairwise fun a b => b.1 < a.1
  asks_ascending : (ob.orderInfos .sell).Pairwise fun a b => a.1 < b.1

theorem Rep.orderInfos_sorted {L F : List Nat} (h : Rep ob L F) (s : Side) :
    (ob.orderInfos s).Pairwise fun a b => s.before a.1 b.1 := by
  rw [orderInfos, pairwise_map]
  exact (h.sorted s).filter _

theorem Rep.mem_orderInfos {L F : List Nat} (h : Rep ob L F) {s : Side} {q : UInt64}
    (hlt : qtyOf s price ((L.map ob.ptrOf).map ob.orders) < 2 ^ 64) :
    (price, q) ∈ ob.orderInfos s ↔ 0 < qtyOf s price ((L.map ob.ptrOf).map ob.orders) ∧
      q.toNat = qtyOf s price ((L.map ob.ptrOf).map ob.orders) := by
  set total := qtyOf s price ((L.map ob.ptrOf).map ob.orders) with htotal
  have hnat : (UInt64.ofNat total).toNat = total := by
    rw [UInt64.toNat_ofNat', Nat.mod_eq_of_lt hlt]
  rw [orderInfos, mem_map]
  constructor
  · rintro ⟨l, hl, hlq⟩
    obtain ⟨rfl, rfl⟩ := Prod.mk.inj hlq
    obtain ⟨hl, hpos⟩ := mem_filter.1 hl
    have hq := h.totalQty_eq hl
    rw [← htotal] at hq
    rw [hq, hnat]
    have hpos' := UInt64.lt_iff_toNat_lt.1 (of_decide_eq_true hpos)
    rw [hq, hnat] at hpos'
    exact ⟨hpos', rfl⟩
  · rintro ⟨hpos, hq⟩
    -- Some order rests at the price, so the price has a level.
    obtain ⟨l, hl, rfl⟩ : ∃ l ∈ ob.levels s, l.price = price := by
      obtain ⟨o, ho, hos, hop⟩ := exists_of_qtyOf_pos hpos
      rw [map_orders_ptrOf] at ho
      obtain ⟨n, hn, rfl⟩ := mem_map.1 ho
      obtain ⟨l, hl, hlp⟩ := h.covered n hn
      rw [hos] at hl
      exact ⟨l, hl, hlp.trans hop⟩
    refine ⟨l, mem_filter.2 ⟨hl, decide_eq_true ?_⟩, Prod.ext rfl ?_⟩
    · rw [h.totalQty_eq hl, UInt64.lt_iff_toNat_lt, ← htotal, hnat]
      exact hpos
    · rw [h.totalQty_eq hl, ← htotal]
      exact UInt64.toNat_inj.1 (hnat.trans hq.symm)

theorem Shows.refines (h : Shows ob d) (hlt : ∀ s price, d s price < 2 ^ 64) : Refines ob d := by
  obtain ⟨ob', P, htwin, ⟨L, F, hrep, rfl⟩, hqty⟩ := h
  refine ⟨fun s price q => ?_, ?_, ?_⟩
  · rw [← htwin.orderInfos, hrep.mem_orderInfos (by rw [hqty]; exact hlt s price), hqty,
      Finsupp.mem_support_iff, Nat.pos_iff_ne_zero]
  · rw [← htwin.orderInfos]
    exact hrep.orderInfos_sorted .buy
  · rw [← htwin.orderInfos]
    exact hrep.orderInfos_sorted .sell

/-! ## Runs of the feed -/

/-- One call of `apply_l2_update`. -/
structure LevelUpdate where
  side : Side
  price : Int
  qty : Nat

def LevelUpdate.op (u : LevelUpdate) : Op := .l2Update u.side u.price u.qty

/-- What the updates make of a map. -/
noncomputable def Depth.updates (d : Depth) (us : List LevelUpdate) : Depth :=
  us.foldl (fun d u => d.update u.side u.price u.qty) d

theorem Depth.update_lt (h : ∀ s price, d s price < 2 ^ 64) {u : LevelUpdate}
    (hu : u.qty < 2 ^ 64) : ∀ s price, d.update u.side u.price u.qty s price < 2 ^ 64 := by
  intro s price
  rw [update]
  by_cases hs : s = u.side
  · subst hs
    rw [update_self, Finsupp.update_apply]
    split
    · exact hu
    · exact h _ price
  · rw [update_of_ne hs]
    exact h s price

/-- A book that shows a map shows the updated map after the updates. -/
theorem Shows.refines_updates {st : State} (h : Shows st.book d)
    (hlt : ∀ s price, d s price < 2 ^ 64) {us : List LevelUpdate} (hus : ∀ u ∈ us, u.qty < 2 ^ 64) :
    Refines (Machine.final step st (us.map LevelUpdate.op)).book (d.updates us) := by
  induction us generalizing st d with
  | nil => exact h.refines hlt
  | cons u us ih =>
    obtain ⟨hu, hus⟩ := forall_mem_cons.1 hus
    exact ih (h.applyL2Update st.gen u.side u.price u.qty) (Depth.update_lt hlt hu) hus

/-- **The book refines the depth map.** After a snapshot and any sequence of updates, the listed
prices are those with a positive quantity in the map, in the order of the side, each with that
quantity. -/
theorem refines_of_l2Feed {os : List Order} (h : Models ob os) (gen : OrderIdGenerator)
    (bids asks : List (Int × Nat)) (us : List LevelUpdate)
    (hbids : ∀ price, levelQty price bids < 2 ^ 64) (hasks : ∀ price, levelQty price asks < 2 ^ 64)
    (hus : ∀ u ∈ us, u.qty < 2 ^ 64) :
    Refines (Machine.final step ⟨ob, gen⟩ (.l2Snapshot bids asks :: us.map LevelUpdate.op)).book
      ((Depth.snapshot bids asks).updates us) := by
  obtain ⟨P, hholds, -⟩ := h
  have hshows := Shows.applyL2Snapshot hholds gen bids asks
  have hlt : ∀ s price, Depth.snapshot bids asks s price < 2 ^ 64 := by
    intro s price
    cases s with
    | buy => rw [Depth.snapshot, Depth.ofEntries_apply]; exact hbids price
    | sell => rw [Depth.snapshot, Depth.ofEntries_apply]; exact hasks price
  have hstep : Shows (step ⟨ob, gen⟩ (.l2Snapshot bids asks)).2.book (Depth.snapshot bids asks) :=
    hshows
  exact hstep.refines_updates hlt hus

/-- A price named twice, one with a zero, one removed by an update and one added by it. -/
theorem refines_of_mixedFeed :
    Refines (Machine.final step ⟨init, ⟨1⟩⟩
        [.l2Snapshot [(10, 5), (9, 0), (10, 2)] [(12, 4)], .l2Update .sell 12 0,
          .l2Update .buy 11 3]).book
      ((Depth.snapshot [(10, 5), (9, 0), (10, 2)] [(12, 4)]).updates
        [⟨.sell, 12, 0⟩, ⟨.buy, 11, 3⟩]) := by
  refine refines_of_l2Feed models_init ⟨1⟩ _ _ [⟨.sell, 12, 0⟩, ⟨.buy, 11, 3⟩] ?_ ?_ ?_
  · intro price
    by_cases h10 : 10 = price <;> by_cases h9 : 9 = price <;> simp [levelQty, h10, h9]
  · intro price
    by_cases h12 : 12 = price <;> simp [levelQty, h12]
  · simp

end TrueTest.Orderbook
