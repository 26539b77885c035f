import Mathlib.Data.List.TakeWhile
import TrueTest.Orderbook.Book

/-!
# What the pointers of a book represent

A book is determined by one list: its live nodes `L` in arrival order. The queue of a level is the
sublist of `L` with the level's side and price (`queueAt`), and the nodes not in `L` are the free
list `F`. `RepW ob L F` says that all the pointer structures of `ob` spell out exactly this:
level vectors strictly sorted, every level an intrusive list of its queue with the right total,
the map from ids a bijection onto `L`, the free list a stack of `F`, and every allocated node in
exactly one place. `Rep` adds that no level is empty, which fails only in the middle of a trade.

The rest of the file is the effect of the book's primitive updates on `(L, F)`:

* `RepW.rest`: resting an order appends a node to `L`;
* `RepW.fill`: a fill (with the level total adjusted) keeps `L`;
* `RepW.drop`: unlinking an order moves its node from `L` to `F`;
* `RepW.eraseLevel`: an empty level can leave its vector.
-/

namespace TrueTest.Orderbook

open IntrusiveList List Function

/-- The live nodes at one side and price, in arrival order. -/
def queueAt (ob : Orderbook) (L : List Nat) (s : Side) (p : Int) : List Nat :=
  L.filter fun n => (ob.orderOf n).side = s ∧ (ob.orderOf n).price = p

/-- The remaining quantity the given nodes hold together. -/
def qtySum (ob : Orderbook) (ns : List Nat) : Nat :=
  (ns.map fun n => (ob.orderOf n).remainingQuantity).sum

/-- A level of side `s` holds its queue, and its total is the queue's. -/
structure LevelOk (ob : Orderbook) (L : List Nat) (s : Side) (l : PriceLevel) : Prop where
  queue : IsList ob.nodes l.toEnds (ob.queueAt L s l.price)
  total : l.totalQty = UInt64.ofNat (ob.qtySum (ob.queueAt L s l.price))

/-- The pointers of `ob` represent the live nodes `L` and the free list `F`; levels may be
empty. -/
structure RepW (ob : Orderbook) (L F : List Nat) : Prop where
  nodup : (L ++ F).Nodup
  alloc : ∀ n, n ∈ L ++ F ↔ n < ob.nodeCount
  stack : Stack ob.nodes ob.freeNodes F
  sorted : ∀ s, (ob.levels s).Pairwise fun a b => s.before a.price b.price
  covered : ∀ n ∈ L, ∃ l ∈ ob.levels (ob.orderOf n).side, l.price = (ob.orderOf n).price
  level : ∀ s, ∀ l ∈ ob.levels s, ob.LevelOk L s l
  map : ∀ id n, ob.orderMap.lookup id = some n ↔ n ∈ L ∧ (ob.orderOf n).orderId = id
  ptr : ∀ n ∈ L, ∃ p, (ob.nodes n).val = some p ∧ p < ob.orderCount
  ptr_inj : ∀ m ∈ L, ∀ n ∈ L, (ob.nodes m).val = (ob.nodes n).val → m = n

/-- `RepW`, and no level is empty. -/
structure Rep (ob : Orderbook) (L F : List Nat) : Prop extends RepW ob L F where
  nonempty : ∀ s, ∀ l ∈ ob.levels s, ob.queueAt L s l.price ≠ []

variable {ob ob' : Orderbook} {L L' F : List Nat} {s t : Side} {p q : Int} {n m r qty : Nat}
  {lvl l : PriceLevel}

/-! ## Queues -/

theorem mem_queueAt :
    m ∈ ob.queueAt L s p ↔ m ∈ L ∧ (ob.orderOf m).side = s ∧ (ob.orderOf m).price = p := by
  simp [queueAt]

theorem queueAt_congr (h : ∀ n ∈ L, (ob'.orderOf n).side = (ob.orderOf n).side ∧
    (ob'.orderOf n).price = (ob.orderOf n).price) (s : Side) (p : Int) :
    ob'.queueAt L s p = ob.queueAt L s p :=
  filter_congr fun n hn => by rw [(h n hn).1, (h n hn).2]

@[simp] theorem queueAt_setLevels (ob : Orderbook) (s : Side) (ls : List PriceLevel) :
    (ob.setLevels s ls).queueAt = ob.queueAt := by
  cases s <;> rfl

theorem qtySum_congr (h : ∀ n ∈ L, (ob'.orderOf n).remainingQuantity =
    (ob.orderOf n).remainingQuantity) : ob'.qtySum L = ob.qtySum L := by
  unfold qtySum
  rw [map_congr_left h]

theorem add_qtySum_erase (hn : n ∈ L) :
    (ob.orderOf n).remainingQuantity + ob.qtySum (L.erase n) = ob.qtySum L :=
  sum_map_erase (fun n => (ob.orderOf n).remainingQuantity) hn

namespace RepW

variable (h : RepW ob L F)
include h

theorem nodup_live : L.Nodup := (nodup_append.1 h.nodup).1

theorem nodup_free : F.Nodup := (nodup_append.1 h.nodup).2.1

theorem not_mem_free (hn : n ∈ L) : n ∉ F := fun hf =>
  (nodup_append.1 h.nodup).2.2 n hn n hf rfl

theorem nodup_queueAt (s : Side) (p : Int) : (ob.queueAt L s p).Nodup :=
  h.nodup_live.filter _

/-- A live id names one node. -/
theorem id_inj (hm : m ∈ L) (hn : n ∈ L) (he : (ob.orderOf m).orderId = (ob.orderOf n).orderId) :
    m = n := by
  have h₁ := (h.map _ m).2 ⟨hm, rfl⟩
  have h₂ := (h.map _ n).2 ⟨hn, rfl⟩
  rw [he, h₂, Option.some.injEq] at h₁
  exact h₁.symm

/-- Two live nodes hold two objects. -/
theorem ptr_ne (hm : m ∈ L) (hn : n ∈ L) (hmn : m ≠ n) :
    (ob.nodes m).val.getD 0 ≠ (ob.nodes n).val.getD 0 := by
  obtain ⟨r, hr, -⟩ := h.ptr m hm
  obtain ⟨r', hr', -⟩ := h.ptr n hn
  rw [hr, hr']
  exact fun he => hmn (h.ptr_inj m hm n hn (by rw [hr, hr']; exact congrArg some he))

end RepW

section Found

variable {pre post : List PriceLevel} (h : RepW ob L F)
  (hsort : (pre ++ lvl :: post).Pairwise fun a b => s.before a.price b.price)
  (hls : ob.levels s = pre ++ lvl :: post ∨ ob.levels s = pre ++ post ∧ lvl = PriceLevel.new p)

include hsort hls

/-- The levels around the one that was found or made. -/
theorem around_found (hl : l ∈ pre ∨ l ∈ post) : l ∈ ob.levels s ∧ l.price ≠ lvl.price := by
  constructor
  · rcases hls with hls | ⟨hls, -⟩ <;> rw [hls] <;> rcases hl with hl | hl <;> simp [hl]
  · rw [pairwise_append, pairwise_cons] at hsort
    rcases hl with hl | hl
    · exact Side.before_ne (hsort.2.2 l hl lvl mem_cons_self)
    · exact (Side.before_ne (hsort.2.1.1 l hl)).symm

include h in
/-- The level before the append: the one in the vector, or a new and empty one. -/
theorem levelOk_found : ob.LevelOk L s lvl := by
  have hoff : ∀ l, l ∈ pre ∨ l ∈ post → l.price ≠ lvl.price :=
    fun _ hl => (around_found hsort hls hl).2
  rcases hls with hls | ⟨hls, hnew⟩
  · exact h.level s lvl (by rw [hls]; simp)
  · have hnil : ob.queueAt L s lvl.price = [] := by
      refine eq_nil_iff_forall_not_mem.2 fun m hm => ?_
      obtain ⟨hmL, hms, hmp⟩ := mem_queueAt.1 hm
      obtain ⟨l, hl, hlp⟩ := h.covered m hmL
      rw [hms, hls, mem_append] at hl
      exact hoff l hl (hlp.trans hmp)
    refine ⟨?_, ?_⟩ <;> rw [hnil, hnew]
    · exact ⟨rfl, rfl, trivial⟩
    · rfl

end Found

theorem RepW.around (h : RepW ob L F) {pre post : List PriceLevel}
    (hl : ob.levels s = pre ++ lvl :: post)
    (hmem : l ∈ pre ∨ l ∈ post) : l ∈ ob.levels s ∧ l.price ≠ lvl.price :=
  around_found (p := 0) (hl ▸ h.sorted s) (.inl hl) hmem

/-- A level whose queue, links and remaining quantities did not change is still right. -/
theorem LevelOk.congr (h : ob.LevelOk L s l)
    (hq : ob'.queueAt L' s l.price = ob.queueAt L s l.price)
    (hm : ∀ m ∈ ob.queueAt L s l.price, ob'.nodes m = ob.nodes m ∧
      (ob'.orderOf m).remainingQuantity = (ob.orderOf m).remainingQuantity) :
    ob'.LevelOk L' s l := by
  obtain ⟨⟨hh, ht, hseg⟩, htot⟩ := h
  refine ⟨?_, ?_⟩
  · rw [hq]
    exact ⟨hh, ht, hseg.congr fun m hm' => by rw [(hm m hm').1]; exact ⟨rfl, rfl⟩⟩
  · rw [hq, htot, qtySum_congr fun m hm' => (hm m hm').2]

/-- When one level changes and the other queues do not, only that level is to be checked. -/
theorem RepW.level_update (h : RepW ob L F) {pre post : List PriceLevel}
    (hlevs : ob'.levels s = pre ++ lvl :: post) (hlevt : ∀ t, t ≠ s → ob'.levels t = ob.levels t)
    (hold : ∀ l, l ∈ pre ∨ l ∈ post → l ∈ ob.levels s ∧ l.price ≠ lvl.price)
    (hoff : ∀ t p, ¬ (t = s ∧ p = lvl.price) → ob'.queueAt L' t p = ob.queueAt L t p ∧
      ∀ m ∈ ob.queueAt L t p, ob'.nodes m = ob.nodes m ∧ ob'.orderOf m = ob.orderOf m)
    (hself : ob'.LevelOk L' s lvl) : ∀ t, ∀ l ∈ ob'.levels t, ob'.LevelOk L' t l := by
  have hother : ∀ t, ∀ l ∈ ob.levels t, ¬ (t = s ∧ l.price = lvl.price) → ob'.LevelOk L' t l := by
    intro t l hl hne
    obtain ⟨hq, hm⟩ := hoff t l.price hne
    exact (h.level t l hl).congr hq fun m hm' => ⟨(hm m hm').1, by rw [(hm m hm').2]⟩
  intro t l hl
  by_cases hts : t = s
  · subst hts
    rw [hlevs, mem_append, mem_cons] at hl
    rcases hl with hl | rfl | hl
    · exact hother t l (hold l (.inl hl)).1 fun hc => (hold l (.inl hl)).2 hc.2
    · exact hself
    · exact hother t l (hold l (.inr hl)).1 fun hc => (hold l (.inr hl)).2 hc.2
  · rw [hlevt t hts] at hl
    exact hother t l hl fun hc => hts hc.1

section Update

variable {pre post : List PriceLevel} {lvl lvl' : PriceLevel}

theorem map_price_update (hl : ob.levels s = pre ++ lvl :: post)
    (hlevs : ob'.levels s = pre ++ lvl' :: post) (hlevt : ∀ t, t ≠ s → ob'.levels t = ob.levels t)
    (hp : lvl'.price = lvl.price) (t : Side) :
    (ob'.levels t).map PriceLevel.price = (ob.levels t).map PriceLevel.price := by
  by_cases hts : t = s
  · subst hts
    rw [hlevs, hl]
    simp [hp]
  · rw [hlevt t hts]

theorem RepW.sorted_of_prices (h : RepW ob L F)
    (hp : (ob'.levels s).map PriceLevel.price = (ob.levels s).map PriceLevel.price) :
    (ob'.levels s).Pairwise fun a b => s.before a.price b.price := by
  have hsorted := pairwise_map.2 (h.sorted s)
  rw [← hp] at hsorted
  exact pairwise_map.1 hsorted

theorem RepW.covered_of_prices (h : RepW ob L F) (hm : m ∈ L)
    (hp : (ob.levels (ob.orderOf m).side).map PriceLevel.price ⊆
      (ob'.levels (ob.orderOf m).side).map PriceLevel.price) :
    ∃ l ∈ ob'.levels (ob.orderOf m).side, l.price = (ob.orderOf m).price :=
  mem_map.1 (hp (mem_map.2 (h.covered m hm)))

/-- A book that is the same at the live nodes differs from the other in the free ones alone. -/
theorem RepW.frame {F' : List Nat} (h : RepW ob L F) (hnodup : (L ++ F').Nodup)
    (halloc : ∀ n, n ∈ L ++ F' ↔ n < ob'.nodeCount) (hstack : Stack ob'.nodes ob'.freeNodes F')
    (hlev : ∀ t, ob'.levels t = ob.levels t) (hnodes : ∀ m ∈ L, ob'.nodes m = ob.nodes m)
    (hord : ∀ m ∈ L, ob'.orderOf m = ob.orderOf m) (hmap : ob'.orderMap = ob.orderMap)
    (hcount : ob.orderCount ≤ ob'.orderCount) : RepW ob' L F' where
  nodup := hnodup
  alloc := halloc
  stack := hstack
  sorted t := by
    rw [hlev]
    exact h.sorted t
  covered m hm := by
    rw [hord m hm, hlev]
    exact h.covered m hm
  level t l hl := by
    rw [hlev] at hl
    refine (h.level t l hl).congr (queueAt_congr (fun m hm => by rw [hord m hm]; simp) _ _)
      fun m hm => ?_
    rw [hord m (mem_queueAt.1 hm).1]
    exact ⟨hnodes m (mem_queueAt.1 hm).1, rfl⟩
  map id m := by
    rw [hmap, h.map]
    exact and_congr_right fun hm => by rw [hord m hm]
  ptr m hm := by
    obtain ⟨r, hr, hlt⟩ := h.ptr m hm
    exact ⟨r, by rw [hnodes m hm, hr], hlt.trans_le hcount⟩
  ptr_inj m hm k hk he := by
    rw [hnodes m hm, hnodes k hk] at he
    exact h.ptr_inj m hm k hk he

end Update

/-! ## Unlinking an order -/

section Drop

variable {pre post : List PriceLevel} {lvl : PriceLevel}

/-- The level after `n` is unlinked from it. -/
def lvlDrop (ob : Orderbook) (lvl : PriceLevel) (n : Nat) : PriceLevel :=
  { lvl with
    toEnds := (unlink ob.nodes lvl.toEnds n).2
    totalQty := lvl.totalQty - UInt64.ofNat (ob.orderOf n).remainingQuantity }

theorem dropNode_eq : ob.dropNode s pre lvl post n =
      { ob with
        nodes := update (unlink ob.nodes lvl.toEnds n).1 n ⟨none, ob.freeNodes, none⟩
        freeNodes := some n
        orderMap := ob.orderMap.erase (ob.orderOf n).orderId }.setLevels s
          (pre ++ ob.lvlDrop lvl n :: post) := by
  cases s <;> rfl

@[simp] theorem dropNode_nodes : (ob.dropNode s pre lvl post n).nodes =
    update (unlink ob.nodes lvl.toEnds n).1 n ⟨none, ob.freeNodes, none⟩ := by
  simp [dropNode_eq]

@[simp] theorem dropNode_levels_self : (ob.dropNode s pre lvl post n).levels s =
    pre ++ ob.lvlDrop lvl n :: post := by simp [dropNode_eq]

theorem dropNode_levels_of_ne (h : t ≠ s) :
    (ob.dropNode s pre lvl post n).levels t = ob.levels t := by
  rw [dropNode_eq, levels_setLevels_of_ne _ _ h]; cases t <;> rfl

@[simp] theorem dropNode_orders : (ob.dropNode s pre lvl post n).orders = ob.orders := by
  simp [dropNode_eq]

@[simp] theorem dropNode_orderCount :
    (ob.dropNode s pre lvl post n).orderCount = ob.orderCount := by simp [dropNode_eq]

@[simp] theorem dropNode_nodeBlocks :
    (ob.dropNode s pre lvl post n).nodeBlocks = ob.nodeBlocks := by simp [dropNode_eq]

@[simp] theorem dropNode_freeNodes : (ob.dropNode s pre lvl post n).freeNodes = some n := by
  simp [dropNode_eq]

@[simp] theorem dropNode_orderMap : (ob.dropNode s pre lvl post n).orderMap =
    ob.orderMap.erase (ob.orderOf n).orderId := by simp [dropNode_eq]

/-- Off the dropped node, every order is as before. -/
theorem dropNode_val (hm : m ≠ n) :
    ((ob.dropNode s pre lvl post n).nodes m).val = (ob.nodes m).val := by
  rw [dropNode_nodes, update_of_ne hm, unlink_val]

theorem dropNode_orderOf (hm : m ≠ n) :
    (ob.dropNode s pre lvl post n).orderOf m = ob.orderOf m := by
  simp only [orderOf, dropNode_val hm, dropNode_orders]

theorem dropNode_queueAt (hnd : L.Nodup) (t : Side) (p : Int) :
    (ob.dropNode s pre lvl post n).queueAt (L.erase n) t p = (ob.queueAt L t p).erase n := by
  have hqnd : (ob.queueAt L t p).Nodup := hnd.filter _
  rw [hnd.erase_eq_filter, hqnd.erase_eq_filter, queueAt, queueAt, filter_filter, filter_filter]
  refine filter_congr fun m _ => ?_
  by_cases hm : m = n
  · simp [hm]
  · rw [dropNode_orderOf hm, Bool.and_comm]

theorem dropNode_levelOk (h : RepW ob L F) (hl : lvl ∈ ob.levels s)
    (hn : n ∈ ob.queueAt L s lvl.price) :
    (ob.dropNode s pre lvl post n).LevelOk (L.erase n) s (ob.lvlDrop lvl n) := by
  have hqnd := h.nodup_queueAt s lvl.price
  have hne : ∀ m ∈ (ob.queueAt L s lvl.price).erase n, m ≠ n := fun m hm he =>
    hqnd.not_mem_erase (he ▸ hm)
  obtain ⟨hlist, htot⟩ := h.level s lvl hl
  refine ⟨?_, ?_⟩
  · obtain ⟨hh, ht, hseg⟩ := unlink_isList hlist hqnd hn
    rw [dropNode_queueAt h.nodup_live]
    refine ⟨hh, ht, hseg.congr fun m hm => ?_⟩
    rw [dropNode_nodes, update_of_ne (hne m hm)]
    exact ⟨rfl, rfl⟩
  · have hsum := @add_qtySum_erase ob _ _ hn
    have hsum' : (ob.dropNode s pre lvl post n).qtySum ((ob.queueAt L s lvl.price).erase n) =
        ob.qtySum ((ob.queueAt L s lvl.price).erase n) :=
      qtySum_congr fun m hm => by rw [dropNode_orderOf (hne m hm)]
    rw [dropNode_queueAt h.nodup_live]
    show lvl.totalQty - UInt64.ofNat (ob.orderOf n).remainingQuantity =
      UInt64.ofNat ((ob.dropNode s pre lvl post n).qtySum ((ob.queueAt L s lvl.price).erase n))
    rw [hsum', htot, ← UInt64.ofNat_sub (hsum ▸ Nat.le_add_right _ _), ← hsum,
      Nat.add_sub_cancel_left]

/-- **Unlinking moves a node from the live ones to the free list.** -/
theorem RepW.drop (h : RepW ob L F) (hl : ob.levels s = pre ++ lvl :: post)
    (hn : n ∈ ob.queueAt L s lvl.price) :
    RepW (ob.dropNode s pre lvl post n) (L.erase n) (n :: F) := by
  obtain ⟨hnL, hns, hnp⟩ := mem_queueAt.1 hn
  have hlvl : lvl ∈ ob.levels s := by rw [hl]; simp
  have hperm : (L.erase n ++ n :: F).Perm (L ++ F) :=
    perm_middle.trans ((perm_cons_erase hnL).symm.append_right F)
  have hne : ∀ {m}, m ∈ L.erase n → m ≠ n := fun hm he => h.nodup_live.not_mem_erase (he ▸ hm)
  -- The links change only inside the level's queue.
  have hframe : ∀ m, m ∉ ob.queueAt L s lvl.price →
      (ob.dropNode s pre lvl post n).nodes m = ob.nodes m := fun m hm => by
    have hmn : m ≠ n := fun he => hm (he ▸ hn)
    rw [dropNode_nodes, update_of_ne hmn,
      unlink_frame (h.level s lvl hlvl).queue (h.nodup_queueAt s lvl.price) hn hm]
  have hprices := map_price_update hl (@dropNode_levels_self ob s n pre post lvl)
    (fun t => dropNode_levels_of_ne) rfl
  exact {
    nodup := hperm.nodup_iff.2 h.nodup
    alloc := fun m => by
      rw [hperm.mem_iff, h.alloc m, nodeCount, nodeCount, dropNode_nodeBlocks]
    stack := by
      refine ⟨by simp, ?_⟩
      have htop : ((ob.dropNode s pre lvl post n).nodes n).next = ob.freeNodes := by simp
      rw [htop]
      refine h.stack.congr fun m hm => ?_
      rw [hframe m fun hq => h.not_mem_free (mem_queueAt.1 hq).1 hm]
    sorted := fun t => h.sorted_of_prices (hprices t)
    covered := fun m hm => by
      rw [dropNode_orderOf (hne hm)]
      exact h.covered_of_prices (mem_of_mem_erase hm) (by simp [hprices])
    level := by
      refine h.level_update dropNode_levels_self
        (fun t => dropNode_levels_of_ne) (fun l hlm => (h.around hl hlm :))
        (fun t p hne' => ⟨?_, fun m hm => ?_⟩) (dropNode_levelOk h hlvl hn)
      · rw [dropNode_queueAt h.nodup_live, erase_of_not_mem]
        exact fun hq => hne' ⟨(mem_queueAt.1 hq).2.1.symm.trans hns,
          (mem_queueAt.1 hq).2.2.symm.trans hnp⟩
      · have hmq : m ∉ ob.queueAt L s lvl.price := fun hq => hne'
          ⟨(mem_queueAt.1 hm).2.1.symm.trans (mem_queueAt.1 hq).2.1,
            (mem_queueAt.1 hm).2.2.symm.trans (mem_queueAt.1 hq).2.2⟩
        exact ⟨hframe m hmq, dropNode_orderOf fun he => hmq (he ▸ hn)⟩
    map := by
      intro id m
      rw [dropNode_orderMap]
      by_cases hid : id = (ob.orderOf n).orderId
      · subst hid
        simp only [AList.lookup_erase, reduceCtorEq, false_iff, not_and]
        intro hm he
        rw [dropNode_orderOf (hne hm)] at he
        exact hne hm (h.id_inj (mem_of_mem_erase hm) hnL he)
      · rw [AList.lookup_erase_ne hid, h.map id m]
        constructor
        · rintro ⟨hm, he⟩
          have hmn : m ≠ n := fun hc => hid (by rw [← he, hc])
          exact ⟨(mem_erase_of_ne hmn).2 hm, by rw [dropNode_orderOf hmn]; exact he⟩
        · rintro ⟨hm, he⟩
          rw [dropNode_orderOf (hne hm)] at he
          exact ⟨mem_of_mem_erase hm, he⟩
    ptr := fun m hm => by
      rw [dropNode_val (hne hm), dropNode_orderCount]
      exact h.ptr m (mem_of_mem_erase hm)
    ptr_inj := fun m hm k hk he => by
      rw [dropNode_val (hne hm), dropNode_val (hne hk)] at he
      exact h.ptr_inj m (mem_of_mem_erase hm) k (mem_of_mem_erase hk) he }

end Drop

/-! ## Filling an order -/

section Fill

variable {pre post : List PriceLevel} {lvl : PriceLevel}

/-- A fill of the order at `n`, with its level's total adjusted. -/
def fillAt (ob : Orderbook) (s : Side) (pre : List PriceLevel) (lvl : PriceLevel)
    (post : List PriceLevel) (n : Nat) (qty : Nat) : Orderbook :=
  (ob.fillOrder ((ob.nodes n).val.getD 0) qty).setLevels s
    (pre ++ { lvl with totalQty := lvl.totalQty - UInt64.ofNat qty } :: post)

theorem fillOrder_eq (hq : qty ≤ (ob.orders r).remainingQuantity) : ob.fillOrder r qty =
      { ob with orders := update ob.orders r ((ob.orders r).less qty) } := by
  unfold fillOrder Order.fill
  rw [if_neg (Nat.not_lt.2 hq)]

/-- Only the filled order changes, and of it only the remaining quantity. -/
theorem fillOrder_orderOf (h : RepW ob L F) (hn : n ∈ L)
    (hq : qty ≤ (ob.orderOf n).remainingQuantity) (hm : m ∈ L) :
    (ob.fillOrder ((ob.nodes n).val.getD 0) qty).orderOf m =
      if m = n then (ob.orderOf n).less qty else ob.orderOf m := by
  rw [fillOrder_eq hq]
  show update ob.orders ((ob.nodes n).val.getD 0) _ ((ob.nodes m).val.getD 0) = _
  split_ifs with hmn
  · subst hmn
    rw [update_self]; rfl
  · exact update_of_ne (h.ptr_ne hm hn hmn) _ _

theorem RepW.fill (h : RepW ob L F) (hl : ob.levels s = pre ++ lvl :: post)
    (hn : n ∈ ob.queueAt L s lvl.price) (hq : qty ≤ (ob.orderOf n).remainingQuantity) :
    RepW (ob.fillAt s pre lvl post n qty) L F := by
  obtain ⟨hnL, hns, hnp⟩ := mem_queueAt.1 hn
  have hlvl : lvl ∈ ob.levels s := by rw [hl]; simp
  set ob' := ob.fillAt s pre lvl post n qty with hob'
  have hord : ∀ m ∈ L, ob'.orderOf m =
      if m = n then (ob.orderOf n).less qty else ob.orderOf m := fun m hm => by
    rw [hob', fillAt, setLevels_orderOf]; exact fillOrder_orderOf h hnL hq hm
  have hsame : ∀ m ∈ L, (ob'.orderOf m).side = (ob.orderOf m).side ∧
      (ob'.orderOf m).price = (ob.orderOf m).price ∧
      (ob'.orderOf m).orderId = (ob.orderOf m).orderId := fun m hm => by
    rw [hord m hm]; split_ifs with hmn
    · subst hmn; exact ⟨rfl, rfl, rfl⟩
    · exact ⟨rfl, rfl, rfl⟩
  have hqueue : ∀ t p, ob'.queueAt L t p = ob.queueAt L t p :=
    queueAt_congr fun m hm => ⟨(hsame m hm).1, (hsame m hm).2.1⟩
  have hrest : ob'.nodes = ob.nodes ∧ ob'.nodeBlocks = ob.nodeBlocks ∧
      ob'.freeNodes = ob.freeNodes ∧ ob'.orderMap = ob.orderMap ∧
      ob'.orderCount = ob.orderCount := by
    rw [hob', fillAt, fillOrder_eq hq]; simp
  obtain ⟨hnodes, hblocks, hfree, hmap, hcount⟩ := hrest
  have hlevs :
      ob'.levels s = pre ++ { lvl with totalQty := lvl.totalQty - UInt64.ofNat qty } :: post := by
    rw [hob', fillAt]; simp
  have hlevt : ∀ t, t ≠ s → ob'.levels t = ob.levels t := fun t ht => by
    rw [hob', fillAt, levels_setLevels_of_ne _ _ ht, fillOrder_eq hq]; cases t <;> rfl
  have hprices := map_price_update hl hlevs hlevt rfl
  exact {
    nodup := h.nodup
    alloc := fun m => by rw [h.alloc, nodeCount, nodeCount, hblocks]
    stack := by rw [hnodes, hfree]; exact h.stack
    sorted := fun t => h.sorted_of_prices (hprices t)
    covered := fun m hm => by
      rw [(hsame m hm).1, (hsame m hm).2.1]
      exact h.covered_of_prices hm (by simp [hprices])
    level := by
      refine h.level_update hlevs hlevt (fun l hlm => (h.around hl hlm :))
        (fun t p hne => ⟨hqueue t p, ?_⟩) ⟨?_, ?_⟩
      · intro m hm
        have hmn : m ≠ n := fun he => hne ⟨(mem_queueAt.1 hm).2.1.symm.trans (by rw [he, hns]),
            (mem_queueAt.1 hm).2.2.symm.trans (by rw [he, hnp])⟩
        rw [hnodes, hord m (mem_queueAt.1 hm).1, if_neg hmn]
        exact ⟨rfl, rfl⟩
      · rw [hqueue, hnodes]
        exact (h.level s lvl hlvl).queue
      · -- The total falls by what the filled order lost.
        rw [hqueue]
        have hold := @add_qtySum_erase ob _ _ hn
        have hnew := @add_qtySum_erase ob' _ _ hn
        have heq : ob'.qtySum ((ob.queueAt L s lvl.price).erase n) =
            ob.qtySum ((ob.queueAt L s lvl.price).erase n) := qtySum_congr fun m hm => by
          have hmn : m ≠ n := fun he => (h.nodup_queueAt s lvl.price).not_mem_erase (he ▸ hm)
          rw [hord m (mem_queueAt.1 (mem_of_mem_erase hm)).1, if_neg hmn]
        rw [hord n hnL, if_pos rfl, heq, Order.less_remainingQuantity] at hnew
        show lvl.totalQty - UInt64.ofNat qty = UInt64.ofNat (ob'.qtySum (ob.queueAt L s lvl.price))
        rw [(h.level s lvl hlvl).total, ← UInt64.ofNat_sub (by omega), ← hnew]
        congr 1
        omega
    map := fun id m => by
      rw [hmap, h.map]
      refine and_congr_right fun hm => ?_
      rw [(hsame m hm).2.2]
    ptr := fun m hm => by rw [hnodes, hcount]; exact h.ptr m hm
    ptr_inj := fun m hm k hk he => by
      rw [hnodes] at he; exact h.ptr_inj m hm k hk he }

end Fill

/-! ## Erasing an empty level -/

theorem RepW.eraseLevel (h : RepW ob L F) {pre post : List PriceLevel}
    (hl : ob.levels s = pre ++ lvl :: post) (hempty : ob.queueAt L s lvl.price = []) :
    RepW (ob.setLevels s (pre ++ post)) L F := by
  have hsub : ∀ t, ((ob.setLevels s (pre ++ post)).levels t).Sublist (ob.levels t) := by
    intro t
    by_cases hts : t = s
    · rw [hts, levels_setLevels_self, hl]
      exact (sublist_cons_self _ _).append_left _
    · rw [levels_setLevels_of_ne _ _ hts]
  exact {
    nodup := h.nodup
    alloc := by simpa using h.alloc
    stack := by simpa using h.stack
    sorted := fun t => (h.sorted t).sublist (hsub t)
    covered := by
      intro m hm
      rw [setLevels_orderOf]
      obtain ⟨l, hlm, hlp⟩ := h.covered m hm
      by_cases hts : (ob.orderOf m).side = s
      · have hne : l ≠ lvl := by
          rintro rfl
          exact absurd (mem_queueAt.2 ⟨hm, hts, hlp.symm⟩) (by rw [hempty]; simp)
        rw [hts, hl] at hlm
        rw [hts, levels_setLevels_self]
        exact ⟨l, by simpa [hne] using hlm, hlp⟩
      · rw [levels_setLevels_of_ne _ _ hts]; exact ⟨l, hlm, hlp⟩
    level := fun t l hlt => (h.level t l ((hsub t).subset hlt)).congr (by simp) fun m _ => by simp
    map := by simpa using h.map
    ptr := by simpa using h.ptr
    ptr_inj := by simpa using h.ptr_inj }

/-- A level of a represented book is empty exactly when its queue is. -/
theorem RepW.empty_iff (h : RepW ob L F) (hl : l ∈ ob.levels s) :
    l.empty = true ↔ ob.queueAt L s l.price = [] := by
  rw [PriceLevel.empty, (h.level s l hl).queue.head]
  cases ob.queueAt L s l.price <;> simp

/-! ## Allocating a node -/

theorem linkBlock_spec (base : Nat) {nodes : NodeHeap}
    {free : Option Nat} {F : List Nat} (hs : Stack nodes free F) (hF : ∀ m ∈ F, m < base)
    (k : Nat) :
    Stack (linkBlock base k (nodes, free)).1 (linkBlock base k (nodes, free)).2
        ((range' base k).reverse ++ F) ∧
      ∀ m : Nat, m < base → (linkBlock base k (nodes, free)).1 m = nodes m := by
  induction k with
  | zero => exact ⟨hs, fun _ _ => rfl⟩
  | succ k ih =>
    obtain ⟨hst, hfr⟩ := ih
    refine ⟨?_, fun m hm => ?_⟩
    · rw [range'_1_concat, reverse_append]
      refine ⟨rfl, ?_⟩
      simp only [linkBlock, update_self]
      refine hst.congr fun m hm => ?_
      have hne : (m : Nat) ≠ base + k := by
        rw [mem_append, mem_reverse, mem_range'_1] at hm
        rcases hm with hm | hm
        · omega
        · have := hF m hm; omega
      rw [update_of_ne hne]
    · simp only [linkBlock]
      rw [update_of_ne (by omega), hfr m hm]

theorem RepW.grow (h : RepW ob L F) : ∃ F', F' ≠ [] ∧ RepW ob.growNodes L F' ∧
    ∀ m ∈ L, ob.growNodes.nodes m = ob.nodes m := by
  obtain ⟨hst, hfr⟩ := linkBlock_spec ob.nodeCount h.stack
    (fun m hm => (h.alloc m).1 (mem_append_right _ hm)) nodeBlockSize
  set F' := (range' ob.nodeCount nodeBlockSize).reverse ++ F with hF'
  have hlt : ∀ m, m ∈ L → m < ob.nodeCount := fun m hm => (h.alloc m).1 (mem_append_left _ hm)
  have hnodes : ∀ m ∈ L, ob.growNodes.nodes m = ob.nodes m := fun m hm => hfr m (hlt m hm)
  have hord : ∀ m ∈ L, ob.growNodes.orderOf m = ob.orderOf m := fun m hm => by
    show ob.orders _ = _
    rw [hnodes m hm]; rfl
  have hlev : ∀ t, ob.growNodes.levels t = ob.levels t := fun t => by cases t <;> rfl
  have hmem : ∀ m, m ∈ F' ↔ (ob.nodeCount ≤ m ∧ m < ob.nodeCount + nodeBlockSize) ∨ m ∈ F := by
    simp [hF', mem_range'_1]
  have hcount : ob.growNodes.nodeCount = ob.nodeCount + nodeBlockSize := by
    show (ob.nodeBlocks + 1) * nodeBlockSize = _
    rw [Nat.add_mul, one_mul]; rfl
  refine ⟨F', ?_, h.frame ?_ (fun m => ?_) hst hlev hnodes hord rfl le_rfl, hnodes⟩
  · exact ne_nil_of_mem ((hmem ob.nodeCount).2 (.inl ⟨le_rfl, by unfold nodeBlockSize; omega⟩))
  · refine nodup_append.2 ⟨h.nodup_live, nodup_append.2
      ⟨nodup_reverse.2 nodup_range', h.nodup_free, ?_⟩, ?_⟩
    · rintro a ha b hb rfl
      rw [mem_reverse, mem_range'_1] at ha
      exact absurd ((h.alloc _).1 (mem_append_right L hb)) (Nat.not_lt.2 ha.1)
    · rintro a ha b hb rfl
      rcases (hmem a).1 hb with hf | hf
      · exact absurd (hlt a ha) (Nat.not_lt.2 hf.1)
      · exact h.not_mem_free ha hf
  · have halloc := h.alloc m
    rw [mem_append] at halloc
    rw [hcount, mem_append, hmem]
    constructor
    · rintro (hm | hm | hm)
      · have := hlt m hm; omega
      · exact hm.2
      · have := halloc.1 (.inr hm); omega
    · intro hm
      by_cases hlt' : m < ob.nodeCount
      · exact (halloc.2 hlt').imp_right .inr
      · exact .inr (.inl ⟨by omega, hm⟩)

/-- What `alloc_node` hands out: a node outside the live ones and the new free list. -/
structure Detached (ob : Orderbook) (L : List Nat) (n : Nat) (ob' : Orderbook)
    (F' : List Nat) : Prop where
  nodup : (n :: (L ++ F')).Nodup
  alloc : ∀ m, m ∈ n :: (L ++ F') ↔ m < ob'.nodeCount
  stack : Stack ob'.nodes ob'.freeNodes F'
  nodes : ∀ m ∈ L, ob'.nodes m = ob.nodes m
  orders : ob'.orders = ob.orders
  orderCount : ob'.orderCount = ob.orderCount
  levels : ∀ s, ob'.levels s = ob.levels s
  orderMap : ob'.orderMap = ob.orderMap

theorem RepW.detach (h : RepW ob L F) : ∃ F', Detached ob L ob.allocNode.1 ob.allocNode.2 F' := by
  -- After the refill the free list is not empty.
  obtain ⟨ob₁, F₁, hob₁, hne, h₁, hnodes, hords, hcnt, hlev, hmap⟩ : ∃ ob₁ F₁,
      ob₁ = (if ob.freeNodes.isNone then ob.growNodes else ob) ∧ F₁ ≠ [] ∧ RepW ob₁ L F₁ ∧
      (∀ m ∈ L, ob₁.nodes m = ob.nodes m) ∧ ob₁.orders = ob.orders ∧
      ob₁.orderCount = ob.orderCount ∧ (∀ s, ob₁.levels s = ob.levels s) ∧
      ob₁.orderMap = ob.orderMap := by
    cases hf : ob.freeNodes with
    | some n =>
      refine ⟨ob, F, rfl, ?_, h, fun _ _ => rfl, rfl, rfl, fun _ => rfl, rfl⟩
      rintro rfl
      have := h.stack
      rw [hf] at this
      exact absurd this (by simp [Stack])
    | none =>
      obtain ⟨F₁, hne, h₁, hnodes⟩ := h.grow
      exact ⟨ob.growNodes, F₁, rfl, hne, h₁, hnodes, rfl, rfl, fun s => by cases s <;> rfl, rfl⟩
  obtain ⟨n, F', rfl⟩ := exists_cons_of_ne_nil hne
  obtain ⟨htop, hstack⟩ := h₁.stack
  have hn : ob.allocNode.1 = n := by
    show (freeNodes (if ob.freeNodes.isNone then ob.growNodes else ob)).getD 0 = n
    rw [← hob₁, htop]; rfl
  have hob' : ob.allocNode.2 = { ob₁ with
      freeNodes := (ob₁.nodes n).next
      nodes := update ob₁.nodes n ⟨none, none, none⟩ } := by
    rw [← hn, hob₁]; rfl
  have hperm : (n :: (L ++ F')).Perm (L ++ n :: F') := perm_middle.symm
  have hnd : (n :: (L ++ F')).Nodup := hperm.nodup_iff.2 h₁.nodup
  have hnot : n ∉ L ++ F' := (nodup_cons.1 hnd).1
  rw [hn, hob']
  refine ⟨F', hnd, fun m => ?_, ?_, fun m hm => ?_, hords, hcnt, fun s => ?_, hmap⟩
  · rw [hperm.mem_iff]; exact h₁.alloc m
  · refine hstack.congr fun m hm => ?_
    have hne : m ≠ n := fun he => hnot (he ▸ mem_append_right _ hm)
    simp only [update_of_ne hne]
  · have hne : m ≠ n := fun he => hnot (he ▸ mem_append_left _ hm)
    simp only [update_of_ne hne]
    exact hnodes m hm
  · rw [← hlev s]; cases s <;> rfl

/-! ## Resting an order -/

/-- `find_or_insert_level` on a sorted vector: the level is the one there or a new one, and it
stands where the order wants it. -/
theorem findOrInsertLevel_spec {ls : List PriceLevel}
    (hs : ls.Pairwise fun a b => s.before a.price b.price) (price : Int) :
    ∃ pre lvl post, findOrInsertLevel ls price s = (pre, lvl, post) ∧ lvl.price = price ∧
      (pre ++ lvl :: post).Pairwise (fun a b => s.before a.price b.price) ∧
      (ls = pre ++ lvl :: post ∨ ls = pre ++ post ∧ lvl = PriceLevel.new price) := by
  set pre := ls.takeWhile fun l => s.before l.price price with hpre
  have happ : pre ++ ls.dropWhile (fun l => s.before l.price price) = ls :=
    takeWhile_append_dropWhile
  have hbefore : ∀ a ∈ pre, s.before a.price price := fun a ha => by
    simpa using mem_takeWhile_imp ha
  have hpred : pre.Pairwise fun a b => s.before a.price b.price :=
    hs.sublist (takeWhile_sublist _)
  unfold findOrInsertLevel
  cases hd : ls.dropWhile fun l => s.before l.price price with
  | nil =>
    refine ⟨pre, PriceLevel.new price, [], by rw [← hpre], rfl, ?_, .inr ⟨?_, rfl⟩⟩
    · exact pairwise_append.2 ⟨hpred, pairwise_singleton _ _,
        by simpa [PriceLevel.new] using hbefore⟩
    · rw [hd] at happ; exact happ.symm
  | cons l post =>
    rw [hd] at happ
    have hl : ¬ s.before l.price price := by
      have := head?_dropWhile_not (fun l => decide (s.before l.price price)) ls
      rw [hd] at this
      simpa using this
    have hsort := hs
    rw [← happ] at hsort
    by_cases hp : l.price = price
    · refine ⟨pre, l, post, by simp only [hp, if_true, ← hpre], hp, hsort, .inl happ.symm⟩
    · refine ⟨pre, PriceLevel.new price, l :: post, by simp only [hp, if_false, ← hpre], rfl, ?_,
        .inr ⟨happ.symm, rfl⟩⟩
      -- The new level goes before the first one that is not before it.
      have hlb : s.before price l.price := Side.before_of_not hl hp
      obtain ⟨-, hlp, -⟩ := pairwise_append.1 hsort
      refine pairwise_append.2 ⟨hpred, pairwise_cons.2 ⟨fun b hb => ?_, hlp⟩, fun a ha b hb => ?_⟩
      · rcases mem_cons.1 hb with rfl | hb
        · exact hlb
        · exact Side.before_trans hlb ((pairwise_cons.1 hlp).1 b hb)
      · rcases mem_cons.1 hb with rfl | hb
        · exact hbefore a ha
        · exact (pairwise_append.1 hsort).2.2 a ha b hb

/-- The book after `rest_order` put node `n` for the order at `r` on its level. -/
structure Rested (ob : Orderbook) (L : List Nat) (r n : Nat) (ob' : Orderbook) : Prop where
  not_mem : n ∉ L
  orders : ob'.orders = ob.orders
  orderCount : ob'.orderCount = ob.orderCount
  val_self : (ob'.nodes n).val = some r
  val : ∀ m ∈ L, (ob'.nodes m).val = (ob.nodes m).val
  levels : ∀ t, ∀ l ∈ ob'.levels t, (t = (ob.orders r).side ∧ l.price = (ob.orders r).price) ∨
    ∃ l' ∈ ob.levels t, l'.price = l.price

theorem Rested.orderOf_self (h : Rested ob L r n ob') : ob'.orderOf n = ob.orders r := by
  rw [orderOf, h.val_self, h.orders]; rfl

theorem Rested.orderOf (h : Rested ob L r n ob') (hm : m ∈ L) : ob'.orderOf m = ob.orderOf m := by
  rw [Orderbook.orderOf, h.val m hm, h.orders]; rfl

section Rested

variable (hrested : Rested ob L r n ob')
include hrested

theorem Rested.queueAt (t : Side) (p : Int) : ob'.queueAt (L ++ [n]) t p =
    ob.queueAt L t p ++ if (ob.orders r).side = t ∧ (ob.orders r).price = p then [n] else [] := by
  rw [Orderbook.queueAt, filter_append, Orderbook.queueAt]
  congr 1
  · exact filter_congr fun m hm => by rw [hrested.orderOf hm]
  · rw [filter_singleton, hrested.orderOf_self]; simp

/-- The map is one to the live nodes again. -/
theorem Rested.map (h : RepW ob L F)
    (hmap : ob'.orderMap = ob.orderMap.insert (ob.orders r).orderId n)
    (hid : ob.orderMap.lookup (ob.orders r).orderId = none) (id m : Nat) :
    ob'.orderMap.lookup id = some m ↔ m ∈ L ++ [n] ∧ (ob'.orderOf m).orderId = id := by
  rw [hmap, mem_append, mem_singleton]
  by_cases hido : id = (ob.orders r).orderId
  · subst hido
    rw [AList.lookup_insert, Option.some.injEq]
    constructor
    · rintro rfl
      exact ⟨.inr rfl, by rw [hrested.orderOf_self]⟩
    · rintro ⟨hm | rfl, he⟩
      · rw [hrested.orderOf hm] at he
        rw [(h.map _ m).2 ⟨hm, he⟩] at hid
        exact absurd hid (by simp)
      · rfl
  · rw [AList.lookup_insert_ne hido, h.map]
    constructor
    · rintro ⟨hm, he⟩
      exact ⟨.inl hm, by rw [hrested.orderOf hm]; exact he⟩
    · rintro ⟨hm | rfl, he⟩
      · exact ⟨hm, by rw [← hrested.orderOf hm]; exact he⟩
      · rw [hrested.orderOf_self] at he
        exact absurd he.symm hido

theorem Rested.ptr_inj (h : RepW ob L F) (hptr : ∀ m ∈ L, (ob.nodes m).val ≠ some r) :
    ∀ m ∈ L ++ [n], ∀ k ∈ L ++ [n], (ob'.nodes m).val = (ob'.nodes k).val → m = k := by
  intro m hm k hk he
  rcases mem_append.1 hm with hm | hm <;> rcases mem_append.1 hk with hk | hk
  · rw [hrested.val m hm, hrested.val k hk] at he
    exact h.ptr_inj m hm k hk he
  · rw [mem_singleton.1 hk, hrested.val_self, hrested.val m hm] at he
    exact absurd he (hptr m hm)
  · rw [mem_singleton.1 hm, hrested.val_self, hrested.val k hk] at he
    exact absurd he.symm (hptr k hk)
  · rw [mem_singleton.1 hm, mem_singleton.1 hk]

end Rested

/-- **Resting an order appends its node to the live ones.** -/
theorem RepW.rest (h : RepW ob L F) (hr : r < ob.orderCount)
    (hptr : ∀ m ∈ L, (ob.nodes m).val ≠ some r)
    (hid : ob.orderMap.lookup (ob.orders r).orderId = none) :
    ∃ n F', RepW (ob.restOrder r) (L ++ [n]) F' ∧ Rested ob L r n (ob.restOrder r) := by
  obtain ⟨F', hd⟩ := h.detach
  set n := ob.allocNode.1
  set ob₁ := ob.allocNode.2
  set o := ob.orders r
  have ho₁ : ob₁.orders r = o := by rw [hd.orders]
  have hnL : n ∉ L := fun hm => (nodup_cons.1 hd.nodup).1 (mem_append_left _ hm)
  have hnF : n ∉ F' := fun hm => (nodup_cons.1 hd.nodup).1 (mem_append_right _ hm)
  obtain ⟨pre, lvl, post, hfind, hlp, hsort, hls⟩ :=
    findOrInsertLevel_spec (h.sorted o.side) o.price
  -- The node heap with the order pointer written, and after the append.
  set nodes₂ := update ob₁.nodes n { ob₁.nodes n with val := some r }
  set nodes₃ := (pushBack nodes₂ lvl.toEnds n).1
  set lvl' := { lvl with
    toEnds := (pushBack nodes₂ lvl.toEnds n).2
    totalQty := lvl.totalQty + UInt64.ofNat o.remainingQuantity }
  have hob' : ob.restOrder r =
      { ob₁ with nodes := nodes₃, orderMap := ob.orderMap.insert o.orderId n }.setLevels o.side
        (pre ++ lvl' :: post) := by
    have hlev : levels { ob₁ with nodes := nodes₂ } o.side = ob.levels o.side := by
      rw [← hd.levels]; cases o.side <;> rfl
    rw [← hlev] at hfind
    rw [restOrder, show ob.allocNode = (n, ob₁) from rfl, ← hd.orderMap]
    dsimp only
    rw [show ob₁.orders r = o from ho₁, show findOrInsertLevel _ o.price o.side = _ from hfind]
    cases o.side <;> rfl
  set ob' := ob.restOrder r
  have hnodes : ob'.nodes = nodes₃ := by rw [hob']; simp
  have hval : ∀ m, (nodes₃ m).val = (nodes₂ m).val := fun m => pushBack_val _ _ _ _
  have hnodes₂ : ∀ m ∈ L, nodes₂ m = ob.nodes m := fun m hm => by
    have hmn : m ≠ n := fun he => hnL (he ▸ hm)
    rw [← hd.nodes m hm]; exact update_of_ne hmn _ _
  have hlevs : ob'.levels o.side = pre ++ lvl' :: post := by rw [hob']; simp
  have hlevt : ∀ t, t ≠ o.side → ob'.levels t = ob.levels t := fun t ht => by
    rw [hob', levels_setLevels_of_ne _ _ ht, ← hd.levels]; cases t <;> rfl
  have hold : ∀ l, l ∈ pre ∨ l ∈ post → l ∈ ob.levels o.side ∧ l.price ≠ lvl.price :=
    fun _ => around_found hsort hls
  have hrested : Rested ob L r n ob' := by
    refine ⟨hnL, ?_, ?_, ?_, fun m hm => ?_, fun t l hl => ?_⟩
    · rw [hob']; simpa using hd.orders
    · rw [hob']; simpa using hd.orderCount
    · rw [hnodes, hval]; simp [nodes₂]
    · rw [hnodes, hval, hnodes₂ m hm]
    · by_cases hts : t = o.side
      · rw [hts, hlevs, mem_append, mem_cons] at hl
        rcases hl with hl | rfl | hl
        · exact .inr ⟨l, hts ▸ (hold l (.inl hl)).1, rfl⟩
        · exact .inl ⟨hts, hlp⟩
        · exact .inr ⟨l, hts ▸ (hold l (.inr hl)).1, rfl⟩
      · exact .inr ⟨l, hlevt t hts ▸ hl, rfl⟩
  have hself : ob'.orderOf n = o := hrested.orderOf_self
  have hqueue := hrested.queueAt
  obtain ⟨⟨hhead, htail, hseg⟩, htotal⟩ := levelOk_found h hsort hls
  rw [hlp] at hhead htail hseg htotal
  have hlist : IsList nodes₂ lvl.toEnds (ob.queueAt L o.side o.price) :=
    ⟨hhead, htail, hseg.congr fun m hm => by
      rw [hnodes₂ m (mem_queueAt.1 hm).1]
      exact ⟨rfl, rfl⟩⟩
  have hqnd := h.nodup_queueAt o.side o.price
  have hnq : n ∉ ob.queueAt L o.side o.price := fun hq => hnL (mem_queueAt.1 hq).1
  have hframe : ∀ m, m ≠ n → m ∉ ob.queueAt L o.side o.price → ob'.nodes m = nodes₂ m :=
    fun m hmn hm => by rw [hnodes]; exact pushBack_frame hlist hmn hm
  refine ⟨n, F', ?_, hrested⟩
  have hperm : (L ++ [n] ++ F').Perm (n :: (L ++ F')) := by
    rw [append_assoc]; exact perm_middle
  exact {
    nodup := hperm.nodup_iff.2 hd.nodup
    alloc := fun m => by
      rw [hperm.mem_iff, hd.alloc]
      rw [hob', setLevels_nodeCount]; rfl
    stack := by
      have hfree : ob'.freeNodes = ob₁.freeNodes := by rw [hob']; simp
      rw [hfree]
      refine hd.stack.congr fun m hm => ?_
      have hmn : m ≠ n := fun he => hnF (he ▸ hm)
      have hmL : m ∉ L := fun hmL =>
        (nodup_append.1 (nodup_cons.1 hd.nodup).2).2.2 m hmL m hm rfl
      rw [hframe m hmn fun hq => hmL (mem_queueAt.1 hq).1]
      simp only [nodes₂, update_of_ne hmn]
    sorted := by
      intro t
      by_cases hts : t = o.side
      · rw [hts, hlevs]
        simpa [pairwise_append, pairwise_cons, lvl'] using hsort
      · rw [hlevt t hts]; exact h.sorted t
    covered := by
      intro m hm
      rcases mem_append.1 hm with hm | hm
      · rw [hrested.orderOf hm]
        refine h.covered_of_prices hm ?_
        by_cases hts : (ob.orderOf m).side = o.side
        · rw [hts, hlevs]
          rcases hls with hls | ⟨hls, -⟩
          · rw [hls]
            simp [lvl']
          · rw [hls]
            exact (((sublist_cons_self _ _).append_left _).map _).subset
        · rw [hlevt _ hts]
          exact Subset.refl _
      · rw [mem_singleton.1 hm, hself, hlevs]
        exact ⟨lvl', by simp, hlp⟩
    level := by
      refine h.level_update hlevs hlevt hold (fun t p hne => ⟨?_, fun m hm => ?_⟩) ⟨?_, ?_⟩
      · rw [hqueue, if_neg, append_nil]
        exact fun hc => hne ⟨hc.1.symm, hc.2.symm.trans hlp.symm⟩
      · obtain ⟨hmL, hms, hmp⟩ := mem_queueAt.1 hm
        have hmn : m ≠ n := fun he => hnL (he ▸ hmL)
        refine ⟨?_, hrested.orderOf hmL⟩
        rw [hframe m hmn, hnodes₂ m hmL]
        exact fun hq => hne ⟨hms.symm.trans (mem_queueAt.1 hq).2.1,
          (hmp.symm.trans (mem_queueAt.1 hq).2.2).trans hlp.symm⟩
      · rw [hlp, hqueue, if_pos ⟨rfl, rfl⟩, hnodes]
        exact pushBack_isList hlist hqnd hnq
      · show lvl.totalQty + UInt64.ofNat o.remainingQuantity =
          UInt64.ofNat (ob'.qtySum (ob'.queueAt (L ++ [n]) o.side lvl.price))
        rw [hlp, hqueue, if_pos ⟨rfl, rfl⟩, htotal, ← UInt64.ofNat_add]
        congr 1
        have hq :
            ob'.qtySum (ob.queueAt L o.side o.price) = ob.qtySum (ob.queueAt L o.side o.price) :=
          qtySum_congr fun m hm => by rw [hrested.orderOf (mem_queueAt.1 hm).1]
        unfold qtySum at hq ⊢
        rw [map_append, sum_append, hq]
        simp [hself]
    map := hrested.map h (by rw [hob', setLevels_orderMap]) hid
    ptr := by
      intro m hm
      rw [hrested.orderCount]
      rcases mem_append.1 hm with hm | hm
      · rw [hrested.val m hm]; exact h.ptr m hm
      · rw [mem_singleton.1 hm]; exact ⟨r, hrested.val_self, hr⟩
    ptr_inj := hrested.ptr_inj h hptr }

theorem Rep.rest (h : Rep ob L F) (hr : r < ob.orderCount)
    (hptr : ∀ m ∈ L, (ob.nodes m).val ≠ some r)
    (hid : ob.orderMap.lookup (ob.orders r).orderId = none) :
    ∃ n F', Rep (ob.restOrder r) (L ++ [n]) F' ∧ Rested ob L r n (ob.restOrder r) := by
  obtain ⟨n, F', h', hrested⟩ := h.toRepW.rest hr hptr hid
  refine ⟨n, F', { toRepW := h', nonempty := fun t l hl => ?_ }, hrested⟩
  rcases hrested.levels t l hl with ⟨rfl, hp⟩ | ⟨l', hl', hp⟩
  · refine ne_nil_of_mem (mem_queueAt.2 ⟨mem_append_right _ mem_cons_self, ?_⟩)
    rw [hrested.orderOf_self]
    exact ⟨rfl, hp.symm⟩
  · obtain ⟨m, hm⟩ := exists_mem_of_ne_nil _ (h.nonempty t l' hl')
    obtain ⟨hmL, hms, hmp⟩ := mem_queueAt.1 hm
    refine ne_nil_of_mem (mem_queueAt.2 ⟨mem_append_left _ hmL, ?_⟩)
    rw [hrested.orderOf hmL]
    exact ⟨hms, hmp.trans hp⟩

end TrueTest.Orderbook
