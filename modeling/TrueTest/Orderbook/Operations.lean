import TrueTest.Orderbook.Simulation

/-!
# The public operations

Each operation of the book keeps the representation and computes its counterpart on the arrival
list: `cancel_order`, `add_order`, `match_order`, `modify_order`, `clear` and the two level-two
feeds.
-/

namespace TrueTest.Orderbook

open IntrusiveList Arrival List Function

variable {ob ob' ob₁ : Orderbook} {L L' F F' : List Nat} {s t : Side} {n m id : Nat}
  {os : List Order} {ls : List PriceLevel}

/-! ## Removing a level -/

section Removal

variable {pre post : List PriceLevel} {lvl : PriceLevel} {price : Int}

theorem splitLevel_eq (hpre : ∀ l ∈ pre, l.price ≠ price) (hlvl : lvl.price = price) :
    splitLevel (pre ++ lvl :: post) price = some (pre, lvl, post) := by
  have hp : ∀ l ∈ pre, decide (l.price ≠ price) = true := fun l hl => decide_eq_true (hpre l hl)
  rw [splitLevel, dropWhile_append_of_pos hp, takeWhile_append_of_pos hp,
    dropWhile_cons_of_neg (by simp [hlvl]), takeWhile_cons_of_neg (by simp [hlvl]),
    append_nil]

theorem splitLevel_eq_none (h : ∀ l ∈ ls, l.price ≠ price) : splitLevel ls price = none := by
  have hdrop : ls.dropWhile (fun l => decide (l.price ≠ price)) = [] :=
    dropWhile_eq_nil_iff.2 fun l hl => decide_eq_true (h l hl)
  rw [splitLevel, hdrop]

variable (h : RepW ob L F) (hl : ob.levels s = pre ++ lvl :: post)
include h hl

/-- `remove_level_if_empty` at the price of a level looks at that level only. -/
theorem RepW.removeLevelIfEmpty_eq : ob.removeLevelIfEmpty s lvl.price =
      if lvl.empty then ob.setLevels s (pre ++ post) else ob := by
  have hpre : ∀ l ∈ pre, ¬ (decide (l.price = lvl.price) && l.empty) = true := fun l hlm => by
    simp [(h.around hl (.inl hlm)).2]
  have hpost : ∀ l ∈ post, ¬ (decide (l.price = lvl.price) && l.empty) = true := fun l hlm => by
    simp [(h.around hl (.inr hlm)).2]
  rw [removeLevelIfEmpty, hl, eraseP_append_right _ hpre]
  split_ifs with he
  · rw [eraseP_cons_of_pos (by simp [he])]
  · rw [eraseP_cons_of_neg (by simp [he]), eraseP_of_forall_not hpost, ← hl, setLevels_levels]

variable (hne : ∀ t, ∀ l ∈ ob.levels t, ¬ (t = s ∧ l.price = lvl.price) →
  ob.queueAt L t l.price ≠ [])
include hne

/-- Once every other level has an order, removing the level if it is empty gives a book without
empty levels. -/
theorem RepW.removeLevel : Rep (ob.removeLevelIfEmpty s lvl.price) L F := by
  have hlvl : lvl ∈ ob.levels s := by rw [hl]; simp
  rw [h.removeLevelIfEmpty_eq hl]
  split_ifs with he
  · refine { toRepW := h.eraseLevel hl ((h.empty_iff hlvl).1 he), nonempty := fun t l hlm => ?_ }
    rw [queueAt_setLevels]
    by_cases hts : t = s
    · subst hts
      rw [levels_setLevels_self, mem_append] at hlm
      exact hne t l (h.around hl hlm).1 fun hc => (h.around hl hlm).2 hc.2
    · rw [levels_setLevels_of_ne _ _ hts] at hlm
      exact hne t l hlm fun hc => hts hc.1
  · refine { toRepW := h, nonempty := fun t l hlm => ?_ }
    by_cases hc : t = s ∧ l.price = lvl.price
    · rw [hc.1, hc.2]
      exact fun hq => he ((h.empty_iff hlvl).2 hq)
    · exact hne t l hlm hc

/-- Unlinking a node keeps the queues of the other levels. -/
theorem RepW.dropNode_nonempty (hn : n ∈ ob.queueAt L s lvl.price) (t : Side) (l : PriceLevel)
    (hlm : l ∈ (ob.dropNode s pre lvl post n).levels t) (hc : ¬ (t = s ∧ l.price = lvl.price)) :
    (ob.dropNode s pre lvl post n).queueAt (L.erase n) t l.price ≠ [] := by
  have hold : l ∈ ob.levels t := by
    by_cases hts : t = s
    · subst hts
      rw [dropNode_levels_self, mem_append, mem_cons] at hlm
      rw [hl]
      rcases hlm with hlm | rfl | hlm
      · simp [hlm]
      · exact absurd ⟨rfl, rfl⟩ hc
      · simp [hlm]
    · rwa [dropNode_levels_of_ne hts] at hlm
  obtain ⟨-, hns, hnp⟩ := mem_queueAt.1 hn
  have hnq : n ∉ ob.queueAt L t l.price := fun hq =>
    hc ⟨(mem_queueAt.1 hq).2.1.symm.trans hns, (mem_queueAt.1 hq).2.2.symm.trans hnp⟩
  rw [dropNode_queueAt h.nodup_live, erase_of_not_mem hnq]
  exact hne t l hold hc

end Removal

/-! ## Cancelling -/

theorem RepW.lookup_eq_none (h : RepW ob L F) :
    ob.orderMap.lookup id = none ↔ id ∉ (L.map ob.orderOf).map Order.orderId := by
  rw [Option.eq_none_iff_forall_ne_some]
  simp only [ne_eq, h.map, map_map, mem_map, not_and, not_exists, comp]

theorem cancel_of_not_mem (h : id ∉ os.map Order.orderId) : cancel id os = os :=
  filter_eq_self.2 fun o ho => by
    refine decide_eq_true fun he => h ?_
    rw [← he]
    exact mem_map_of_mem ho

theorem RepW.map_erase (h : RepW ob L F) (hn : n ∈ L) :
    (L.erase n).map ob.orderOf = cancel (ob.orderOf n).orderId (L.map ob.orderOf) := by
  rw [h.nodup_live.erase_eq_filter, cancel, filter_map]
  refine congrArg _ (filter_congr fun m hm => ?_)
  have hid : (ob.orderOf m).orderId = (ob.orderOf n).orderId ↔ m = n :=
    ⟨fun he => h.id_inj hm hn he, fun he => by rw [he]⟩
  simp [hid, comp, bne, Bool.beq_eq_decide_eq]

/-- Unlinking a node executes nothing. -/
theorem Exec.drop (hnd : L.Nodup) (horders : ob'.orders = ob.orders)
    (hcount : ob'.orderCount = ob.orderCount)
    (hval : ∀ m, m ≠ n → (ob'.nodes m).val = (ob.nodes m).val) :
    Exec ob L [] ob' (L.erase n) where
  sublist := erase_sublist
  val := fun m hm => hval m fun he => hnd.not_mem_erase (he ▸ hm)
  orderCount := hcount
  object := fun m _ => by rw [horders]; rfl
  bound := fun _ _ => Nat.zero_le _
  frame := fun r _ => by rw [horders]
  parties := nofun

/-- The level of a live node. -/
theorem RepW.level_split (h : RepW ob L F) (hn : n ∈ L) :
    ∃ pre lvl post, ob.levels (ob.orderOf n).side = pre ++ lvl :: post ∧
      lvl.price = (ob.orderOf n).price ∧
      splitLevel (ob.levels (ob.orderOf n).side) (ob.orderOf n).price = some (pre, lvl, post) := by
  obtain ⟨lvl, hlvl, hp⟩ := h.covered n hn
  obtain ⟨pre, post, hl⟩ := append_of_mem hlvl
  refine ⟨pre, lvl, post, hl, hp, ?_⟩
  rw [hl]
  exact splitLevel_eq (fun l hlm => hp ▸ (h.around hl (.inl hlm)).2) hp

theorem Rep.cancelOrder_of_some (h : Rep ob L F) (hid : ob.orderMap.lookup id = some n) :
    ∃ F', Refined ob L ([], ob.cancelOrder id) ([], cancel id (L.map ob.orderOf))
      (L.erase n) F' := by
  obtain ⟨hnL, hnid⟩ := (h.map id n).1 hid
  obtain ⟨pre, lvl, post, hl, hp, hsplit⟩ := h.level_split hnL
  set s := (ob.orderOf n).side with hs
  set ob₁ := ob.dropNode s pre lvl post n with hob₁
  have hnq : n ∈ ob.queueAt L s lvl.price := mem_queueAt.2 ⟨hnL, hs.symm, hp.symm⟩
  have hcancel : ob.cancelOrder id = ob₁.removeLevelIfEmpty s lvl.price := by
    rw [cancelOrder, hid]
    dsimp only
    rw [← hs, hsplit, hob₁, dropNode, hnid, hp]
  have h₁ := h.drop hl hnq
  have hl₁ : ob₁.levels s = pre ++ ob.lvlDrop lvl n :: post := dropNode_levels_self
  have hrep : Rep (ob₁.removeLevelIfEmpty s (ob.lvlDrop lvl n).price) (L.erase n) (n :: F) :=
    h₁.removeLevel hl₁ (h.dropNode_nonempty hl (fun t l hlm _ => h.nonempty t l hlm) hnq)
  have hval : ∀ m, m ≠ n →
      ((ob₁.removeLevelIfEmpty s lvl.price).nodes m).val = (ob.nodes m).val := fun m hm => by
    rw [removeLevelIfEmpty, setLevels_nodes, hob₁, dropNode_val hm]
  have horders : (ob₁.removeLevelIfEmpty s lvl.price).orders = ob.orders := by
    rw [removeLevelIfEmpty, setLevels_orders, hob₁, dropNode_orders]
  refine ⟨n :: F, ?_⟩
  rw [hcancel]
  exact {
    rep := hrep
    exec := Exec.drop h.nodup_live horders
      (by rw [removeLevelIfEmpty, setLevels_orderCount, hob₁, dropNode_orderCount]) hval
    trades := rfl
    map := by
      rw [← hnid, ← h.map_erase hnL]
      refine map_congr_left fun m hm => ?_
      have hmn : m ≠ n := fun he => h.nodup_live.not_mem_erase (he ▸ hm)
      rw [orderOf, hval m hmn, horders]
      rfl }

theorem Rep.cancelOrder (h : Rep ob L F) (id : Nat) :
    ∃ L' F', Refined ob L ([], ob.cancelOrder id) ([], cancel id (L.map ob.orderOf)) L' F' := by
  cases hid : ob.orderMap.lookup id with
  | some n =>
    obtain ⟨F', hr⟩ := h.cancelOrder_of_some hid
    exact ⟨L.erase n, F', hr⟩
  | none =>
    rw [Orderbook.cancelOrder, hid, cancel_of_not_mem (h.lookup_eq_none.1 hid)]
    exact ⟨L, F, h, Exec.refl ob L, rfl, rfl⟩

/-! ## Matching to the end -/

/-- The front order of a represented book is in the map, so `cancel_aggressive` looks at it and
stops. -/
theorem Rep.cancelAggressive (h : Rep ob L F) (s : Side) (fuel : Nat) :
    ∃ L' F', Refined ob L ([], cancelAggressive s (fuel + 1) ob)
      ([], Arrival.cancelAggressive s (L.map ob.orderOf)) L' F' := by
  rw [Orderbook.cancelAggressive, Arrival.cancelAggressive]
  cases hl : ob.levels s with
  | nil =>
    rw [h.best_eq_none hl]
    exact ⟨L, F, h, Exec.refl ob L, rfl, rfl⟩
  | cons lvl rest =>
    obtain ⟨n, hhead, hn, hbest⟩ := h.front hl
    dsimp only
    rw [hhead, hbest]
    dsimp only
    rw [h.lookup_orderId (mem_queueAt.1 hn).1]
    by_cases htype : (ob.orderOf n).orderType = .fillOrKill ∨
      (ob.orderOf n).orderType = .immediateOrCancel
    · have hagg : aggressive (ob.orderOf n) = true := decide_eq_true htype
      rw [if_neg (by simp), if_pos htype, if_pos hagg]
      exact h.cancelOrder _
    · rw [if_neg (by simp), if_neg htype, if_neg (by simpa [aggressive] using htype)]
      exact ⟨L, F, h, Exec.refl ob L, rfl, rfl⟩

/-- `match_orders` on a represented book; the loops end before their fuel does. -/
theorem Rep.matchOrders (h : Rep ob L F) :
    ∃ L' F', Refined ob L ob.matchOrders (Arrival.matchOrders (L.map ob.orderOf)) L' F' := by
  obtain ⟨L₁, F₁, h₁⟩ := h.matchLoop (ob.nodeCount + 1)
  have hfuel :
      Arrival.matchLoop (ob.nodeCount + 1) (L.map ob.orderOf) = matchAll (L.map ob.orderOf) := by
    refine matchLoop_eq_matchAll ?_
    have := h.length_le
    rw [length_map]
    omega
  rw [hfuel] at h₁
  set r₁ := Orderbook.matchLoop (ob.nodeCount + 1) ob
  obtain ⟨L₂, F₂, h₂⟩ := h₁.rep.cancelAggressive .buy (r₁.2.nodeCount + r₁.2.bidLevels.length)
  set ob₂ := Orderbook.cancelAggressive .buy (r₁.2.nodeCount + r₁.2.bidLevels.length + 1) r₁.2
  obtain ⟨L₃, F₃, h₃⟩ := h₂.rep.cancelAggressive .sell (ob₂.nodeCount + ob₂.askLevels.length)
  refine ⟨L₃, F₃, h₃.rep, ?_, h₁.trades, ?_⟩
  · have := (h₁.exec.trans h.toRepW h₂.exec).trans h.toRepW h₃.exec
    rw [append_nil, append_nil] at this
    exact this
  · have hmap₂ : L₂.map ob₂.orderOf = Arrival.cancelAggressive .buy (L₁.map r₁.2.orderOf) := h₂.map
    rw [Arrival.matchOrders, ← h₁.map, ← hmap₂]
    exact h₃.map

/-! ## Adding -/

theorem qtySum_filter_or (ob : Orderbook) {p q : Nat → Bool}
    (hpq : ∀ n ∈ L, p n = true → q n = true → False) :
    ob.qtySum (L.filter fun n => p n || q n) = ob.qtySum (L.filter p) + ob.qtySum (L.filter q) := by
  have hperm := filter_append_perm p (L.filter fun n => p n || q n)
  have hp : (L.filter fun n => p n && (p n || q n)) = L.filter p :=
    filter_congr fun n _ => by cases p n <;> rfl
  have hq : (L.filter fun n => !p n && (p n || q n)) = L.filter q := filter_congr fun n hn => by
    have hdisjoint := hpq n hn
    cases hp : p n with
    | true => simpa [hp] using hdisjoint
    | false => rfl
  rw [filter_filter, filter_filter, hp, hq] at hperm
  rw [qtySum, ← (hperm.map _).sum_eq, map_append, sum_append]
  rfl

/-- Summing the totals of some levels sums, in 64 bits, the orders on them. -/
theorem foldl_totalQty (hls : ∀ l ∈ ls, ob.LevelOk L t l)
    (hs : ls.Pairwise fun a b => a.price ≠ b.price) (acc : UInt64) :
    ls.foldl (fun acc l => acc + l.totalQty) acc = acc + UInt64.ofNat (ob.qtySum (L.filter fun n =>
      (ob.orderOf n).side = t ∧ (ob.orderOf n).price ∈ ls.map PriceLevel.price)) := by
  induction ls generalizing acc with
  | nil => simp [qtySum]
  | cons l ls ih =>
    obtain ⟨hl, hls⟩ := forall_mem_cons.1 hls
    obtain ⟨hne, hs⟩ := pairwise_cons.1 hs
    simp only [map_cons, mem_cons, and_or_left, Bool.decide_or]
    rw [foldl_cons, ih hls hs, qtySum_filter_or, UInt64.ofNat_add, hl.total, UInt64.add_assoc]
    · rfl
    · intro n _ hp hq
      obtain ⟨l', hl', he⟩ := mem_map.1 (of_decide_eq_true hq).2
      exact hne l' hl' ((of_decide_eq_true hp).2.symm.trans he.symm)

/-- `add_order` sums the crossing quantity modulo 2^64. -/
theorem RepW.available (h : RepW ob L F) (s : Side) (price : Int) :
    (ob.available s price).toNat = crossingQty s price (L.map ob.orderOf) % 2 ^ 64 := by
  have hfold :
      ob.available s price = ((ob.levels s.contra).filter fun l => s.crosses price l.price).foldl
        (fun acc l => acc + l.totalQty) 0 := by
    simp only [Orderbook.available, foldl_filter, decide_eq_true_eq]
  rw [hfold, foldl_totalQty fun l hl => h.level s.contra l (mem_filter.1 hl).1, UInt64.zero_add,
    UInt64.toNat_ofNat', crossingQty, qtySum, filter_map, map_map]
  · refine congrArg (fun ns => (List.map _ ns).sum % _) (filter_congr fun n hn => ?_)
    rw [comp, decide_eq_decide, mem_map]
    refine and_congr_right fun hs => ?_
    obtain ⟨l, hl, hlp⟩ := h.covered n hn
    rw [hs] at hl
    constructor
    · rintro ⟨l, hl, hlp⟩
      exact hlp ▸ of_decide_eq_true (mem_filter.1 hl).2
    · exact fun hc => ⟨l, mem_filter.2 ⟨hl, decide_eq_true (hlp.symm ▸ hc)⟩, hlp⟩
  · exact ((h.sorted s.contra).imp fun hb => Side.before_ne hb).filter _

/-! ## The objects in the book -/

/-- The object a node holds. -/
def ptrOf (ob : Orderbook) (n : Nat) : Nat := (ob.nodes n).val.getD 0

/-- The book is well formed and its queues hold the objects `P`, in arrival order. -/
def Holds (ob : Orderbook) (P : List Nat) : Prop :=
  ∃ L F, Rep ob L F ∧ L.map ob.ptrOf = P

/-- A book operation that executed `ts`, seen by who holds the order objects: the book holds `P'`
of the objects `P`, each object in `P` has what was executed less, and no other changed. -/
structure Effect (ob : Orderbook) (P : List Nat) (ts : Trades) (ob' : Orderbook)
    (P' : List Nat) : Prop where
  holds : Holds ob' P'
  sublist : P'.Sublist P
  orderCount : ob'.orderCount = ob.orderCount
  object : ∀ r ∈ P, ob'.orders r = (ob.orders r).less (executed ts (ob.orders r).orderId)
  bound : ∀ r ∈ P, executed ts (ob.orders r).orderId ≤ (ob.orders r).remainingQuantity
  frame : ∀ r, r ∉ P → ob'.orders r = ob.orders r
  parties : ∀ t ∈ ts, (∃ b ∈ P, (ob.orders b).side = .buy ∧
      t.bidTrade.orderId = (ob.orders b).orderId ∧ t.bidTrade.price = (ob.orders b).price) ∧
    ∃ a ∈ P, (ob.orders a).side = .sell ∧
      t.askTrade.orderId = (ob.orders a).orderId ∧ t.askTrade.price = (ob.orders a).price

variable {P P' : List Nat} {r : Nat} (ns : List Nat)

theorem map_orders_ptrOf (ob : Orderbook) (L : List Nat) :
    (L.map ob.ptrOf).map ob.orders = L.map ob.orderOf := by
  rw [map_map]; rfl

theorem Holds.lt (h : Holds ob P) (hr : r ∈ P) : r < ob.orderCount := by
  obtain ⟨L, F, hrep, rfl⟩ := h
  obtain ⟨n, hn, rfl⟩ := mem_map.1 hr
  obtain ⟨r, hr, hlt⟩ := hrep.ptr n hn
  rw [ptrOf, hr]
  exact hlt

theorem Holds.idsNodup (h : Holds ob P) : IdsNodup (P.map ob.orders) := by
  obtain ⟨L, F, hrep, rfl⟩ := h
  rw [map_orders_ptrOf, IdsNodup, map_map]
  exact hrep.nodup_live.map_on fun m hm n hn he => hrep.id_inj hm hn he

theorem Holds.lookup_eq_none (h : Holds ob P) :
    ob.orderMap.lookup id = none ↔ id ∉ (P.map ob.orders).map Order.orderId := by
  obtain ⟨L, F, hrep, rfl⟩ := h
  rw [map_orders_ptrOf]
  exact hrep.lookup_eq_none

theorem Refined.effect {res : Trades × Orderbook} {res' : Trades × List Order}
    (h : Refined ob L res res' L' F') :
    Effect ob (L.map ob.ptrOf) res.1 res.2 (L'.map res.2.ptrOf) := by
  have hptr : L'.map res.2.ptrOf = L'.map ob.ptrOf :=
    map_congr_left fun m hm => by rw [ptrOf, ptrOf, h.exec.val m hm]
  have hlive : ∀ {P : Nat → Prop}, (∃ m ∈ L, P (ob.ptrOf m)) → ∃ r ∈ L.map ob.ptrOf, P r :=
    fun ⟨m, hm, hP⟩ => ⟨_, mem_map_of_mem hm, hP⟩
  exact {
    holds := ⟨L', F', h.rep, rfl⟩
    sublist := hptr ▸ h.exec.sublist.map _
    orderCount := h.exec.orderCount
    object := forall_mem_map.2 h.exec.object
    bound := forall_mem_map.2 h.exec.bound
    frame := fun r hr => h.exec.frame r fun m hm he => hr (he ▸ mem_map_of_mem hm)
    parties := fun t ht => by
      obtain ⟨hb, ha⟩ := h.exec.parties t ht
      exact ⟨hlive hb, hlive ha⟩ }

/-- A book without levels and without ids holds nothing. -/
theorem rep_of_empty (hnodup : F.Nodup) (halloc : ∀ n, n ∈ F ↔ n < ob.nodeCount)
    (hstack : Stack ob.nodes ob.freeNodes F) (hlev : ∀ s, ob.levels s = [])
    (hmap : ob.orderMap = ∅) :
    Rep ob [] F where
  nodup := hnodup
  alloc := halloc
  stack := hstack
  sorted s := by
    rw [hlev]
    exact .nil
  covered _ hn := absurd hn not_mem_nil
  level s l hl := by
    rw [hlev] at hl
    cases hl
  map id n := by simp [hmap]
  ptr _ hn := absurd hn not_mem_nil
  ptr_inj _ hm := absurd hm not_mem_nil
  nonempty s l hl := by
    rw [hlev] at hl
    cases hl

theorem holds_init : Holds init [] :=
  ⟨[], [], rep_of_empty .nil (fun n => by simp [nodeCount, init]) rfl
    (fun s => by cases s <;> rfl) rfl, rfl⟩

/-- The representation reads the objects of the live nodes only. -/
theorem Rep.frame_orders (h : Rep ob L F) {orders : Nat → Order} {count : Nat}
    (horders : ∀ n ∈ L, orders (ob.ptrOf n) = ob.orders (ob.ptrOf n))
    (hcount : ob.orderCount ≤ count) :
    Rep { ob with orders := orders, orderCount := count } L F := by
  set ob' := { ob with orders := orders, orderCount := count }
  have hord : ∀ n ∈ L, ob'.orderOf n = ob.orderOf n := horders
  have hlev : ∀ t, ob'.levels t = ob.levels t := fun t => by cases t <;> rfl
  refine ⟨h.frame h.nodup h.alloc h.stack hlev (fun _ _ => rfl) hord rfl hcount, fun t l hl => ?_⟩
  have hqueue : ob'.queueAt L t l.price = ob.queueAt L t l.price :=
    queueAt_congr (fun n hn => by rw [hord n hn]; exact ⟨rfl, rfl⟩) _ _
  rw [hlev] at hl
  rw [hqueue]
  exact h.nonempty t l hl

section Create

variable (type : ObOrderType) (id : Nat) (s : Side) (price : Int) (qty : Nat)

theorem createOrder_orders_of_lt (hr : r < ob.orderCount) :
    (ob.createOrder type id s price qty).2.orders r = ob.orders r :=
  update_of_ne hr.ne _ _

theorem createOrder_orders_self :
    (ob.createOrder type id s price qty).2.orders ob.orderCount =
      Order.new type id s price qty :=
  update_self _ _ _

/-- A new object is in no queue. -/
theorem Holds.createOrder (h : Holds ob P) : Holds (ob.createOrder type id s price qty).2 P := by
  have hlt := fun r => @Holds.lt ob P r h
  obtain ⟨L, F, hrep, rfl⟩ := h
  refine ⟨L, F, hrep.frame_orders (fun n hn => ?_) (Nat.le_succ _), rfl⟩
  exact createOrder_orders_of_lt type id s price qty (hlt _ (mem_map_of_mem hn))

theorem Holds.map_createOrder (h : Holds ob P) :
    P.map (ob.createOrder type id s price qty).2.orders = P.map ob.orders :=
  map_congr_left fun _ hr => createOrder_orders_of_lt type id s price qty (h.lt hr)

theorem Holds.orderCount_not_mem (h : Holds ob P) : ob.orderCount ∉ P := fun hr =>
  (h.lt hr).false

end Create

/-! ## Adding -/

theorem Effect.of_orders_eq {ts : Trades} (h : Effect ob₁ P ts ob' P')
    (horders : ob₁.orders = ob.orders) (hcount : ob₁.orderCount = ob.orderCount) :
    Effect ob P ts ob' P' := by
  obtain ⟨hh, hs, hc, ho, hb, hf, hp⟩ := h
  rw [horders] at ho hb hf hp
  exact ⟨hh, hs, hc.trans hcount, ho, hb, hf, hp⟩

/-- Nothing is executed. -/
theorem Holds.effect_nil (h : Holds ob' P') (hsub : P'.Sublist P) (horders : ob'.orders = ob.orders)
    (hcount : ob'.orderCount = ob.orderCount) : Effect ob P [] ob' P' where
  holds := h
  sublist := hsub
  orderCount := hcount
  object := fun r _ => congrFun horders r
  bound := fun _ _ => Nat.zero_le _
  frame := fun r _ => congrFun horders r
  parties := nofun

section

variable (h : Holds ob P)
include h

/-- Resting an object appends it. -/
theorem Holds.restOrder (hr : r < ob.orderCount) (hrP : r ∉ P)
    (hid : (ob.orders r).orderId ∉ (P.map ob.orders).map Order.orderId) :
    Holds (ob.restOrder r) (P ++ [r]) ∧ (ob.restOrder r).orders = ob.orders ∧
      (ob.restOrder r).orderCount = ob.orderCount := by
  have hlookup := h.lookup_eq_none.2 hid
  obtain ⟨L, F, hrep, rfl⟩ := h
  have hptr : ∀ m ∈ L, (ob.nodes m).val ≠ some r := fun m hm he => hrP <| by
    have hm' := mem_map_of_mem (f := ob.ptrOf) hm
    rwa [ptrOf, he] at hm'
  obtain ⟨n, F', hrep', hrested⟩ := hrep.rest hr hptr hlookup
  refine ⟨⟨L ++ [n], F', hrep', ?_⟩, hrested.orders, hrested.orderCount⟩
  rw [map_append, map_singleton, ptrOf, hrested.val_self]
  refine congrArg (· ++ [r]) (map_congr_left fun m hm => ?_)
  rw [ptrOf, ptrOf, hrested.val m hm]

theorem Holds.matchOrders : ∃ P', Effect ob P ob.matchOrders.1 ob.matchOrders.2 P' ∧
      (ob.matchOrders.1, P'.map ob.matchOrders.2.orders) =
        Arrival.matchOrders (P.map ob.orders) := by
  obtain ⟨L, F, hrep, rfl⟩ := h
  obtain ⟨L', F', hr⟩ := hrep.matchOrders
  refine ⟨_, hr.effect, ?_⟩
  rw [map_orders_ptrOf, map_orders_ptrOf, hr.map, hr.trades]

/-- `add_order` of an object outside the book is `add` on the arrival list. -/
theorem Holds.addOrder (hr : r < ob.orderCount) (hrP : r ∉ P) :
    ∃ P', Effect ob (P ++ [r]) (ob.addOrder r).1 (ob.addOrder r).2 P' ∧
      ((ob.addOrder r).1, P'.map (ob.addOrder r).2.orders) =
        add (ob.orders r) (P.map ob.orders) := by
  have hrefuse : refuses (P.map ob.orders) (ob.orders r) ↔
      (ob.orderMap.lookup (ob.orders r).orderId).isSome ∨
      ((ob.orders r).orderType = .fillOrKill ∧
        (ob.canMatch (ob.orders r).side (ob.orders r).price = false ∨
          (ob.available (ob.orders r).side (ob.orders r).price).toNat <
            (ob.orders r).remainingQuantity)) ∨
      ((ob.orders r).orderType = .immediateOrCancel ∧
        ob.canMatch (ob.orders r).side (ob.orders r).price = false) := by
    have hmem : (ob.orders r).orderId ∈ (P.map ob.orders).map Order.orderId ↔
        (ob.orderMap.lookup (ob.orders r).orderId).isSome := by
      rw [← not_iff_not, ← h.lookup_eq_none, Option.not_isSome_iff_eq_none]
    obtain ⟨L, F, hrep, rfl⟩ := h
    rw [hrep.canMatch, hrep.available, ← map_orders_ptrOf, ← hmem]
    rfl
  have heq : ob.addOrder r = if refuses (P.map ob.orders) (ob.orders r) then ([], ob)
      else (ob.restOrder r).matchOrders := by
    rw [Orderbook.addOrder]
    by_cases href : refuses (P.map ob.orders) (ob.orders r)
    · rw [if_pos href]
      rcases hrefuse.1 href with hdup | hfok | hioc
      · exact if_pos hdup
      · simp only [hfok, and_self, if_true, ite_self]
      · simp only [hioc, and_self, if_true, ite_self]
    · rw [if_neg href]
      rw [hrefuse, not_or, not_or] at href
      rw [if_neg href.1, if_neg href.2.1, if_neg href.2.2]
  rw [heq, add]
  split_ifs with href
  · exact ⟨P, h.effect_nil (sublist_append_left _ _) rfl rfl, rfl⟩
  · obtain ⟨hrest, horders, hcount⟩ := h.restOrder hr hrP fun hid => href (.inl hid)
    obtain ⟨P', heff, hres⟩ := hrest.matchOrders
    refine ⟨P', heff.of_orders_eq horders hcount, ?_⟩
    rw [hres, horders, map_append, map_singleton]

/-! ## Cancelling and replacing -/

theorem Holds.cancelOrder (id : Nat) : ∃ P', Effect ob P [] (ob.cancelOrder id) P' ∧
      P'.map (ob.cancelOrder id).orders = cancel id (P.map ob.orders) := by
  obtain ⟨L, F, hrep, rfl⟩ := h
  obtain ⟨L', F', hr⟩ := hrep.cancelOrder id
  refine ⟨_, hr.effect, ?_⟩
  rw [map_orders_ptrOf, map_orders_ptrOf]
  exact hr.map

theorem Holds.lookup_eq_some (hn : ob.orderMap.lookup id = some n) :
    lookup id (P.map ob.orders) = some (ob.orderOf n) := by
  obtain ⟨L, F, hrep, rfl⟩ := h
  obtain ⟨hnL, hnid⟩ := (hrep.map id n).1 hn
  rw [map_orders_ptrOf]
  cases hfind : lookup id (L.map ob.orderOf) with
  | none =>
    have hnone := find?_eq_none.1 hfind (ob.orderOf n) (mem_map_of_mem hnL)
    exact absurd (decide_eq_true hnid) hnone
  | some o =>
    obtain ⟨m, hm, rfl⟩ := mem_map.1 (mem_of_find?_eq_some hfind)
    have hmid : (ob.orderOf m).orderId = id := by simpa using find?_some hfind
    rw [hrep.id_inj hm hnL (hmid.trans hnid.symm)]

end

theorem lookup_eq_none_iff : lookup id os = none ↔ id ∉ os.map Order.orderId := by
  rw [Arrival.lookup, List.find?_eq_none, mem_map]
  simp

theorem not_mem_cancel (id : Nat) (os : List Order) : id ∉ (cancel id os).map Order.orderId := by
  intro hid
  obtain ⟨o, ho, rfl⟩ := mem_map.1 hid
  exact of_decide_eq_true (mem_filter.1 ho).2 rfl

/-- `match_order` is `matchOrder` on the arrival list. -/
theorem Holds.matchOrder (h : Holds ob P) (m : OrderModify) :
    ∃ P', Holds (ob.matchOrder m).2 P' ∧
      ((ob.matchOrder m).1, P'.map (ob.matchOrder m).2.orders) =
        Arrival.matchOrder m (P.map ob.orders) := by
  rw [Orderbook.matchOrder, Arrival.matchOrder]
  cases hn : ob.orderMap.lookup m.orderId with
  | none =>
    rw [lookup_eq_none_iff.2 (h.lookup_eq_none.1 hn)]
    exact ⟨P, h, rfl⟩
  | some n =>
    rw [h.lookup_eq_some hn]
    obtain ⟨P₁, heff₁, hmap₁⟩ := h.cancelOrder m.orderId
    set type := (ob.orderOf n).orderType
    have hc := heff₁.holds.createOrder type m.orderId m.side m.price m.quantity
    obtain ⟨P', heff, hres⟩ := hc.addOrder (Nat.lt_succ_self _) heff₁.holds.orderCount_not_mem
    refine ⟨P', heff.holds, ?_⟩
    rw [heff₁.holds.map_createOrder, hmap₁] at hres
    refine hres.trans (congrArg (fun o => add o _) ?_)
    exact createOrder_orders_self type m.orderId m.side m.price m.quantity

/-- A new object put on its level without matching, as `modify_order` and the level-two feeds
do it. -/
structure RestedNew (ob : Orderbook) (P : List Nat) (o : Order) (ob' : Orderbook) : Prop where
  holds : Holds ob' (P ++ [ob.orderCount])
  orderCount : ob'.orderCount = ob.orderCount + 1
  orders_of_lt : ∀ r, r < ob.orderCount → ob'.orders r = ob.orders r
  orders_self : ob'.orders ob.orderCount = o

theorem Holds.restNew (h : Holds ob P) (type : ObOrderType) (s : Side) (price : Int)
    (qty : Nat) (hid : id ∉ (P.map ob.orders).map Order.orderId) :
    RestedNew ob P (Order.new type id s price qty)
      ((ob.createOrder type id s price qty).2.restOrder ob.orderCount) := by
  have hc := h.createOrder type id s price qty
  have hself := @createOrder_orders_self ob type id s price qty
  have hfresh : ((ob.createOrder type id s price qty).2.orders ob.orderCount).orderId ∉
      (P.map (ob.createOrder type id s price qty).2.orders).map Order.orderId := by
    rw [h.map_createOrder, hself]
    exact hid
  obtain ⟨hrest, horders, hcount⟩ := hc.restOrder (Nat.lt_succ_self _) h.orderCount_not_mem hfresh
  refine ⟨hrest, hcount, fun r hr => ?_, by rw [horders]; exact hself⟩
  rw [horders]
  exact createOrder_orders_of_lt type id s price qty hr

theorem RestedNew.map {o : Order} (h : Holds ob P) (hnew : RestedNew ob P o ob') :
    (P ++ [ob.orderCount]).map ob'.orders = P.map ob.orders ++ [o] := by
  rw [map_append, map_singleton, hnew.orders_self]
  exact congrArg (· ++ [o]) (map_congr_left fun r hr => hnew.orders_of_lt r (h.lt hr))

theorem Effect.orders_eq (h : Effect ob P [] ob' P') : ob'.orders = ob.orders := by
  funext r
  by_cases hr : r ∈ P
  · exact h.object r hr
  · exact h.frame r hr

/-- `modify_order` of a live order cancels it and rests a new object. -/
theorem Holds.modifyOrder_of_some (h : Holds ob P) (hn : ob.orderMap.lookup id = some n)
    (price : Int) (qty : Nat) :
    ∃ P₁, Effect ob P [] (ob.cancelOrder id) P₁ ∧
      P₁.map (ob.cancelOrder id).orders = cancel id (P.map ob.orders) ∧
      RestedNew (ob.cancelOrder id) P₁
        (Order.new (ob.orderOf n).orderType id (ob.orderOf n).side price qty)
        (ob.modifyOrder id price qty).2 := by
  obtain ⟨P₁, heff, hmap⟩ := h.cancelOrder id
  refine ⟨P₁, heff, hmap, ?_⟩
  rw [modifyOrder, hn]
  exact heff.holds.restNew _ _ price qty (hmap ▸ not_mem_cancel id _)

/-- `modify_order` puts a new object at the back in place of the old one. -/
theorem Holds.modifyOrder (h : Holds ob P) (id : Nat) (price : Int) (qty : Nat) :
    ∃ P', Holds (ob.modifyOrder id price qty).2 P' ∧
      P'.map (ob.modifyOrder id price qty).2.orders =
        Arrival.modifyOrder id price qty (P.map ob.orders) := by
  rw [Arrival.modifyOrder]
  cases hn : ob.orderMap.lookup id with
  | none =>
    rw [Orderbook.modifyOrder, hn, lookup_eq_none_iff.2 (h.lookup_eq_none.1 hn)]
    exact ⟨P, h, rfl⟩
  | some n =>
    rw [h.lookup_eq_some hn]
    obtain ⟨P₁, heff, hmap, hnew⟩ := h.modifyOrder_of_some hn price qty
    refine ⟨P₁ ++ [(ob.cancelOrder id).orderCount], hnew.holds, ?_⟩
    rw [← hmap]
    exact hnew.map heff.holds

/-! ## Clearing -/

theorem foldl_freeNode_fields :
    (ns.foldl freeNode ob).orders = ob.orders ∧ (ns.foldl freeNode ob).orderCount = ob.orderCount ∧
      (ns.foldl freeNode ob).nodeBlocks = ob.nodeBlocks := by
  induction ns generalizing ob with
  | nil => exact ⟨rfl, rfl, rfl⟩
  | cons n ns ih => exact ih

/-- Freeing nodes pushes them onto the free list. -/
theorem foldl_freeNode_stack (hs : Stack ob.nodes ob.freeNodes F) (hnd : (ns ++ F).Nodup) :
    Stack (ns.foldl freeNode ob).nodes (ns.foldl freeNode ob).freeNodes (ns.reverse ++ F) := by
  induction ns generalizing ob F with
  | nil => exact hs
  | cons n ns ih =>
    obtain ⟨hn, hnd⟩ := nodup_cons.1 hnd
    have hnF : n ∉ F := fun hm => hn (mem_append_right _ hm)
    have hs' : Stack (ob.freeNode n).nodes (ob.freeNode n).freeNodes (n :: F) := by
      refine ⟨rfl, ?_⟩
      show Stack (update ob.nodes n _) (update ob.nodes n _ n).next F
      rw [update_self]
      refine hs.congr fun m hm => ?_
      have hmn : m ≠ n := fun he => hnF (he ▸ hm)
      rw [update_of_ne hmn]
    have hnd' : (ns ++ n :: F).Nodup :=
      perm_middle.nodup_iff.2 (nodup_cons.2 ⟨hn, hnd⟩)
    rw [reverse_cons, append_assoc]
    exact ih hs' hnd'

/-- The nodes in the map are the live ones. -/
theorem RepW.perm_entries (h : RepW ob L F) : (ob.orderMap.entries.map Sigma.snd).Perm L := by
  have hmem : ∀ e ∈ ob.orderMap.entries, e.2 ∈ L ∧ (ob.orderOf e.2).orderId = e.1 := fun e he =>
    (h.map e.1 e.2).1 (AList.mem_lookup_iff.2 he)
  refine (perm_ext_iff_of_nodup ?_ h.nodup_live).2 fun n => ?_
  · refine ob.orderMap.nodupKeys.nodup.map_on fun e he e' he' heq => ?_
    obtain ⟨id, m⟩ := e
    obtain ⟨id', m'⟩ := e'
    have hm : m = m' := heq
    subst hm
    have hid : id = id' := (hmem _ he).2.symm.trans (hmem _ he').2
    rw [hid]
  · constructor
    · intro hn
      obtain ⟨e, he, rfl⟩ := mem_map.1 hn
      exact (hmem e he).1
    · intro hn
      have hlook := h.lookup_orderId hn
      exact mem_map.2 ⟨⟨_, n⟩, AList.mem_lookup_iff.1 hlook, rfl⟩

theorem Holds.clear (h : Holds ob P) : Effect ob P [] ob.clear [] := by
  obtain ⟨L, F, hrep, rfl⟩ := h
  set ns := ob.orderMap.entries.map Sigma.snd
  obtain ⟨horders, hcount, hblocks⟩ := @foldl_freeNode_fields ob ns
  have hperm : (ns.reverse ++ F).Perm (L ++ F) :=
    ((reverse_perm ns).trans hrep.perm_entries).append_right F
  have hnd : (ns ++ F).Nodup := (hrep.perm_entries.append_right F).nodup_iff.2 hrep.nodup
  have hrep' : Rep ob.clear [] (ns.reverse ++ F) := by
    refine rep_of_empty (hperm.nodup_iff.2 hrep.nodup) (fun n => ?_)
      (foldl_freeNode_stack ns hrep.stack hnd) (fun s => by cases s <;> rfl) rfl
    rw [hperm.mem_iff, hrep.alloc]
    show n < ob.nodeBlocks * _ ↔ n < (ns.foldl freeNode ob).nodeBlocks * _
    rw [hblocks]
  exact Holds.effect_nil ⟨[], _, hrep', rfl⟩ (nil_sublist _) horders hcount

/-! ## Level-two feeds -/

/-- The orders a side of a snapshot seeds, and the generator after it. -/
def seeds (s : Side) : List (Int × Nat) → OrderIdGenerator → List Order × OrderIdGenerator
  | [], gen => ([], gen)
  | (price, qty) :: levels, gen =>
    if qty = 0 then seeds s levels gen
    else
      (Order.new .goodTillCancel gen.next.1 s price qty :: (seeds s levels gen.next.2).1,
        (seeds s levels gen.next.2).2)

/-- The objects of a book are those of the other, and perhaps more. -/
def Grows (ob ob' : Orderbook) : Prop :=
  ob.orderCount ≤ ob'.orderCount ∧ ∀ r, r < ob.orderCount → ob'.orders r = ob.orders r

theorem Grows.trans {ob₂ : Orderbook} (h₁ : Grows ob ob₁) (h₂ : Grows ob₁ ob₂) : Grows ob ob₂ :=
  ⟨h₁.1.trans h₂.1, fun r hr => (h₂.2 r (hr.trans_le h₁.1)).trans (h₁.2 r hr)⟩

theorem Holds.seedLevels (h : Holds ob P) (s : Side) (levels : List (Int × Nat))
    (gen : OrderIdGenerator) (hids : IdsNodup (P.map ob.orders ++ (seeds s levels gen).1)) :
    ∃ P', Holds (seedLevels s levels (ob, gen)).1 P' ∧
      P'.map (seedLevels s levels (ob, gen)).1.orders =
        P.map ob.orders ++ (seeds s levels gen).1 ∧
      (seedLevels s levels (ob, gen)).2 = (seeds s levels gen).2 ∧
      Grows ob (seedLevels s levels (ob, gen)).1 := by
  induction levels generalizing ob P gen with
  | nil => exact ⟨P, h, by simp [seedLevels, seeds], rfl, le_rfl, fun _ _ => rfl⟩
  | cons level levels ih =>
    obtain ⟨price, qty⟩ := level
    by_cases hq : qty = 0
    · simp only [seedLevels, seeds, if_pos hq] at hids ⊢
      exact ih h gen hids
    · simp only [seedLevels, seeds, if_neg hq] at hids ⊢
      -- The minted id is not among the live ones.
      have hfresh : gen.next.1 ∉ (P.map ob.orders).map Order.orderId := by
        rw [IdsNodup, map_append, map_cons] at hids
        exact fun hm => (nodup_append.1 hids).2.2 _ hm _ mem_cons_self rfl
      have hnew := h.restNew .goodTillCancel s price qty hfresh
      have hmap := hnew.map h
      rw [append_cons, ← hmap] at hids
      obtain ⟨P', hP', hmap', hgen, hgrows⟩ := ih hnew.holds gen.next.2 hids
      rw [hmap, ← append_cons] at hmap'
      exact ⟨P', hP', hmap', hgen, .trans ⟨hnew.orderCount ▸ Nat.le_succ _, hnew.orders_of_lt⟩
        hgrows⟩

/-- What a snapshot rests: the seeds of the bids, then those of the asks. -/
def snapshotOrders (gen : OrderIdGenerator) (bids asks : List (Int × Nat)) : List Order :=
  (seeds .buy bids gen).1 ++ (seeds .sell asks (seeds .buy bids gen).2).1

theorem Holds.applyL2Snapshot (h : Holds ob P) (gen : OrderIdGenerator)
    (bids asks : List (Int × Nat)) (hids : IdsNodup (snapshotOrders gen bids asks)) :
    ∃ P', Holds (ob.applyL2Snapshot gen bids asks).1 P' ∧
      P'.map (ob.applyL2Snapshot gen bids asks).1.orders = snapshotOrders gen bids asks ∧
      Grows ob (ob.applyL2Snapshot gen bids asks).1 := by
  have hbids : IdsNodup (([] : List Nat).map ob.clear.orders ++ (seeds .buy bids gen).1) :=
    hids.sublist ((sublist_append_left _ _).map _)
  obtain ⟨P₁, h₁, hmap₁, hgen₁, hgrows₁⟩ := h.clear.holds.seedLevels .buy bids gen hbids
  have hasks : IdsNodup (P₁.map (Orderbook.seedLevels .buy bids (ob.clear, gen)).1.orders ++
      (seeds .sell asks (seeds .buy bids gen).2).1) := by
    rw [hmap₁]; exact hids
  obtain ⟨P₂, h₂, hmap₂, -, hgrows₂⟩ := h₁.seedLevels .sell asks (seeds .buy bids gen).2 hasks
  have heq : ob.applyL2Snapshot gen bids asks = Orderbook.seedLevels .sell asks
      ((Orderbook.seedLevels .buy bids (ob.clear, gen)).1, (seeds .buy bids gen).2) := by
    rw [← hgen₁]; rfl
  have hclear : Grows ob ob.clear :=
    ⟨h.clear.orderCount.ge, fun r _ => congrFun h.clear.orders_eq r⟩
  rw [heq]
  refine ⟨P₂, h₂, ?_, (hclear.trans hgrows₁).trans hgrows₂⟩
  rw [hmap₂, hmap₁]
  rfl

/-- The drained book: the nodes of one side and price are gone, the rest is as before. -/
structure Drained (ob : Orderbook) (L : List Nat) (s : Side) (price : Int)
    (pre post : List PriceLevel) (ob' : Orderbook) (L' F' : List Nat) : Prop where
  rep : RepW ob' L' F'
  live : L' = L.filter fun n => ¬ ((ob.orderOf n).side = s ∧ (ob.orderOf n).price = price)
  level : ∃ lvl, ob'.levels s = pre ++ lvl :: post ∧ lvl.price = price
  nonempty : ∀ t, ∀ l ∈ ob'.levels t, ¬ (t = s ∧ l.price = price) → ob'.queueAt L' t l.price ≠ []
  orders : ob'.orders = ob.orders
  orderCount : ob'.orderCount = ob.orderCount
  val : ∀ m ∈ L', (ob'.nodes m).val = (ob.nodes m).val

/-- The drain loop empties its level before the fuel runs out. -/
theorem RepW.drainLevel {pre post : List PriceLevel} {lvl : PriceLevel} {fuel : Nat}
    (h : RepW ob L F) (hl : ob.levels s = pre ++ lvl :: post)
    (hne : ∀ t, ∀ l ∈ ob.levels t, ¬ (t = s ∧ l.price = lvl.price) → ob.queueAt L t l.price ≠ [])
    (hfuel : (ob.queueAt L s lvl.price).length < fuel) :
    ∃ L' F', Drained ob L s lvl.price pre post (drainLevel s pre post fuel lvl ob) L' F' := by
  have hlvl : lvl ∈ ob.levels s := by rw [hl]; simp
  induction fuel generalizing ob L F lvl with
  | zero => exact absurd hfuel (Nat.not_lt_zero _)
  | succ fuel ih =>
    rw [drainLevel, h.queue_head hlvl]
    cases hq : ob.queueAt L s lvl.price with
    | nil =>
      refine ⟨L, F, h, (filter_eq_self.2 fun n hn => ?_).symm, ⟨lvl, hl, rfl⟩, hne, rfl, rfl,
        fun _ _ => rfl⟩
      have hc : ¬ ((ob.orderOf n).side = s ∧ (ob.orderOf n).price = lvl.price) := fun hc =>
        not_mem_nil (hq ▸ mem_queueAt.2 ⟨hn, hc⟩)
      exact decide_eq_true hc
    | cons n q =>
      have hnq : n ∈ ob.queueAt L s lvl.price := by rw [hq]; exact mem_cons_self
      obtain ⟨hnL, hnat⟩ := mem_queueAt.1 hnq
      have h₁ := h.drop hl hnq
      have hl₁ : (ob.dropNode s pre lvl post n).levels s = pre ++ ob.lvlDrop lvl n :: post :=
        dropNode_levels_self
      have hlen : ((ob.dropNode s pre lvl post n).queueAt (L.erase n) s
          (ob.lvlDrop lvl n).price).length < fuel := by
        show ((ob.dropNode s pre lvl post n).queueAt (L.erase n) s lvl.price).length < fuel
        rw [dropNode_queueAt h.nodup_live, hq, erase_cons_head]
        rw [hq, length_cons] at hfuel
        omega
      obtain ⟨L', F', hd⟩ := ih h₁ hl₁ (h.dropNode_nonempty hl hne hnq) hlen (by rw [hl₁]; simp)
      refine ⟨L', F', ?_⟩
      have hne' : ∀ m ∈ L.erase n, m ≠ n := fun m hm he => h.nodup_live.not_mem_erase (he ▸ hm)
      have hsub : ∀ m ∈ L', m ∈ L.erase n := fun m hm => by
        rw [hd.live] at hm
        exact (mem_filter.1 hm).1
      exact {
        rep := hd.rep
        live := by
          rw [hd.live, h.nodup_live.erase_eq_filter, filter_filter]
          refine filter_congr fun m hm => ?_
          by_cases hmn : m = n
          · rw [hmn]
            simp [hnat.1, hnat.2]
          · rw [dropNode_orderOf hmn]
            simp [hmn, lvlDrop]
        level := hd.level
        nonempty := hd.nonempty
        orders := hd.orders.trans dropNode_orders
        orderCount := hd.orderCount.trans dropNode_orderCount
        val := fun m hm =>
          (hd.val m hm).trans (dropNode_val (hne' m (hsub m hm))) }

/-- The orders off one side and price. -/
def offLevel (s : Side) (price : Int) (os : List Order) : List Order :=
  os.filter fun o => ¬ (o.side = s ∧ o.price = price)

/-- The first part of `apply_l2_update`: the level at the price goes. -/
theorem Holds.drain (h : Holds ob P) (s : Side) (price : Int) :
    ∃ P', Effect ob P []
      ((match splitLevel (ob.levels s) price with
        | some (pre, lvl, post) => drainLevel s pre post (ob.nodeCount + 1) lvl ob
        | none => ob).removeLevelIfEmpty s price) P' ∧
      P'.map ob.orders = offLevel s price (P.map ob.orders) := by
  by_cases hex : ∃ lvl ∈ ob.levels s, lvl.price = price
  · obtain ⟨L, F, hrep, rfl⟩ := h
    obtain ⟨lvl, hlvl, rfl⟩ := hex
    obtain ⟨pre, post, hl⟩ := append_of_mem hlvl
    have hsplit : splitLevel (ob.levels s) lvl.price = some (pre, lvl, post) := by
      rw [hl]; exact splitLevel_eq (fun l hlm => (hrep.around hl (.inl hlm)).2) rfl
    have hfuel : (ob.queueAt L s lvl.price).length < ob.nodeCount + 1 :=
      Nat.lt_succ_of_le ((length_filter_le _ _).trans hrep.length_le)
    obtain ⟨L', F', hd⟩ := hrep.drainLevel hl (fun t l hlm _ => hrep.nonempty t l hlm) hfuel
    rw [hsplit]
    set ob₁ := drainLevel s pre post (ob.nodeCount + 1) lvl ob
    obtain ⟨lvl', hl', hp'⟩ := hd.level
    have hne := hd.nonempty
    rw [← hp'] at hne ⊢
    have hrep' := hd.rep.removeLevel hl' hne
    have hptr : L'.map (ob₁.removeLevelIfEmpty s lvl'.price).ptrOf = L'.map ob.ptrOf :=
      map_congr_left fun m hm => by
        rw [ptrOf, removeLevelIfEmpty, setLevels_nodes, hd.val m hm]; rfl
    have hsub : L'.Sublist L := by rw [hd.live]; exact filter_sublist
    have horders : (ob₁.removeLevelIfEmpty s lvl'.price).orders = ob.orders := by
      rw [removeLevelIfEmpty, setLevels_orders, hd.orders]
    have hcount : (ob₁.removeLevelIfEmpty s lvl'.price).orderCount = ob.orderCount := by
      rw [removeLevelIfEmpty, setLevels_orderCount, hd.orderCount]
    refine ⟨L'.map ob.ptrOf, Holds.effect_nil ⟨L', F', hrep', hptr⟩ (hsub.map _) horders hcount, ?_⟩
    rw [map_orders_ptrOf, map_orders_ptrOf, offLevel, filter_map, hd.live, hp']
    rfl
  · have hnone : ∀ l ∈ ob.levels s, l.price ≠ price := fun l hl hp => hex ⟨l, hl, hp⟩
    have herase : ob.removeLevelIfEmpty s price = ob := by
      rw [removeLevelIfEmpty, eraseP_of_forall_not, setLevels_levels]
      exact fun l hl => by simp [hnone l hl]
    rw [splitLevel_eq_none hnone]
    rw [herase]
    refine ⟨P, h.effect_nil (Sublist.refl _) rfl rfl, ?_⟩
    obtain ⟨L, F, hrep, rfl⟩ := h
    rw [map_orders_ptrOf]
    refine (filter_eq_self.2 fun o ho => ?_).symm
    obtain ⟨m, hm, rfl⟩ := mem_map.1 ho
    have hc : ¬ ((ob.orderOf m).side = s ∧ (ob.orderOf m).price = price) := by
      rintro ⟨hms, hmp⟩
      obtain ⟨l, hl, hlp⟩ := hrep.covered m hm
      rw [hms] at hl
      exact hnone l hl (hlp.trans hmp)
    exact decide_eq_true hc

/-- `apply_l2_update` replaces what rests at one side and price by one order. -/
theorem Holds.applyL2Update (h : Holds ob P) (gen : OrderIdGenerator) (s : Side) (price : Int)
    (qty : Nat) (hid : 0 < qty → gen.next.1 ∉
      (offLevel s price (P.map ob.orders)).map Order.orderId) :
    ∃ P', Holds (ob.applyL2Update gen s price qty).1 P' ∧
      P'.map (ob.applyL2Update gen s price qty).1.orders = offLevel s price (P.map ob.orders) ++
        if 0 < qty then [Order.new .goodTillCancel gen.next.1 s price qty] else [] := by
  obtain ⟨P₁, heff, hmap⟩ := h.drain s price
  rw [← heff.orders_eq] at hmap
  rw [Orderbook.applyL2Update]
  split_ifs with hq
  · have hnew :=
      heff.holds.restNew .goodTillCancel s price qty (by rw [hmap, heff.orders_eq]; exact hid hq)
    refine ⟨_, hnew.holds, ?_⟩
    rw [heff.orders_eq] at hmap
    rw [← hmap, ← heff.orders_eq]
    exact hnew.map heff.holds
  · rw [append_nil, ← heff.orders_eq]
    exact ⟨P₁, heff.holds, hmap⟩

end TrueTest.Orderbook
