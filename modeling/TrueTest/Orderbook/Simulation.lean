import TrueTest.Orderbook.Arrival
import TrueTest.Orderbook.Rep

/-!
# The pointer book computes the arrival list

If the pointers of `ob` represent the live nodes `L`, every operation of the book does to
`L.map ob.orderOf` what the operation of `TrueTest.Arrival` of the same name does, and the
pointers of the new book represent the nodes left.
-/

namespace TrueTest.Orderbook

open IntrusiveList Arrival List Function

variable {ob ob' : Orderbook} {L L' F F' : List Nat} {s t : Side} {n m qty : Nat}
  {rest : List PriceLevel} {lvl l : PriceLevel} (o : Order)

/-! ## The front of a side -/

theorem RepW.queue_head (h : RepW ob L F) (hl : l ∈ ob.levels s) :
    l.head = (ob.queueAt L s l.price).head? :=
  (h.level s l hl).queue.head

/-- The front level of a side starts with the side's best order. -/
theorem Rep.front (h : Rep ob L F) (hl : ob.levels s = lvl :: rest) :
    ∃ n, lvl.head = some n ∧ n ∈ ob.queueAt L s lvl.price ∧
      best s (L.map ob.orderOf) = some (ob.orderOf n) := by
  have hlvl : lvl ∈ ob.levels s := by rw [hl]; simp
  obtain ⟨n, q, hq⟩ := exists_cons_of_ne_nil (h.nonempty s lvl hlvl)
  have hn : n ∈ ob.queueAt L s lvl.price := by rw [hq]; exact mem_cons_self
  obtain ⟨-, hns, hnp⟩ := mem_queueAt.1 hn
  refine ⟨n, by rw [h.queue_head hlvl, hq, head?_cons], hn, ?_⟩
  -- The nodes before `n` are not at the front price.
  obtain ⟨pre, post, hL, hpre, -, -⟩ := filter_eq_cons_iff.1 hq
  have hworse : ∀ m ∈ L, (ob.orderOf m).side = s →
      (ob.orderOf m).price = lvl.price ∨ s.before lvl.price (ob.orderOf m).price := by
    intro m hm hms
    obtain ⟨l, hlm, hlp⟩ := h.covered m hm
    rw [hms, hl] at hlm
    rcases mem_cons.1 hlm with rfl | hlm
    · exact .inl hlp.symm
    · have hs := h.sorted s
      rw [hl] at hs
      exact .inr (hlp ▸ (pairwise_cons.1 hs).1 l hlm)
  rw [hL, map_append, map_cons]
  refine best_append_cons hns (fun x hx hxs => ?_) fun x hx hxs => ?_
  · obtain ⟨m, hm, rfl⟩ := mem_map.1 hx
    have hne : (ob.orderOf m).price ≠ lvl.price := fun hp => by
      simpa [hxs, hp] using hpre m hm
    rw [hnp]
    exact (hworse m (by rw [hL]; simp [hm]) hxs).resolve_left hne
  · obtain ⟨m, hm, rfl⟩ := mem_map.1 hx
    rw [hnp]
    rcases hworse m (by rw [hL]; simp [hm]) hxs with hp | hp
    · rw [hp]; exact Side.before_irrefl
    · exact fun hlt => Side.before_irrefl (Side.before_trans hlt hp)

/-- A side without levels has no live orders. -/
theorem RepW.best_eq_none (h : RepW ob L F) (hl : ob.levels s = []) :
    best s (L.map ob.orderOf) = none := by
  refine best_eq_none_iff.2 fun x hx hxs => ?_
  obtain ⟨m, hm, rfl⟩ := mem_map.1 hx
  obtain ⟨l, hlm, -⟩ := h.covered m hm
  rw [hxs, hl] at hlm
  exact not_mem_nil hlm

theorem Rep.canMatch (h : Rep ob L F) (s : Side) (price : Int) :
    ob.canMatch s price = Arrival.canMatch s price (L.map ob.orderOf) := by
  unfold Orderbook.canMatch Arrival.canMatch
  cases hl : ob.levels s.contra with
  | nil => rw [h.best_eq_none hl]
  | cons lvl rest =>
    obtain ⟨n, -, hn, hbest⟩ := h.front hl
    rw [hbest]
    dsimp only
    rw [(mem_queueAt.1 hn).2.2]

/-! ## One side of a trade -/

/-- The book after one side of a trade: the order at `n` has `qty` less, and left if that filled
it. Only the front level of side `s` changed. -/
structure Settled (ob : Orderbook) (L : List Nat) (s : Side) (n qty : Nat) (ob' : Orderbook)
    (L' F' : List Nat) : Prop where
  rep : RepW ob' L' F'
  live : L' = if (ob.orderOf n).remainingQuantity ≤ qty then L.erase n else L
  orders : ob'.orders = Function.update ob.orders ((ob.nodes n).val.getD 0)
    ((ob.orderOf n).less qty)
  orderCount : ob'.orderCount = ob.orderCount
  val : ∀ m ∈ L', (ob'.nodes m).val = (ob.nodes m).val
  front : ∃ lvl', (∃ lvl, ob.levels s = lvl :: (ob.levels s).tail ∧ lvl'.price = lvl.price) ∧
    ob'.levels s = lvl' :: (ob.levels s).tail
  other : ∀ t, t ≠ s → ob'.levels t = ob.levels t

theorem dropNode_setLevels (ob : Orderbook) (s : Side) (ls pre : List PriceLevel)
    (lvl : PriceLevel) (post : List PriceLevel) (n : Nat) :
    (ob.setLevels s ls).dropNode s pre lvl post n = ob.dropNode s pre lvl post n := by
  cases s <;> rfl

theorem isFilled_less (qty : Nat) : (o.less qty).isFilled = true ↔ o.remainingQuantity ≤ qty := by
  simp [Order.isFilled, Nat.sub_eq_zero_iff_le]

theorem RepW.settle (h : RepW ob L F) (hl : ob.levels s = lvl :: rest)
    (hn : n ∈ ob.queueAt L s lvl.price) (hq : qty ≤ (ob.orderOf n).remainingQuantity) :
    ∃ L' F', Settled ob L s n qty
      ((ob.fillOrder ((ob.nodes n).val.getD 0) qty).settleFront s n qty) L' F' := by
  set r := (ob.nodes n).val.getD 0
  set lvl' := { lvl with totalQty := lvl.totalQty - UInt64.ofNat qty }
  set ob₁ := ob.fillAt s [] lvl rest n qty
  have hl' : ob.levels s = [] ++ lvl :: rest := hl
  have h₁ : RepW ob₁ L F := h.fill hl' hn hq
  have hfill : ob.fillOrder r qty =
      { ob with orders := Function.update ob.orders r ((ob.orderOf n).less qty) } := fillOrder_eq hq
  have hob₁ : ob₁ = (ob.fillOrder r qty).setLevels s ([] ++ lvl' :: rest) := rfl
  have horders : ob₁.orders = Function.update ob.orders r ((ob.orderOf n).less qty) :=
    by simp [hob₁, hfill]
  have hnodes : ob₁.nodes = ob.nodes := by simp [hob₁, hfill]
  have hlevs : ob₁.levels s = [] ++ lvl' :: rest := by simp [hob₁]
  have hlevt : ∀ t, t ≠ s → ob₁.levels t = ob.levels t := fun t ht => by
    rw [hob₁, levels_setLevels_of_ne _ _ ht, hfill]; cases t <;> rfl
  have hord : ob₁.orderOf n = (ob.orderOf n).less qty := by
    rw [orderOf, horders, hnodes, update_self]
  have hcount : ob₁.orderCount = ob.orderCount := by simp [hob₁, hfill]
  have hsettle : (ob.fillOrder r qty).settleFront s n qty =
      if (ob.orderOf n).remainingQuantity ≤ qty then ob₁.dropNode s [] lvl' rest n else ob₁ := by
    have hlev : (ob.fillOrder r qty).levels s = lvl :: rest := by
      rw [hfill, ← hl]; cases s <;> rfl
    have hordf : (ob.fillOrder r qty).orderOf n = (ob.orderOf n).less qty := by
      rw [hfill]; exact update_self _ _ _
    rw [settleFront, hlev]
    simp only [hordf, isFilled_less]
    rw [hob₁, dropNode_setLevels]
    rfl
  rw [hsettle]
  have htail : (ob.levels s).tail = rest := by rw [hl]; rfl
  split_ifs with hfilled
  · have hn₁ : n ∈ ob₁.queueAt L s lvl'.price := by
      rw [mem_queueAt, hord]; exact mem_queueAt.1 hn
    refine ⟨L.erase n, n :: F, ?_⟩
    exact {
      rep := h₁.drop hlevs hn₁
      live := (if_pos hfilled).symm
      orders := by rw [dropNode_orders, horders]
      orderCount := by rw [dropNode_orderCount, hcount]
      val := fun m hm => by
        have hmn : m ≠ n := fun he => h.nodup_live.not_mem_erase (he ▸ hm)
        rw [dropNode_val hmn, hnodes]
      front := ⟨ob₁.lvlDrop lvl' n, ⟨lvl, by rw [htail, hl], rfl⟩, by rw [htail]; simp⟩
      other := fun t ht => by rw [dropNode_levels_of_ne ht, hlevt t ht] }
  · refine ⟨L, F, ?_⟩
    exact {
      rep := h₁
      live := (if_neg hfilled).symm
      orders := horders
      orderCount := hcount
      val := fun m _ => by rw [hnodes]
      front := ⟨lvl', ⟨lvl, by rw [htail, hl], rfl⟩, by rw [htail, hlevs]; rfl⟩
      other := hlevt }

namespace Settled

variable (hset : Settled ob L s n qty ob' L' F')
include hset

theorem sublist : L'.Sublist L := by
  rw [hset.live]
  split_ifs
  · exact erase_sublist
  · exact Sublist.refl _

theorem subset : L' ⊆ L := hset.sublist.subset

theorem mem_of_ne (hm : m ∈ L) (hmn : m ≠ n) : m ∈ L' := by
  rw [hset.live]
  split_ifs
  · exact (mem_erase_of_ne hmn).2 hm
  · exact hm

theorem orderOf (h : RepW ob L F) (hn : n ∈ L) (hm : m ∈ L') :
    ob'.orderOf m = if m = n then (ob.orderOf n).less qty else ob.orderOf m := by
  rw [Orderbook.orderOf, hset.val m hm, hset.orders]
  split_ifs with hmn
  · rw [hmn, update_self]
  · exact update_of_ne (h.ptr_ne (hset.subset hm) hn hmn) _ _

/-- On the arrival list, one side of a trade is a `reduce`. -/
theorem map_orderOf (h : RepW ob L F) (hn : n ∈ L) :
    L'.map ob'.orderOf = reduce (ob.orderOf n).orderId qty (L.map ob.orderOf) := by
  have hid : ∀ m ∈ L, (ob.orderOf m).orderId = (ob.orderOf n).orderId ↔ m = n := fun m hm =>
    ⟨fun he => h.id_inj hm hn he, fun he => by rw [he]⟩
  have hmap : L'.map ob'.orderOf =
      L'.map fun m => if m = n then (ob.orderOf n).less qty else ob.orderOf m :=
    map_congr_left fun m hm => hset.orderOf h hn hm
  rw [hmap, hset.live, reduce, filterMap_map]
  split_ifs with hfilled
  · rw [h.nodup_live.erase_eq_filter, ← filterMap_eq_map, filterMap_filter]
    refine filterMap_congr fun m hm => ?_
    by_cases hmn : m = n
    · simp [hmn, hfilled]
    · simp [hmn, hid m hm]
  · rw [← filterMap_eq_map]
    refine filterMap_congr fun m hm => ?_
    by_cases hmn : m = n
    · simp [hmn, hfilled]
    · simp [hmn, hid m hm]

/-- The levels behind the front one keep their orders. -/
theorem tail_nonempty (h : RepW ob L F) (hl : ob.levels s = lvl :: rest)
    (hn : n ∈ ob.queueAt L s lvl.price)
    (hlt : t = s → l ∈ rest) (hne : ob.queueAt L t l.price ≠ []) :
    ob'.queueAt L' t l.price ≠ [] := by
  obtain ⟨hnL, hns, hnp⟩ := mem_queueAt.1 hn
  obtain ⟨m, hm⟩ := exists_mem_of_ne_nil _ hne
  obtain ⟨hmL, hms, hmp⟩ := mem_queueAt.1 hm
  have hmn : m ≠ n := by
    rintro rfl
    have hts : t = s := hms.symm.trans hns
    have hl' : ob.levels s = [] ++ lvl :: rest := hl
    exact (h.around hl' (.inr (hlt hts))).2 (hmp.symm.trans hnp)
  have hmL' := hset.mem_of_ne hmL hmn
  refine ne_nil_of_mem (mem_queueAt.2 ⟨hmL', ?_⟩)
  rw [hset.orderOf h hnL hmL', if_neg hmn]
  exact ⟨hms, hmp⟩

end Settled

/-! ## One trade -/

/-- Erasing an empty front level leaves no empty level on its side. -/
theorem RepW.eraseFront (h : RepW ob L F)
    (hne : ∀ l ∈ (ob.levels s).tail, ob.queueAt L s l.price ≠ []) :
    ∃ ls, ob.eraseFrontIfEmpty s = ob.setLevels s ls ∧ RepW (ob.setLevels s ls) L F ∧
      ∀ l ∈ ls, ob.queueAt L s l.price ≠ [] := by
  unfold eraseFrontIfEmpty
  cases hl : ob.levels s with
  | nil => exact ⟨[], by simp [← hl], by simpa [← hl] using h, by simp⟩
  | cons lvl rest =>
    have hlvl : lvl ∈ ob.levels s := by rw [hl]; simp
    have hl' : ob.levels s = [] ++ lvl :: rest := hl
    rw [hl] at hne
    dsimp only
    by_cases he : lvl.empty = true
    · exact ⟨rest, if_pos he, h.eraseLevel hl' ((h.empty_iff hlvl).1 he), hne⟩
    · refine ⟨lvl :: rest, ?_, ?_, forall_mem_cons.2 ⟨fun hq => he ((h.empty_iff hlvl).2 hq), hne⟩⟩
      · rw [if_neg he, ← hl, setLevels_levels]
      · rw [← hl, setLevels_levels]
        exact h

@[simp] theorem fillOrder_nodes (ob : Orderbook) (r qty : Nat) :
    (ob.fillOrder r qty).nodes = ob.nodes := by
  unfold fillOrder
  cases (ob.orders r).fill qty <;> rfl

theorem settleFront_orders : (ob.settleFront s n qty).orders = ob.orders := by
  unfold settleFront
  cases ob.levels s with
  | nil => rfl
  | cons lvl rest =>
    dsimp only
    split
    · exact dropNode_orders
    · exact setLevels_orders _ _ _

/-- Settling reads one object and writes none. -/
theorem settleFront_update {orders : Nat → Order}
    (hn : orders ((ob.nodes n).val.getD 0) = ob.orders ((ob.nodes n).val.getD 0)) :
    { ob with orders := orders }.settleFront s n qty =
      { ob.settleFront s n qty with orders := orders } := by
  have hord : orderOf { ob with orders := orders } n = ob.orderOf n := hn
  have hlev : levels { ob with orders := orders } s = ob.levels s := by cases s <;> rfl
  rw [settleFront, settleFront, hord, hlev]
  cases ob.levels s with
  | nil => rfl
  | cons lvl rest =>
    dsimp only
    split
    · rw [dropNode_eq, dropNode_eq, lvlDrop, hord]
      cases s <;> rfl
    · cases s <;> rfl

/-- A fill of another object commutes with settling. -/
theorem fillOrder_settleFront {r : Nat} (hr : (ob.nodes n).val.getD 0 ≠ r) (qty' : Nat) :
    (ob.fillOrder r qty').settleFront s n qty = (ob.settleFront s n qty).fillOrder r qty' := by
  unfold fillOrder
  rw [settleFront_orders]
  cases (ob.orders r).fill qty' with
  | error e => rfl
  | ok o => exact settleFront_update (update_of_ne hr _ _)

/-- What a trade between the nodes `b` and `a` leaves of the live nodes. -/
structure Traded (ob : Orderbook) (L : List Nat) (b a : Nat) (ob' : Orderbook)
    (L' F' : List Nat) : Prop where
  rep : Rep ob' L' F'
  sublist : L'.Sublist L
  val : ∀ m ∈ L', (ob'.nodes m).val = (ob.nodes m).val
  orderCount : ob'.orderCount = ob.orderCount
  orders : ∀ r, ob'.orders r =
    if r = (ob.nodes b).val.getD 0 ∨ r = (ob.nodes a).val.getD 0 then
      (ob.orders r).less (min (ob.orderOf b).remainingQuantity (ob.orderOf a).remainingQuantity)
    else ob.orders r
  map : L'.map ob'.orderOf =
    reduce (ob.orderOf a).orderId
      (min (ob.orderOf b).remainingQuantity (ob.orderOf a).remainingQuantity)
      (reduce (ob.orderOf b).orderId
        (min (ob.orderOf b).remainingQuantity (ob.orderOf a).remainingQuantity)
        (L.map ob.orderOf))

theorem Rep.trade (h : Rep ob L F) {bidLvl askLvl : PriceLevel} {bidRest askRest : List PriceLevel}
    (hbl : ob.levels .buy = bidLvl :: bidRest) (hal : ob.levels .sell = askLvl :: askRest)
    {b a : Nat}
    (hb : b ∈ ob.queueAt L .buy bidLvl.price) (ha : a ∈ ob.queueAt L .sell askLvl.price) :
    (ob.tradeFront b a).1 = tradeOf (ob.orderOf b) (ob.orderOf a) ∧
      ∃ L' F', Traded ob L b a (ob.tradeFront b a).2 L' F' := by
  refine ⟨rfl, ?_⟩
  obtain ⟨hbL, hbs, -⟩ := mem_queueAt.1 hb
  obtain ⟨haL, has, hap⟩ := mem_queueAt.1 ha
  have hab : a ≠ b := fun he => by rw [he, hbs] at has; cases has
  set qty := min (ob.orderOf b).remainingQuantity (ob.orderOf a).remainingQuantity with hqty
  -- The bid side.
  have hqb : qty ≤ (ob.orderOf b).remainingQuantity := Nat.min_le_left _ _
  obtain ⟨L₁, F₁, h₁⟩ := h.settle hbl hb hqb
  set ob₁ := (ob.fillOrder ((ob.nodes b).val.getD 0) qty).settleFront .buy b qty with hob₁
  have haL₁ : a ∈ L₁ := h₁.mem_of_ne haL hab
  have ha₁ : ob₁.orderOf a = ob.orderOf a := by rw [h₁.orderOf h.toRepW hbL haL₁, if_neg hab]
  have hva₁ : (ob₁.nodes a).val = (ob.nodes a).val := h₁.val a haL₁
  have hal₁ : ob₁.levels .sell = askLvl :: askRest := by rw [h₁.other .sell (by decide), hal]
  have haq₁ : a ∈ ob₁.queueAt L₁ .sell askLvl.price := by
    rw [mem_queueAt, ha₁]; exact ⟨haL₁, has, hap⟩
  -- The ask side.
  have hqa : qty ≤ (ob₁.orderOf a).remainingQuantity := by rw [ha₁]; exact Nat.min_le_right _ _
  obtain ⟨L₂, F₂, h₂⟩ := h₁.rep.settle hal₁ haq₁ hqa
  set ob₂ := (ob₁.fillOrder ((ob₁.nodes a).val.getD 0) qty).settleFront .sell a qty with hob₂
  have hpab := h.ptr_ne haL hbL hab
  have heq : (ob.tradeFront b a).2 = (ob₂.eraseFrontIfEmpty .buy).eraseFrontIfEmpty .sell := by
    rw [hob₂, hva₁, hob₁, ← fillOrder_settleFront (by rw [fillOrder_nodes]; exact hpab.symm)]
    unfold tradeFront
    dsimp only
    rw [← hqty, fillOrder_nodes]
  -- Only the two front levels can have become empty.
  have hbuy : ∀ l ∈ (ob₂.levels .buy).tail, ob₂.queueAt L₂ .buy l.price ≠ [] := by
    obtain ⟨lvl', -, hlvl'⟩ := h₁.front
    rw [h₂.other .buy (by decide), hlvl', hbl]
    intro l hlm
    have hne := h.nonempty .buy l (by rw [hbl]; exact mem_cons_of_mem _ hlm)
    exact h₂.tail_nonempty h₁.rep hal₁ haq₁ (fun he => by cases he)
      (h₁.tail_nonempty h.toRepW hbl hb (fun _ => hlm) hne)
  have hsell : ∀ l ∈ (ob₂.levels .sell).tail, ob₂.queueAt L₂ .sell l.price ≠ [] := by
    obtain ⟨lvl', -, hlvl'⟩ := h₂.front
    rw [hlvl', hal₁]
    intro l hlm
    have hne := h.nonempty .sell l (by rw [hal]; exact mem_cons_of_mem _ hlm)
    exact h₂.tail_nonempty h₁.rep hal₁ haq₁ (fun _ => hlm)
      (h₁.tail_nonempty h.toRepW hbl hb (fun he => by cases he) hne)
  obtain ⟨bids, heq₃, h₃, hne₃⟩ := h₂.rep.eraseFront hbuy
  obtain ⟨asks, heq₄, h₄, hne₄⟩ := h₃.eraseFront (s := .sell) (by
    rw [levels_setLevels_of_ne _ _ (by decide), queueAt_setLevels]
    exact hsell)
  rw [heq, heq₃, heq₄]
  exact ⟨L₂, F₂, {
    rep := {
      toRepW := h₄
      nonempty := by
        intro t l hlm
        rw [queueAt_setLevels]
        cases t with
        | buy =>
          rw [levels_setLevels_of_ne _ _ (by decide), levels_setLevels_self] at hlm
          rw [queueAt_setLevels]
          exact hne₃ l hlm
        | sell =>
          rw [levels_setLevels_self] at hlm
          exact hne₄ l hlm }
    sublist := h₂.sublist.trans h₁.sublist
    val := fun m hm => by
      rw [setLevels_nodes, setLevels_nodes, h₂.val m hm, h₁.val m (h₂.subset hm)]
    orderCount := by rw [setLevels_orderCount, setLevels_orderCount, h₂.orderCount, h₁.orderCount]
    orders := by
      intro r
      rw [setLevels_orders, setLevels_orders, h₂.orders, h₁.orders, hva₁, ha₁]
      by_cases hra : r = (ob.nodes a).val.getD 0
      · subst hra
        rw [update_self, if_pos (.inr rfl)]; rfl
      · rw [update_of_ne hra]
        by_cases hrb : r = (ob.nodes b).val.getD 0
        · subst hrb
          rw [update_self, if_pos (.inl rfl)]; rfl
        · rw [update_of_ne hrb, if_neg (not_or.2 ⟨hrb, hra⟩)]
    map := by
      rw [setLevels_orderOf, setLevels_orderOf, h₂.map_orderOf h₁.rep haL₁,
        h₁.map_orderOf h.toRepW hbL, ha₁] }⟩

/-! ## The matching loop -/

/-- What a run of trades `ts` did to the objects of the live nodes: each has `executed ts` of its
id less, and no other object changed. -/
structure Exec (ob : Orderbook) (L : List Nat) (ts : Trades) (ob' : Orderbook)
    (L' : List Nat) : Prop where
  sublist : L'.Sublist L
  val : ∀ m ∈ L', (ob'.nodes m).val = (ob.nodes m).val
  orderCount : ob'.orderCount = ob.orderCount
  object : ∀ m ∈ L, ob'.orders ((ob.nodes m).val.getD 0) =
    (ob.orderOf m).less (executed ts (ob.orderOf m).orderId)
  bound : ∀ m ∈ L, executed ts (ob.orderOf m).orderId ≤ (ob.orderOf m).remainingQuantity
  frame : ∀ r, (∀ m ∈ L, (ob.nodes m).val.getD 0 ≠ r) → ob'.orders r = ob.orders r
  parties : ∀ t ∈ ts, (∃ b ∈ L, (ob.orderOf b).side = .buy ∧
      t.bidTrade.orderId = (ob.orderOf b).orderId ∧ t.bidTrade.price = (ob.orderOf b).price) ∧
    ∃ a ∈ L, (ob.orderOf a).side = .sell ∧
      t.askTrade.orderId = (ob.orderOf a).orderId ∧ t.askTrade.price = (ob.orderOf a).price

theorem Exec.refl (ob : Orderbook) (L : List Nat) : Exec ob L [] ob L where
  sublist := Sublist.refl _
  val := fun _ _ => rfl
  orderCount := rfl
  object := fun _ _ => rfl
  bound := fun _ _ => Nat.zero_le _
  frame := fun _ _ => rfl
  parties := nofun

theorem Exec.orderOf {ts : Trades} (h : Exec ob L ts ob' L') (hm : m ∈ L') :
    ob'.orderOf m = (ob.orderOf m).less (executed ts (ob.orderOf m).orderId) := by
  rw [Orderbook.orderOf, h.val m hm]
  exact h.object m (h.sublist.subset hm)

theorem less_less (p q : Nat) : (o.less p).less q = o.less (p + q) := by
  simp [Order.less, Nat.sub_sub]

theorem Exec.trans {ts us : Trades} {ob₁ : Orderbook} {L₁ : List Nat} (hrep : RepW ob L F)
    (h : Exec ob L ts ob₁ L₁) (h' : Exec ob₁ L₁ us ob' L') : Exec ob L (ts ++ us) ob' L' := by
  have hsub := h.sublist.subset
  have hord : ∀ m ∈ L₁, ob₁.orderOf m = _ := fun m hm => h.orderOf hm
  -- A node that left takes no part in the later trades.
  have hgone : ∀ m ∈ L, m ∉ L₁ → executed us (ob.orderOf m).orderId = 0 := by
    intro m hm hm₁
    refine executed_eq_zero fun t ht => ?_
    obtain ⟨⟨b, hb, -, hbid, -⟩, a, ha, -, haid, -⟩ := h'.parties t ht
    rw [hbid, haid, hord b hb, hord a ha]
    exact ⟨fun he => hm₁ (hrep.id_inj (hsub hb) hm he ▸ hb),
      fun he => hm₁ (hrep.id_inj (hsub ha) hm he ▸ ha)⟩
  exact {
    sublist := h'.sublist.trans h.sublist
    val := fun m hm => by rw [h'.val m hm, h.val m (h'.sublist.subset hm)]
    orderCount := by rw [h'.orderCount, h.orderCount]
    object := by
      intro m hm
      rw [executed_append]
      by_cases hm₁ : m ∈ L₁
      · have hobj := h'.object m hm₁
        rw [h.val m hm₁, hord m hm₁, less_less, Order.less_orderId] at hobj
        exact hobj
      · rw [hgone m hm hm₁, Nat.add_zero, ← h.object m hm]
        refine h'.frame _ fun k hk => ?_
        rw [h.val k hk]
        exact hrep.ptr_ne (hsub hk) hm fun he => hm₁ (he ▸ hk)
    bound := by
      intro m hm
      rw [executed_append]
      have hbound := h.bound m hm
      by_cases hm₁ : m ∈ L₁
      · have hbound' := h'.bound m hm₁
        rw [hord m hm₁, Order.less_orderId, Order.less_remainingQuantity] at hbound'
        omega
      · rw [hgone m hm hm₁]
        exact hbound
    frame := fun r hr => by
      rw [h'.frame r fun m hm => by rw [h.val m hm]; exact hr m (hsub hm), h.frame r hr]
    parties := by
      intro t ht
      rcases mem_append.1 ht with ht | ht
      · exact h.parties t ht
      · obtain ⟨⟨b, hb, hbs, hbid, hbp⟩, a, ha, has, haid, hap⟩ := h'.parties t ht
        rw [hord b hb] at hbs hbid hbp
        rw [hord a ha] at has haid hap
        exact ⟨⟨b, hsub hb, hbs, hbid, hbp⟩, a, hsub ha, has, haid, hap⟩ }

theorem Traded.exec {b a : Nat} (hrep : RepW ob L F) (h : Traded ob L b a ob' L' F') (hb : b ∈ L)
    (hbs : (ob.orderOf b).side = .buy) (ha : a ∈ L) (has : (ob.orderOf a).side = .sell) :
    Exec ob L [tradeOf (ob.orderOf b) (ob.orderOf a)] ob' L' := by
  have hab : a ≠ b := fun he => by rw [he, hbs] at has; cases has
  set qty := min (ob.orderOf b).remainingQuantity (ob.orderOf a).remainingQuantity
  have hexec : ∀ m ∈ L, executed [tradeOf (ob.orderOf b) (ob.orderOf a)] (ob.orderOf m).orderId =
      if m = b ∨ m = a then qty else 0 := by
    intro m hm
    have hidb : (ob.orderOf b).orderId = (ob.orderOf m).orderId ↔ m = b :=
      ⟨fun he => hrep.id_inj hm hb he.symm, fun he => by rw [he]⟩
    have hida : (ob.orderOf a).orderId = (ob.orderOf m).orderId ↔ m = a :=
      ⟨fun he => hrep.id_inj hm ha he.symm, fun he => by rw [he]⟩
    rw [executed_cons, executed_nil]
    show ((if (ob.orderOf b).orderId = (ob.orderOf m).orderId then qty else 0) +
      if (ob.orderOf a).orderId = (ob.orderOf m).orderId then qty else 0) + 0 = _
    simp only [hidb, hida]
    by_cases hmb : m = b
    · simp [hmb, hab.symm]
    · simp [hmb]
  exact {
    sublist := h.sublist
    val := h.val
    orderCount := h.orderCount
    object := by
      intro m hm
      rw [h.orders, hexec m hm]
      by_cases hmab : m = b ∨ m = a
      · rw [if_pos hmab, if_pos (by rcases hmab with rfl | rfl <;> simp)]; rfl
      · obtain ⟨hmb, hma⟩ := not_or.1 hmab
        rw [if_neg hmab, if_neg (not_or.2 ⟨hrep.ptr_ne hm hb hmb, hrep.ptr_ne hm ha hma⟩)]
        rfl
    bound := by
      intro m hm
      rw [hexec m hm]
      split_ifs with hmab
      · rcases hmab with rfl | rfl
        · exact Nat.min_le_left _ _
        · exact Nat.min_le_right _ _
      · exact Nat.zero_le _
    frame := fun r hr => by
      rw [h.orders, if_neg (not_or.2 ⟨fun he => hr b hb he.symm, fun he => hr a ha he.symm⟩)]
    parties := by
      intro t ht
      rw [mem_singleton.1 ht]
      exact ⟨⟨b, hb, hbs, rfl, rfl⟩, a, ha, has, rfl, rfl⟩ }

/-- A live order's id is in the map. -/
theorem RepW.lookup_orderId (h : RepW ob L F) (hn : n ∈ L) :
    ob.orderMap.lookup (ob.orderOf n).orderId = some n :=
  (h.map _ n).2 ⟨hn, rfl⟩

/-- The result `r` of an operation on the pointer book is the result `r'` of an operation on the
arrival list. -/
structure Refined (ob : Orderbook) (L : List Nat) (r : Trades × Orderbook)
    (r' : Trades × List Order) (L' F' : List Nat) : Prop where
  rep : Rep r.2 L' F'
  exec : Exec ob L r.1 r.2 L'
  trades : r.1 = r'.1
  map : L'.map r.2.orderOf = r'.2

/-- One iteration of the loop is one step on the arrival list. -/
theorem Rep.matchStep (h : Rep ob L F) :
    (ob.matchStep = none ∧ Arrival.matchStep (L.map ob.orderOf) = none) ∨
    ∃ t ob' L' F', ob.matchStep = some ([t], ob') ∧ Rep ob' L' F' ∧ Exec ob L [t] ob' L' ∧
      Arrival.matchStep (L.map ob.orderOf) = some (t, L'.map ob'.orderOf) := by
  have hbuy : ob.bidLevels = ob.levels .buy := rfl
  have hsell : ob.askLevels = ob.levels .sell := rfl
  rw [Orderbook.matchStep, Arrival.matchStep, hbuy, hsell]
  cases hbl : ob.levels .buy with
  | nil => exact .inl ⟨rfl, by rw [h.best_eq_none hbl]⟩
  | cons bidLvl bidRest =>
    cases hal : ob.levels .sell with
    | nil =>
      refine .inl ⟨rfl, ?_⟩
      rw [h.best_eq_none hal]
      split <;> trivial
    | cons askLvl askRest =>
      obtain ⟨b, hbh, hb, hbbest⟩ := h.front hbl
      obtain ⟨a, hah, ha, habest⟩ := h.front hal
      obtain ⟨hbL, hbs, hbp⟩ := mem_queueAt.1 hb
      obtain ⟨haL, has, hap⟩ := mem_queueAt.1 ha
      rw [hbbest, habest]
      dsimp only
      rw [hbp, hap]
      split_ifs with hlt
      · exact .inl ⟨rfl, rfl⟩
      · rw [hbh, hah]
        dsimp only
        rw [h.lookup_orderId hbL, h.lookup_orderId haL]
        obtain ⟨htrade, L', F', htraded⟩ := h.trade hbl hal hb ha
        refine .inr ⟨tradeOf (ob.orderOf b) (ob.orderOf a), (ob.tradeFront b a).2, L', F', ?_,
          htraded.rep, htraded.exec h.toRepW hbL hbs haL has, ?_⟩
        · rw [← htrade]; rfl
        · rw [htraded.map]

theorem Rep.matchLoop (h : Rep ob L F) (fuel : Nat) :
    ∃ L' F', Refined ob L (matchLoop fuel ob) (Arrival.matchLoop fuel (L.map ob.orderOf))
      L' F' := by
  induction fuel generalizing ob L F with
  | zero => exact ⟨L, F, h, Exec.refl ob L, rfl, rfl⟩
  | succ fuel ih =>
    rcases h.matchStep with ⟨hstep, hstep'⟩ | ⟨t, ob₁, L₁, F₁, hstep, h₁, hexec, hstep'⟩
    · rw [matchLoop, hstep, matchLoop_of_none hstep']
      exact ⟨L, F, h, Exec.refl ob L, rfl, rfl⟩
    · obtain ⟨L', F', hrest⟩ := ih h₁
      rw [matchLoop, hstep, matchLoop_of_some hstep']
      refine ⟨L', F', hrest.rep, hexec.trans h.toRepW hrest.exec, ?_, hrest.map⟩
      show [t] ++ (matchLoop fuel ob₁).1 = _
      rw [hrest.trades]
      rfl

/-- There are at most as many live nodes as allocated ones. -/
theorem RepW.length_le (h : RepW ob L F) : L.length ≤ ob.nodeCount := by
  have hsub : L ⊆ range ob.nodeCount := fun n hn =>
    mem_range.2 ((h.alloc n).1 (mem_append_left _ hn))
  have := (h.nodup_live.subperm hsub).length_le
  rwa [length_range] at this

end TrueTest.Orderbook
