import TrueTest.Orderbook.Operations
import TrueTest.Util.Machine

/-!
# The book is well formed after every operation

The invariant that ties the four mutable structures of a book together, stated on what a reader
of the pointers sees: `queue` walks a level from its head, `freeList` walks the free nodes. It
holds in every state of every run of the book's operations, whatever orders, prices and quantities
are sent, as long as the ids that the level-two feeds mint are not live when they are minted.
-/

namespace TrueTest.Orderbook

open IntrusiveList Arrival List Machine

/-! ## What the pointers spell -/

/-- The nodes of a level, from its head on. -/
def queue (ob : Orderbook) (l : PriceLevel) : List Nat := walk ob.nodes ob.nodeCount l.head

/-- The nodes of the free list, from its top on. -/
def freeList (ob : Orderbook) : List Nat := walk ob.nodes ob.nodeCount ob.freeNodes

def queuedNodes (ob : Orderbook) : List Nat :=
  ob.bidLevels.flatMap ob.queue ++ ob.askLevels.flatMap ob.queue

/-- The book's structures agree. -/
structure WellFormed (ob : Orderbook) : Prop where
  bids_descending : ob.bidLevels.Pairwise fun a b => b.price < a.price
  asks_ascending : ob.askLevels.Pairwise fun a b => a.price < b.price
  no_empty_level : ∀ s, ∀ l ∈ ob.levels s, ob.queue l ≠ []
  /-- The links of a level, both ways, are those of its queue. -/
  linked : ∀ s, ∀ l ∈ ob.levels s, IsList ob.nodes l.toEnds (ob.queue l)
  /-- A queued order is on the side and at the price of its queue. -/
  home : ∀ s, ∀ l ∈ ob.levels s, ∀ n ∈ ob.queue l,
    (ob.orderOf n).side = s ∧ (ob.orderOf n).price = l.price
  /-- The map has the ids of the queued orders, and leads to their nodes. -/
  map : ∀ id n, ob.orderMap.lookup id = some n ↔
    n ∈ ob.queuedNodes ∧ (ob.orderOf n).orderId = id
  /-- No id is queued twice. -/
  ids_nodup : (ob.queuedNodes.map fun n => (ob.orderOf n).orderId).Nodup
  total : ∀ s, ∀ l ∈ ob.levels s, ob.qtySum (ob.queue l) < 2 ^ 64 →
    l.totalQty.toNat = ob.qtySum (ob.queue l)
  free : Stack ob.nodes ob.freeNodes ob.freeList
  /-- Every allocated node is in exactly one queue or once on the free list. -/
  nodes_nodup : (ob.queuedNodes ++ ob.freeList).Nodup
  nodes_mem : ∀ n, n ∈ ob.queuedNodes ++ ob.freeList ↔ n < ob.nodeCount

variable {ob : Orderbook} {L F P : List Nat} {s : Side} {os : List Order}

section

variable (h : RepW ob L F)
include h

theorem RepW.queue_eq {l : PriceLevel} (hl : l ∈ ob.levels s) :
    ob.queue l = ob.queueAt L s l.price :=
  (h.level s l hl).queue.walk_eq ((length_filter_le _ _).trans h.length_le)

theorem RepW.freeList_eq : ob.freeList = F := by
  refine h.stack.walk_eq ?_
  have hsub : F ⊆ range ob.nodeCount := fun n hn =>
    mem_range.2 ((h.alloc n).1 (mem_append_right _ hn))
  have hlen := (h.nodup_free.subperm hsub).length_le
  rwa [length_range] at hlen

theorem RepW.mem_flatMap_queue {n : Nat} :
    n ∈ (ob.levels s).flatMap ob.queue ↔ n ∈ L ∧ (ob.orderOf n).side = s := by
  rw [mem_flatMap]
  constructor
  · rintro ⟨l, hl, hn⟩
    rw [h.queue_eq hl] at hn
    obtain ⟨hnL, hns, -⟩ := mem_queueAt.1 hn
    exact ⟨hnL, hns⟩
  · rintro ⟨hnL, rfl⟩
    obtain ⟨l, hl, hlp⟩ := h.covered n hnL
    refine ⟨l, hl, ?_⟩
    rw [h.queue_eq hl]
    exact mem_queueAt.2 ⟨hnL, rfl, hlp.symm⟩

theorem RepW.nodup_flatMap_queue : ((ob.levels s).flatMap ob.queue).Nodup := by
  rw [nodup_flatMap]
  refine ⟨fun l hl => by rw [h.queue_eq hl]; exact h.nodup_queueAt _ _, ?_⟩
  -- Levels at different prices share no node.
  refine (h.sorted s).imp_of_mem fun {a b} ha hb hlt => ?_
  show Disjoint (ob.queue a) (ob.queue b)
  rw [h.queue_eq ha, h.queue_eq hb]
  intro n hna hnb
  exact Side.before_ne hlt ((mem_queueAt.1 hna).2.2.symm.trans (mem_queueAt.1 hnb).2.2)

/-- The queues together hold the live nodes. -/
theorem RepW.perm_queuedNodes : ob.queuedNodes.Perm L := by
  have hbids : ob.bidLevels.flatMap ob.queue = (ob.levels .buy).flatMap ob.queue := rfl
  have hasks : ob.askLevels.flatMap ob.queue = (ob.levels .sell).flatMap ob.queue := rfl
  rw [queuedNodes, hbids, hasks]
  refine (perm_ext_iff_of_nodup ?_ h.nodup_live).2 fun n => ?_
  · refine nodup_append.2 ⟨h.nodup_flatMap_queue, h.nodup_flatMap_queue, ?_⟩
    intro n hn m hm hnm
    subst hnm
    have hbuy := (h.mem_flatMap_queue.1 hn).2
    rw [(h.mem_flatMap_queue.1 hm).2] at hbuy
    cases hbuy
  · rw [mem_append, h.mem_flatMap_queue, h.mem_flatMap_queue, ← and_or_left]
    refine and_iff_left ?_
    cases (ob.orderOf n).side with
    | buy => exact .inl rfl
    | sell => exact .inr rfl

end

theorem Rep.wellFormed (h : Rep ob L F) : WellFormed ob := by
  have hperm := h.perm_queuedNodes
  have hfree := h.freeList_eq
  exact {
    bids_descending := h.sorted .buy
    asks_ascending := h.sorted .sell
    no_empty_level := fun s l hl => by rw [h.queue_eq hl]; exact h.nonempty s l hl
    linked := fun s l hl => by rw [h.queue_eq hl]; exact (h.level s l hl).queue
    home := fun s l hl n hn => by
      rw [h.queue_eq hl] at hn
      exact (mem_queueAt.1 hn).2
    map := fun id n => by rw [hperm.mem_iff]; exact h.map id n
    ids_nodup := by
      rw [(hperm.map _).nodup_iff]
      exact h.nodup_live.map_on fun m hm n hn he => h.id_inj hm hn he
    total := fun s l hl hlt => by
      rw [h.queue_eq hl] at hlt ⊢
      rw [(h.level s l hl).total, UInt64.toNat_ofNat', Nat.mod_eq_of_lt hlt]
    free := by rw [hfree]; exact h.stack
    nodes_nodup := by
      rw [hfree, (hperm.append_right F).nodup_iff]
      exact h.nodup
    nodes_mem := fun n => by
      rw [hfree, (hperm.append_right F).mem_iff]
      exact h.alloc n }

theorem Holds.wellFormed (h : Holds ob P) : WellFormed ob := by
  obtain ⟨L, F, hrep, -⟩ := h
  exact hrep.wellFormed

/-! ## Requests -/

/-- The order flow of a book. -/
inductive Request
  | add (type : ObOrderType) (id : Nat) (s : Side) (price : Int) (qty : Nat)
  | cancel (id : Nat)
  | matchOrder (m : OrderModify)
  | clear

/-- The order flow, and changing a resting order in place. -/
inductive Command
  | request (r : Request)
  | modify (id : Nat) (price : Int) (qty : Nat)

/-- One request, with the trades it returns. -/
def handle (ob : Orderbook) : Request → Trades × Orderbook
  | .add type id s price qty =>
    let (p, ob) := ob.createOrder type id s price qty
    ob.addOrder p
  | .cancel id => ([], ob.cancelOrder id)
  | .matchOrder m => ob.matchOrder m
  | .clear => ([], ob.clear)

def execute (ob : Orderbook) : Command → Trades × Orderbook
  | .request r => ob.handle r
  | .modify id price qty => ([], (ob.modifyOrder id price qty).2)

def handleArrival (os : List Order) : Request → Trades × List Order
  | .add type id s price qty => Arrival.add (Order.new type id s price qty) os
  | .cancel id => ([], Arrival.cancel id os)
  | .matchOrder m => Arrival.matchOrder m os
  | .clear => ([], [])

def executeArrival (os : List Order) : Command → Trades × List Order
  | .request r => handleArrival os r
  | .modify id price qty => ([], Arrival.modifyOrder id price qty os)

/-- The book is well formed and `os` are its orders in arrival order. -/
def Models (ob : Orderbook) (os : List Order) : Prop := ∃ P, Holds ob P ∧ P.map ob.orders = os

theorem models_init : Models init [] := ⟨[], holds_init, rfl⟩

theorem Models.handle (h : Models ob os) (r : Request) :
    (ob.handle r).1 = (handleArrival os r).1 ∧ Models (ob.handle r).2 (handleArrival os r).2 := by
  obtain ⟨P, h, rfl⟩ := h
  cases r with
  | add type id s price qty =>
    obtain ⟨P', heff, hres⟩ := (h.createOrder type id s price qty).addOrder (Nat.lt_succ_self _)
      h.orderCount_not_mem
    rw [createOrder_orders_self, h.map_createOrder] at hres
    exact ⟨congrArg Prod.fst hres, P', heff.holds, congrArg Prod.snd hres⟩
  | cancel id =>
    obtain ⟨P', heff, hmap⟩ := h.cancelOrder id
    exact ⟨rfl, P', heff.holds, hmap⟩
  | matchOrder m =>
    obtain ⟨P', h', hres⟩ := h.matchOrder m
    exact ⟨congrArg Prod.fst hres, P', h', congrArg Prod.snd hres⟩
  | clear => exact ⟨rfl, [], h.clear.holds, rfl⟩

/-- **The pointer book refines the arrival list**: every command returns the same trades and
leaves the same orders. -/
theorem Models.execute (h : Models ob os) (c : Command) :
    (ob.execute c).1 = (executeArrival os c).1 ∧
      Models (ob.execute c).2 (executeArrival os c).2 := by
  cases c with
  | request r => exact h.handle r
  | modify id price qty =>
    obtain ⟨P, h, rfl⟩ := h
    obtain ⟨P', h', hmap⟩ := h.modifyOrder id price qty
    exact ⟨rfl, P', h', hmap⟩

/-! ## Runs -/

/-- A book and the process-wide id counter. -/
structure State where
  book : Orderbook
  gen : OrderIdGenerator

/-- Everything that happens to a book; `drawId` is another party drawing from the id counter. -/
inductive Op
  | command (c : Command)
  | l2Snapshot (bids asks : List (Int × Nat))
  | l2Update (s : Side) (price : Int) (qty : Nat)
  | drawId

/-- One operation, with the trades it returns. -/
def step (st : State) : Op → Trades × State
  | .command c =>
    let (trades, ob) := st.book.execute c
    (trades, { st with book := ob })
  | .l2Snapshot bids asks =>
    let (ob, gen) := st.book.applyL2Snapshot st.gen bids asks
    ([], ⟨ob, gen⟩)
  | .l2Update s price qty =>
    let (ob, gen) := st.book.applyL2Update st.gen s price qty
    ([], ⟨ob, gen⟩)
  | .drawId => ([], { st with gen := st.gen.next.2 })

/-- No id that the operation mints is live when it is minted. A snapshot clears the book first, so
its ids have to differ from each other; an update empties its level first. -/
def MintsFresh (st : State) : Op → Prop
  | .l2Snapshot bids asks => IdsNodup (snapshotOrders st.gen bids asks)
  | .l2Update s price qty => 0 < qty → ∀ n ∈ st.book.queuedNodes,
      (st.book.orderOf n).orderId = st.gen.next.1 →
        (st.book.orderOf n).side = s ∧ (st.book.orderOf n).price = price
  | _ => True

/-- One operation keeps the book well formed. -/
theorem step_holds {st : State} {op : Op} (h : ∃ P, Holds st.book P) (hfresh : MintsFresh st op) :
    ∃ P, Holds (step st op).2.book P := by
  obtain ⟨P, h⟩ := h
  cases op with
  | command c =>
    obtain ⟨-, P', h', -⟩ := Models.execute ⟨P, h, rfl⟩ c
    exact ⟨P', h'⟩
  | l2Snapshot bids asks =>
    obtain ⟨P', h', -⟩ := h.applyL2Snapshot st.gen bids asks hfresh
    exact ⟨P', h'⟩
  | l2Update s price qty =>
    have hid :
        0 < qty → st.gen.next.1 ∉ (offLevel s price (P.map st.book.orders)).map Order.orderId := by
      intro hq hmem
      obtain ⟨L, F, hrep, rfl⟩ := h
      rw [map_orders_ptrOf] at hmem
      obtain ⟨o, ho, hid⟩ := mem_map.1 hmem
      obtain ⟨hoL, hoff⟩ := mem_filter.1 ho
      obtain ⟨n, hn, rfl⟩ := mem_map.1 hoL
      exact of_decide_eq_true hoff (hfresh hq n (hrep.perm_queuedNodes.mem_iff.2 hn) hid)
    obtain ⟨P', h', -⟩ := h.applyL2Update st.gen s price qty hid
    exact ⟨P', h'⟩
  | drawId => exact ⟨P, h⟩

/-- **Every state of every run of the book's operations is well formed.** -/
theorem wellFormed_of_run (gen : OrderIdGenerator) (ops : List Op)
    (hfresh : Along step MintsFresh ⟨init, gen⟩ ops) :
    ∀ st ∈ states step ⟨init, gen⟩ ops, WellFormed st.book := by
  intro st hst
  obtain ⟨P, h⟩ := invariant (fun _ _ => step_holds) ⟨[], holds_init⟩ hfresh st hst
  exact h.wellFormed

/-- A run with a partial fill, an immediate-or-cancel, both feeds and a modified order. -/
def exampleRun : List Op :=
  [.command (.request (.add .goodTillCancel 100 .buy 10 5)),
    .command (.request (.add .immediateOrCancel 101 .sell 9 7)),
    .l2Snapshot [(10, 5), (9, 0)] [(12, 4)],
    .l2Update .sell 12 7,
    .command (.modify 1 13 2)]

theorem wellFormed_of_exampleRun :
    Along step MintsFresh ⟨init, ⟨1⟩⟩ exampleRun ∧
      WellFormed (final step ⟨init, ⟨1⟩⟩ exampleRun).book := by
  have hfresh : Along step MintsFresh ⟨init, ⟨1⟩⟩ exampleRun := by
    refine ⟨trivial, trivial, ?_, ?_, trivial, trivial⟩
    · show (map Order.orderId _).Nodup
      decide +kernel
    · show 0 < 7 → ∀ n ∈ _, _
      decide +kernel
  exact ⟨hfresh, wellFormed_of_run ⟨1⟩ exampleRun hfresh _ (final_mem_states _ _)⟩

end TrueTest.Orderbook
