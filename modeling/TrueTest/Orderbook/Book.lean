import Mathlib.Data.List.AList
import TrueTest.Util.IntrusiveList

/-!
# The order book

`orderbook.h` and `orderbook.cpp`, pointer by pointer. A book keeps

* the order objects its pool handed out (`orders`); a `shared_ptr<order>` is an address in it, so
  a holder of the pointer sees every later fill of the object;
* the queue nodes, allocated in blocks of `nodeBlockSize` and threaded onto a free list;
* two vectors of price levels, bids descending and asks ascending, each level the end pointers of
  an intrusive queue of nodes and a running total;
* the map from order ids to nodes.

Quantities are natural numbers: the code never lets an order's own remaining quantity wrap. The
level totals are `UInt64`, because sums of quantities do wrap in the source. Prices are the raw
`int64_t` of `Price`, which the book only compares.

The `while` loops take fuel. Every iteration of the matching loop unlinks a node, so the number
of allocated nodes is enough; `TrueTest.Orderbook.Simulation` proves that the loops stop before
the fuel does.
-/

namespace TrueTest

open IntrusiveList Function

inductive ObOrderType
  | goodTillCancel
  | fillOrKill
  | immediateOrCancel
deriving DecidableEq, Repr

inductive Side
  | buy
  | sell
deriving DecidableEq, Repr

/-- The other side of the book. -/
def Side.contra : Side → Side
  | .buy => .sell
  | .sell => .buy

/-! ## Orders and trades -/

structure Order where
  orderType : ObOrderType
  orderId : Nat
  side : Side
  price : Int
  initialQuantity : Nat
  remainingQuantity : Nat
deriving DecidableEq, Repr

instance : Inhabited Order := ⟨⟨.goodTillCancel, 0, .buy, 0, 0, 0⟩⟩

namespace Order

/-- The constructor: nothing is filled yet. -/
def new (type : ObOrderType) (id : Nat) (s : Side) (price : Int) (qty : Nat) : Order :=
  ⟨type, id, s, price, qty, qty⟩

def isFilled (o : Order) : Bool := o.remainingQuantity = 0

/-- The order with `qty` less remaining. -/
def less (o : Order) (qty : Nat) : Order :=
  { o with remainingQuantity := o.remainingQuantity - qty }

/-- `order::fill`; filling past the remaining quantity throws. -/
def fill (o : Order) (qty : Nat) : Except String Order :=
  if o.remainingQuantity < qty then
    .error s!"Order ({o.orderId}) cannot be filled for more than its remaining quantity"
  else .ok (o.less qty)

section

variable (o : Order) (qty : Nat)

@[simp] theorem less_orderId : (o.less qty).orderId = o.orderId := rfl
@[simp] theorem less_remainingQuantity :
    (o.less qty).remainingQuantity = o.remainingQuantity - qty := rfl

end

theorem isFilled_iff {o : Order} : o.isFilled = true ↔ o.remainingQuantity = 0 :=
  decide_eq_true_iff

theorem isFilled_eq_false_iff {o : Order} : o.isFilled = false ↔ 0 < o.remainingQuantity := by
  rw [Nat.pos_iff_ne_zero]
  exact decide_eq_false_iff_not

end Order

structure OrderModify where
  orderId : Nat
  side : Side
  price : Int
  quantity : Nat

structure TradeInfo where
  orderId : Nat
  price : Int
  quantity : Nat
deriving DecidableEq, Repr

structure Trade where
  bidTrade : TradeInfo
  askTrade : TradeInfo
deriving DecidableEq, Repr

abbrev Trades := List Trade

/-- The process-wide id counter, a 64-bit atomic. -/
structure OrderIdGenerator where
  counter : Nat

def OrderIdGenerator.next (g : OrderIdGenerator) : Nat × OrderIdGenerator :=
  (g.counter, ⟨(g.counter + 1) % 2 ^ 64⟩)

/-! ## Nodes and levels -/

/-- The `order_node`s, by address: each holds an order pointer and two links. -/
abbrev NodeHeap := Heap Nat (Option Nat)

structure PriceLevel extends Ends Nat where
  price : Int
  totalQty : UInt64
deriving DecidableEq

namespace PriceLevel

/-- A default-constructed level at a price. -/
def new (price : Int) : PriceLevel := ⟨⟨none, none⟩, price, 0⟩

def empty (l : PriceLevel) : Bool := l.head.isNone

/-- `price_level::append`, for a node whose order has `remaining` left. -/
def append (l : PriceLevel) (nodes : NodeHeap) (n : Nat)
    (remaining : Nat) : NodeHeap × PriceLevel :=
  let (nodes, ends) := pushBack nodes l.toEnds n
  (nodes, { l with toEnds := ends, totalQty := l.totalQty + UInt64.ofNat remaining })

/-- `price_level::remove`, for a node whose order has `remaining` left. -/
def remove (l : PriceLevel) (nodes : NodeHeap) (n : Nat)
    (remaining : Nat) : NodeHeap × PriceLevel :=
  let (nodes, ends) := unlink nodes l.toEnds n
  (nodes, { l with toEnds := ends, totalQty := l.totalQty - UInt64.ofNat remaining })

end PriceLevel

@[irreducible] def nodeBlockSize : Nat := 4096

/-- The price order of a side's level vector: bids descend, asks ascend. -/
def Side.before : Side → Int → Int → Prop
  | .buy, p, q => q < p
  | .sell, p, q => p < q

instance (s : Side) (p q : Int) : Decidable (s.before p q) := by
  cases s <;> unfold Side.before <;> infer_instance

/-- Whether an order of side `s` at price `p` trades with a contra price `q`. -/
def Side.crosses : Side → Int → Int → Prop
  | .buy, p, q => q ≤ p
  | .sell, p, q => p ≤ q

instance (s : Side) (p q : Int) : Decidable (s.crosses p q) := by
  cases s <;> unfold Side.crosses <;> infer_instance

namespace Side

variable {s : Side} {p q r : Int}

theorem before_irrefl : ¬ s.before p p := by
  cases s <;> exact lt_irrefl _

theorem before_ne (h : s.before p q) : p ≠ q := by
  rintro rfl
  exact before_irrefl h

theorem before_trans (hpq : s.before p q) (hqr : s.before q r) : s.before p r := by
  cases s <;> simp only [before] at * <;> omega

theorem before_of_not (h : ¬ s.before p q) (hne : p ≠ q) : s.before q p := by
  cases s <;> simp only [before] at * <;> omega

theorem before_of_not_of_before (hqp : ¬ s.before q p) (hqr : s.before q r) : s.before p r := by
  cases s <;> simp only [before] at * <;> omega

/-- A price that crosses one contra price crosses every better one. -/
theorem crosses_of_not_before (h : ¬ s.contra.before q r) (hc : s.crosses p q) : s.crosses p r := by
  cases s <;> simp only [before, crosses, contra] at * <;> omega

theorem contra_ne (s : Side) : s.contra ≠ s := by
  cases s <;> exact noConfusion

end Side

structure Orderbook where
  /-- The order objects, by address. -/
  orders : Nat → Order
  /-- Addresses from here on are unused. -/
  orderCount : Nat
  nodes : NodeHeap
  /-- How many blocks of nodes have been allocated. -/
  nodeBlocks : Nat
  freeNodes : Option Nat
  bidLevels : List PriceLevel
  askLevels : List PriceLevel
  orderMap : AList fun _ : Nat => Nat

namespace Orderbook

/-- A default-constructed book. -/
def init : Orderbook where
  orders := fun _ => default
  orderCount := 0
  nodes := fun _ => ⟨none, none, none⟩
  nodeBlocks := 0
  freeNodes := none
  bidLevels := []
  askLevels := []
  orderMap := ∅

variable (ob : Orderbook)

def nodeCount : Nat := ob.nodeBlocks * nodeBlockSize

/-- `side == side::buy ? bid_levels_ : ask_levels_`. -/
def levels : Side → List PriceLevel
  | .buy => ob.bidLevels
  | .sell => ob.askLevels

def setLevels (s : Side) (ls : List PriceLevel) : Orderbook :=
  match s with
  | .buy => { ob with bidLevels := ls }
  | .sell => { ob with askLevels := ls }

/-- `*n->order`. -/
def orderOf (n : Nat) : Order := ob.orders ((ob.nodes n).val.getD 0)

section Projections

variable (ob : Orderbook) (s t : Side) (ls ls' : List PriceLevel) (n : Nat) (id : Nat)

@[simp] theorem levels_setLevels_self : (ob.setLevels s ls).levels s = ls := by
  cases s <;> rfl

theorem levels_setLevels_of_ne {s t : Side} (h : t ≠ s) :
    (ob.setLevels s ls).levels t = ob.levels t := by
  cases s <;> cases t <;> first | rfl | exact absurd rfl h

@[simp] theorem setLevels_levels : ob.setLevels s (ob.levels s) = ob := by
  cases s <;> rfl

@[simp] theorem setLevels_orders : (ob.setLevels s ls).orders = ob.orders := by cases s <;> rfl
@[simp] theorem setLevels_orderCount : (ob.setLevels s ls).orderCount = ob.orderCount := by
  cases s <;> rfl
@[simp] theorem setLevels_nodes : (ob.setLevels s ls).nodes = ob.nodes := by cases s <;> rfl
@[simp] theorem setLevels_nodeBlocks : (ob.setLevels s ls).nodeBlocks = ob.nodeBlocks := by
  cases s <;> rfl
@[simp] theorem setLevels_nodeCount : (ob.setLevels s ls).nodeCount = ob.nodeCount := by
  cases s <;> rfl
@[simp] theorem setLevels_freeNodes : (ob.setLevels s ls).freeNodes = ob.freeNodes := by
  cases s <;> rfl
@[simp] theorem setLevels_orderMap : (ob.setLevels s ls).orderMap = ob.orderMap := by
  cases s <;> rfl
@[simp] theorem setLevels_orderOf : (ob.setLevels s ls).orderOf = ob.orderOf := by
  cases s <;> rfl

end Projections

/-- `create_order` and `to_order_pointer`: a new object. -/
def createOrder (type : ObOrderType) (id : Nat) (s : Side) (price : Int)
    (qty : Nat) : Nat × Orderbook :=
  (ob.orderCount,
    { ob with
      orders := update ob.orders ob.orderCount (Order.new type id s price qty)
      orderCount := ob.orderCount + 1 })

/-! ## The node pool -/

/-- Thread the nodes `base, …, base + i - 1` of a new block onto the free list. -/
def linkBlock (base : Nat) : Nat → NodeHeap × Option Nat → NodeHeap × Option Nat
  | 0, acc => acc
  | i + 1, acc =>
    let acc := linkBlock base i acc
    (update acc.1 (base + i) ⟨none, acc.2, none⟩, some (base + i))

/-- The refill of `alloc_node`. -/
def growNodes : Orderbook :=
  let acc := linkBlock ob.nodeCount nodeBlockSize (ob.nodes, ob.freeNodes)
  { ob with nodes := acc.1, freeNodes := acc.2, nodeBlocks := ob.nodeBlocks + 1 }

def allocNode : Nat × Orderbook :=
  let ob := if ob.freeNodes.isNone then ob.growNodes else ob
  let n := ob.freeNodes.getD 0
  (n, { ob with
    freeNodes := (ob.nodes n).next
    nodes := update ob.nodes n ⟨none, none, none⟩ })

def freeNode (n : Nat) : Orderbook :=
  { ob with
    nodes := update ob.nodes n ⟨none, ob.freeNodes, none⟩
    freeNodes := some n }

/-! ## Levels -/

/-- `find_or_insert_level`: the level at a price, between the levels before and after it. -/
def findOrInsertLevel (levels : List PriceLevel) (price : Int) (s : Side) :
    List PriceLevel × PriceLevel × List PriceLevel :=
  let pre := levels.takeWhile fun l => s.before l.price price
  match levels.dropWhile fun l => s.before l.price price with
  | [] => (pre, PriceLevel.new price, [])
  | l :: post => if l.price = price then (pre, l, post) else (pre, PriceLevel.new price, l :: post)

/-- The first level at a price, between the levels before and after it. -/
def splitLevel (levels : List PriceLevel) (price : Int) :
    Option (List PriceLevel × PriceLevel × List PriceLevel) :=
  match levels.dropWhile fun l => l.price ≠ price with
  | [] => none
  | l :: post => some (levels.takeWhile fun l => l.price ≠ price, l, post)

def removeLevelIfEmpty (s : Side) (price : Int) : Orderbook :=
  ob.setLevels s ((ob.levels s).eraseP fun l => l.price = price && l.empty)

/-- `levels.erase(levels.begin())` when the front level is empty. -/
def eraseFrontIfEmpty (s : Side) : Orderbook :=
  match ob.levels s with
  | [] => ob
  | l :: rest => if l.empty then ob.setLevels s rest else ob

def canMatch (s : Side) (price : Int) : Bool :=
  match ob.levels s.contra with
  | [] => false
  | l :: _ => s.crosses price l.price

/-! ## Resting and removing one order -/

/-- A node for the order at `p`, appended to its level and entered in the map. -/
def restOrder (p : Nat) : Orderbook :=
  let (n, ob) := ob.allocNode
  let ob := { ob with nodes := update ob.nodes n { ob.nodes n with val := some p } }
  let o := ob.orders p
  let (pre, lvl, post) := findOrInsertLevel (ob.levels o.side) o.price o.side
  let (nodes, lvl) := lvl.append ob.nodes n o.remainingQuantity
  let ob := { ob with nodes := nodes }.setLevels o.side (pre ++ lvl :: post)
  { ob with orderMap := ob.orderMap.insert o.orderId n }

/-- `lvl.remove(n)` on one level of a side. -/
def removeFrom (s : Side) (pre : List PriceLevel) (lvl : PriceLevel)
    (post : List PriceLevel) (n : Nat) : Orderbook :=
  let (nodes, lvl) := lvl.remove ob.nodes n (ob.orderOf n).remainingQuantity
  { ob with nodes := nodes }.setLevels s (pre ++ lvl :: post)

def eraseId (id : Nat) : Orderbook :=
  { ob with orderMap := ob.orderMap.erase id }

/-- `lvl.remove(n); order_map_.erase(id); free_node(n)`. -/
def dropNode (s : Side) (pre : List PriceLevel) (lvl : PriceLevel)
    (post : List PriceLevel) (n : Nat) : Orderbook :=
  ((ob.removeFrom s pre lvl post n).eraseId (ob.orderOf n).orderId).freeNode n

def cancelOrder (id : Nat) : Orderbook :=
  match ob.orderMap.lookup id with
  | none => ob
  | some n =>
    let o := ob.orderOf n
    let ob := match splitLevel (ob.levels o.side) o.price with
      | some (pre, lvl, post) => ob.removeFrom o.side pre lvl post n
      | none => ob
    ((ob.eraseId id).freeNode n).removeLevelIfEmpty o.side o.price

/-! ## Matching -/

/-- The object at `p` after a fill; a throw leaves the object as it was. -/
def fillOrder (p : Nat) (qty : Nat) : Orderbook :=
  match (ob.orders p).fill qty with
  | .ok o => { ob with orders := update ob.orders p o }
  | .error _ => ob

/-- After a trade, one side of it: the front level's total falls by the traded quantity, and a
filled order leaves. -/
def settleFront (s : Side) (n : Nat) (qty : Nat) : Orderbook :=
  match ob.levels s with
  | [] => ob
  | lvl :: rest =>
    let lvl := { lvl with totalQty := lvl.totalQty - UInt64.ofNat qty }
    if (ob.orderOf n).isFilled then ob.dropNode s [] lvl rest n
    else ob.setLevels s (lvl :: rest)

/-- A queued node whose order is not in the map: unlinked and freed, its level erased if that
empties it. -/
def dropStale (s : Side) (lvl : PriceLevel) (rest : List PriceLevel) (n : Nat) : Orderbook :=
  ((ob.removeFrom s [] lvl rest n).freeNode n).eraseFrontIfEmpty s

/-- The trade between the two front nodes. -/
def tradeFront (bidNode askNode : Nat) : Trade × Orderbook :=
  let bid := ob.orderOf bidNode
  let ask := ob.orderOf askNode
  let qty := min bid.remainingQuantity ask.remainingQuantity
  let ob := ob.fillOrder ((ob.nodes bidNode).val.getD 0) qty
  let ob := ob.fillOrder ((ob.nodes askNode).val.getD 0) qty
  let ob := ob.settleFront .buy bidNode qty
  let ob := ob.settleFront .sell askNode qty
  (⟨⟨bid.orderId, bid.price, qty⟩, ⟨ask.orderId, ask.price, qty⟩⟩,
    (ob.eraseFrontIfEmpty .buy).eraseFrontIfEmpty .sell)

/-- One iteration of the matching loop, or `none` when the loop ends. -/
def matchStep : Option (Trades × Orderbook) :=
  match ob.bidLevels, ob.askLevels with
  | bidLvl :: bidRest, askLvl :: askRest =>
    if bidLvl.price < askLvl.price then none
    else match bidLvl.head, askLvl.head with
      | some bidNode, some askNode =>
        if (ob.orderMap.lookup (ob.orderOf bidNode).orderId).isNone then
          some ([], ob.dropStale .buy bidLvl bidRest bidNode)
        else if (ob.orderMap.lookup (ob.orderOf askNode).orderId).isNone then
          some ([], ob.dropStale .sell askLvl askRest askNode)
        else
          let (trade, ob) := ob.tradeFront bidNode askNode
          some ([trade], ob)
      | _, _ => none
  | _, _ => none

def matchLoop : Nat → Orderbook → Trades × Orderbook
  | 0, ob => ([], ob)
  | fuel + 1, ob =>
    match ob.matchStep with
    | none => ([], ob)
    | some (trades, ob) =>
      let (rest, ob) := matchLoop fuel ob
      (trades ++ rest, ob)

/-- The `cancel_aggressive` lambda of `match_orders`, on one side. -/
def cancelAggressive (s : Side) : Nat → Orderbook → Orderbook
  | 0, ob => ob
  | fuel + 1, ob =>
    match ob.levels s with
    | [] => ob
    | lvl :: rest =>
      match lvl.head with
      | none => cancelAggressive s fuel (ob.setLevels s rest)
      | some n =>
        let o := ob.orderOf n
        if (ob.orderMap.lookup o.orderId).isNone then
          cancelAggressive s fuel (ob.dropStale s lvl rest n)
        else if o.orderType = .fillOrKill ∨ o.orderType = .immediateOrCancel then
          ob.cancelOrder o.orderId
        else ob

def matchOrders : Trades × Orderbook :=
  let (trades, ob) := matchLoop (ob.nodeCount + 1) ob
  let ob := cancelAggressive .buy (ob.nodeCount + ob.bidLevels.length + 1) ob
  let ob := cancelAggressive .sell (ob.nodeCount + ob.askLevels.length + 1) ob
  (trades, ob)

/-! ## The public operations -/

/-- What the contra levels that cross a limit hold, as `add_order` sums it. -/
def available (s : Side) (price : Int) : UInt64 :=
  (ob.levels s.contra).foldl
    (fun acc l => if s.crosses price l.price then acc + l.totalQty else acc) 0

def addOrder (p : Nat) : Trades × Orderbook :=
  let o := ob.orders p
  if (ob.orderMap.lookup o.orderId).isSome then ([], ob)
  else if o.orderType = .fillOrKill ∧
      (ob.canMatch o.side o.price = false ∨
        (ob.available o.side o.price).toNat < o.remainingQuantity) then ([], ob)
  else if o.orderType = .immediateOrCancel ∧ ob.canMatch o.side o.price = false then ([], ob)
  else (ob.restOrder p).matchOrders

def matchOrder (m : OrderModify) : Trades × Orderbook :=
  match ob.orderMap.lookup m.orderId with
  | none => ([], ob)
  | some n =>
    let existingType := (ob.orderOf n).orderType
    let ob := ob.cancelOrder m.orderId
    let (p, ob) := ob.createOrder existingType m.orderId m.side m.price m.quantity
    ob.addOrder p

def modifyOrder (id : Nat) (newPrice : Int) (newQty : Nat) : Bool × Orderbook :=
  match ob.orderMap.lookup id with
  | none => (false, ob)
  | some n =>
    let existing := ob.orderOf n
    let ob := ob.cancelOrder id
    let (p, ob) := ob.createOrder existing.orderType id existing.side newPrice newQty
    (true, ob.restOrder p)

def size : Nat := ob.orderMap.entries.length

/-- `get_order_infos`: price and total of the levels with a positive total. -/
def orderInfos (s : Side) : List (Int × UInt64) :=
  ((ob.levels s).filter fun l => 0 < l.totalQty).map fun l => (l.price, l.totalQty)

def clear : Orderbook :=
  let ob := (ob.orderMap.entries.map Sigma.snd).foldl freeNode ob
  { ob with orderMap := ∅, bidLevels := [], askLevels := [] }

/-- One side's loop of `apply_l2_snapshot`. -/
def seedLevels (s : Side) : List (Int × Nat) → Orderbook × OrderIdGenerator →
    Orderbook × OrderIdGenerator
  | [], acc => acc
  | (price, qty) :: levels, (ob, gen) =>
    if qty = 0 then seedLevels s levels (ob, gen)
    else
      let (id, gen) := gen.next
      let (p, ob) := ob.createOrder .goodTillCancel id s price qty
      seedLevels s levels (ob.restOrder p, gen)

def applyL2Snapshot (gen : OrderIdGenerator)
    (bids asks : List (Int × Nat)) : Orderbook × OrderIdGenerator :=
  seedLevels .sell asks (seedLevels .buy bids (ob.clear, gen))

/-- The `while (lvl.head)` loop of `apply_l2_update`. -/
def drainLevel (s : Side) (pre : List PriceLevel) (post : List PriceLevel) :
    Nat → PriceLevel → Orderbook → Orderbook
  | 0, _, ob => ob
  | fuel + 1, lvl, ob =>
    match lvl.head with
    | none => ob
    | some n =>
      let lvl' := (lvl.remove ob.nodes n (ob.orderOf n).remainingQuantity).2
      drainLevel s pre post fuel lvl' (ob.dropNode s pre lvl post n)

def applyL2Update (gen : OrderIdGenerator) (s : Side) (price : Int)
    (newQty : Nat) : Orderbook × OrderIdGenerator :=
  let ob := match splitLevel (ob.levels s) price with
    | some (pre, lvl, post) => drainLevel s pre post (ob.nodeCount + 1) lvl ob
    | none => ob
  let ob := ob.removeLevelIfEmpty s price
  if 0 < newQty then
    let (id, gen) := gen.next
    let (p, ob) := ob.createOrder .goodTillCancel id s price newQty
    (ob.restOrder p, gen)
  else (ob, gen)

end Orderbook

end TrueTest
