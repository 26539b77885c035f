import TrueTest.Core.Event
import TrueTest.Orderbook.Invariant
import TrueTest.Util.KeyedSum

/-!
# The local book adapter

`LocalBookAdapter` of `execution/execution_adapter.h`: paper execution against a simulated book
that the adapter shares with other parties. A good-till-cancel remainder is tracked in `resting`
by its order object, so that trades of later calls, delivered through `on_book_trades`, surface as
maker fills.

What the source reads from interfaces stands here as a parameter of the configuration (fees, fill
probability, impact) or as an input of the call (the random draw of the fill model, the sampled
cancel latency). The debug print and the receive-time stamps of a fill are left out. A conversion
of a `double` outside the range of `quantity` is undefined in the source; here it goes to zero or
past 2^64.
-/

namespace TrueTest

open Machine

/-- The fill model's interface. -/
structure FillModel where
  fadeRate : ℚ
  fillProbability : OrderSide → ℚ → ℚ

/-- The constructor arguments of an adapter. `feeModel` takes side, quantity, price and whether
the fill is a taker's; `impactModel` takes side, quantity and reference price. -/
structure LocalBookConfig where
  feeModel : Option (OrderSide → ℚ → ℚ → Bool → ℚ)
  fillModel : Option FillModel
  impactModel : Option (OrderSide → ℚ → ℚ → ℚ)
  marketAggression : ℚ
  qtyScale : ℚ
  hasLatencyModel : Bool
  walkedBookImpact : Bool
  qtyScale_pos : 0 < qtyScale

variable (cfg : LocalBookConfig)

namespace LocalBookConfig

def fadeRate : ℚ := (cfg.fillModel.map FillModel.fadeRate).getD 0

def commission (side : OrderSide) (qty price : ℚ) (isTaker : Bool) : ℚ :=
  match cfg.feeModel with
  | some fee => fee side qty price isTaker
  | none => 0

end LocalBookConfig

structure RestingInfo where
  /-- The live book object. -/
  bookOrder : Nat
  symbol : String
  side : OrderSide

/-- The adapter and the book it shares. -/
structure LocalBook where
  book : Orderbook
  pendingFills : List FillEvent
  midPrice : ℚ
  nextFillId : Nat
  l2Seeded : Bool
  resting : AList fun _ : Nat => RestingInfo
  pendingCancels : AList fun _ : Nat => Int
  currentTime : Int

variable (a : LocalBook)

namespace LocalBook

def init : LocalBook where
  book := Orderbook.init
  pendingFills := []
  midPrice := 0
  nextFillId := 1
  l2Seeded := false
  resting := ∅
  pendingCancels := ∅
  currentTime := 0

/-- `pending_fills_.emplace_back(…, next_fill_id_++)`. -/
def emit (f : FillEvent) : LocalBook :=
  { a with
    pendingFills := a.pendingFills ++ [{ f with fillId := a.nextFillId }]
    nextFillId := a.nextFillId + 1 }

/-- `resting_.erase(id)`. -/
def untrack (id : Nat) : LocalBook := { a with resting := a.resting.erase id }

section Projections

variable (f : FillEvent) (id : Nat)

@[simp] theorem emit_book : (a.emit f).book = a.book := rfl
@[simp] theorem emit_resting : (a.emit f).resting = a.resting := rfl
@[simp] theorem emit_pendingCancels : (a.emit f).pendingCancels = a.pendingCancels := rfl
@[simp] theorem emit_pendingFills : (a.emit f).pendingFills =
    a.pendingFills ++ [{ f with fillId := a.nextFillId }] := rfl
@[simp] theorem untrack_book : (a.untrack id).book = a.book := rfl
@[simp] theorem untrack_resting : (a.untrack id).resting = a.resting.erase id := rfl
@[simp] theorem untrack_pendingFills : (a.untrack id).pendingFills = a.pendingFills := rfl

end Projections

/-! ## Submitting -/

/-- The fill model's gate for limit orders: a draw above the fill probability drops the order. -/
def dropsLimit (o : OrderEvent) (draw : ℚ) : Bool :=
  match cfg.fillModel with
  | some model =>
    o.orderType = .limit ∧ 0 < a.midPrice ∧
      model.fillProbability o.side (|o.price - a.midPrice| / a.midPrice) < draw
  | none => false

def bookOrderType : TimeInForce → ObOrderType
  | .fok => .fillOrKill
  | .ioc => .immediateOrCancel
  | _ => .goodTillCancel

/-- The loop of `walked_book_vwap`: what is left to take, the cost and what was taken. -/
def walkLevels : List (Int × UInt64) → ℚ × ℚ × ℚ → ℚ × ℚ × ℚ
  | [], acc => acc
  | (price, qty) :: levels, (remaining, cost, consumed) =>
    if remaining ≤ 0 then (remaining, cost, consumed)
    else
      let take := min remaining (qty.toNat : ℚ)
      walkLevels levels (remaining - take, cost + take * priceToDouble price, consumed + take)

def walkedBookVwap (side : OrderSide) (qty : ℚ) : ℚ :=
  let (remaining, cost, consumed) :=
    walkLevels (a.book.orderInfos side.book.contra) (qty * cfg.qtyScale, 0, 0)
  if 0 < remaining ∨ consumed ≤ 0 then 0 else cost / consumed

/-- The price a market order is sized against. -/
def referencePrice (o : OrderEvent) : ℚ :=
  let mid := if 0 < a.midPrice then a.midPrice else o.price
  let vwap := if cfg.walkedBookImpact && a.l2Seeded then walkedBookVwap cfg a o.side o.quantity
    else 0
  if 0 < vwap then vwap
  else match cfg.impactModel with
    | some impact => impact o.side o.quantity mid
    | none => mid

/-- The limit an order is entered with; for a market order a price that crosses. -/
def bookPrice (o : OrderEvent) : Int :=
  if o.orderType = .market then
    let ref := referencePrice cfg a o
    match o.side with
    | .buy => priceFromDouble (ref * cfg.marketAggression)
    | .sell => priceFromDouble (ref * (2 - cfg.marketAggression))
  else priceFromDouble o.price

def bookQuantity (qty : ℚ) : Nat :=
  (roundHalfAway (qty * cfg.qtyScale)).toNat

/-- The fill for a trade of a tracked order, at the order's own price. -/
def makerFill (ts : Int) (ri : RestingInfo) (ti : TradeInfo) : FillEvent :=
  let qty := ti.quantity / cfg.qtyScale
  let price := priceToDouble ti.price
  { timestamp := ts
    symbol := ri.symbol
    orderId := ti.orderId
    side := ri.side
    filledQuantity := qty
    fillPrice := price
    commission := cfg.commission ri.side qty price false
    remainingQty := (a.book.orders ri.bookOrder).remainingQuantity / cfg.qtyScale }

/-- A trade of one of our resting orders becomes a maker fill. -/
def recordRestingFill (ts : Int) (a : LocalBook) (ti : TradeInfo) : LocalBook :=
  match a.resting.lookup ti.orderId with
  | none => a
  | some ri =>
    let b := a.emit (a.makerFill cfg ts ri ti)
    if (a.book.orders ri.bookOrder).isFilled then b.untrack ti.orderId else b

/-- Whether the order pays taker fees. -/
def isTaker (o : OrderEvent) : Bool :=
  o.orderType = .market ∨
    (o.side = .buy ∧ 0 < a.midPrice ∧ a.midPrice ≤ o.price) ∨
    (o.side = .sell ∧ 0 < a.midPrice ∧ o.price ≤ a.midPrice)

/-- What a taker is filled for: the traded quantity, less what fades. -/
def takerQty (ours : TradeInfo) : ℚ :=
  let full := ours.quantity / cfg.qtyScale
  if 0 < cfg.fadeRate then full * (1 - cfg.fadeRate) else full

/-- The fill for one trade of the order `o`, whose book object is `p`, at the price of the resting
counterparty. -/
def takerFill (o : OrderEvent) (p : Nat) (ours counter : TradeInfo) : FillEvent :=
  let qty := takerQty cfg ours
  let price := priceToDouble counter.price
  { timestamp := o.earliestEligibleTs
    symbol := o.symbol
    orderId := o.orderId
    side := o.side
    filledQuantity := qty
    fillPrice := price
    commission := cfg.commission o.side qty price (a.isTaker o)
    remainingQty := (a.book.orders p).remainingQuantity / cfg.qtyScale }

/-- The aggressor's part of a trade; one that fades to nothing is skipped. -/
def recordTakerFill (o : OrderEvent) (p : Nat) (a : LocalBook)
    (ours counter : TradeInfo) : LocalBook :=
  if 0 < cfg.fadeRate ∧ takerQty cfg ours ≤ 0 then a
  else a.emit (a.takerFill cfg o p ours counter)

/-- One iteration of the loop over the trades a submitted order caused. -/
def recordTrade (o : OrderEvent) (p : Nat) (a : LocalBook) (t : Trade) : LocalBook :=
  let weAreBid := t.bidTrade.orderId = o.orderId
  let ours := if weAreBid then t.bidTrade else t.askTrade
  let counter := if weAreBid then t.askTrade else t.bidTrade
  let a := if counter.orderId ≠ o.orderId then
      a.recordRestingFill cfg o.earliestEligibleTs counter
    else a
  if ours.orderId = o.orderId then a.recordTakerFill cfg o p ours counter else a

/-- The part of `submit_order` up to the loop over the trades: the order object, the trades, and
the adapter with a good-till-cancel remainder tracked. -/
def place (o : OrderEvent) : Nat × Trades × LocalBook :=
  let type := bookOrderType o.tif
  let (p, book) := a.book.createOrder type o.orderId o.side.book (bookPrice cfg a o)
    (bookQuantity cfg o.quantity)
  let (trades, book) := book.addOrder p
  let resting := if type = .goodTillCancel ∧ 0 < (book.orders p).remainingQuantity then
      a.resting.insert o.orderId ⟨p, o.symbol, o.side⟩
    else a.resting
  (p, trades, { a with book := book, resting := resting })

section Place

variable (o : OrderEvent)

def bookOrder : Order :=
  Order.new (bookOrderType o.tif) o.orderId o.side.book (bookPrice cfg a o)
    (bookQuantity cfg o.quantity)

theorem place_pendingFills : (a.place cfg o).2.2.pendingFills = a.pendingFills := rfl

theorem place_lookup (id : Nat) : (a.place cfg o).2.2.resting.lookup id =
    if o.orderId = id ∧ bookOrderType o.tif = .goodTillCancel ∧
      0 < ((a.place cfg o).2.2.book.orders a.book.orderCount).remainingQuantity then
      some ⟨a.book.orderCount, o.symbol, o.side⟩
    else a.resting.lookup id := by
  have hresting : (a.place cfg o).2.2.resting = if bookOrderType o.tif = .goodTillCancel ∧
        0 < ((a.place cfg o).2.2.book.orders a.book.orderCount).remainingQuantity then
        a.resting.insert o.orderId ⟨a.book.orderCount, o.symbol, o.side⟩
      else a.resting := rfl
  rw [hresting]
  by_cases hid : o.orderId = id
  · subst hid
    split_ifs <;> simp_all
  · have hne : id ≠ o.orderId := Ne.symm hid
    split_ifs <;> simp_all

end Place

/-- Whether the order reaches the book. -/
def accepts (o : OrderEvent) (draw : ℚ) : Bool :=
  ¬ (o.orderType = .stop ∨ o.orderType = .stopLimit) ∧ ¬ a.dropsLimit cfg o draw

def submitOrder (o : OrderEvent) (draw : ℚ) : LocalBook :=
  if a.accepts cfg o draw then
    let (p, trades, a) := a.place cfg o
    trades.foldl (recordTrade cfg o p) a
  else a

/-! ## The other calls -/

def pollFills : List FillEvent × LocalBook :=
  (a.pendingFills, { a with pendingFills := [] })

/-- Pull an order from the book and from the tracked ones. -/
def pull (id : Nat) : LocalBook :=
  { a with book := a.book.cancelOrder id }.untrack id

/-- With a latency model a cancel only starts its in-flight window. -/
def cancelOrder (id : Nat) (latency : Int) : LocalBook :=
  if cfg.hasLatencyModel then
    { a with pendingCancels := a.pendingCancels.insert id (a.currentTime + latency) }
  else a.pull id

/-- The modified order leaves the tracked ones: the book replaces its object. -/
def modifyOrder (id : Nat) (price qty : ℚ) : LocalBook :=
  { a.untrack id with
    book := (a.book.modifyOrder id (priceFromDouble price) (bookQuantity cfg qty)).2 }

/-- One iteration of the loop over the cancels in flight. -/
def landCancel (ts : Int) (a : LocalBook) (id : Nat) : LocalBook :=
  match a.pendingCancels.lookup id with
  | some due =>
    if due ≤ ts then { a.pull id with pendingCancels := a.pendingCancels.erase id } else a
  | none => a

def advanceTime (ts : Int) (order : IterationOrder Nat) : LocalBook :=
  (order.run a.pendingCancels.keys).foldl (landCancel ts) { a with currentTime := ts }

def onBookTrades (trades : Trades) (ts : Int) : LocalBook :=
  trades.foldl (fun a t =>
    (a.recordRestingFill cfg ts t.bidTrade).recordRestingFill cfg ts t.askTrade) a

/-- The fill for what remains of a tracked order, at the order's own price. -/
def sweepFill (ts : Int) (id : Nat) (ri : RestingInfo) : FillEvent :=
  let order := a.book.orders ri.bookOrder
  let qty := order.remainingQuantity / cfg.qtyScale
  let px := priceToDouble order.price
  { timestamp := ts
    symbol := ri.symbol
    orderId := id
    side := ri.side
    filledQuantity := qty
    fillPrice := px
    commission := cfg.commission ri.side qty px false }

/-- Whether a bar's range reaches a tracked order that has no cancel in flight. -/
def sweeps (symbol : String) (low high : ℚ) (a : LocalBook) (id : Nat) (ri : RestingInfo) : Bool :=
  let px := priceToDouble (a.book.orders ri.bookOrder).price
  let traversed : Bool := match ri.side with
    | .buy => low ≤ px
    | .sell => px ≤ high
  ri.symbol = symbol ∧ (a.pendingCancels.lookup id).isNone ∧ traversed

/-- One iteration of the loop over the tracked orders: a limit inside the bar's range fills for
what remains, and leaves the book. -/
def sweepOne (symbol : String) (low high : ℚ) (ts : Int) (a : LocalBook) (id : Nat) : LocalBook :=
  match a.resting.lookup id with
  | none => a
  | some ri =>
    if a.sweeps symbol low high id ri then
      if (a.sweepFill cfg ts id ri).filledQuantity ≤ 0 then a.untrack id
      else (a.emit (a.sweepFill cfg ts id ri)).pull id
    else a

def sweepRestingRange (symbol : String) (low high : ℚ) (ts : Int)
    (order : IterationOrder Nat) : LocalBook :=
  if ¬ 0 < low ∨ ¬ 0 < high then a
  else (order.run a.resting.keys).foldl (sweepOne cfg symbol (min low high) (max low high) ts) a

section Loops

variable {a : LocalBook} {I : LocalBook → Prop} (ts : Int) (order : IterationOrder Nat)

/-- What holds after each cancel that lands holds after all of them. -/
theorem advanceTime_keeps (h : I { a with currentTime := ts })
    (hland : ∀ b id, I b → I { b.pull id with pendingCancels := b.pendingCancels.erase id }) :
    I (a.advanceTime ts order) := by
  refine List.foldlRecOn _ _ h fun b hb id _ => ?_
  rw [landCancel]
  split
  · split
    · exact hland b id hb
    · exact hb
  · exact hb

/-- A sweep fills the orders it reaches, and drops those of which nothing remains. -/
theorem sweepRestingRange_keeps (symbol : String) (low high : ℚ) (h : I a)
    (hdrop : ∀ b id ri, I b → b.resting.lookup id = some ri →
      (b.book.orders ri.bookOrder).remainingQuantity = 0 → I (b.untrack id))
    (hfill : ∀ b id ri, I b → b.resting.lookup id = some ri →
      b.sweeps symbol (min low high) (max low high) id ri →
      0 < (b.book.orders ri.bookOrder).remainingQuantity →
      I ((b.emit (b.sweepFill cfg ts id ri)).pull id)) :
    I (a.sweepRestingRange cfg symbol low high ts order) := by
  rw [sweepRestingRange]
  split
  · exact h
  · refine List.foldlRecOn _ _ h fun b hb id _ => ?_
    rw [sweepOne]
    cases hri : b.resting.lookup id with
    | none => exact hb
    | some ri =>
      have hqty : (b.sweepFill cfg ts id ri).filledQuantity ≤ 0 ↔
          (b.book.orders ri.bookOrder).remainingQuantity = 0 := by
        rw [sweepFill, div_le_iff₀ cfg.qtyScale_pos, zero_mul]
        exact Nat.cast_nonpos
      simp only [hqty]
      split_ifs with hreach hzero
      · exact hdrop b id ri hb hri hzero
      · exact hfill b id ri hb hri hreach (Nat.pos_of_ne_zero hzero)
      · exact hb

end Loops

end LocalBook

/-! ## Other parties -/

/-- An order that another party enters on the shared book. -/
structure Quote where
  orderType : ObOrderType
  id : Nat
  side : Side
  price : Int
  quantity : Nat

namespace MarketMaker

/-- The loop of `replenish`: the quotes go in one after the other, and their trades are
concatenated. -/
def addQuotes : List Quote → Orderbook → Trades × Orderbook
  | [], book => ([], book)
  | q :: quotes, book =>
    let (p, book) := book.createOrder q.orderType q.id q.side q.price q.quantity
    let (trades, book) := book.addOrder p
    let (rest, book) := addQuotes quotes book
    (trades ++ rest, book)

/-- `replenish`, with the quotes `compute_replenish` gives: the party's live quotes are pulled
before the new ones go in. -/
def replenish (book : Orderbook) (live : List Nat) (quotes : List Quote) : Trades × Orderbook :=
  addQuotes quotes (live.foldl Orderbook.cancelOrder book)

end MarketMaker

/-! ## Runs -/

namespace LocalBook

/-- The remaining quantity of a live order. -/
def liveQty (book : Orderbook) (id : Nat) : Nat :=
  match book.orderMap.lookup id with
  | some n => (book.orderOf n).remainingQuantity
  | none => 0

/-- The adapter, and what an observer of the adapter and the book has seen. -/
structure World where
  adapter : LocalBook
  /-- The fills handed out by `poll_fills`. -/
  delivered : List FillEvent
  /-- All trades of the book. -/
  tape : Trades
  /-- What sweeps removed from the book, by order id. -/
  swept : Nat → Nat
  submitted : List OrderEvent
  /-- The ids under which others entered orders. -/
  foreign : List Nat
  /-- The orders that were modified while live, with what had been executed and swept by then. -/
  modified : AList fun _ : Nat => Nat

variable (w : World)

namespace World

def init : World where
  adapter := LocalBook.init
  delivered := []
  tape := []
  swept := fun _ => 0
  submitted := []
  foreign := []
  modified := ∅

def submittedIds : List Nat := w.submitted.map OrderEvent.orderId

/-- All fills emitted so far, in order. -/
def reported : List FillEvent := w.delivered ++ w.adapter.pendingFills

/-- What was executed and swept for an order. -/
def taken (id : Nat) : Nat := Arrival.executed w.tape id + w.swept id

/-- Note a modification that the book carries out; only the first one counts. -/
def noteModify (id : Nat) : World :=
  if (w.adapter.book.orderMap.lookup id).isSome ∧ (w.modified.lookup id).isNone then
    { w with modified := w.modified.insert id (w.taken id) }
  else w

theorem noteModify_eq (id : Nat) :
    w.noteModify id = { w with modified := (w.noteModify id).modified } := by
  unfold noteModify
  split <;> rfl

/-- The world with a new state of the adapter, and the fills that are new in it. -/
def next (a : LocalBook) : List FillEvent × World :=
  (a.pendingFills.drop w.adapter.pendingFills.length, { w with adapter := a })

end World

/-- Everything that happens to the adapter and to the book it shares. -/
inductive Op
  | submit (o : OrderEvent) (draw : ℚ)
  | cancel (id : Nat) (latency : Int)
  | modify (id : Nat) (price qty : ℚ)
  | advanceTime (ts : Int) (order : IterationOrder Nat)
  | sweep (symbol : String) (low high : ℚ) (ts : Int) (order : IterationOrder Nat)
  /-- Another party pulls and enters orders; the trades are delivered in one batch. -/
  | replenish (live : List Nat) (quotes : List Quote) (ts : Int)
  | poll
  | setMidPrice (price : ℚ)
  | setL2Seeded (seeded : Bool)

def submitTrades (o : OrderEvent) (draw : ℚ) : Trades :=
  if a.accepts cfg o draw then (a.place cfg o).2.1 else []

/-- One operation, with the fills it emits. -/
def step : Op → List FillEvent × World
  | .submit o draw =>
    World.next { w with
      tape := w.tape ++ submitTrades cfg w.adapter o draw
      submitted := w.submitted ++ [o] } (w.adapter.submitOrder cfg o draw)
  | .cancel id latency => w.next (w.adapter.cancelOrder cfg id latency)
  | .modify id price qty => (w.noteModify id).next (w.adapter.modifyOrder cfg id price qty)
  | .advanceTime ts order => w.next (w.adapter.advanceTime ts order)
  | .sweep symbol low high ts order =>
    let a := w.adapter.sweepRestingRange cfg symbol low high ts order
    World.next { w with
      swept := fun id => w.swept id + (liveQty w.adapter.book id - liveQty a.book id) } a
  | .replenish live quotes ts =>
    let (trades, book) := MarketMaker.replenish w.adapter.book live quotes
    World.next { w with
      tape := w.tape ++ trades
      foreign := w.foreign ++ quotes.map Quote.id }
      ({ w.adapter with book := book }.onBookTrades cfg trades ts)
  | .poll =>
    let (fills, a) := w.adapter.pollFills
    World.next { w with delivered := w.delivered ++ fills } a
  | .setMidPrice price => w.next { w.adapter with midPrice := price }
  | .setL2Seeded seeded => w.next { w.adapter with l2Seeded := seeded }

theorem step_submit (o : OrderEvent) (draw : ℚ) : (step cfg w (.submit o draw)).2 = { w with
      tape := w.tape ++ submitTrades cfg w.adapter o draw
      submitted := w.submitted ++ [o]
      adapter := w.adapter.submitOrder cfg o draw } := rfl

/-- Lots of one unit, no models, and market orders priced a tenth through the mid. -/
def plainConfig : LocalBookConfig where
  feeModel := none
  fillModel := none
  impactModel := none
  marketAggression := 11 / 10
  qtyScale := 1
  hasLatencyModel := false
  walkedBookImpact := false
  qtyScale_pos := one_pos

/-- Ids are submitted once, and others pull and enter orders under ids of their own. -/
def Distinct : Op → Prop
  | .submit o _ => o.orderId ∉ w.submittedIds ∧ o.orderId ∉ w.foreign
  | .replenish live quotes _ =>
    (∀ id ∈ live, id ∈ w.foreign) ∧ ∀ q ∈ quotes, q.id ∉ w.submittedIds
  | _ => True

instance (op : Op) : Decidable (Distinct w op) := by
  cases op <;> unfold Distinct <;> infer_instance

end LocalBook

end TrueTest
