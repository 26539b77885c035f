import TrueTest.Execution.FillStatus
import TrueTest.Execution.Instrument
import TrueTest.Exits.DefaultExitPolicy
import TrueTest.Risk.RiskManager

/-!
# The engine

The order path of `engine/engine.cpp`: `route_order`, `process_order`, the handling of fills, the
exits, the risk unwind and the halt flag. The exit manager, the order tracker, the order
attribution, the instrument rules and the deferred orders are modelled as they are. What the other
collaborators answer is an input of each operation (`Replies`, `FillReply`, `Flattening`): the
verdicts of the venue check and the risk manager, the fills an adapter hands over, the portfolio's
position, and whether publishing an event found a full safety ring.

The loops of `run`, `run_tick_data`, `run_streaming` and `apply_l2_update` are made of the
operations of `Op`, in an order that depends on the data; a run here is any sequence of them. `acts`
records what the engine has done, for the properties that speak about the past.

Left out: prices that only adapters read (`last_mid_price_`), the day-order list, analytics, the
dashboard, audit records and object pools.
-/

namespace TrueTest

open Machine ExitManager

structure OrderMeta where
  openerOrderId : Nat
  strategyName : String

/-- Why an order is rejected. -/
inductive Refusal
  | venueFilter
  | venueRisk (reason : String)
  | risk
  | riskHalt

/-- The reason on the published rejection. -/
def Refusal.reason : Refusal → String
  | .venueFilter => "order rejected by venue filter (min_qty/min_notional)"
  | .venueRisk reason => "venue risk check refused: " ++ reason
  | .risk => "order rejected by risk manager"
  | .riskHalt => "risk limit breached - engine halted"

/-- What a fill is applied to, apart from the exit manager. -/
inductive Sink
  | orderTracker
  | portfolio
  | analytics
deriving DecidableEq, Repr

/-- One result of an asynchronous submit or cancel. -/
structure SubmitResult where
  engineId : Nat
  isCancel : Bool
  ok : Bool
  /-- Publishing what follows finds a full safety ring. -/
  dropped : Bool

/-- What the engine does to the outside, and its calls of the exit manager. -/
inductive Act
  /-- A strategy's callback for a bar, a tick or an L2 update. -/
  | callback (name : String)
  /-- An order is given its id; `close` if the exit manager sent it. -/
  | accept (o : OrderEvent) (close : Bool)
  /-- An adapter's `submit_order`. -/
  | submit (o : OrderEvent)
  /-- The operator's pause swallows an order. -/
  | pause (o : OrderEvent)
  /-- The venue's lot takes a part off an order. -/
  | shrink (o : OrderEvent) (qty : ℚ)
  /-- The verdict of the risk manager's `check_order`. -/
  | check (o : OrderEvent) (verdict : RiskAction)
  | reject (o : OrderEvent) (why : Refusal)
  /-- An adapter's `cancel_order`, with its answer. -/
  | cancel (symbol : String) (id : Nat) (ok : Bool)
  /-- The result of an asynchronous submit or cancel arrives. -/
  | answer (r : SubmitResult)
  | triggerHalt
  | exits (call : Op)
  /-- A batch from an adapter's `poll_fills`; a fill is marked if the risk check after it halts the
  engine. -/
  | poll (fills : List (FillEvent × Bool))
  /-- A batch from the venue's adapter in shadow mode. -/
  | pollExchange (fills : List FillEvent)
  | apply (sink : Sink) (f : FillEvent)
  /-- `set_position_open` on every strategy. -/
  | notify (symbol : String) (isOpen : Bool)

/-! ## Replies of the collaborators -/

/-- A fill from an adapter, with what is answered while it is handled. -/
structure Delivery where
  fill : FillEvent
  placed : BracketHandles
  order : IterationOrder (Nat × ExitIntent)
  /-- `portfolio_.position_open` after the fill. -/
  positionOpen : Bool
  dropped : Bool

/-- One position that `unwind_positions` closes. -/
structure Flattening where
  now : Int
  symbol : String
  qty : ℚ
  price : ℚ
  /-- The snapshot skips flat positions. -/
  nonflat : dust ≤ |qty|
  dropped : Bool
  results : List SubmitResult
  fills : List Delivery

/-- A fill that is followed by the post-fill risk check. -/
structure FillReply where
  delivery : Delivery
  postFill : RiskAction
  unwind : List Flattening

def FillReply.polled (r : FillReply) : FillEvent × Bool := (r.delivery.fill, r.postFill = .halt)

/-- What is answered while one order is routed and processed. -/
structure Replies where
  /-- Fills of resting orders when the synthetic book is moved to the trigger price. -/
  anchorFills : List FillReply
  latency : Int
  venueRefusal : Option String
  risk : RiskAction
  rejectionDropped : Bool
  unwind : List Flattening
  orderDropped : Bool
  results : List SubmitResult
  exchangeResults : List SubmitResult
  fills : List FillReply
  lateResults : List SubmitResult
  exchangeFills : List FillEvent

/-- Everything passes and nothing is filled. -/
def Replies.quiet : Replies where
  anchorFills := []
  latency := 0
  venueRefusal := none
  risk := .pass
  rejectionDropped := false
  unwind := []
  orderDropped := false
  results := []
  exchangeResults := []
  fills := []
  lateResults := []
  exchangeFills := []

/-! ## State -/

structure EngineConfig where
  /-- Shadow mode, with an exchange adapter beside the simulated one. -/
  shadow : Bool
  riskUnwind : Bool
  /-- A threaded preset with the drop policy `halt_on_drop`. -/
  haltOnDrop : Bool
  hasLatencyModel : Bool
  executionBarDelay : Nat
  exitDefaults : DefaultExitParams
  primaryStrategyName : String
  additionalStrategyNames : List String
  hasBracketAdapter : Bool
  instrument : String → Option InstrumentSpec
  asyncSubmit : String → Bool

structure Engine where
  config : EngineConfig
  haltFlag : Bool
  pauseAll : Bool
  flattenRequest : Bool
  nextOrderId : Nat
  orderTracker : OrderTracker
  orderMeta : AList fun _ : Nat => OrderMeta
  exitManager : ExitManager
  /-- The priority queue, first order first. -/
  pendingOrders : List OrderEvent
  pendingStops : List OrderEvent
  acts : List Act

namespace Engine

def init (config : EngineConfig) : Engine where
  config := config
  haltFlag := false
  pauseAll := false
  flattenRequest := false
  nextOrderId := 1
  orderTracker := .init
  orderMeta := ∅
  exitManager := ExitManager.init config.hasBracketAdapter
  pendingOrders := []
  pendingStops := []
  acts := []

variable (e : Engine)

def act (a : Act) : Engine := { e with acts := e.acts ++ [a] }

def triggerHalt : Engine := { e with haltFlag := true }.act .triggerHalt

/-- `publish_event`: an event that a safety ring drops may halt the engine. -/
def publish (dropped : Bool) : Engine :=
  if e.config.haltOnDrop && dropped then e.triggerHalt else e

def setStatus (id : Nat) (status : OrderStatus) : Engine :=
  { e with orderTracker := e.orderTracker.setStatus id status }

/-- `router_->submit`. -/
def submit (o : OrderEvent) : Engine := e.act (.submit o)

/-- Publish a rejection and mark the order. -/
def reject (o : OrderEvent) (why : Refusal) (dropped : Bool) : Engine :=
  ((e.act (.reject o why)).publish dropped).setStatus o.orderId .rejected

/-- A call of the exit manager, with the closing orders it returns. -/
def callExits (call : Op) : List OrderEvent × Engine :=
  let s := e.exitManager.call call
  (s.1, { e with exitManager := s.2 }.act (.exits call))

/-! ## Fills -/

def registerOrderMeta (o : OrderEvent) : Engine :=
  let opener := if o.openerOrderId ≠ 0 then o.openerOrderId else o.orderId
  { e with orderMeta := e.orderMeta.insert o.orderId ⟨opener, o.strategyName⟩ }

def lookupOpener (id : Nat) : Nat := ((e.orderMeta.lookup id).map (·.openerOrderId)).getD 0

def lookupStrategyName (id : Nat) : String :=
  ((e.orderMeta.lookup id).map (·.strategyName)).getD ""

def stampFillAttribution (f : FillEvent) : FillEvent :=
  { f with
    openerOrderId := if f.openerOrderId = 0 then e.lookupOpener f.orderId else f.openerOrderId
    strategyName := if f.strategyName = "" then e.lookupStrategyName f.orderId else f.strategyName }

/-- On a flat position, drop the bracket of a strategy with at most one opener. -/
def sweepStrategy (symbol : String) (e : Engine) (name : String) : Engine :=
  if name = "" then e
  else if e.exitManager.openersFor name symbol ≤ 1 then
    (e.callExits (.cancelStrategy name symbol)).2
  else e

def notifyPositionChangeAll (symbol : String) (isOpen : Bool) : Engine :=
  let e := e.act (.notify symbol isOpen)
  if isOpen then e
  else (e.config.primaryStrategyName :: e.config.additionalStrategyNames).foldl
    (sweepStrategy symbol) e

/-- `handle_engine_fill` up to the post-fill risk check. -/
def applyFill (d : Delivery) : Engine :=
  let f := e.stampFillAttribution d.fill
  let e := { e with orderTracker := TrueTest.handleEngineFill e.orderTracker f }
  let e := (e.act (.apply .orderTracker f)).act (.apply .portfolio f)
  let e := (e.callExits (.fill f f.openerOrderId d.placed d.order)).2
  let e := e.notifyPositionChangeAll f.symbol d.positionOpen
  (e.publish d.dropped).act (.apply .analytics f)

def drainOne (r : SubmitResult) : Engine :=
  let e := e.act (.answer r)
  if r.isCancel then
    if r.ok ∧ e.orderTracker.isActive r.engineId then
      (e.setStatus r.engineId .cancelled).publish r.dropped
    else e
  else if r.ok then
    if e.orderTracker.getOrderStatus r.engineId = .pending then e.setStatus r.engineId .open else e
  else if e.orderTracker.isActive r.engineId then
    (e.publish r.dropped).setStatus r.engineId .rejected
  else e

def drainAsyncSubmitResults (results : List SubmitResult) : Engine :=
  results.foldl drainOne e

def closeOrder (id : Nat) (p : Flattening) : OrderEvent :=
  { OrderEvent.new p.now id p.symbol .market (if 0 < p.qty then .sell else .buy) |p.qty| p.price
      .gtc 0 with
    strategyName := "risk_unwind" }

/-- One iteration of `unwind_positions`. No flag is read here. -/
def unwindPosition (p : Flattening) : Engine :=
  let o := closeOrder e.nextOrderId p
  let e := { e with nextOrderId := e.nextOrderId + 1 }.setStatus o.orderId .open
  let e := (e.publish p.dropped).submit o
  let e := e.drainAsyncSubmitResults p.results
  p.fills.foldl applyFill (e.act (.poll (p.fills.map fun d => (d.fill, false))))

def unwindPositions (ps : List Flattening) : Engine := ps.foldl unwindPosition e

/-- Unwind if the configuration asks for it, then halt. -/
def riskHalt (ps : List Flattening) : Engine :=
  (if e.config.riskUnwind then e.unwindPositions ps else e).triggerHalt

/-- The result is false exactly if the engine was halted; it then stops what it was doing. -/
def handleEngineFill (r : FillReply) : Bool × Engine :=
  let e := e.applyFill r.delivery
  if r.postFill = .halt then (false, e.riskHalt r.unwind) else (true, e)

/-- The loop over a batch. -/
def handleFills (e : Engine) : List FillReply → Bool × Engine
  | [] => (true, e)
  | r :: rs =>
    let s := e.handleEngineFill r
    if s.1 then s.2.handleFills rs else s

def processAdapterFills (rs : List FillReply) : Bool × Engine :=
  (e.act (.poll (rs.map FillReply.polled))).handleFills rs

/-! ## Orders -/

/-- Publish the order and pass it to the adapter, and in shadow mode to the exchange adapter. -/
def place (o : OrderEvent) (r : Replies) : Engine :=
  let e := e.setStatus o.orderId (if e.config.asyncSubmit o.symbol then .pending else .open)
  let e := (e.publish r.orderDropped).submit o
  let e := e.drainAsyncSubmitResults r.results
  if e.config.shadow then (e.submit o).drainAsyncSubmitResults r.exchangeResults else e

/-- The part of `process_order` behind all checks. -/
def execute (o : OrderEvent) (r : Replies) : Bool × Engine :=
  let s := (e.place o r).processAdapterFills r.fills
  (s.1, if s.1 ∧ s.2.config.shadow then
      (s.2.drainAsyncSubmitResults r.lateResults).act (.pollExchange r.exchangeFills)
    else s.2)

/-- The part of `process_order` behind the risk manager's verdict. -/
def actOnVerdict (o : OrderEvent) (r : Replies) : Bool × Engine :=
  match r.risk with
  | .halt => (false, (e.reject o .riskHalt r.rejectionDropped).riskHalt r.unwind)
  | .reject => (true, e.reject o .risk r.rejectionDropped)
  | .pass | .unwind => e.execute o r

def processOrder (o : OrderEvent) (r : Replies) : Bool × Engine :=
  if e.haltFlag then (false, e)
  else match r.venueRefusal with
    | some reason => (true, e.reject o (.venueRisk reason) r.rejectionDropped)
    | none => (e.act (.check o r.risk)).actOnVerdict o r

/-- `pending_orders_.push`: behind the orders that are eligible no later. -/
def defer (o : OrderEvent) : Engine :=
  let before (p : OrderEvent) : Bool := p.earliestEligibleTs ≤ o.earliestEligibleTs
  { e with
    pendingOrders := e.pendingOrders.takeWhile before ++ o :: e.pendingOrders.dropWhile before }

/-- Round an order to the instrument's rules. -/
def applySpec (o : OrderEvent) : Bool × OrderEvent :=
  match e.config.instrument o.symbol with
  | none => (true, o)
  | some spec => applyInstrumentSpec o spec

/-- The part of `route_order` behind the instrument's rules. -/
def dispatch (o : OrderEvent) (simTime : Int) (anchorImmediate : Bool)
    (r : Replies) : Bool × Engine :=
  if o.orderType = .stop ∨ o.orderType = .stopLimit then
    (true, { e with pendingStops := e.pendingStops ++ [o] })
  else if anchorImmediate then
    (e.processAdapterFills r.anchorFills).2.processOrder { o with earliestEligibleTs := simTime } r
  else if e.config.hasLatencyModel then
    (true, e.defer { o with earliestEligibleTs := simTime + r.latency })
  else if 0 < e.config.executionBarDelay then
    (true, e.defer { o with earliestEligibleTs := simTime + 1 })
  else e.processOrder { o with earliestEligibleTs := simTime } r

/-- `route_order`. The order keeps the id it is given. -/
def routeOrder (order : OrderEvent) (simTime : Int) (anchorImmediate : Bool)
    (r : Replies) : Bool × OrderEvent × Engine :=
  if e.haltFlag then (false, order, e)
  else if e.pauseAll then (true, order, e.act (.pause order))
  else
    let order := { order with orderId := e.nextOrderId }
    let e := { e with nextOrderId := e.nextOrderId + 1 }.setStatus order.orderId .pending
    let e := (e.registerOrderMeta order).act (.accept order anchorImmediate)
    let rounded := e.applySpec order
    if rounded.1 then
      let e := e.act (.shrink order (order.quantity - rounded.2.quantity))
      let s := e.dispatch rounded.2 simTime anchorImmediate r
      (s.1, rounded.2, s.2)
    else (true, rounded.2, e.reject order .venueFilter r.rejectionDropped)

/-! ## Exits -/

def registerStrategyExitIntent (name : String) (order : OrderEvent)
    (intents : List ExitIntent) (netQty : ℚ) : Engine :=
  (applyDefaultExitPolicy e.config.exitDefaults order netQty intents).foldl
    (fun e intent => (e.callExits (.register
      { intent with openerOrderId := order.orderId, strategyName := name })).2) e

def finalizeStrategyRoute (name : String) (order : OrderEvent)
    (intents : List ExitIntent) (halted : Bool) (netQty : ℚ) (positionOpen : Bool) : Engine :=
  if halted then e
  else if order.orderId = 0 ∨ e.orderTracker.getOrderStatus order.orderId = .rejected then
    e.notifyPositionChangeAll order.symbol positionOpen
  else e.registerStrategyExitIntent name order intents netQty

/-- A strategy's callback. The event loops make none while the flag is up, but for `on_tick` in
`run_tick_data` when the publish of its own tick has halted; that one, whose order is not routed, is
left out. -/
def callback (name : String) : Engine :=
  if e.haltFlag then e else e.act (.callback name)

/-- A callback that returns an order with its exit intents: `route_order`, then
`finalize_strategy_route`. -/
def strategyOrder (name : String) (order : OrderEvent) (intents : List ExitIntent)
    (simTime : Int) (netQty : ℚ) (positionOpen : Bool) (r : Replies) : Engine :=
  let s := (e.callback name).routeOrder order simTime false r
  s.2.2.finalizeStrategyRoute name s.2.1 intents (!s.1) netQty positionOpen

/-- Route the closes of a trigger until one of them halts the engine. -/
def routeCloses (ts : Int) : List OrderEvent → List Replies → Engine → Engine
  | [], _, e => e
  | c :: cs, rs, e =>
    let s := e.routeOrder c ts true (rs.headD .quiet)
    if s.1 then routeCloses ts cs rs.tail s.2.2 else s.2.2

/-- The two forms of `evaluate_exits`. -/
inductive Trigger
  | price (px : ℚ)
  | bar (open_ low high close : ℚ)

def Trigger.call (t : Trigger) (symbol : String) (ts : Int)
    (order : IterationOrder (Nat × ArmedIntent)) : Op :=
  match t with
  | .price px => .price symbol px ts order
  | .bar open_ low high close => .bar symbol open_ low high close ts order

def evaluateExits (t : Trigger) (symbol : String) (ts : Int)
    (order : IterationOrder (Nat × ArmedIntent)) (rs : List Replies) : Engine :=
  let s := e.callExits (t.call symbol ts order)
  routeCloses ts s.1 rs s.2

/-! ## Deferred orders and stops -/

/-- Process the deferred orders that are eligible, or all of them. -/
def drainPending (until_ : Option Int) : Nat → List Replies → Engine → Engine
  | 0, _, e => e
  | n + 1, rs, e =>
    match e.pendingOrders with
    | [] => e
    | o :: rest =>
      if e.haltFlag ∨ until_.any (· < o.earliestEligibleTs) then e
      else
        let s := { e with pendingOrders := rest }.processOrder o (rs.headD .quiet)
        if s.1 then drainPending until_ n rs.tail s.2 else s.2

def stopTriggered (high low : ℚ) (stop : OrderEvent) : Bool :=
  match stop.side with
  | .buy => stop.stopPrice ≤ high
  | .sell => low ≤ stop.stopPrice

/-- The order a triggered stop becomes. -/
def convertStop (simTime : Int) (stop : OrderEvent) : OrderEvent :=
  let o := if stop.orderType = .stop then
      OrderEvent.new simTime stop.orderId stop.symbol .market stop.side stop.quantity
        stop.stopPrice .ioc 0
    else
      OrderEvent.new simTime stop.orderId stop.symbol .limit stop.side stop.quantity stop.price
        stop.tif 0
  { o with strategyName := stop.strategyName, openerOrderId := stop.openerOrderId }

/-- The loop of `check_pending_stops`: the stops already passed that stay, and those to come. -/
def checkPendingStops (high low : ℚ) (simTime : Int) :
    List OrderEvent → List OrderEvent → List Replies → Engine → Engine
  | kept, [], _, e => { e with pendingStops := kept }
  | kept, stop :: rest, rs, e =>
    if e.haltFlag then { e with pendingStops := kept ++ stop :: rest }
    else if stopTriggered high low stop then
      let r := rs.headD .quiet
      let s := (e.processAdapterFills r.anchorFills).2.processOrder (convertStop simTime stop) r
      if s.1 then checkPendingStops high low simTime kept rest rs.tail s.2
      else { s.2 with pendingStops := kept ++ stop :: rest }
    else checkPendingStops high low simTime (kept ++ [stop]) rest rs e

def cancelOrder (symbol : String) (id : Nat) (results : List SubmitResult)
    (adapterCancels dropped : Bool) : Engine :=
  let e := (e.drainAsyncSubmitResults results).act (.cancel symbol id adapterCancels)
  if adapterCancels ∧ e.config.asyncSubmit symbol then e
  else
    let held := e.pendingStops.any fun o => o.orderId = id
    if adapterCancels then (e.setStatus id .cancelled).publish dropped
    else if held then
      ({ e with pendingStops := e.pendingStops.filter fun o => o.orderId ≠ id }.setStatus id
        .cancelled).publish dropped
    else e

/-- The head of `process_single_bar` and `process_single_tick`: a requested flatten. -/
def beginEvent (ps : List Flattening) : Engine :=
  if e.haltFlag then e
  else if e.flattenRequest then { e with flattenRequest := false }.unwindPositions ps
  else e

/-! ## Runs -/

inductive Op
  | triggerHalt
  /-- A worker thread raises the flag itself. -/
  | workerHalt
  | startWorkers
  | stopWorkers
  | clearPendingState
  | setPauseAll (paused : Bool)
  | requestFlatten
  | beginEvent (ps : List Flattening)
  /-- Fills of a sweep, a book update or the provider's adapter. -/
  | adapterFills (rs : List FillReply)
  /-- The venue's fills in shadow mode. -/
  | exchangeFills (fills : List FillEvent)
  /-- Other users of the id generator. -/
  | takeIds (n : Nat)
  | venueBracketMeta (id : Nat) (owner : OrderMeta)
  | submitResults (results : List SubmitResult)
  /-- A market data, amend or other event without effect on orders. -/
  | publish (dropped : Bool)
  | drainPending (until_ : Option Int) (rs : List Replies)
  | checkPendingStops (high low : ℚ) (simTime : Int) (rs : List Replies)
  | evaluateExits (t : Trigger) (symbol : String) (ts : Int)
      (order : IterationOrder (Nat × ArmedIntent)) (rs : List Replies)
  /-- A callback that returns no order. -/
  | callback (name : String)
  | strategyOrder (name : String) (order : OrderEvent) (intents : List ExitIntent) (simTime : Int)
      (netQty : ℚ) (positionOpen : Bool) (r : Replies)
  | cancelOrder (symbol : String) (id : Nat) (results : List SubmitResult)
      (adapterCancels dropped : Bool)

def perform : Op → Engine
  | .triggerHalt => e.triggerHalt
  | .workerHalt => { e with haltFlag := true }
  | .startWorkers => { e with haltFlag := false }
  | .stopWorkers => e
  | .clearPendingState => { e with pendingOrders := [], pendingStops := [] }
  | .setPauseAll paused => { e with pauseAll := paused }
  | .requestFlatten => { e with flattenRequest := true }
  | .beginEvent ps => e.beginEvent ps
  | .adapterFills rs => (e.processAdapterFills rs).2
  | .exchangeFills fills => e.act (.pollExchange fills)
  | .takeIds n => { e with nextOrderId := e.nextOrderId + n }
  | .venueBracketMeta id owner => { e with orderMeta := e.orderMeta.insert id owner }
  | .submitResults results => e.drainAsyncSubmitResults results
  | .publish dropped => e.publish dropped
  | .drainPending until_ rs => drainPending until_ e.pendingOrders.length rs e
  | .checkPendingStops high low simTime rs =>
    checkPendingStops high low simTime [] e.pendingStops rs e
  | .evaluateExits t symbol ts order rs => e.evaluateExits t symbol ts order rs
  | .callback name => e.callback name
  | .strategyOrder name order intents simTime netQty positionOpen r =>
    e.strategyOrder name order intents simTime netQty positionOpen r
  | .cancelOrder symbol id results adapterCancels dropped =>
    e.cancelOrder symbol id results adapterCancels dropped

/-- One operation, with what the engine does in it. -/
def step (op : Op) : List Act × Engine :=
  ((e.perform op).acts.drop e.acts.length, e.perform op)

end Engine

end TrueTest
