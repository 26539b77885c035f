import TrueTest.Analytics.Analytics
import TrueTest.Engine.Engine
import TrueTest.MarketMaker.MarketMaker
import TrueTest.Strategy.Strategy
import TrueTest.Util.Program

/-!
# The backtest engine: state and primitives

The engine of `engine/engine.cpp` closed with its own collaborators, as it runs a backtest in inline
mode without a provider: the portfolio, the risk manager, analytics, the books with their local
adapters, the market maker and the strategies. The order tracker, the attribution, the exit manager
and the deferred orders are those of `Engine`; what was a reply there is computed here.

A book belongs to the registry's entry for its symbol. An adapter holds a pointer to the book it was
created with: that is the registry's book, until the registry drops it (`detached`). All orders of
one adapter are for the symbol it is cached under.

`Op` lists the primitives, each a function of the state; the event loops over them are in
`TrueTest/Backtest/Loop.lean`. What the source reads from outside is a parameter of the
configuration: the draws of the random generators, the sampled latencies, the wall clock and the
order in which a hash map is iterated. The time of an order event is kept by its id (`orderTimes`).

Left out: the venue's pre-trade check, the queue-aware adapter, depth data, the worker threads,
adverse selection, the audit records and the dashboard.
-/

namespace TrueTest

open Machine

/-- The orders in which the hash maps are iterated. -/
structure IterationOrders where
  intents : IterationOrder (Nat × ExitIntent)
  armed : IterationOrder (Nat × ArmedIntent)
  resting : IterationOrder Nat
  positions : IterationOrder (String × ℚ)

structure BacktestConfig (σ : Type) where
  engine : EngineConfig
  limits : RiskLimits
  book : LocalBookConfig
  calibration : MmCalibration
  initialBalance : ℚ
  fillRngSeed : Nat
  /-- Whether the run writes an event log. -/
  logs : Bool
  /-- The primary strategy, then the additional ones. -/
  strategies : List (Strategy σ)
  /-- The draws of a generator with a seed. -/
  draw : Nat → Nat → ℚ
  /-- The latencies in the order they are sampled. -/
  latency : Nat → Int
  wallClock : Int
  sqrt : ℚ → ℚ
  orders : IterationOrders

/-- A cached `LocalBookAdapter`. The book in `state` stands for nothing. -/
structure BookAdapter where
  state : LocalBook
  /-- The book, once it is no longer the registry's. -/
  detached : Option Orderbook
  seed : Nat
  draws : Nat

/-- An event of the log, before `Core/EventLog` writes it. -/
inductive Logged
  | market (m : MarketEvent)
  | tick (t : Tick)
  | order (o : OrderEvent)
  | fill (f : FillEvent)
  | rejection (timestamp : Int) (symbol : String) (id : Nat) (reason : String)
deriving DecidableEq

structure Sim (σ : Type) where
  engine : Engine
  portfolio : Portfolio
  riskManager : RiskManager
  analytics : Analytics
  marketMaker : MarketMaker
  registry : AList fun _ : String => Orderbook
  adapters : AList fun _ : String => BookAdapter
  strategies : List σ
  lastMidPrice : ℚ
  dayOrderIds : List (String × Nat)
  orderTimes : AList fun _ : Nat => Int
  seed : Nat
  latencies : Nat
  /-- What the event logger has written, if there is one. -/
  log : Option (List Logged)

namespace Sim

variable {σ : Type} (cfg : BacktestConfig σ) (s : Sim σ) (symbol : String) (o : OrderEvent)

/-- A freshly constructed engine, when the process has given out the ids below `nextId`. -/
def init (seed nextId : Nat) (strategies : List σ) : Sim σ where
  engine := { Engine.init cfg.engine with nextOrderId := nextId }
  portfolio := .init cfg.initialBalance
  riskManager := .init
  analytics := .init cfg.initialBalance
  marketMaker := .init
  registry := ∅
  adapters := ∅
  strategies := strategies
  lastMidPrice := 0
  dayOrderIds := []
  orderTimes := ∅
  seed := seed
  latencies := 0
  log := none

def record (ev : Logged) : Sim σ := { s with log := s.log.map (· ++ [ev]) }

/-- `log_event` of a rejection. -/
def reject (ts : Int) (why : Refusal) : Sim σ :=
  { s.record (.rejection ts o.symbol o.orderId why.reason) with
    engine := s.engine.reject o why false }

/-! ## Books and adapters -/

/-- `get_or_create`, without the entry it makes. -/
def bookOf : Orderbook := (s.registry.lookup symbol).getD Orderbook.init

def adapterSeed : Nat := if s.seed ≠ 0 then (s.seed + 2) % 2 ^ 32 else cfg.fillRngSeed

def resolveAdapter : BookAdapter :=
  (s.adapters.lookup symbol).getD ⟨LocalBook.init, none, s.adapterSeed cfg, 0⟩

/-- A call of a cached adapter, and `poll_fills`. -/
def callAdapter (a : BookAdapter) (f : LocalBook → LocalBook) : List FillEvent × Sim σ :=
  let called := f { a.state with book := a.detached.getD (s.bookOf symbol) }
  let polled := called.pollFills
  let a := { a with
    state := { polled.2 with book := Orderbook.init }
    detached := a.detached.map fun _ => called.book }
  (polled.1, { s with
    adapters := s.adapters.insert symbol a
    registry := if a.detached.isNone then s.registry.insert symbol called.book else s.registry })

/-- A call of the adapter of a symbol, if it has one. -/
def callCached (f : LocalBook → LocalBook) : List FillEvent × Sim σ :=
  match s.adapters.lookup symbol with
  | some a => s.callAdapter symbol a f
  | none => ([], s)

/-- Whether the fill model draws for the order. -/
def draws : Bool :=
  cfg.book.fillModel.isSome ∧ o.orderType = .limit ∧ 0 < s.lastMidPrice

/-- The order is open; log it and count it. -/
def place : Sim σ :=
  { s.record (.order o) with
    engine := (s.engine.setStatus o.orderId .open).submit o
    analytics := s.analytics.onOrder }

/-- The part of `process_order` behind all checks, up to the fills that are polled. -/
def submit : List FillEvent × Sim σ :=
  let a := s.resolveAdapter cfg o.symbol
  let drawn := if s.draws cfg o then { a with draws := a.draws + 1 } else a
  (s.place o).callAdapter o.symbol drawn fun l =>
    { l with midPrice := s.lastMidPrice, l2Seeded := false }.submitOrder cfg.book o
      (cfg.draw a.seed a.draws)

/-- `market_maker_.replenish` on the book of a symbol. -/
def requote (price : ℚ) (update : Bool) : Trades × Sim σ :=
  let (trades, book, ids, mm) := s.marketMaker.requote cfg.sqrt cfg.calibration symbol
    (s.bookOf symbol) s.engine.nextOrderId price update
  (trades, { s with
    marketMaker := mm
    registry := s.registry.insert symbol book
    engine := { s.engine with nextOrderId := s.engine.nextOrderId + ids } })

/-- A replenishment and `deliver_mm_book_trades`. -/
def replenish (price : ℚ) (update : Bool) (ts : Int) : List FillEvent × Sim σ :=
  let r := s.requote cfg symbol price update
  if r.1.isEmpty then ([], r.2)
  else r.2.callCached symbol fun l => l.onBookTrades cfg.book r.1 ts

def sweep (low high : ℚ) (ts : Int) : List FillEvent × Sim σ :=
  s.callCached symbol fun l => l.sweepRestingRange cfg.book symbol low high ts cfg.orders.resting

/-! ## Strategies -/

def names : List String := cfg.engine.primaryStrategyName :: cfg.engine.additionalStrategyNames

/-- A call of the strategy at an index. -/
def callStrategy {α : Type} (i : Nat) (f : Strategy σ → σ → α × σ) : Option α × Sim σ :=
  match cfg.strategies[i]?, s.strategies[i]? with
  | some strategy, some x =>
    let r := f strategy x
    (some r.1, { s with strategies := s.strategies.set i r.2 })
  | _, _ => (none, s)

/-- The order of a callback, under the strategy's name; the primary strategy may have none. -/
def named (i : Nat) (o : OrderEvent) : OrderEvent :=
  let name := (names cfg).getD i ""
  if i = 0 ∧ name = "" then o else { o with strategyName := name }

def onMarket (i : Nat) (m : MarketEvent) : Option OrderEvent × Sim σ :=
  let r := s.callStrategy cfg i fun strategy => strategy.onMarket m
  (r.1.join.map (named cfg i), r.2)

def onTick (i : Nat) (t : Tick) : Option OrderEvent × Sim σ :=
  let r := s.callStrategy cfg i fun strategy => strategy.onTick t
  (r.1.join.map (named cfg i), r.2)

def dispatchFillToStrategy (f : FillEvent) : Sim σ :=
  let name := s.engine.lookupStrategyName f.orderId
  if name = "" then s
  else match (names cfg).findIdx? (· = name) with
    | some i => (s.callStrategy cfg i fun strategy x =>
        ((), strategy.onFill f (s.engine.lookupOpener f.orderId) x)).2
    | none => s

def setPositionOpen (isOpen : Bool) : Sim σ :=
  { s with strategies := List.zipWith (fun (strategy : Strategy σ) x =>
      strategy.setPositionOpen symbol isOpen x) cfg.strategies s.strategies }

def finalizeStrategyRoute (i : Nat) (o : OrderEvent) (halted : Bool) : Sim σ :=
  let r := s.callStrategy cfg i Strategy.takePendingExitIntents
  let isOpen := s.portfolio.positionOpen o.symbol
  let engine := s.engine.finalizeStrategyRoute ((names cfg).getD i "") o (r.1.getD []) halted
    (s.portfolio.position o.symbol).qty isOpen
  if ¬ halted ∧ (o.orderId = 0 ∨ s.engine.orderTracker.getOrderStatus o.orderId = .rejected) then
    { r.2 with engine := engine }.setPositionOpen cfg o.symbol isOpen
  else { r.2 with engine := engine }

/-! ## Orders and fills -/

def orderTime : Int := (s.orderTimes.lookup o.orderId).getD 0

/-- The risk manager's check, with the rejection it leads to. -/
def checkOrder : RiskAction × Sim σ :=
  let r := s.riskManager.checkOrder cfg.limits o (s.orderTime o) s.portfolio s.analytics.riskView
  let s := { s with riskManager := r.2, engine := s.engine.act (.check o r.1) }
  (r.1, match r.1 with
    | .halt => s.reject o (s.orderTime o) .riskHalt
    | .reject => s.reject o (s.orderTime o) .risk
    | .pass | .unwind => s)

/-- No bracket is placed at a venue. -/
def unplaced : BracketHandles := ⟨none, none, none, ""⟩

/-- `handle_engine_fill` up to the post-fill risk check. -/
def applyFill (fill : FillEvent) : Sim σ :=
  let f := s.engine.stampFillAttribution fill
  let portfolio := s.portfolio.onFill f f.openerOrderId f.strategyName
  let isOpen := portfolio.positionOpen f.symbol
  let s := { (s.record (.fill f)).dispatchFillToStrategy cfg f with
    engine := s.engine.applyFill ⟨fill, unplaced, cfg.orders.intents, isOpen, false⟩
    portfolio := portfolio
    riskManager := s.riskManager.onFill cfg.limits f
    analytics := s.analytics.onFill f }
  s.setPositionOpen cfg f.symbol isOpen

def checkPostFill (fill : FillEvent) : RiskAction × Sim σ :=
  let r := s.riskManager.checkPostFill cfg.limits fill s.analytics.riskView
  (r.1, { s with riskManager := r.2 })

/-- The positions that `unwind_positions` closes. -/
def openPositions : List (String × ℚ) :=
  cfg.orders.positions.run
    ((s.portfolio.positions.entries.filter fun x => dust ≤ |x.2.qty|).map fun x => (x.1, x.2.qty))

def unwindOrder (qty : ℚ) : OrderEvent × Sim σ :=
  ({ OrderEvent.new cfg.wallClock s.engine.nextOrderId symbol .market
      (if 0 < qty then .sell else .buy) |qty| s.lastMidPrice .gtc 0 with
      strategyName := "risk_unwind" },
    { s with engine := { s.engine with nextOrderId := s.engine.nextOrderId + 1 } })

/-- The order gets its id. -/
def enroll (close : Bool) : OrderEvent × Sim σ :=
  let order := { o with orderId := s.engine.nextOrderId }
  let e :=
    { s.engine with nextOrderId := s.engine.nextOrderId + 1 }.setStatus order.orderId .pending
  (order, { s with
    engine := (e.registerOrderMeta order).act (.accept order close)
    orderTimes := s.orderTimes.insert order.orderId o.earliestEligibleTs })

/-- The part of `route_order` that gives the order its id and rounds it to the instrument's rules;
the answer says whether the order is still good. -/
def accept (close : Bool) : (Bool × OrderEvent) × Sim σ :=
  let r := s.enroll o close
  let rounded := r.2.engine.applySpec r.1
  (rounded, if rounded.1 then
      { r.2 with engine := r.2.engine.act (.shrink r.1 (r.1.quantity - rounded.2.quantity)) }
    else r.2.reject r.1 o.earliestEligibleTs .venueFilter)

/-- A triggered stop is a new order event under the old id. -/
def convertStop (simTime : Int) (stop : OrderEvent) : OrderEvent × Sim σ :=
  (Engine.convertStop simTime stop,
    { s with orderTimes := s.orderTimes.insert stop.orderId simTime })

end Sim

/-! ## The primitives -/

namespace Backtest

inductive Op
  | halted
  | triggerHalt
  | paused
  | midPrice
  | setMidPrice (price : ℚ)
  | replenish (symbol : String) (price : ℚ) (update : Bool) (ts : Int)
  | sweep (symbol : String) (low high : ℚ) (ts : Int)
  | checkOrder (o : OrderEvent)
  | submit (o : OrderEvent)
  | applyFill (f : FillEvent)
  | checkPostFill (f : FillEvent)
  | openPositions
  | unwindOrder (symbol : String) (qty : ℚ)
  | accept (o : OrderEvent) (close : Bool)
  | orderLatency
  /-- Push to `pending_orders_`. -/
  | defer (o : OrderEvent)
  | pendingOrders
  /-- Pop from `pending_orders_`. -/
  | popPending
  | pendingStops
  | setPendingStops (stops : List OrderEvent)
  | convertStop (simTime : Int) (stop : OrderEvent)
  /-- Push to `day_order_ids_`. -/
  | keepDay (symbol : String) (id : Nat)
  | exits (t : Engine.Trigger) (symbol : String) (ts : Int)
  | onMarket (i : Nat) (m : MarketEvent)
  | onTick (i : Nat) (t : Tick)
  | finalize (i : Nat) (o : OrderEvent) (halted : Bool)

abbrev Ans : Op → Type
  | .halted | .paused => Bool
  | .midPrice => ℚ
  | .orderLatency => Int
  | .replenish .. | .sweep .. | .submit .. => List FillEvent
  | .checkOrder _ | .checkPostFill _ => RiskAction
  | .openPositions => List (String × ℚ)
  | .unwindOrder .. | .convertStop .. => OrderEvent
  | .accept .. => Bool × OrderEvent
  | .pendingOrders | .pendingStops | .exits .. => List OrderEvent
  | .onMarket .. | .onTick .. => Option OrderEvent
  | _ => Unit

variable {σ : Type} (cfg : BacktestConfig σ)

def handler : Program.Handler Ans (Sim σ)
  | .halted, s => (s.engine.haltFlag, s)
  | .triggerHalt, s => ((), { s with engine := s.engine.triggerHalt })
  | .paused, s => (s.engine.pauseAll, s)
  | .midPrice, s => (s.lastMidPrice, s)
  | .setMidPrice price, s => ((), { s with lastMidPrice := price })
  | .replenish symbol price update ts, s => s.replenish cfg symbol price update ts
  | .sweep symbol low high ts, s => s.sweep cfg symbol low high ts
  | .checkOrder o, s => s.checkOrder cfg o
  | .submit o, s => s.submit cfg o
  | .applyFill f, s => ((), s.applyFill cfg f)
  | .checkPostFill f, s => s.checkPostFill cfg f
  | .openPositions, s => (s.openPositions cfg, s)
  | .unwindOrder symbol qty, s => s.unwindOrder cfg symbol qty
  | .accept o close, s => s.accept o close
  | .orderLatency, s => (cfg.latency s.latencies, { s with latencies := s.latencies + 1 })
  | .defer o, s => ((), { s with engine := s.engine.defer o })
  | .pendingOrders, s => (s.engine.pendingOrders, s)
  | .popPending, s =>
    ((), { s with engine := { s.engine with pendingOrders := s.engine.pendingOrders.tail } })
  | .pendingStops, s => (s.engine.pendingStops, s)
  | .setPendingStops stops, s => ((), { s with engine := { s.engine with pendingStops := stops } })
  | .convertStop simTime stop, s => s.convertStop simTime stop
  | .keepDay symbol id, s => ((), { s with dayOrderIds := s.dayOrderIds ++ [(symbol, id)] })
  | .exits t symbol ts, s =>
    let r := s.engine.callExits (t.call symbol ts cfg.orders.armed)
    (r.1, { s with engine := r.2 })
  | .onMarket i m, s => s.onMarket cfg i m
  | .onTick i t, s => s.onTick cfg i t
  | .finalize i o halted, s => ((), s.finalizeStrategyRoute cfg i o halted)

end Backtest

end TrueTest
