import TrueTest.Backtest.Backtest

/-!
# The backtest engine: event loops

`process_order`, `route_order`, `check_pending_stops`, `evaluate_exits` and the rest of the order
path as programs over the primitives, and over them the loops of `run`, `run_tick_data` and
`run_replay`.

The source passes a flag `halt_requested` along with the halt flag itself. Within a call the two are
raised together, so the programs read the halt flag alone; one that returns a `Bool` returns `false`
where its source reports a halt to the caller.

`run_replay` reads events back from a log. A bar or tick goes through the same steps as in the run,
except that a tick leaves the synthetic book where it was; every other event is only passed to
analytics. The log keeps times in microseconds.
-/

namespace TrueTest

open Machine Program

namespace Backtest

abbrev M (α : Type) := Program Op Ans α

abbrev call (o : Op) : M (Ans o) := op o

/-! ## Fills -/

/-- One iteration of `unwind_positions` without the fills' post-fill check. -/
def applyFills : List FillEvent → M Unit
  | [] => pure ()
  | f :: fs => do
    call (.applyFill f)
    applyFills fs

def unwindAll : List (String × ℚ) → M Unit
  | [] => pure ()
  | (symbol, qty) :: rest => do
    let o ← call (.unwindOrder symbol qty)
    let fills ← call (.submit o)
    applyFills fills
    unwindAll rest

def unwindPositions : M Unit := do
  let positions ← call .openPositions
  unwindAll positions

section Orders

variable (cfg : EngineConfig)

/-- Unwind if the configuration asks for it, then halt. -/
def riskHalt : M Unit := do
  onlyIf cfg.riskUnwind unwindPositions
  call .triggerHalt

/-- `process_adapter_fills`, for a batch that is polled. -/
def handleFills : List FillEvent → M Bool
  | [] => pure true
  | f :: fs => do
    call (.applyFill f)
    let action : RiskAction ← call (.checkPostFill f)
    if action = .halt then
      riskHalt cfg
      return false
    else handleFills fs

/-- `deliver_mm_book_trades` behind a replenishment of the book. -/
def replenish (symbol : String) (price : ℚ) (update : Bool) (ts : Int) : M Unit := do
  let fills ← call (.replenish symbol price update ts)
  let _ ← handleFills cfg fills

/-! ## Orders -/

def processOrder (o : OrderEvent) : M Bool := do
  if ← call .halted then return false
  else
    let action : RiskAction ← call (.checkOrder o)
    match action with
    | .halt =>
      riskHalt cfg
      return false
    | .reject => return true
    | .pass | .unwind =>
      let fills ← call (.submit o)
      handleFills cfg fills

def keepDay (o : OrderEvent) : M Unit :=
  onlyIf (o.tif = .day) (call (.keepDay o.symbol o.orderId))

/-- Process an order with the synthetic book moved to a reference price. -/
def anchored (o : OrderEvent) (ref : ℚ) (simTime : Int) : M Bool := do
  let barMid ← call .midPrice
  onlyIf (0 < ref ∧ ref ≠ barMid) do
    replenish cfg o.symbol ref false simTime
    call (.setMidPrice ref)
  keepDay o
  let ok ← processOrder cfg o
  call (.setMidPrice barMid)
  return ok

/-- The part of `route_order` behind the instrument's rules. -/
def dispatch (o : OrderEvent) (simTime : Int) (anchorImmediate : Bool) : M Bool := do
  if o.orderType = .stop ∨ o.orderType = .stopLimit then
    let stops ← call .pendingStops
    call (.setPendingStops (stops ++ [o]))
    return true
  else if anchorImmediate then anchored cfg { o with earliestEligibleTs := simTime } o.price simTime
  else if cfg.hasLatencyModel then
    let latency ← call .orderLatency
    call (.defer { o with earliestEligibleTs := simTime + latency })
    return true
  else if 0 < cfg.executionBarDelay then
    call (.defer { o with earliestEligibleTs := simTime + 1 })
    return true
  else
    keepDay o
    processOrder cfg { o with earliestEligibleTs := simTime }

/-- `route_order`; the order keeps the id it is given. -/
def routeOrder (o : OrderEvent) (simTime : Int) (anchorImmediate : Bool) : M (Bool × OrderEvent) :=
  do
  if ← call .halted then return (false, o)
  else if ← call .paused then return (true, o)
  else
    let rounded ← call (.accept o anchorImmediate)
    if rounded.1 then
      let ok ← dispatch cfg rounded.2 simTime anchorImmediate
      return (ok, rounded.2)
    else return (true, rounded.2)

/-! ## Deferred orders, stops and exits -/

/-- The orders that are eligible, or all of them; as many as wait when the loop starts. -/
def drainLoop (until_ : Option Int) : Nat → M Unit
  | 0 => pure ()
  | n + 1 => do
    let pending : List OrderEvent ← call .pendingOrders
    match pending with
    | [] => pure ()
    | o :: _ =>
      let halted ← call .halted
      if halted ∨ until_.any (· < o.earliestEligibleTs) then pure ()
      else
        call .popPending
        keepDay o
        if ← processOrder cfg o then drainLoop until_ n else pure ()

def drainPending (until_ : Option Int) : M Unit := do
  let pending ← call .pendingOrders
  drainLoop cfg until_ pending.length

/-- Where a triggered stop fills: at the stop, or at the open that gapped through it. -/
def stopReference (open_ : ℚ) (stop : OrderEvent) : ℚ :=
  match stop.side with
  | .buy => if stop.stopPrice ≤ open_ then open_ else stop.stopPrice
  | .sell => if open_ ≤ stop.stopPrice then open_ else stop.stopPrice

/-- A triggered stop: the book of its symbol moves to the reference price and the order is
processed. -/
def triggerStop (open_ : ℚ) (simTime : Int) (stop : OrderEvent) : M Bool := do
  let barMid ← call .midPrice
  let ref := stopReference open_ stop
  call (.setMidPrice ref)
  onlyIf (ref ≠ barMid) (replenish cfg stop.symbol ref false simTime)
  let o ← call (.convertStop simTime stop)
  keepDay o
  let ok ← processOrder cfg o
  call (.setMidPrice barMid)
  return ok

/-- The loop of `check_pending_stops`: the stops already passed that stay, and those to come. -/
def checkStops (open_ high low : ℚ) (simTime : Int) : List OrderEvent → List OrderEvent → M Unit
  | kept, [] => call (.setPendingStops kept)
  | kept, stop :: rest => do
    if ← call .halted then call (.setPendingStops (kept ++ stop :: rest))
    else if Engine.stopTriggered high low stop then
      if ← triggerStop cfg open_ simTime stop then checkStops open_ high low simTime kept rest
      else call (.setPendingStops (kept ++ stop :: rest))
    else checkStops open_ high low simTime (kept ++ [stop]) rest

def checkPendingStops (open_ high low : ℚ) (simTime : Int) : M Unit := do
  let stops ← call .pendingStops
  checkStops cfg open_ high low simTime [] stops

/-- Route the closes of a trigger until one of them halts the engine. -/
def routeCloses (ts : Int) : List OrderEvent → M Bool
  | [] => pure true
  | c :: cs => do
    let r ← routeOrder cfg c ts true
    if r.1 then routeCloses ts cs else return false

/-- `evaluate_exits`; false after a halt, where the source returns true. -/
def evaluateExits (t : Engine.Trigger) (symbol : String) (ts : Int) : M Bool := do
  let closes ← call (.exits t symbol ts)
  routeCloses cfg ts closes

def sweepRestingLimits (symbol : String) (low high : ℚ) (ts : Int) : M Unit := do
  let fills ← call (.sweep symbol low high ts)
  let _ ← handleFills cfg fills

/-! ## Strategies -/

/-- Route the order of a callback, if there is one. -/
def routeStrategy (i : Nat) (ts : Int) (order : Option OrderEvent) : M Unit :=
  match order with
  | none => pure ()
  | some o => do
    let r ← routeOrder cfg o ts false
    call (.finalize i r.2 (!r.1))

/-- The additional strategies from index `i` on: each evaluates the exits once more. -/
def dispatchExtras (t : Engine.Trigger) (symbol : String) (ts : Int)
    (callback : Nat → M (Option OrderEvent)) : Nat → Nat → M Unit
  | _, 0 => pure ()
  | i, n + 1 => do
    if ← call .halted then pure ()
    else if ← evaluateExits cfg t symbol ts then
      let order ← callback i
      routeStrategy cfg i ts order
      dispatchExtras t symbol ts callback (i + 1) n
    else pure ()

/-- Exits, then the primary strategy, then the additional ones. The answer is false if the exits or
the primary strategy's order halted the engine; the additional ones do not tell. -/
def decideWith (count : Nat) (t : Engine.Trigger) (symbol : String) (ts : Int)
    (callback : Nat → M (Option OrderEvent)) : M Bool := do
  if ← evaluateExits cfg t symbol ts then
    let halted ← call .halted
    if count = 0 ∨ halted then return true
    else
      let order ← callback 0
      routeStrategy cfg 0 ts order
      if ← call .halted then return false
      else
        dispatchExtras cfg t symbol ts callback 1 (count - 1)
        return true
  else return false

def barTrigger (m : MarketEvent) : Engine.Trigger := .bar m.open_ m.low m.high m.close

def decideOnMarket (count : Nat) (m : MarketEvent) : M Bool :=
  decideWith cfg count (barTrigger m) m.symbol m.timestamp fun i => call (.onMarket i m)

def decideOnTick (count : Nat) (t : Tick) : M Bool :=
  decideWith cfg count (.price t.price) t.symbol t.timestamp fun i => call (.onTick i t)

/-! ## One event -/

/-- The open of a bar: the deferred orders fill at it. -/
def openBar (m : MarketEvent) : M Unit := do
  call (.setMidPrice m.open_)
  let pending ← call .pendingOrders
  onlyIf (pending.head?.any (·.earliestEligibleTs ≤ m.timestamp))
    (replenish cfg m.symbol m.open_ false m.timestamp)
  drainPending cfg (some m.timestamp)

def stopBar (m : MarketEvent) : M Unit := do
  call (.setMidPrice m.close)
  checkPendingStops cfg m.open_ m.high m.low m.timestamp

/-- The resting orders that the bar's range reaches, and new quotes at the close. -/
def sweepBar (m : MarketEvent) : M Bool := do
  sweepRestingLimits cfg m.symbol m.low m.high m.timestamp
  if ← call .halted then return false
  else
    replenish cfg m.symbol m.close true m.timestamp
    return true

/-- The part of a bar before it is logged; `checksHalt` is the check that only the replay makes
between the stops and the sweep. The answer is false if the loop is left. -/
def barHead (checksHalt : Bool) (m : MarketEvent) : M Bool := do
  openBar cfg m
  if ← call .halted then return false
  else
    stopBar cfg m
    let halted ← call .halted
    if checksHalt ∧ halted then return false else sweepBar cfg m

/-- The part of a tick before it is logged; the replay does not quote. -/
def tickHead (quotes : Bool) (t : Tick) : M Bool := do
  call (.setMidPrice t.price)
  onlyIf quotes (replenish cfg t.symbol t.price true t.timestamp)
  drainPending cfg (some t.timestamp)
  if ← call .halted then return false
  else
    checkPendingStops cfg t.price t.price t.price t.timestamp
    let halted ← call .halted
    return !halted

end Orders

/-! ## The loops -/

section Loops

variable {σ : Type} (cfg : BacktestConfig σ)

def exec {α : Type} (p : M α) (s : Sim σ) : Sim σ := (p.run (handler cfg) s).2

/-- The head of a run: the event logger, `start_workers` and `clear_pending_state`. -/
def start (logs : Bool) (s : Sim σ) : Sim σ :=
  { s with
    log := if logs then some [] else none
    dayOrderIds := []
    engine := { s.engine with haltFlag := false, pendingOrders := [], pendingStops := [] } }

/-- Log a bar and pass it to analytics. -/
def market (m : MarketEvent) (s : Sim σ) : Sim σ :=
  { s.record (.market m) with analytics := s.analytics.onMarket m }

def tick (t : Tick) (s : Sim σ) : Sim σ :=
  { s.record (.tick t) with analytics := s.analytics.onTick t }

/-- One iteration of the loop over the bars. -/
def runBar (checksHalt : Bool) (m : MarketEvent) (s : Sim σ) : Sim σ :=
  let r := (barHead cfg.engine checksHalt m).run (handler cfg) s
  if r.1 then exec cfg (decideOnMarket cfg.engine cfg.strategies.length m) (market m r.2) else r.2

/-- The loop of `run`; without a strategy it is left after the first bar. -/
def runBars : List MarketEvent → Sim σ → Sim σ
  | [], s => s
  | m :: ms, s =>
    if s.engine.haltFlag then s
    else if cfg.strategies.isEmpty then runBar cfg false m s
    else runBars ms (runBar cfg false m s)

/-- `cancel_day_orders`: straight on the registry's books. -/
def cancelDayOrders (s : Sim σ) : Sim σ :=
  { s with registry := s.dayOrderIds.foldl (fun registry x =>
      match registry.lookup x.1 with
      | some book => registry.insert x.1 (book.cancelOrder x.2)
      | none => registry) s.registry }

def drainFinalPending (s : Sim σ) : Sim σ := exec cfg (drainPending cfg.engine none) s

def runBarData (ms : List MarketEvent) (s : Sim σ) : Sim σ :=
  cancelDayOrders (drainFinalPending cfg (runBars cfg ms (start cfg.logs s)))

/-! ### Ticks -/

abbrev OpenBar := Option MarketEvent

def barInterval : Int := 10 ^ 9

/-- `BarAggregator::on_tick`: the bar that is completed, and the one that is open. Times are
compared in whole milliseconds. -/
def aggregate (b : OpenBar) (t : Tick) : Option MarketEvent × OpenBar :=
  let opened : MarketEvent :=
    ⟨t.timestamp, t.symbol, t.price, t.price, t.price, t.price, t.quantity⟩
  match b with
  | none => (none, some opened)
  | some bar =>
    if barInterval ≤ (t.timestamp - bar.timestamp).tdiv (10 ^ 6) * 10 ^ 6 then
      (some bar, some opened)
    else (none, some { bar with
      high := max bar.high t.price
      low := min bar.low t.price
      close := t.price
      volume := bar.volume + t.quantity })

/-- The aggregator's callback. The bar is not logged. -/
def emitBar (m : MarketEvent) (s : Sim σ) : Sim σ :=
  exec cfg (decideOnMarket cfg.engine cfg.strategies.length m)
    { s with analytics := s.analytics.onMarket m }

/-- One iteration of the loop over the ticks. -/
def runTick (t : Tick) (s : Sim σ × OpenBar) : Sim σ × OpenBar :=
  let r := (tickHead cfg.engine true t).run (handler cfg) s.1
  if r.1 then
    let d := (decideOnTick cfg.engine cfg.strategies.length t).run (handler cfg) (tick t r.2)
    if d.1 then
      let b := aggregate s.2 t
      (match b.1 with
        | some bar => emitBar cfg bar d.2
        | none => d.2, b.2)
    else (d.2, s.2)
  else (r.2, s.2)

def runTicks : List Tick → Sim σ × OpenBar → Sim σ × OpenBar
  | [], s => s
  | t :: ts, s => if s.1.engine.haltFlag then s else runTicks ts (runTick cfg t s)

/-- The last bar is emitted even if it is not complete. -/
def flush (s : Sim σ × OpenBar) : Sim σ :=
  match s.2 with
  | some bar => emitBar cfg bar s.1
  | none => s.1

def runTickData (ts : List Tick) (s : Sim σ) : Sim σ :=
  drainFinalPending cfg (flush cfg (runTicks cfg ts (start cfg.logs s, none)))

/-! ### Both -/

/-- What the data handler has loaded. -/
inductive MarketData
  | bars (ms : List MarketEvent)
  | ticks (ts : List Tick)

def run : MarketData → Sim σ → Sim σ
  | .bars ms => runBarData cfg ms
  | .ticks ts => runTickData cfg ts

/-! ### Replay -/

/-- A time as the log keeps it. -/
def truncateToMicros (ts : Int) : Int := ts.tdiv 1000 * 1000

/-- One iteration of the loop over the log. An event that is not a price goes to analytics alone,
which counts orders and fills. -/
def replayEvent (ev : Logged) (s : Sim σ) : Sim σ :=
  match ev with
  | .market m => runBar cfg true { m with timestamp := truncateToMicros m.timestamp } s
  | .tick t =>
    let t := { t with timestamp := truncateToMicros t.timestamp }
    let r := (tickHead cfg.engine false t).run (handler cfg) s
    if r.1 then exec cfg (decideOnTick cfg.engine cfg.strategies.length t) (tick t r.2) else r.2
  | .order _ => { s with analytics := s.analytics.onOrder }
  | .fill f => { s with analytics := s.analytics.onFill f }
  | .rejection .. => s

def replayEvents : List Logged → Sim σ → Sim σ
  | [], s => s
  | ev :: evs, s => if s.engine.haltFlag then s else replayEvents evs (replayEvent cfg ev s)

/-- `run_replay`. No event logger is created. -/
def runReplay (log : List Logged) (s : Sim σ) : Sim σ :=
  cancelDayOrders (drainFinalPending cfg (replayEvents cfg log (start false s)))

end Loops

/-! ### A plain configuration -/

/-- One strategy `"s"`, orders that wait for the next bar, and a ladder of one level with a spread
of 0.2% to each side. -/
def plain {σ : Type} (strategy : Strategy σ) : BacktestConfig σ where
  engine := {
    shadow := false
    riskUnwind := false
    haltOnDrop := false
    hasLatencyModel := false
    executionBarDelay := 1
    exitDefaults := { mode := .strategyOnly }
    primaryStrategyName := "s"
    additionalStrategyNames := []
    hasBracketAdapter := false
    instrument := fun _ => none
    asyncSubmit := fun _ => false }
  limits := {}
  book := { LocalBook.plainConfig with qtyScale := 10 ^ 8, qtyScale_pos := by norm_num }
  calibration := { levelsPerSide := 1 }
  initialBalance := 10000
  fillRngSeed := 42
  logs := true
  strategies := [strategy]
  draw := fun _ _ => 0
  latency := fun _ => 0
  wallClock := 0
  -- A constant price has no volatility.
  sqrt := fun _ => 0
  orders := ⟨.id, .id, .id, .id⟩

/-- Buy one unit on the first bar. -/
def buyOnce : Strategy Bool := .ofMarket fun m bought =>
  (if bought then none else some (.new m.timestamp 0 m.symbol .market .buy 1 m.close .gtc 0), true)

/-- A bar without movement. -/
def flatBar (ts : Int) (price : ℚ) : MarketEvent := ⟨ts, "X", price, price, price, price, 1⟩

end Backtest

end TrueTest
