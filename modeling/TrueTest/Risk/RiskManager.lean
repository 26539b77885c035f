import TrueTest.Execution.Portfolio

/-!
# The risk manager

`RiskManager` of `risk/risk_manager.cpp`: the check of an order before it is submitted, and the
check after a fill. An order is held against the position of its symbol as it is at that moment. An
order that makes the position smaller passes the limits on positions and on exposure, whatever they
are.

Times are in nanoseconds since the epoch. The snapshot of analytics and the time of an order event
are inputs; limits that no check reads are left out.
-/

namespace TrueTest

inductive RiskAction
  | pass
  | reject
  | halt
  | unwind
deriving DecidableEq, Repr

structure RiskLimits where
  maxPositionValue : ℚ := 10 ^ 9
  maxDrawdown : ℚ := 3 / 10
  maxLossPerTrade : ℚ := 10000
  maxOpenOrders : Int := 1000
  maxPortfolioExposure : ℚ := 5 * 10 ^ 9
  maxDailyLoss : ℚ := 0
  dailyResetHour : Int := 0
  maxTradesPerHour : Int := 0
  maxOrdersPerMinute : Int := 0
  maxPositionPctOfEquity : ℚ := 0
  maxSpreadBps : ℚ := 0
  maxFunding8hRate : ℚ := 0

/-- What analytics reports to the checks. -/
structure RiskSnapshot where
  maxDrawdown : ℚ := 0
  totalOrders : Nat := 0
  totalFills : Nat := 0
  lastTradePnl : ℚ := 0
  hasLastTrade : Bool := false
  lastTradeSeq : Nat := 0
  equity : ℚ := 0
  currentSpreadBps : ℚ := 0
  currentFunding8hRate : ℚ := 0

structure RiskManager where
  orderTimestamps : List Int
  tradeTimestamps : List Int
  dailyLoss : ℚ
  /-- Zero until the first use. -/
  dailyResetTp : Int
  lastDailyTradeSeqAdded : Nat

/-! ## The position an order leads to -/

def signedOrderQuantity (o : OrderEvent) : ℚ :=
  match o.side with
  | .buy => o.quantity
  | .sell => -o.quantity

def positionPrice (pos : Position) : ℚ := if dust < |pos.qty| then |pos.costBasis / pos.qty| else 0

def valuationPrice (o : OrderEvent) (pos : Option Position) : ℚ :=
  if 0 < o.price then o.price else (pos.map positionPrice).getD 0

def projectedPositionQty (o : OrderEvent) (pos : Option Position) : ℚ :=
  (pos.map Position.qty).getD 0 + signedOrderQuantity o

def projectedPositionNotional (o : OrderEvent) (pos : Option Position) : ℚ :=
  |projectedPositionQty o pos| * valuationPrice o pos

def reducesPositionExposure (o : OrderEvent) : Option Position → Bool
  | none => false
  | some pos => |projectedPositionQty o (some pos)| < |pos.qty| - dust

/-- The exposure of all symbols, with the position that the order leads to. -/
def projectedTotalExposure (o : OrderEvent) (p : Portfolio) : ℚ :=
  let notional := projectedPositionNotional o (p.positions.lookup o.symbol)
  (p.positions.entries.map fun x => if x.1 = o.symbol then notional else |x.2.costBasis|).sum +
    if (p.positions.lookup o.symbol).isNone then notional else 0

namespace RiskManager

def init : RiskManager := ⟨[], [], 0, 0, 0⟩

def second : Int := 10 ^ 9

def hour : Int := 3600 * second

def day : Int := 24 * hour

/-- `prune_old_entries`. -/
def prune (entries : List Int) (cutoff : Int) : List Int := entries.dropWhile (· < cutoff)

variable (limits : RiskLimits) (rm : RiskManager)

/-- The next boundary of a trading day; without one yet, the first after `now`. -/
def resetBoundary (now : Int) : Int :=
  if rm.dailyResetTp = 0 then
    let boundary := now / day * day + limits.dailyResetHour * hour
    if boundary ≤ now then boundary + day else boundary
  else rm.dailyResetTp

def updateDailyReset (now : Int) : RiskManager :=
  let tp := rm.resetBoundary limits now
  -- The loop adds whole days until the boundary is past `now`.
  if tp ≤ now then { rm with dailyLoss := 0, dailyResetTp := tp + ((now - tp) / day + 1) * day }
  else { rm with dailyResetTp := tp }

/-! ## Before an order -/

/-- The limits on the position and the exposure that an order leads to. -/
def breaksPositionLimits (o : OrderEvent) (p : Portfolio) (snap : RiskSnapshot) : Bool :=
  let notional := projectedPositionNotional o (p.positions.lookup o.symbol)
  let total := projectedTotalExposure o p
  let byEquity : Bool := 0 < limits.maxPositionPctOfEquity ∧ 0 < snap.equity
  let ofEquity := snap.equity * limits.maxPositionPctOfEquity
  ¬ reducesPositionExposure o (p.positions.lookup o.symbol) ∧
    (limits.maxPositionValue < notional ∨ (byEquity ∧ ofEquity < notional) ∨
      limits.maxPortfolioExposure < total ∨ (byEquity ∧ ofEquity < total))

/-- A circuit breaker: past the limit it rejects, far past it halts. -/
def breaker (limit current escalation : ℚ) : Option RiskAction :=
  if 0 < limit ∧ limit < current then
    some (if limit * escalation < current then .halt else .reject)
  else none

/-- `max_orders_per_minute`: whether the order is one too many, and the times of the last minute. -/
def countOrder (now : Int) : Bool × RiskManager :=
  if 0 < limits.maxOrdersPerMinute then
    let recent := prune rm.orderTimestamps (now - 60 * second)
    if limits.maxOrdersPerMinute ≤ recent.length then (true, { rm with orderTimestamps := recent })
    else (false, { rm with orderTimestamps := recent ++ [now] })
  else (false, rm)

/-- The part of `check_order` behind the circuit breakers. -/
def checkRates (now : Int) : RiskAction × RiskManager :=
  let s := rm.countOrder limits now
  if s.1 then (.reject, s.2)
  else if 0 < limits.maxDailyLoss then
    let rm := s.2.updateDailyReset limits now
    (if limits.maxDailyLoss ≤ rm.dailyLoss then .halt else .pass, rm)
  else (.pass, s.2)

/-- `check_order`. The number of open orders is a `size_t` difference, cut to an `int`. -/
def checkOrder (o : OrderEvent) (now : Int) (p : Portfolio)
    (snap : RiskSnapshot) : RiskAction × RiskManager :=
  if limits.maxDrawdown ≤ snap.maxDrawdown / 100 then (.halt, rm)
  else if limits.maxOpenOrders ≤ ((snap.totalOrders : Int) - snap.totalFills).bmod (2 ^ 32) then
    (.reject, rm)
  else if breaksPositionLimits limits o p snap then (.reject, rm)
  else match breaker limits.maxSpreadBps snap.currentSpreadBps 2 with
    | some action => (action, rm)
    | none => match breaker limits.maxFunding8hRate snap.currentFunding8hRate (3 / 2) with
      | some action => (action, rm)
      | none => rm.checkRates limits now

/-! ## After a fill -/

def onFill (f : FillEvent) : RiskManager :=
  let rm := if 0 < limits.maxTradesPerHour then
      { rm with tradeTimestamps := prune rm.tradeTimestamps (f.timestamp - hour) ++ [f.timestamp] }
    else rm
  if 0 < limits.maxDailyLoss then rm.updateDailyReset limits f.timestamp else rm

/-- The loss of the last trade, counted once. -/
def addLoss (snap : RiskSnapshot) : RiskManager :=
  if snap.hasLastTrade ∧ snap.lastTradeSeq ≠ 0 ∧ snap.lastTradePnl < 0 ∧
      snap.lastTradeSeq ≠ rm.lastDailyTradeSeqAdded then
    { rm with
      dailyLoss := rm.dailyLoss + -snap.lastTradePnl
      lastDailyTradeSeqAdded := snap.lastTradeSeq }
  else rm

def checkPostFill (f : FillEvent) (snap : RiskSnapshot) : RiskAction × RiskManager :=
  if limits.maxDrawdown ≤ snap.maxDrawdown / 100 then (.halt, rm)
  else if snap.hasLastTrade ∧ snap.lastTradePnl < -limits.maxLossPerTrade then (.halt, rm)
  else if 0 < limits.maxTradesPerHour ∧ limits.maxTradesPerHour ≤ rm.tradeTimestamps.length then
    (.halt, rm)
  else if 0 < limits.maxDailyLoss then
    let rm := (rm.updateDailyReset limits f.timestamp).addLoss snap
    (if limits.maxDailyLoss ≤ rm.dailyLoss then .halt else .pass, rm)
  else (.pass, rm)

/-- An order that passes leads to a position within the limit, or makes the position smaller. -/
theorem within_of_pass {limits : RiskLimits} {rm : RiskManager} {o : OrderEvent} {now : Int}
    {p : Portfolio} {snap : RiskSnapshot} (h : (rm.checkOrder limits o now p snap).1 = .pass)
    (hopens : ¬ reducesPositionExposure o (p.positions.lookup o.symbol)) :
    projectedPositionNotional o (p.positions.lookup o.symbol) ≤ limits.maxPositionValue := by
  rw [checkOrder] at h
  by_contra hover
  have hbreaks : breaksPositionLimits limits o p snap = true := by
    simp [breaksPositionLimits, hopens, not_le.1 hover]
  split_ifs at h

end RiskManager

end TrueTest
