import TrueTest.Providers.Event
import TrueTest.Risk.RiskManager

/-!
# Analytics

`Analytics` of `analytics/analytics.cpp`: its own cash and positions, the drawdown, and the counts
of orders, fills and closed trades. `risk_view` is what the risk manager reads from it.

A fill against the open position closes what it can at the average entry, less its share of the
commissions; the rest opens. Every fill is one record of `trades`, and every closing one also an
entry of `tradeReturns`.

Left out: the curves and statistics that only the report reads (returns, benchmark, volatility,
slippage, holding times, figures by strategy), funding and depth events.
-/

namespace TrueTest

/-- `open_position`, without the entry time. -/
structure OpenPosition where
  qty : ℚ := 0
  avgEntry : ℚ := 0
  openCommission : ℚ := 0
  lastPrice : ℚ := 0
deriving DecidableEq

/-- `sub_analytics`: the closed trades of one symbol. -/
structure SubAnalytics where
  totalPnl : ℚ := 0
  tradeCount : Nat := 0
  winCount : Nat := 0
  totalWin : ℚ := 0
  totalLoss : ℚ := 0
deriving DecidableEq

def SubAnalytics.record (s : SubAnalytics) (pnl : ℚ) : SubAnalytics where
  totalPnl := s.totalPnl + pnl
  tradeCount := s.tradeCount + 1
  winCount := if 0 < pnl then s.winCount + 1 else s.winCount
  totalWin := if 0 < pnl then s.totalWin + pnl else s.totalWin
  totalLoss := if 0 < pnl then s.totalLoss else s.totalLoss + |pnl|

structure Analytics where
  initialCash : ℚ
  cash : ℚ
  openPositions : AList fun _ : String => OpenPosition
  lastEquity : ℚ
  peakEquity : ℚ
  maxDrawdown : ℚ
  totalOrders : Nat
  totalFills : Nat
  /-- The profit on each fill's record. -/
  trades : List ℚ
  tradeReturns : List ℚ
  winCount : Nat
  totalWin : ℚ
  totalLoss : ℚ
  perSymbol : AList fun _ : String => SubAnalytics

/-! ## One position -/

namespace OpenPosition

variable (f : FillEvent) (p : OpenPosition)

/-- One for a buy, minus one for a sell. -/
def sideSign : OrderSide → ℚ
  | .buy => 1
  | .sell => -1

/-- Whether the fill goes against the position. -/
def closes : Bool := dust < |p.qty| ∧ p.qty * sideSign f.side < 0

def closeQty : ℚ := if p.closes f then min |p.qty| f.filledQuantity else 0

def closeCommission : ℚ := f.commission * (p.closeQty f / f.filledQuantity)

/-- The share of the entry's commissions that the closed part carries. -/
def openCommissionShare : ℚ := p.openCommission * (p.closeQty f / |p.qty|)

def pnl : ℚ :=
  (f.fillPrice - p.avgEntry) * p.closeQty f * (if 0 < p.qty then 1 else -1) - p.closeCommission f -
    p.openCommissionShare f

/-- The closing leg. -/
def close : OpenPosition :=
  let qty := p.qty + sideSign f.side * p.closeQty f
  if |qty| < dust then { p with qty := 0, avgEntry := 0, openCommission := 0 }
  else { p with qty := qty, openCommission := p.openCommission - p.openCommissionShare f }

/-- The opening leg, for what the closing one leaves. -/
def grow (qtyLeft : ℚ) : OpenPosition :=
  { p with
    avgEntry := (p.avgEntry * |p.qty| + f.fillPrice * qtyLeft) / (|p.qty| + qtyLeft)
    qty := p.qty + sideSign f.side * qtyLeft
    openCommission := p.openCommission + f.commission * (qtyLeft / f.filledQuantity) }

end OpenPosition

/-! ## Events -/

namespace Analytics

def init (cash : ℚ) : Analytics where
  initialCash := cash
  cash := cash
  openPositions := ∅
  lastEquity := 0
  peakEquity := cash
  maxDrawdown := 0
  totalOrders := 0
  totalFills := 0
  trades := []
  tradeReturns := []
  winCount := 0
  totalWin := 0
  totalLoss := 0
  perSymbol := ∅

/-- `reset`: every member as it is constructed. -/
def reset (_ : Analytics) (cash : ℚ) : Analytics := init cash

variable (a : Analytics)

def position (symbol : String) : OpenPosition :=
  (a.openPositions.lookup symbol).getD {}

def positionValue : ℚ :=
  (a.openPositions.entries.map fun x => if dust < |x.2.qty| then x.2.qty * x.2.lastPrice else 0).sum

/-- Mark a symbol at a price. -/
def mark (symbol : String) (price : ℚ) : Analytics :=
  let a := { a with
    openPositions := a.openPositions.insert symbol { a.position symbol with lastPrice := price } }
  { a with lastEquity := a.cash + a.positionValue }

/-- A bar also moves the peak and the drawdown. -/
def onMarket (m : MarketEvent) : Analytics :=
  let a := a.mark m.symbol m.close
  let peak := max a.peakEquity a.lastEquity
  { a with
    peakEquity := peak
    maxDrawdown := if 0 < peak then max a.maxDrawdown ((peak - a.lastEquity) / peak)
      else a.maxDrawdown }

def onTick (t : Tick) : Analytics := a.mark t.symbol t.price

def onOrder : Analytics := { a with totalOrders := a.totalOrders + 1 }

/-- The books of a closing leg. -/
def recordClose (f : FillEvent) (p : OpenPosition) : Analytics :=
  let pnl := p.pnl f
  let qty := p.closeQty f
  { a with
    cash := a.cash + (-OpenPosition.sideSign f.side * qty * f.fillPrice - p.closeCommission f)
    tradeReturns := a.tradeReturns ++ [pnl]
    winCount := if 0 < pnl then a.winCount + 1 else a.winCount
    totalWin := if 0 < pnl then a.totalWin + pnl else a.totalWin
    totalLoss := if 0 < pnl then a.totalLoss else a.totalLoss + |pnl|
    perSymbol := a.perSymbol.insert f.symbol
      (((a.perSymbol.lookup f.symbol).getD {}).record pnl) }

/-- The position that a fill meets, marked at its price. -/
def met (f : FillEvent) : OpenPosition :=
  { a.position f.symbol with lastPrice := f.fillPrice }

/-- The opening leg and the record of the fill. -/
def recordFill (f : FillEvent) (p : OpenPosition) (qtyLeft pnl : ℚ) : Analytics :=
  let opens : Bool := dust < qtyLeft
  { a with
    totalFills := a.totalFills + 1
    cash := if opens then
        a.cash - (OpenPosition.sideSign f.side * qtyLeft * f.fillPrice +
          f.commission * (qtyLeft / f.filledQuantity))
      else a.cash
    openPositions := a.openPositions.insert f.symbol (if opens then p.grow f qtyLeft else p)
    trades := a.trades ++ [pnl] }

def onFill (f : FillEvent) : Analytics :=
  let p := a.met f
  let qtyLeft := f.filledQuantity - p.closeQty f
  if p.closes f then (a.recordClose f p).recordFill f (p.close f) qtyLeft (p.pnl f)
  else a.recordFill f p qtyLeft 0

/-- What the risk manager reads. The spread and the funding rate come from depth and funding
events. -/
def riskView : RiskSnapshot where
  maxDrawdown := a.maxDrawdown * 100
  totalOrders := a.totalOrders
  totalFills := a.totalFills
  lastTradePnl := a.trades.getLast?.getD 0
  hasLastTrade := !a.trades.isEmpty
  lastTradeSeq := a.trades.length
  equity := a.lastEquity

/-! ## Counts -/

/-- The analytics with more orders counted. -/
def withOrders (n : Nat) : Analytics := { a with totalOrders := a.totalOrders + n }

section WithOrders

variable (n : Nat)

@[simp] theorem withOrders_onOrder : (a.withOrders n).onOrder = a.onOrder.withOrders n := by
  simp [withOrders, onOrder, Nat.add_right_comm]

@[simp] theorem withOrders_onFill (f : FillEvent) :
    (a.withOrders n).onFill f = (a.onFill f).withOrders n := by
  have hmet : (a.withOrders n).met f = a.met f := rfl
  rw [onFill, onFill, hmet]
  split <;> rfl

end WithOrders

@[simp] theorem totalFills_onFill (f : FillEvent) : (a.onFill f).totalFills = a.totalFills + 1 := by
  rw [onFill]
  split <;> rfl

@[simp] theorem totalOrders_onFill (f : FillEvent) : (a.onFill f).totalOrders = a.totalOrders := by
  rw [onFill]
  split <;> rfl

end Analytics

end TrueTest
