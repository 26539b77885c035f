import Mathlib.Algebra.BigOperators.Group.Finset.Basic
import TrueTest.Core.Event
import TrueTest.Util.AverageCost

/-!
# The portfolio

`portfolio` of `execution/portfolio.cpp`: cash, the netted position of each symbol, and the lots. A
fill against the netted position closes what it can and releases that part of the cost basis; the
rest of the fill opens. Commissions are charged to cash leg by leg, and the opening leg's commission
goes into the cost basis too.

The cost basis is therefore the average cost of the position plus the commissions of what is open,
and cash and cost basis together have moved by the realized profit, less the commissions that are no
longer in a basis, plus funding.
-/

namespace TrueTest

structure Position where
  qty : ℚ
  costBasis : ℚ
deriving DecidableEq

structure Lot where
  symbol : String
  side : OrderSide
  qtyOpen : ℚ
  entryPrice : ℚ
  entryFilledQty : ℚ
  strategyName : String
  tsOpen : Int

structure Portfolio where
  initialBalance : ℚ
  cash : ℚ
  positions : AList fun _ : String => Position
  lots : AList fun _ : Nat => Lot
  totalTrades : Nat
  totalFills : Nat
  totalFundingPnl : ℚ

/-- The part of a fill's commission that a leg pays. -/
def FillEvent.commFor (f : FillEvent) (q : ℚ) : ℚ :=
  if dust < f.filledQuantity then f.commission * (q / f.filledQuantity) else 0

/-! ## Netting a fill -/

/-- What `apply_netted_fill` changes. -/
structure Netting where
  cash : ℚ
  pos : Position
  totalTrades : Nat

namespace Netting

variable (f : FillEvent) (n : Netting)

/-- The closing leg of a buy. -/
def coverShort (closeQty : ℚ) : Netting :=
  let fracClosed := closeQty / -n.pos.qty
  let cash := n.cash - (closeQty * f.fillPrice + f.commFor closeQty)
  let pos : Position := ⟨n.pos.qty + closeQty, n.pos.costBasis * (1 - fracClosed)⟩
  if |pos.qty| < dust then ⟨cash, ⟨0, 0⟩, n.totalTrades + 1⟩ else ⟨cash, pos, n.totalTrades⟩

/-- The opening leg of a buy. -/
def openLong (qty : ℚ) : Netting where
  cash := n.cash - (qty * f.fillPrice + f.commFor qty)
  pos := ⟨n.pos.qty + qty, n.pos.costBasis + (qty * f.fillPrice + f.commFor qty)⟩
  totalTrades := n.totalTrades

def applyBuy : Netting :=
  if n.pos.qty < 0 then
    let closeQty := min f.filledQuantity (-n.pos.qty)
    let closed := n.coverShort f closeQty
    if f.filledQuantity - closeQty < dust then closed
    else closed.openLong f (f.filledQuantity - closeQty)
  else n.openLong f f.filledQuantity

/-- The closing leg of a sell. -/
def closeLong (closeQty : ℚ) : Netting :=
  let fracClosed := closeQty / n.pos.qty
  let cash := n.cash + (closeQty * f.fillPrice - f.commFor closeQty)
  let pos : Position := ⟨n.pos.qty - closeQty, n.pos.costBasis * (1 - fracClosed)⟩
  if pos.qty < dust then ⟨cash, ⟨0, 0⟩, n.totalTrades + 1⟩ else ⟨cash, pos, n.totalTrades⟩

/-- The opening leg of a sell. -/
def openShort (qty : ℚ) : Netting where
  cash := n.cash + (qty * f.fillPrice - f.commFor qty)
  pos := ⟨n.pos.qty - qty, n.pos.costBasis - (qty * f.fillPrice - f.commFor qty)⟩
  totalTrades := n.totalTrades

def applySell : Netting :=
  if 0 < n.pos.qty then
    let closeQty := min f.filledQuantity n.pos.qty
    let closed := n.closeLong f closeQty
    if f.filledQuantity - closeQty < dust then closed
    else closed.openShort f (f.filledQuantity - closeQty)
  else n.openShort f f.filledQuantity

def apply : Netting :=
  match f.side with
  | .buy => n.applyBuy f
  | .sell => n.applySell f

end Netting

/-! ## The portfolio -/

namespace Portfolio

def init (balance : ℚ) : Portfolio where
  initialBalance := balance
  cash := balance
  positions := ∅
  lots := ∅
  totalTrades := 0
  totalFills := 0
  totalFundingPnl := 0

variable (p : Portfolio)

/-- A symbol without an entry has the position that `positions_[symbol]` creates. -/
def position (symbol : String) : Position :=
  (p.positions.lookup symbol).getD ⟨0, 0⟩

def positionOpen (symbol : String) : Bool :=
  (p.positions.lookup symbol).any fun pos => dust < |pos.qty|

def applyNettedFill (f : FillEvent) : Portfolio :=
  let n := Netting.apply f ⟨p.cash, p.position f.symbol, p.totalTrades⟩
  { p with
    cash := n.cash
    positions := p.positions.insert f.symbol n.pos
    totalTrades := n.totalTrades }

/-- A lot for the first fill of an opener. -/
def newLot (f : FillEvent) (strategyName : String) : Lot where
  symbol := f.symbol
  side := f.side
  qtyOpen := f.filledQuantity
  entryPrice := f.fillPrice
  entryFilledQty := f.filledQuantity
  strategyName := strategyName
  tsOpen := f.timestamp

/-- A later fill of the same opener rolls into the average entry. -/
def growLot (f : FillEvent) (l : Lot) : Lot :=
  let newFilled := l.entryFilledQty + f.filledQuantity
  { l with
    entryPrice := if 0 < newFilled then
        (l.entryPrice * l.entryFilledQty + f.fillPrice * f.filledQuantity) / newFilled
      else l.entryPrice
    entryFilledQty := newFilled
    qtyOpen := l.qtyOpen + f.filledQuantity }

def applyLotFill (f : FillEvent) (opener : Nat) (strategyName : String) : Portfolio :=
  match p.lots.lookup opener with
  | none =>
    if opener = f.orderId then { p with lots := p.lots.insert opener (newLot f strategyName) }
    else p
  | some l =>
    if opener = f.orderId then { p with lots := p.lots.insert opener (growLot f l) }
    else if l.qtyOpen - f.filledQuantity < dust then { p with lots := p.lots.erase opener }
    else { p with lots := p.lots.insert opener { l with qtyOpen := l.qtyOpen - f.filledQuantity } }

def onFill (f : FillEvent) (opener : Nat) (strategyName : String) : Portfolio :=
  let p := { p with totalFills := p.totalFills + 1 }.applyNettedFill f
  if opener ≠ 0 then p.applyLotFill f opener strategyName else p

def onFunding (cashDelta : ℚ) : Portfolio :=
  { p with cash := p.cash + cashDelta, totalFundingPnl := p.totalFundingPnl + cashDelta }

def symbols : Finset String := p.positions.keys.toFinset

end Portfolio

end TrueTest
