import Mathlib.Data.Rat.Floor
import TrueTest.Orderbook.Book

/-!
# Events

The order, bar and fill events of `core/event.h` and the fixed-point prices of `types/price.h`. The
`double`s of the source are exact rationals here. Where a remaining quantity is a difference of
doubles, the rounding is a parameter (`Execution/TradeTape`).

An order event carries the rule its constructor enforces: a market order is never good till
cancel. There is no setter for the type or the time in force, so the rule holds of every event.
-/

namespace TrueTest

/-- The tolerance below which a double counts as zero. -/
def dust : ℚ := 1 / 10 ^ 12

inductive OrderType
  | market
  | limit
  | stop
  | stopLimit
deriving DecidableEq, Repr

inductive TimeInForce
  | ioc
  | fok
  | gtc
  | day
deriving DecidableEq, Repr

inductive OrderSide
  | buy
  | sell
deriving DecidableEq, Repr

/-- The side of the book an order is entered on. -/
def OrderSide.book : OrderSide → Side
  | .buy => .buy
  | .sell => .sell

structure OrderEvent where
  orderId : Nat
  symbol : String
  orderType : OrderType
  side : OrderSide
  quantity : ℚ
  price : ℚ
  tif : TimeInForce
  stopPrice : ℚ
  earliestEligibleTs : Int
  strategyName : String
  /-- Non-zero when the order closes an earlier entry: that entry's order id. -/
  openerOrderId : Nat
  /-- The constructor makes a good-till-cancel market order immediate-or-cancel. -/
  market_tif : orderType = .market → tif ≠ .gtc
deriving DecidableEq

/-- The time in force the constructor stores. -/
def effectiveTif (type : OrderType) (tif : TimeInForce) : TimeInForce :=
  if tif = .gtc ∧ type = .market then .ioc else tif

theorem effectiveTif_ne_gtc {type : OrderType} {tif : TimeInForce} (h : type = .market) :
    effectiveTif type tif ≠ .gtc := by
  subst h
  cases tif <;> decide

/-- The constructor, for an order whose id the router has assigned. -/
def OrderEvent.new (ts : Int) (id : Nat) (symbol : String) (type : OrderType) (side : OrderSide)
    (quantity price : ℚ) (tif : TimeInForce) (stopPrice : ℚ) : OrderEvent where
  orderId := id
  symbol := symbol
  orderType := type
  side := side
  quantity := quantity
  price := price
  tif := effectiveTif type tif
  stopPrice := stopPrice
  earliestEligibleTs := ts
  strategyName := ""
  openerOrderId := 0
  market_tif := effectiveTif_ne_gtc

/-- A bar. -/
structure MarketEvent where
  timestamp : Int
  symbol : String
  open_ : ℚ
  high : ℚ
  low : ℚ
  close : ℚ
  volume : Int
deriving DecidableEq

structure FillEvent where
  timestamp : Int
  symbol : String
  orderId : Nat
  side : OrderSide
  filledQuantity : ℚ
  fillPrice : ℚ
  commission : ℚ
  remainingQty : ℚ := 0
  fillId : Nat := 0
  strategyName : String := ""
  openerOrderId : Nat := 0
deriving DecidableEq

def FillEvent.isPartial (f : FillEvent) : Bool := 0 < f.remainingQty

/-- What the fills for one order add up to. -/
def filledQty (fills : List FillEvent) (id : Nat) : ℚ :=
  ((fills.filter fun f => f.orderId = id).map FillEvent.filledQuantity).sum

@[simp] theorem filledQty_nil (id : Nat) : filledQty [] id = 0 := rfl

theorem filledQty_append (fs gs : List FillEvent) (id : Nat) :
    filledQty (fs ++ gs) id = filledQty fs id + filledQty gs id := by
  simp [filledQty]

theorem filledQty_singleton (f : FillEvent) (id : Nat) :
    filledQty [f] id = if f.orderId = id then f.filledQuantity else 0 := by
  by_cases h : f.orderId = id <;> simp [filledQty, h]

theorem filledQty_eq_zero {fills : List FillEvent} {id : Nat} (h : ∀ f ∈ fills, f.orderId ≠ id) :
    filledQty fills id = 0 := by
  have hnone : fills.filter (fun f => f.orderId = id) = [] :=
    List.filter_eq_nil_iff.2 fun f hf he => h f hf (of_decide_eq_true he)
  rw [filledQty, hnone]
  rfl

theorem mem_orderIds_snoc {os : List OrderEvent} {o : OrderEvent} {id : Nat} :
    id ∈ (os ++ [o]).map OrderEvent.orderId ↔ id ∈ os.map OrderEvent.orderId ∨ id = o.orderId := by
  simp

/-! ## Fixed-point prices -/

/-- `std::round` and `std::llround`: to the nearest integer, halves away from zero. -/
def roundHalfAway (q : ℚ) : Int :=
  if 0 ≤ q then ⌊q + 1 / 2⌋ else -⌊-q + 1 / 2⌋

def priceScale : ℚ := 10000

/-- `Price::from_double`, as the raw `int64_t`. -/
def priceFromDouble (d : ℚ) : Int := roundHalfAway (d * priceScale)

def priceToDouble (raw : Int) : ℚ := raw / priceScale

end TrueTest
