import TrueTest.Execution.LocalBook

/-!
# The market maker

`MarketMaker` of `market_maker/market_maker.cpp`: the party that keeps a ladder of quotes around the
price on the synthetic books. The half spread widens with the volatility of the last prices, which
are kept in one window for all books. A new quote may cross a resting order; `replenish` returns
those trades.

The square root is a parameter, since a double's root is in general not the root of a rational. The
random generator is left out: only `add_orders` draws from it.
-/

namespace TrueTest

structure MmCalibration where
  levelsPerSide : Nat := 10
  baseDepth : Int := 100
  baseSpreadPct : ℚ := 2 / 1000
  volSpreadMult : ℚ := 1 / 4
  maxHalfSpreadPct : ℚ := 5 / 100

structure MmOrder where
  side : OrderSide
  price : ℚ
  quantity : ℚ

structure MarketMaker where
  priceHistory : List ℚ
  /-- The ids of the live quotes on each symbol's book. -/
  liveQuotes : AList fun _ : String => List Nat

namespace MarketMaker

def init : MarketMaker := ⟨[], ∅⟩

def volatilityWindow : Nat := 50

/-- The returns of consecutive prices. -/
def returns : List ℚ → List ℚ
  | p :: q :: rest => if 0 < p then (q - p) / p :: returns (q :: rest) else returns (q :: rest)
  | _ => []

variable (sqrt : ℚ → ℚ) (cal : MmCalibration)

def computeVolatility (history : List ℚ) : ℚ :=
  match returns history with
  | [] => 0
  | rs =>
    let mean := rs.sum / rs.length
    sqrt ((rs.map fun r => (r - mean) * (r - mean)).sum / rs.length)

def halfSpread (history : List ℚ) : ℚ :=
  min (cal.baseSpreadPct + computeVolatility sqrt history * cal.volSpreadMult) cal.maxHalfSpreadPct

def updateHistory (history : List ℚ) (price : ℚ) : List ℚ :=
  let history := history ++ [price]
  if volatilityWindow < history.length then history.tail else history

/-- The two quotes of a level; a bid that rounds to no price is left out. -/
def level (price halfSpread : ℚ) (i : Nat) : List MmOrder :=
  let distance := halfSpread * i
  let bid := price * (1 - distance)
  let depth := cal.baseDepth * i
  (if 0 < priceFromDouble bid then [⟨.buy, bid, depth⟩] else []) ++
    [⟨.sell, price * (1 + distance), depth⟩]

/-- `compute_replenish`: the ladder, and the window. -/
def computeReplenish (mm : MarketMaker) (price : ℚ) (update : Bool) : List MmOrder × MarketMaker :=
  if price ≤ 0 then ([], mm)
  else
    let history := if update then updateHistory mm.priceHistory price else mm.priceHistory
    let spread := halfSpread sqrt cal history
    (((List.range cal.levelsPerSide).map (· + 1)).flatMap (level cal price spread),
      { mm with priceHistory := history })

/-- The quote that is entered for an order of the ladder. -/
def quote (id : Nat) (o : MmOrder) : Quote where
  orderType := .goodTillCancel
  id := id
  side := o.side.book
  price := priceFromDouble o.price
  quantity := (roundHalfAway (o.quantity * 10 ^ 8)).toNat

/-- The whole of `replenish` on the book of a symbol, with quote ids from `nextId` on: the
crossings, the book, the number of ids used, and the party. -/
def requote (mm : MarketMaker) (symbol : String) (book : Orderbook)
    (nextId : Nat) (price : ℚ) (update : Bool) : Trades × Orderbook × Nat × MarketMaker :=
  let live := (mm.liveQuotes.lookup symbol).getD []
  let ladder := mm.computeReplenish sqrt cal price update
  let quotes := ladder.1.zipIdx.map fun x => quote (nextId + x.2) x.1
  let (trades, book) := replenish book live quotes
  (trades, book, quotes.length,
    { ladder.2 with liveQuotes := ladder.2.liveQuotes.insert symbol (quotes.map Quote.id) })

end MarketMaker

end TrueTest
