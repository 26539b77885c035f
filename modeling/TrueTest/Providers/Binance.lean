import TrueTest.Providers.Event

/-!
# The Binance parsers

`binance_parser.h`, `binance_depth_parser.h` and `binance_combined_parser.h`. The parsers keep no
state: each frame gives its event or nothing.

A kline frame carries a flag `x` that says whether the interval is closed; `parse_kline` does not
read it. A `depthUpdate` frame, which lists changed levels, goes through `parse_depth_snapshot` like
a partial book.
-/

namespace TrueTest.Binance

/-- The `k` object of a kline frame. -/
structure KlineBody where
  open_ : Option ℚ
  high : Option ℚ
  low : Option ℚ
  close : Option ℚ
  volume : Option ℚ
  symbol : String
  /-- The start of the interval. -/
  time : String
  /-- The interval is closed; no parser reads this. -/
  x : Bool

structure TradeBody where
  price : Option ℚ
  quantity : Option ℚ
  symbol : String
  time : Option Int
  buyerIsMaker : Bool

/-- The level arrays of a depth frame, under their long and short names. -/
structure DepthBody where
  symbol : String
  eventTime : Option Int
  bids : List (ℚ × ℚ)
  b : List (ℚ × ℚ)
  asks : List (ℚ × ℚ)
  a : List (ℚ × ℚ)

/-- A frame, without its envelope. -/
structure Message where
  /-- The stream of the envelope, empty for a raw frame. -/
  stream : String
  /-- The field `e`, empty if there is none. -/
  eventType : String
  trade : TradeBody
  k : Option KlineBody
  depth : DepthBody

def KlineBody.parse (k : KlineBody) : Option Bar := do
  let open_ ← k.open_
  let high ← k.high
  let low ← k.low
  let close ← k.close
  return {
    date := k.time
    symbol := k.symbol
    open_ := open_
    high := high
    low := low
    close := close
    volume := (k.volume.map scaledQty).getD 0 }

def parseKline (m : Message) : Option Bar :=
  if m.eventType ≠ "kline" then none else m.k.bind KlineBody.parse

def parseTrade (now : Int) (m : Message) : Option Tick :=
  if m.eventType ≠ "trade" ∨ m.trade.symbol = "" then none
  else do
    let price ← m.trade.price
    let quantity ← m.trade.quantity
    return {
      timestamp := m.trade.time.getD now
      symbol := m.trade.symbol
      price := price
      quantity := scaledQty quantity
      side := if m.trade.buyerIsMaker then .ask else .bid }

/-- `parse_side_levels`: the long name first. -/
def parseSideLevels (long short : List (ℚ × ℚ)) : List L2Level :=
  (if long.isEmpty then short else long).map fun l => ⟨l.1, scaledQty l.2⟩

def parseDepthSnapshot (now : Int) (d : DepthBody) : Option L2Snapshot :=
  let bids := parseSideLevels d.bids d.b
  let asks := parseSideLevels d.asks d.a
  if bids.isEmpty ∧ asks.isEmpty then none
  else some ⟨d.eventTime.getD now, d.symbol, bids, asks⟩

/-- `"@depth"` followed by a digit, as a position in the stream's name. -/
def isPartialBookStream (stream : String) : Bool :=
  match stream.splitOn "@depth" with
  | _ :: after :: _ => (after.toList.head?).any Char.isDigit
  | _ => false

def symbolFromStream (stream : String) : String :=
  ((stream.splitOn "@").headD "").toUpper

/-- `BinanceKlineParser::parse_record`. -/
def klineParser (m : Message) : Option Bar := parseKline m

/-- `BinanceCombinedParser::parse_record`. -/
def combinedParser (now : Int) (m : Message) : Option ProviderEvent :=
  if m.eventType = "trade" then (parseTrade now m).map .tick
  else if m.eventType = "kline" then (parseKline m).map .bar
  else if m.eventType = "depthUpdate" then (parseDepthSnapshot now m.depth).map .l2Snapshot
  else if isPartialBookStream m.stream then
    (parseDepthSnapshot now m.depth).map fun s => .l2Snapshot
      { s with symbol := if s.symbol = "" then symbolFromStream m.stream else s.symbol }
  else none

end TrueTest.Binance
