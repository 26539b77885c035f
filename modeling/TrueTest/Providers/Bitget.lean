import TrueTest.Providers.Event

/-!
# The Bitget parsers

The parsers of `bitget_parser.h`. Bitget's kline pushes update the open candle, so the parsers hold
a candle back until it is closed (`KlineClosedGate`): a frame with `confirm` says so itself, and
without it a candle counts as closed when a frame with another start arrives. One gate serves all
frames of a parser.
-/

namespace TrueTest.Bitget

/-- An element of `data` in a trade push. -/
structure TradeObject where
  price : Option ℚ
  quantity : Option ℚ
  side : String
  time : Option Int

/-- The first element of `data` in a kline push, or the push itself without `data`. -/
structure KlineBody where
  open_ : Option ℚ
  high : Option ℚ
  low : Option ℚ
  close : Option ℚ
  volume : Option ℚ
  start : String
  confirm : Option Bool

structure BooksBody where
  time : Option Int
  bids : List (ℚ × ℚ)
  asks : List (ℚ × ℚ)

/-- A push; a missing string is empty. -/
structure Message where
  topic : String
  symbol : String
  interval : String
  action : String
  trades : List TradeObject
  /-- The trade fields of a push without `data`. -/
  flatTrade : TradeObject
  kline : KlineBody
  books : BooksBody

def mapSide (side : String) : Option TickSide :=
  if side = "buy" ∨ side = "BUY" ∨ side = "Buy" then some .bid
  else if side = "sell" ∨ side = "SELL" ∨ side = "Sell" then some .ask
  else none

def parseTradeObject (now : Int) (symbol : String) (t : TradeObject) : Option Tick :=
  if symbol = "" then none
  else do
    let price ← t.price
    let quantity ← t.quantity
    let side ← mapSide t.side
    return ⟨t.time.getD now, symbol, price, scaledQty quantity, side⟩

def parseAllTrades (now : Int) (m : Message) : List Tick :=
  if m.topic ≠ "" ∧ m.topic ≠ "publicTrade" then []
  else m.trades.filterMap (parseTradeObject now m.symbol)

/-- The first trade only. -/
def parseTrade (now : Int) (m : Message) : Option Tick :=
  if m.topic ≠ "" ∧ m.topic ≠ "publicTrade" then none
  else parseTradeObject now m.symbol (m.trades.head?.getD m.flatTrade)

/-- Books pushes are taken as snapshots; updates are refused. -/
def acceptsBooks (m : Message) : Bool :=
  if m.topic = "" then true
  else if m.topic = "books" then m.action = "snapshot"
  else (m.topic = "books5" ∨ m.topic = "books1" ∨ m.topic = "books50") ∧
    (m.action = "" ∨ m.action = "snapshot")

def parseBooks5 (now : Int) (m : Message) : Option L2Snapshot :=
  if m.symbol = "" ∨ acceptsBooks m = false ∨
      (m.books.bids.isEmpty ∧ m.books.asks.isEmpty) then none
  else
    let levels (ls : List (ℚ × ℚ)) : List L2Level := ls.map fun l => ⟨l.1, scaledQty l.2⟩
    some ⟨m.books.time.getD now, m.symbol, levels m.books.bids, levels m.books.asks⟩

def parseKline (m : Message) : Option Bar :=
  if m.symbol = "" ∨ (m.topic ≠ "" ∧ m.topic ≠ "kline") then none
  else do
    let open_ ← m.kline.open_
    let high ← m.kline.high
    let low ← m.kline.low
    let close ← m.kline.close
    return {
      date := if m.kline.start = "" then m.interval else m.kline.start
      symbol := m.symbol
      open_ := open_
      high := high
      low := low
      close := close
      volume := (m.kline.volume.map scaledQty).getD 0 }

def parseWsMessage (now : Int) (m : Message) : Option ProviderEvent :=
  if m.topic = "publicTrade" then (parseTrade now m).map .tick
  else if m.topic = "books5" ∨ m.topic = "books1" ∨ m.topic = "books50" ∨ m.topic = "books" then
    (parseBooks5 now m).map .l2Snapshot
  else if m.topic = "kline" then (parseKline m).map .bar
  else if m.topic = "" then
    ((parseTrade now m).map .tick).orElse fun _ =>
      ((parseBooks5 now m).map .l2Snapshot).orElse fun _ => (parseKline m).map .bar
  else none

/-! ## The closed-bar gate -/

structure KlineClosedGate where
  pending : Option Bar

def KlineClosedGate.init : KlineClosedGate := ⟨none⟩

/-- The bar that is closed now, if there is one. -/
def KlineClosedGate.onBar (g : KlineClosedGate) (b : Bar) (confirm : Option Bool) :
    Option Bar × KlineClosedGate :=
  match confirm with
  | some false => (none, ⟨some b⟩)
  | some true => (some b, ⟨none⟩)
  | none =>
    match g.pending with
    | none => (none, ⟨some b⟩)
    | some p => if b.date = p.date then (none, ⟨some b⟩) else (some p, ⟨some b⟩)

/-- `BitgetKlineParser::parse_record`. -/
def klineParser (g : KlineClosedGate) (m : Message) : Option Bar × KlineClosedGate :=
  match parseKline m with
  | none => (none, g)
  | some b => g.onBar b m.kline.confirm

/-- `BitgetCombinedParser::parse_records`, with the time of arrival. -/
def combinedParser (g : KlineClosedGate) (frame : Int × Message) :
    List ProviderEvent × KlineClosedGate :=
  let (now, m) := frame
  let ticks := if m.topic = "publicTrade" ∨ m.topic = "" then parseAllTrades now m else []
  if ticks ≠ [] then (ticks.map .tick, g)
  else if m.topic = "kline" ∨ (m.topic = "" ∧ (parseKline m).isSome) then
    let (closed, g) := klineParser g m
    (closed.toList.map .bar, g)
  else ((parseWsMessage now m).toList, g)

end TrueTest.Bitget
