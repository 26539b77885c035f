import TrueTest.Core.Event
import TrueTest.Util.ByteFormat

/-!
# The payloads of the event log

`serialise` and `deserialise` of `core/event_log.h`, for the eleven types of events. Here a `double`
is its 64 bits, a string is its bytes, and a time is a signed count of nanoseconds in 64 bits, as in
memory.

The payload has a time in microseconds and a string of fewer than 65536 bytes. It has neither the
strategy nor the opener of an order or a fill, and none of the two stamps of an event, when it was
received and how long it took. What it keeps of an event is `Event.kept`, and reading a payload
gives just that.
-/

namespace TrueTest.EventLog

open ByteFormat List

/-! ## Events -/

abbrev F64 := BitVec 64

abbrev I64 := BitVec 64

abbrev U64 := BitVec 64

inductive SignalType
  | buy
  | sell
  | hold
deriving DecidableEq

inductive FillSource
  | unknown
  | simulated
  | exchange
deriving DecidableEq

inductive TickSide
  | bid
  | ask
  | unknown
deriving DecidableEq

structure MarketEvent where
  timestamp : I64
  symbol : Bytes
  open_ : F64
  high : F64
  low : F64
  close : F64
  volume : I64
deriving DecidableEq

structure SignalEvent where
  timestamp : I64
  symbol : Bytes
  signal : SignalType
  strength : F64
deriving DecidableEq

structure OrderEvent where
  timestamp : I64
  symbol : Bytes
  orderType : OrderType
  side : OrderSide
  quantity : F64
  price : F64
  tif : TimeInForce
  stopPrice : F64
  orderId : U64
  earliestEligibleTs : I64
  strategyName : Bytes
  openerOrderId : U64
  /-- The constructor makes a good-till-cancel market order immediate-or-cancel. -/
  market_tif : orderType = .market → ¬ tif = .gtc
deriving DecidableEq

structure FillEvent where
  timestamp : I64
  symbol : Bytes
  orderId : U64
  side : OrderSide
  filledQuantity : F64
  fillPrice : F64
  commission : F64
  remainingQty : F64
  fillId : U64
  source : FillSource
  strategyName : Bytes
  openerOrderId : U64
deriving DecidableEq

structure TickEvent where
  timestamp : I64
  symbol : Bytes
  price : F64
  quantity : I64
  side : TickSide
deriving DecidableEq

structure L2Level where
  price : F64
  quantity : I64
deriving DecidableEq

def maxLevels : Nat := 20

structure L2SnapshotEvent where
  timestamp : I64
  symbol : Bytes
  bids : List L2Level
  asks : List L2Level
  bids_le : bids.length ≤ maxLevels
  asks_le : asks.length ≤ maxLevels
deriving DecidableEq

structure L2UpdateEvent where
  timestamp : I64
  symbol : Bytes
  side : TickSide
  price : F64
  newQuantity : I64
deriving DecidableEq

/-- The fields of a cancel and of a rejection. -/
structure NoticeEvent where
  timestamp : I64
  symbol : Bytes
  orderId : U64
  reason : Bytes
deriving DecidableEq

abbrev CancelEvent := NoticeEvent

abbrev RejectionEvent := NoticeEvent

structure AmendEvent where
  timestamp : I64
  symbol : Bytes
  orderId : U64
  newPrice : F64
  newQuantity : F64
deriving DecidableEq

structure FundingEvent where
  timestamp : I64
  symbol : Bytes
  qtyChange : F64
  cashDelta : F64
  reason : Bytes
deriving DecidableEq

inductive EventType
  | market
  | signal
  | order
  | fill
  | tick
  | l2Snapshot
  | l2Update
  | cancel
  | amend
  | rejection
  | funding
deriving DecidableEq

/-- An event without its stamps. -/
inductive EventData
  | market (e : MarketEvent)
  | signal (e : SignalEvent)
  | order (e : OrderEvent)
  | fill (e : FillEvent)
  | tick (e : TickEvent)
  | l2Snapshot (e : L2SnapshotEvent)
  | l2Update (e : L2UpdateEvent)
  | cancel (e : CancelEvent)
  | amend (e : AmendEvent)
  | rejection (e : RejectionEvent)
  | funding (e : FundingEvent)
deriving DecidableEq

/-- `recv_ns_` and `latency_ns_` are zero until they are set. -/
structure Event where
  data : EventData
  recvNs : I64 := 0
  latencyNs : I64 := 0
deriving DecidableEq

def EventData.type : EventData → EventType
  | .market _ => .market
  | .signal _ => .signal
  | .order _ => .order
  | .fill _ => .fill
  | .tick _ => .tick
  | .l2Snapshot _ => .l2Snapshot
  | .l2Update _ => .l2Update
  | .cancel _ => .cancel
  | .amend _ => .amend
  | .rejection _ => .rejection
  | .funding _ => .funding

def EventData.timestamp : EventData → I64
  | .market e => e.timestamp
  | .signal e => e.timestamp
  | .order e => e.timestamp
  | .fill e => e.timestamp
  | .tick e => e.timestamp
  | .l2Snapshot e => e.timestamp
  | .l2Update e => e.timestamp
  | .cancel e => e.timestamp
  | .amend e => e.timestamp
  | .rejection e => e.timestamp
  | .funding e => e.timestamp

def Event.type (e : Event) : EventType := e.data.type

def Event.timestamp (e : Event) : I64 := e.data.timestamp

/-! ## Fields -/

def word64 (v : BitVec 64) : Bytes := word 8 v

def readWord64 : Reader (BitVec 64) := readWord 8

theorem parses_word64 (v : BitVec 64) : Parses readWord64 (word64 v) v := parses_readWord 8 v

/-- `duration_cast` to microseconds, which truncates. -/
def microseconds (ts : I64) : Int := ts.toInt.tdiv 1000

/-- What the log keeps of a time. -/
def keptTs (ts : I64) : I64 := BitVec.ofInt 64 (microseconds ts * 1000)

def tsBytes (ts : I64) : Bytes := word64 (BitVec.ofInt 64 (microseconds ts))

def readTs : Reader I64 := do
  let us ← readWord64
  return BitVec.ofInt 64 (us.toInt * 1000)

theorem toInt_ofInt_of_mem {i : Int} (h : -2 ^ 63 ≤ i ∧ i < 2 ^ 63) :
    (BitVec.ofInt 64 i).toInt = i := by
  rw [BitVec.toInt_ofInt]
  exact Int.bmod_eq_of_le_mul_two (by omega) (by omega)

variable (ts : I64) (d : EventData) (e : Event) (ls : List L2Level) (s : Bytes)

/-- Truncation is towards zero. -/
theorem microseconds_mul_le :
    0 ≤ microseconds ts * 1000 ∧ microseconds ts * 1000 ≤ ts.toInt ∧
    ts.toInt < microseconds ts * 1000 + 1000 ∨
      ts.toInt ≤ microseconds ts * 1000 ∧ microseconds ts * 1000 ≤ 0 ∧
        microseconds ts * 1000 < ts.toInt + 1000 := by
  have hdiv := Int.tdiv_eq_ediv (a := ts.toInt) (b := 1000)
  rw [microseconds]
  rw [show Int.sign 1000 = 1 from rfl] at hdiv
  split at hdiv <;> omega

theorem toInt_ofInt_microseconds : (BitVec.ofInt 64 (microseconds ts)).toInt = microseconds ts := by
  have hlow := BitVec.le_toInt ts
  have hhigh := BitVec.toInt_lt (x := ts)
  have hle := microseconds_mul_le ts
  exact toInt_ofInt_of_mem (by omega)

theorem toInt_keptTs : (keptTs ts).toInt = microseconds ts * 1000 := by
  have hlow := BitVec.le_toInt ts
  have hhigh := BitVec.toInt_lt (x := ts)
  have hle := microseconds_mul_le ts
  exact toInt_ofInt_of_mem (by omega)

theorem parses_ts : Parses readTs (tsBytes ts) (keptTs ts) := by
  have hread : Parses readTs (tsBytes ts) _ :=
    (parses_word64 (BitVec.ofInt 64 (microseconds ts))).map
  rwa [toInt_ofInt_microseconds] at hread

@[simp] theorem microseconds_keptTs : microseconds (keptTs ts) = microseconds ts := by
  rw [microseconds, toInt_keptTs, Int.mul_tdiv_cancel _ (by decide)]

/-- A whole number of microseconds is kept. -/
theorem keptTs_eq_self_iff {ts : I64} : keptTs ts = ts ↔ 1000 ∣ ts.toInt := by
  have hle := microseconds_mul_le ts
  rw [← BitVec.toInt_inj, toInt_keptTs]
  omega

/-- A string with its length in two bytes. -/
def str (s : Bytes) : Bytes := lengthPrefixed 2 s

def readStr : Reader Bytes := readPrefixed 2

theorem parses_str : Parses readStr (str s) (cut 2 s) := parses_readPrefixed 2 s

def signalTypes : List SignalType := [.buy, .sell, .hold]

def orderTypes : List OrderType := [.market, .limit, .stop, .stopLimit]

def orderSides : List OrderSide := [.buy, .sell]

def timesInForce : List TimeInForce := [.ioc, .fok, .gtc, .day]

def fillSources : List FillSource := [.unknown, .simulated, .exchange]

def tickSides : List TickSide := [.bid, .ask, .unknown]

def eventTypes : List EventType :=
  [.market, .signal, .order, .fill, .tick, .l2Snapshot, .l2Update, .cancel, .amend, .rejection,
    .funding]

theorem parses_signalType (t : SignalType) :
    Parses (readEnum signalTypes) (enumByte signalTypes t) t :=
  parses_readEnum (by decide) (by cases t <;> decide)

theorem parses_orderType (t : OrderType) : Parses (readEnum orderTypes) (enumByte orderTypes t) t :=
  parses_readEnum (by decide) (by cases t <;> decide)

theorem parses_orderSide (t : OrderSide) : Parses (readEnum orderSides) (enumByte orderSides t) t :=
  parses_readEnum (by decide) (by cases t <;> decide)

theorem parses_timeInForce (t : TimeInForce) :
    Parses (readEnum timesInForce) (enumByte timesInForce t) t :=
  parses_readEnum (by decide) (by cases t <;> decide)

theorem parses_fillSource (t : FillSource) :
    Parses (readEnum fillSources) (enumByte fillSources t) t :=
  parses_readEnum (by decide) (by cases t <;> decide)

theorem parses_tickSide (t : TickSide) : Parses (readEnum tickSides) (enumByte tickSides t) t :=
  parses_readEnum (by decide) (by cases t <;> decide)

def level (l : L2Level) : Bytes := [word64 l.price, word64 l.quantity].flatten

def readLevel : Reader L2Level := do
  let price ← readWord64
  let quantity ← readWord64
  return ⟨price, quantity⟩

theorem parses_level (l : L2Level) : Parses readLevel (level l) l :=
  .field (parses_word64 _) <| .field (parses_word64 _) <| .done l

/-- One side of a snapshot. -/
def levels (ls : List L2Level) : Bytes := little 4 ls.length ++ ls.flatMap level

/-- The levels past the last that a snapshot has room for are read and dropped. -/
def readLevels : Reader { ls : List L2Level // ls.length ≤ maxLevels } := do
  let n ← readNat 4
  let ls ← readTimes readLevel n
  return ⟨ls.take maxLevels, List.length_take_le _ _⟩

theorem parses_levels (hls : ls.length ≤ maxLevels) : Parses readLevels (levels ls) ⟨ls, hls⟩ := by
  have hlen : ls.length % 256 ^ 4 = ls.length := Nat.mod_eq_of_lt (hls.trans_lt (by decide))
  have hcount := parses_readNat 4 ls.length
  rw [hlen] at hcount
  have htake :
      (⟨ls.take maxLevels, length_take_le _ _⟩ : { ls : List L2Level // ls.length ≤ maxLevels }) =
      ⟨ls, hls⟩ := Subtype.ext (take_of_length_le hls)
  rw [← htake]
  exact hcount.bind (parses_readTimes parses_level ls).map

/-! ## Payloads -/

/-- A payload is its fields, one after the other. -/
def EventData.serialise : EventData → Bytes
  | .market e => [tsBytes e.timestamp, str e.symbol, word64 e.open_, word64 e.high, word64 e.low,
      word64 e.close, word64 e.volume].flatten
  | .signal e =>
    [tsBytes e.timestamp, str e.symbol, enumByte signalTypes e.signal, word64 e.strength].flatten
  | .order e => [tsBytes e.timestamp, str e.symbol, enumByte orderTypes e.orderType,
      enumByte orderSides e.side, word64 e.quantity, word64 e.price, enumByte timesInForce e.tif,
      word64 e.stopPrice, word64 e.orderId, tsBytes e.earliestEligibleTs].flatten
  | .fill e => [tsBytes e.timestamp, str e.symbol, word64 e.orderId, enumByte orderSides e.side,
      word64 e.filledQuantity, word64 e.fillPrice, word64 e.commission,
      word64 e.remainingQty ++ word64 e.fillId ++ enumByte fillSources e.source].flatten
  | .tick e => [tsBytes e.timestamp, str e.symbol, word64 e.price, word64 e.quantity,
      enumByte tickSides e.side].flatten
  | .l2Snapshot e => [tsBytes e.timestamp, str e.symbol, levels e.bids, levels e.asks].flatten
  | .l2Update e => [tsBytes e.timestamp, str e.symbol, enumByte tickSides e.side, word64 e.price,
      word64 e.newQuantity].flatten
  | .cancel e => [tsBytes e.timestamp, str e.symbol, word64 e.orderId, str e.reason].flatten
  | .amend e => [tsBytes e.timestamp, str e.symbol, word64 e.orderId, word64 e.newPrice,
      word64 e.newQuantity].flatten
  | .rejection e => [tsBytes e.timestamp, str e.symbol, word64 e.orderId, str e.reason].flatten
  | .funding e => [tsBytes e.timestamp, str e.symbol, word64 e.qtyChange, word64 e.cashDelta,
      str e.reason].flatten

def serialise (e : Event) : Bytes := e.data.serialise

/-- The constructor of an order event. -/
def OrderEvent.new (timestamp : I64) (symbol : Bytes) (orderType : OrderType) (side : OrderSide)
    (quantity price : F64) (tif : TimeInForce) (stopPrice : F64) : OrderEvent where
  timestamp := timestamp
  symbol := symbol
  orderType := orderType
  side := side
  quantity := quantity
  price := price
  tif := effectiveTif orderType tif
  stopPrice := stopPrice
  orderId := 0
  earliestEligibleTs := timestamp
  strategyName := []
  openerOrderId := 0
  market_tif := effectiveTif_ne_gtc

/-- The end of a fill, which older logs do not have: what is missing has its default. -/
def readFillTail : Reader (F64 × U64 × FillSource) := fun bs =>
  match readWord64 bs with
  | none => some ((0, 0, .unknown), bs)
  | some (remaining, bs) =>
    match readWord64 bs with
    | none => some ((remaining, 0, .unknown), bs)
    | some (fillId, bs) =>
      match readEnum fillSources bs with
      | none => some ((remaining, fillId, .unknown), bs)
      | some (source, bs) => some ((remaining, fillId, source), bs)

theorem parses_fillTail (remaining : F64) (fillId : U64) (source : FillSource) :
    Parses readFillTail (word64 remaining ++ word64 fillId ++ enumByte fillSources source)
      (remaining, fillId, source) := by
  intro rest
  simp only [append_assoc, readFillTail, parses_word64 _ _, parses_fillSource _ _]

def readEvent : EventType → Reader EventData
  | .market => do
    let ts ← readTs
    let symbol ← readStr
    let open_ ← readWord64
    let high ← readWord64
    let low ← readWord64
    let close ← readWord64
    let volume ← readWord64
    return .market ⟨ts, symbol, open_, high, low, close, volume⟩
  | .signal => do
    let ts ← readTs
    let symbol ← readStr
    let signal ← readEnum signalTypes
    let strength ← readWord64
    return .signal ⟨ts, symbol, signal, strength⟩
  | .order => do
    let ts ← readTs
    let symbol ← readStr
    let orderType ← readEnum orderTypes
    let side ← readEnum orderSides
    let qty ← readWord64
    let price ← readWord64
    let tif ← readEnum timesInForce
    let stopPrice ← readWord64
    let orderId ← readWord64
    let eligTs ← readTs
    return .order { OrderEvent.new ts symbol orderType side qty price tif stopPrice with
      orderId := orderId
      earliestEligibleTs := eligTs }
  | .fill => do
    let ts ← readTs
    let symbol ← readStr
    let orderId ← readWord64
    let side ← readEnum orderSides
    let qty ← readWord64
    let price ← readWord64
    let commission ← readWord64
    let tail ← readFillTail
    return .fill ⟨ts, symbol, orderId, side, qty, price, commission, tail.1, tail.2.1,
      tail.2.2, [], 0⟩
  | .tick => do
    let ts ← readTs
    let symbol ← readStr
    let price ← readWord64
    let qty ← readWord64
    let side ← readEnum tickSides
    return .tick ⟨ts, symbol, price, qty, side⟩
  | .l2Snapshot => do
    let ts ← readTs
    let symbol ← readStr
    let bids ← readLevels
    let asks ← readLevels
    return .l2Snapshot ⟨ts, symbol, bids.1, asks.1, bids.2, asks.2⟩
  | .l2Update => do
    let ts ← readTs
    let symbol ← readStr
    let side ← readEnum tickSides
    let price ← readWord64
    let newQty ← readWord64
    return .l2Update ⟨ts, symbol, side, price, newQty⟩
  | .cancel => do
    let ts ← readTs
    let symbol ← readStr
    let orderId ← readWord64
    let reason ← readStr
    return .cancel ⟨ts, symbol, orderId, reason⟩
  | .amend => do
    let ts ← readTs
    let symbol ← readStr
    let orderId ← readWord64
    let newPrice ← readWord64
    let newQty ← readWord64
    return .amend ⟨ts, symbol, orderId, newPrice, newQty⟩
  | .rejection => do
    let ts ← readTs
    let symbol ← readStr
    let orderId ← readWord64
    let reason ← readStr
    return .rejection ⟨ts, symbol, orderId, reason⟩
  | .funding => do
    let ts ← readTs
    let symbol ← readStr
    let qty ← readWord64
    let cash ← readWord64
    let reason ← readStr
    return .funding ⟨ts, symbol, qty, cash, reason⟩

/-- An exception is `none`. -/
def deserialise (type : EventType) (data : Bytes) : Option Event :=
  ((readEvent type) data).map fun r => { data := r.1 }

/-! ## What is kept -/

def EventData.kept : EventData → EventData
  | .market e => .market { e with timestamp := keptTs e.timestamp, symbol := cut 2 e.symbol }
  | .signal e => .signal { e with timestamp := keptTs e.timestamp, symbol := cut 2 e.symbol }
  | .order e => .order { e with
      timestamp := keptTs e.timestamp
      symbol := cut 2 e.symbol
      earliestEligibleTs := keptTs e.earliestEligibleTs
      strategyName := []
      openerOrderId := 0 }
  | .fill e => .fill { e with
      timestamp := keptTs e.timestamp, symbol := cut 2 e.symbol,
      strategyName := [], openerOrderId := 0 }
  | .tick e => .tick { e with timestamp := keptTs e.timestamp, symbol := cut 2 e.symbol }
  | .l2Snapshot e =>
    .l2Snapshot { e with timestamp := keptTs e.timestamp, symbol := cut 2 e.symbol }
  | .l2Update e => .l2Update { e with timestamp := keptTs e.timestamp, symbol := cut 2 e.symbol }
  | .cancel e => .cancel { e with
      timestamp := keptTs e.timestamp, symbol := cut 2 e.symbol, reason := cut 2 e.reason }
  | .amend e => .amend { e with timestamp := keptTs e.timestamp, symbol := cut 2 e.symbol }
  | .rejection e => .rejection { e with
      timestamp := keptTs e.timestamp, symbol := cut 2 e.symbol, reason := cut 2 e.reason }
  | .funding e => .funding { e with
      timestamp := keptTs e.timestamp, symbol := cut 2 e.symbol, reason := cut 2 e.reason }

/-- What a payload keeps of an event. -/
def Event.kept (e : Event) : Event := { data := e.data.kept }

theorem effectiveTif_of_ne {type : OrderType} {tif : TimeInForce}
    (h : type = .market → tif ≠ .gtc) :
    effectiveTif type tif = tif := if_neg fun hboth => h hboth.2 hboth.1

theorem parses_serialise : Parses (readEvent d.type) d.serialise d.kept := by
  cases d with
  | market e =>
    exact .field (parses_ts _) <| .field (parses_str _) <| .field (parses_word64 _) <|
      .field (parses_word64 _) <| .field (parses_word64 _) <| .field (parses_word64 _) <|
      .field (parses_word64 _) <| .done _
  | signal e =>
    exact .field (parses_ts _) <| .field (parses_str _) <| .field (parses_signalType _) <|
      .field (parses_word64 _) <| .done _
  | order e =>
    have hkept :
        EventData.kept (.order e) = .order { OrderEvent.new (keptTs e.timestamp) (cut 2 e.symbol)
            e.orderType e.side e.quantity e.price e.tif e.stopPrice with
          orderId := e.orderId, earliestEligibleTs := keptTs e.earliestEligibleTs } := by
      simp only [EventData.kept, OrderEvent.new, effectiveTif_of_ne e.market_tif]
    rw [hkept]
    exact .field (parses_ts _) <| .field (parses_str _) <| .field (parses_orderType _) <|
      .field (parses_orderSide _) <| .field (parses_word64 _) <| .field (parses_word64 _) <|
      .field (parses_timeInForce _) <| .field (parses_word64 _) <| .field (parses_word64 _) <|
      .field (parses_ts _) <| .done _
  | fill e =>
    exact .field (parses_ts _) <| .field (parses_str _) <| .field (parses_word64 _) <|
      .field (parses_orderSide _) <| .field (parses_word64 _) <| .field (parses_word64 _) <|
      .field (parses_word64 _) <| .field (parses_fillTail _ _ _) <| .done _
  | tick e =>
    exact .field (parses_ts _) <| .field (parses_str _) <| .field (parses_word64 _) <|
      .field (parses_word64 _) <| .field (parses_tickSide _) <| .done _
  | l2Snapshot e =>
    exact .field (parses_ts _) <| .field (parses_str _) <| .field (parses_levels _ e.bids_le) <|
      .field (parses_levels _ e.asks_le) <| .done _
  | l2Update e =>
    exact .field (parses_ts _) <| .field (parses_str _) <| .field (parses_tickSide _) <|
      .field (parses_word64 _) <| .field (parses_word64 _) <| .done _
  | cancel e | rejection e =>
    exact .field (parses_ts _) <| .field (parses_str _) <| .field (parses_word64 _) <|
      .field (parses_str _) <| .done _
  | amend e =>
    exact .field (parses_ts _) <| .field (parses_str _) <| .field (parses_word64 _) <|
      .field (parses_word64 _) <| .field (parses_word64 _) <| .done _
  | funding e =>
    exact .field (parses_ts _) <| .field (parses_str _) <| .field (parses_word64 _) <|
      .field (parses_word64 _) <| .field (parses_str _) <| .done _

/-- **A payload gives back what it keeps of its event.** -/
theorem deserialise_serialise : deserialise e.type (serialise e) = some e.kept := by
  rw [deserialise, serialise, Event.type, (parses_serialise e.data).run]
  rfl

/-! ## Sizes -/

@[simp] theorem length_word64 (v : BitVec 64) : (word64 v).length = 8 := length_little 8 _

@[simp] theorem length_tsBytes : (tsBytes ts).length = 8 := length_word64 _

theorem length_str_lt : (str s).length < 65538 := length_lengthPrefixed_lt 2 s

@[simp] theorem length_levels : (levels ls).length = 4 + ls.length * 16 := by
  simp [levels, level]

/-- A payload starts with the time of its event. -/
theorem serialise_eq_append : ∃ tail, serialise e = tsBytes e.timestamp ++ tail := by
  obtain ⟨d, _, _⟩ := e
  cases d <;> exact ⟨_, rfl⟩

theorem length_serialise_lt : (serialise e).length < 2 ^ 31 := by
  rw [serialise]
  cases e.data with
  | l2Snapshot e =>
    have hsymbol := length_str_lt e.symbol
    have hbids := e.bids_le
    have hasks := e.asks_le
    simp only [EventData.serialise, length_flatten, map_cons, map_nil, sum_cons, sum_nil,
      length_tsBytes, length_levels, maxLevels] at *
    omega
  | cancel e | rejection e | funding e =>
    have hsymbol := length_str_lt e.symbol
    have hreason := length_str_lt e.reason
    simp only [EventData.serialise, length_flatten, map_cons, map_nil, sum_cons, sum_nil,
      length_tsBytes, length_word64]
    omega
  | market e | signal e | order e | fill e | tick e | l2Update e | amend e =>
    have hsymbol := length_str_lt e.symbol
    simp only [EventData.serialise, length_flatten, map_cons, map_nil, sum_cons, sum_nil,
      length_append, length_tsBytes, length_word64, length_enumByte]
    omega

end TrueTest.EventLog
