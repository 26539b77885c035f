import TrueTest.Core.Event
import TrueTest.Util.KeyedSum
import TrueTest.Util.Machine

/-!
# The execution bridge

`ExecutionBridge` of `execution/execution_bridge.h`, between the engine and a venue. The engine
submits and cancels; both put a request in a queue. A thread of the bridge takes the requests one by
one, hands each to the order transport and waits for the answer. The messages of the user-data
stream arrive on other threads. What the bridge knows of an order is in two tables, under the
engine's id and under the client id that the venue uses.

A step of the machine is what one thread does under one lock: the transport thread tests the flag,
takes a request, hands it over, gets its answer; a message is looked up under the lock and applied
under the lock again, and anything may happen in between. So a run is any interleaving of the
threads. A step that the state does not allow changes nothing.

The encoder is a parameter. The answers of the transport, the ids of a minter and the fills that the
engine's handler makes of unknown messages come with the steps. `History` only records what was
done.
-/

namespace TrueTest

namespace ExecutionBridge

/-! ## Messages and requests -/

inductive ExecKind
  | ack
  | partialFill
  | fullFill
  | canceled
  | rejected
  | expired
  | other
deriving DecidableEq

def ExecKind.isFill : ExecKind → Bool
  | .partialFill | .fullFill => true
  | _ => false

/-- The kinds that end an order. -/
def ExecKind.isFinal : ExecKind → Bool
  | .fullFill | .canceled | .rejected | .expired => true
  | _ => false

/-- `parsed_exec`: a message about an order. -/
structure ParsedExec where
  kind : ExecKind
  clientOrderId : String
  exchangeOrderId : String
  symbol : String
  side : OrderSide
  lastFillQty : ℚ
  lastFillPrice : ℚ
  cumulativeQty : ℚ
  commission : ℚ
  ts : Int
deriving DecidableEq

structure TrackedOrder where
  engineId : Nat
  clientId : String
  exchangeId : String
  symbol : String
  side : OrderSide
  totalQty : ℚ
  cumulativeQty : ℚ
deriving DecidableEq

structure Encoded where
  endpoint : String
  wirePayload : String
deriving DecidableEq

structure Encoder where
  encodeSubmit : OrderEvent → String → Encoded
  encodeCancel : String → String → String → Encoded

/-- An encoder for examples. -/
def noEncoder : Encoder := ⟨fun _ _ => ⟨"", ""⟩, fun _ _ _ => ⟨"", ""⟩⟩

structure SubmitRequest where
  engineId : Nat
  clientId : String
  symbol : String
  encoded : Encoded
  isCancel : Bool
  cancelExchangeId : String
deriving DecidableEq

/-- What the order transport answers. -/
structure Response where
  ok : Bool
  exchangeOrderId : String
  error : String
deriving DecidableEq

inductive Operation
  | submit
  | cancel
deriving DecidableEq

structure SubmitResult where
  engineId : Nat
  symbol : String
  exchangeOrderId : String
  error : String
  op : Operation
  ok : Bool
deriving DecidableEq

/-- The fill that the engine makes of a message about an order that the bridge does not know. -/
structure SynthResult where
  fill : FillEvent
  openerOrderId : Nat
  strategyName : String
deriving DecidableEq

structure SynthMeta where
  engineOrderId : Nat
  openerOrderId : Nat
  strategyName : String
deriving DecidableEq

/-- Where the transport thread is. -/
inductive Phase
  /-- Before the test of `transport_running_`. -/
  | check
  /-- In the loop, before the lock of the queue. -/
  | take
  /-- With a request in hand. -/
  | call (req : SubmitRequest)
  /-- In the call of the transport, with the symbol and the client id that the request was sent
  with. -/
  | waiting (req : SubmitRequest) (symbol clientId : String)
  | exited
deriving DecidableEq

def SubmitRequest.operation (req : SubmitRequest) : Operation :=
  if req.isCancel then .cancel else .submit

/-- A result with the request it is for. -/
structure Answered where
  request : SubmitRequest
  result : SubmitResult
  engineId_eq : result.engineId = request.engineId
  op_eq : result.op = request.operation

/-- What has been done so far. -/
structure History where
  /-- The client ids and engine ids of the submitted orders. -/
  submitted : List (String × Nat) := []
  enqueued : List SubmitRequest := []
  /-- The requests handed to the transport, with what it was given. -/
  handed : List (SubmitRequest × Encoded) := []
  results : List Answered := []
  /-- The messages that have arrived. -/
  reports : List ParsedExec := []
  /-- The fills that were put out, each with its message. -/
  surfaced : List (ParsedExec × FillEvent) := []
  polled : List FillEvent := []
  /-- The client ids of the orders that are not followed any more. -/
  ended : List String := []

end ExecutionBridge

open ExecutionBridge

structure ExecutionBridge where
  byEngineId : AList fun _ : Nat => TrackedOrder
  byClientId : AList fun _ : String => Nat
  pendingFills : List FillEvent
  nextFillId : Nat
  lastError : String
  /-- Has the engine set a handler for unknown fills? -/
  hasHandler : Bool
  pendingSynthMeta : List SynthMeta
  submitQueue : List SubmitRequest
  pendingSubmitResults : List SubmitResult
  transportRunning : Bool
  thread : Phase
  /-- The messages that were found to be about a known order and wait for the lock. -/
  handling : List ParsedExec
  history : History

namespace ExecutionBridge

/-- An open bridge, with its transport thread started. -/
def opened (hasHandler : Bool) : ExecutionBridge where
  byEngineId := ∅
  byClientId := ∅
  pendingFills := []
  nextFillId := 1
  lastError := ""
  hasHandler := hasHandler
  pendingSynthMeta := []
  submitQueue := []
  pendingSubmitResults := []
  transportRunning := true
  thread := .check
  handling := []
  history := {}

/-! ## The engine's calls -/

def makeClientId (engineId : Nat) : String := "tt-" ++ toString engineId

/-- The client id of a submit: from the minter, if there is one. -/
def clientIdFor (o : OrderEvent) (minted : Option String) : String :=
  minted.getD (makeClientId o.orderId)

variable (enc : Encoder) (b : ExecutionBridge) (t : TrackedOrder)

def enqueue (req : SubmitRequest) : ExecutionBridge :=
  { b with
    submitQueue := b.submitQueue ++ [req]
    history := { b.history with enqueued := b.history.enqueued ++ [req] } }

/-- A new order, in both tables. -/
def track : ExecutionBridge :=
  { b with
    byEngineId := b.byEngineId.insert t.engineId t
    byClientId := b.byClientId.insert t.clientId t.engineId
    history := { b.history with submitted := b.history.submitted ++ [(t.clientId, t.engineId)] } }

def submitOrder (o : OrderEvent) (minted : Option String) : ExecutionBridge :=
  let clientId := clientIdFor o minted
  let t : TrackedOrder := ⟨o.orderId, clientId, "", o.symbol, o.side, o.quantity, 0⟩
  let req : SubmitRequest := ⟨o.orderId, clientId, o.symbol, enc.encodeSubmit o clientId, false, ""⟩
  ({ b with lastError := "" }.track t).enqueue req

def cancelOrder (engineOrderId : Nat) : Bool × ExecutionBridge :=
  match b.byEngineId.lookup engineOrderId with
  | none => (false, b)
  | some t => (true, b.enqueue ⟨engineOrderId, t.clientId, t.symbol, ⟨"", ""⟩, true, t.exchangeId⟩)

def pollFills : List FillEvent × ExecutionBridge :=
  (b.pendingFills,
    { b with
      pendingFills := []
      history := { b.history with polled := b.history.polled ++ b.pendingFills } })

def pollSubmitResults : List SubmitResult × ExecutionBridge :=
  (b.pendingSubmitResults, { b with pendingSubmitResults := [] })

def pollSynthMeta : List SynthMeta × ExecutionBridge :=
  (b.pendingSynthMeta, { b with pendingSynthMeta := [] })

/-- The handler is revoked and the transport thread is told to stop. Then `close` waits: it returns
when the thread has exited. -/
def close : ExecutionBridge := { b with hasHandler := false, transportRunning := false }

/-! ## The transport thread -/

/-- Neither table has the order any more; an empty client id is not looked for. -/
def untrack (engineId : Nat) (clientId : String) : ExecutionBridge :=
  { b with
    byEngineId := b.byEngineId.erase engineId
    byClientId := if clientId = "" then b.byClientId else b.byClientId.erase clientId
    history := { b.history with ended := b.history.ended ++ [clientId] } }

def pushResult (req : SubmitRequest) (symbol exchangeOrderId error : String)
    (ok : Bool) : ExecutionBridge :=
  let r : SubmitResult := ⟨req.engineId, symbol, exchangeOrderId, error, req.operation, ok⟩
  { b with
    pendingSubmitResults := b.pendingSubmitResults ++ [r]
    history := { b.history with results := b.history.results ++ [⟨req, r, rfl, rfl⟩] } }

/-- A field of the request, or what the table has for it by now. -/
def latest (old : String) (now : Option String) : String :=
  match now with
  | some s => if s = "" then old else s
  | none => old

/-- The start of `process_one_submit`, up to the call of the transport. -/
def handOver (req : SubmitRequest) : ExecutionBridge :=
  if req.isCancel then
    let tracked := b.byEngineId.lookup req.engineId
    let symbol := latest req.symbol (tracked.map TrackedOrder.symbol)
    let exchangeId := latest req.cancelExchangeId (tracked.map TrackedOrder.exchangeId)
    let clientId := latest req.clientId (tracked.map TrackedOrder.clientId)
    { b with
      thread := .waiting req symbol clientId
      history := { b.history with
        handed := b.history.handed ++ [(req, enc.encodeCancel symbol exchangeId clientId)] } }
  else
    { b with
      thread := .waiting req req.symbol req.clientId
      history := { b.history with handed := b.history.handed ++ [(req, req.encoded)] } }

/-- The thread, up to the next lock or call. -/
def turn : ExecutionBridge :=
  match b.thread with
  | .check => { b with thread := if b.transportRunning then .take else .exited }
  | .take =>
    match b.submitQueue with
    | [] => { b with thread := .check }
    | req :: rest => { b with thread := .call req, submitQueue := rest }
  | .call req => b.handOver enc req
  | .waiting _ _ _ | .exited => b

/-- The id that the transport answered, for an order that has none yet. -/
def setExchangeId (engineId : Nat) (exchangeId : String) : ExecutionBridge :=
  match b.byEngineId.lookup engineId with
  | none => b
  | some t =>
    if exchangeId ≠ "" ∧ t.exchangeId = "" then
      { b with byEngineId := b.byEngineId.insert engineId { t with exchangeId := exchangeId } }
    else b

/-- What an answer of the transport does to the tables. -/
def applyResponse (req : SubmitRequest) (clientId : String) (res : Response) : ExecutionBridge :=
  if req.isCancel then
    if res.ok then b.untrack req.engineId clientId
    else { b with lastError := "cancel failed: " ++ res.error }
  else
    if res.ok then b.setExchangeId req.engineId res.exchangeOrderId
    else { b with lastError := "submit failed: " ++ res.error }.untrack req.engineId clientId

/-- The answer of the transport to the request in hand, or the text of an exception: the rest of
`process_one_submit` and of the turn of the loop. -/
def answer (res : Except String Response) : ExecutionBridge :=
  match b.thread with
  | .waiting req symbol clientId =>
    let b := { b with thread := .check }
    match res with
    | .ok res =>
      (b.applyResponse req clientId res).pushResult req symbol res.exchangeOrderId
        (if res.ok then "" else res.error) res.ok
    | .error what => b.pushResult req req.symbol "" ("exception: " ++ what) false
  | _ => b

/-! ## The user-data stream -/

def pushFill (msg : ParsedExec) (fill : FillEvent) : ExecutionBridge :=
  { b with
    pendingFills := b.pendingFills ++ [fill]
    history := { b.history with surfaced := b.history.surfaced ++ [(msg, fill)] } }

def dispatchUnknownFill (msg : ParsedExec) (synth : Option SynthResult) : ExecutionBridge :=
  if b.hasHandler ∧ msg.exchangeOrderId ≠ "" then
    let b := { b with nextFillId := b.nextFillId + 1 }
    match synth with
    | none => b
    | some sr =>
      let synthMeta : SynthMeta := ⟨sr.fill.orderId, sr.openerOrderId, sr.strategyName⟩
      { b with pendingSynthMeta := b.pendingSynthMeta ++ [synthMeta] }.pushFill msg sr.fill
  else b

/-- The start of `handle_message`: is the order known? -/
def lookupMessage (msg : ParsedExec) (synth : Option SynthResult) : ExecutionBridge :=
  let b := { b with history := { b.history with reports := b.history.reports ++ [msg] } }
  match b.byClientId.lookup msg.clientOrderId with
  | none => b.dispatchUnknownFill msg synth
  | some _ => { b with handling := b.handling ++ [msg] }

/-- What a message changes of an order. -/
def TrackedOrder.update (msg : ParsedExec) : TrackedOrder :=
  { t with
    exchangeId :=
      if msg.exchangeOrderId ≠ "" ∧ t.exchangeId = "" then msg.exchangeOrderId else t.exchangeId
    cumulativeQty := if msg.kind.isFill then t.cumulativeQty + msg.lastFillQty
      else t.cumulativeQty }

/-- What is left of an order after a fill. -/
def TrackedOrder.remaining (msg : ParsedExec) : ℚ :=
  if msg.kind = .partialFill ∧ 0 < t.totalQty then max 0 (t.totalQty - t.cumulativeQty) else 0

def fillFor (engineId fillId : Nat) (msg : ParsedExec) (now : Int) : FillEvent where
  timestamp := if msg.ts ≠ 0 then msg.ts else now
  symbol := msg.symbol
  orderId := engineId
  side := msg.side
  filledQuantity := msg.lastFillQty
  fillPrice := msg.lastFillPrice
  commission := msg.commission
  remainingQty := t.remaining msg
  fillId := fillId

/-- The rest of `handle_message`. -/
def applyMessage (msg : ParsedExec) (now : Int) : ExecutionBridge :=
  match b.byClientId.lookup msg.clientOrderId with
  | none => b
  | some engineId =>
    match b.byEngineId.lookup engineId with
    | none => b
    | some t =>
      let t := t.update msg
      let b :=
        if msg.kind.isFinal then
          { b with
            byEngineId := b.byEngineId.erase engineId
            byClientId := b.byClientId.erase msg.clientOrderId
            history := { b.history with ended := b.history.ended ++ [msg.clientOrderId] } }
        else { b with byEngineId := b.byEngineId.insert engineId t }
      if msg.kind.isFill then
        { b with nextFillId := b.nextFillId + 1 }.pushFill msg
          (fillFor t engineId b.nextFillId msg now)
      else b

/-- One of the messages in hand goes on. -/
def handle (i : Nat) (now : Int) : ExecutionBridge :=
  match b.handling[i]? with
  | none => b
  | some msg => { b with handling := b.handling.eraseIdx i }.applyMessage msg now

/-! ## The machine -/

inductive Op
  | submitOrder (o : OrderEvent) (minted : Option String)
  | cancelOrder (engineOrderId : Nat)
  | pollFills
  | pollSubmitResults
  | pollSynthMeta
  | setUnknownFillHandler
  | clearUnknownFillHandler
  | turn
  | answer (res : Except String Response)
  | lookupMessage (msg : ParsedExec) (synth : Option SynthResult)
  | handle (i : Nat) (now : Int)
  | close

inductive Reply
  | done
  | flag (ok : Bool)
  | fills (out : List FillEvent)
  | results (out : List SubmitResult)
  | synthMeta (out : List SynthMeta)

def step : Op → Reply × ExecutionBridge
  | .submitOrder o minted => (.done, b.submitOrder enc o minted)
  | .cancelOrder id => ((.flag (b.cancelOrder id).1), (b.cancelOrder id).2)
  | .pollFills => (.fills b.pollFills.1, b.pollFills.2)
  | .pollSubmitResults => (.results b.pollSubmitResults.1, b.pollSubmitResults.2)
  | .pollSynthMeta => (.synthMeta b.pollSynthMeta.1, b.pollSynthMeta.2)
  | .setUnknownFillHandler => (.done, { b with hasHandler := true })
  | .clearUnknownFillHandler => (.done, { b with hasHandler := false })
  | .turn => (.done, b.turn enc)
  | .answer res => (.done, b.answer res)
  | .lookupMessage msg synth => (.done, b.lookupMessage msg synth)
  | .handle i now => (.done, b.handle i now)
  | .close => (.done, b.close)

end ExecutionBridge

end TrueTest
