import TrueTest.Execution.ExecutionBridge

/-!
# Bitget's user data on the bridge

`BitgetFuturesUserDataParser` of `bitget_futures_user_data_parser.h`, in front of the execution
bridge. Bitget pushes the state of an order on one channel and its fills on another. The parser
makes a partial fill of every fill and leaves it to the bridge to see that an order is complete; a
push on the order channel never is a fill.

Two things are lost between the two. A push may carry several objects, and the parser reads the
first. And the bridge ends an order when a message says that it is filled, which none does. So the
fills of an order add up to what the venue executed, and the bridge stops following it in time, just
if the objects after the first of a push add up to nothing and the order is never filled
(`fills_complete_iff`).
-/

namespace TrueTest.Bitget

open ExecutionBridge List

/-! ## The parser -/

/-- An object of `data`; a missing string is empty. -/
structure ExecObject where
  clientOid : String
  orderId : String
  symbol : String
  side : String
  orderStatus : String
  execQty : Option ℚ
  execPrice : Option ℚ
  cumExecQty : Option ℚ
  fee : Option ℚ
  time : Option Int

structure UserPush where
  topic : String
  data : List ExecObject

def mapOrderSide (side : String) : OrderSide :=
  if side = "sell" ∨ side = "SELL" ∨ side = "Sell" then .sell else .buy

def classifyOrderStatus (status : String) : ExecKind :=
  if status = "new" ∨ status = "live" ∨ status = "init" then .ack
  else if status = "partially_filled" then .partialFill
  else if status = "filled" then .fullFill
  else if status = "cancelled" ∨ status = "canceled" then .canceled
  else if status = "rejected" then .rejected
  else .other

/-- A message with the fields that both channels have. -/
def ExecObject.message (obj : ExecObject) (kind : ExecKind)
    (lastFillQty lastFillPrice : ℚ) : ParsedExec where
  kind := kind
  clientOrderId := obj.clientOid
  exchangeOrderId := obj.orderId
  symbol := obj.symbol
  side := mapOrderSide obj.side
  lastFillQty := lastFillQty
  lastFillPrice := lastFillPrice
  cumulativeQty := obj.cumExecQty.getD 0
  commission := |obj.fee.getD 0|
  ts := obj.time.getD 0

def parseObject (topic : String) (obj : ExecObject) : Option ParsedExec :=
  if obj.clientOid = "" ∧ obj.orderId = "" then none
  else if topic = "" ∧ obj.orderStatus = "" ∧ obj.execQty = none then none
  else if (topic = "fill" ∨ topic = "fast-fill" ∨ obj.execQty.isSome) ∧ topic ≠ "order" then
    some (obj.message .partialFill (obj.execQty.getD 0) (obj.execPrice.getD 0))
  else
    let kind := classifyOrderStatus obj.orderStatus
    some (obj.message (if kind.isFill then .other else kind) 0 0)

def parse (push : UserPush) : Option ParsedExec :=
  if push.topic = "position" ∨ push.topic = "account" then none
  else if push.topic ≠ "" ∧ push.topic ≠ "order" ∧ push.topic ≠ "fill" ∧
      push.topic ≠ "fast-fill" then none
  else push.data.head?.bind (parseObject push.topic)

/-! ## The bridge -/

variable (enc : Encoder) (b : ExecutionBridge)

/-- The steps of the thread that a push arrives on: the message is looked up and, if its order is
known, applied. -/
def receiveOps (push : UserPush) (synth : Option SynthResult) (now : Int) : List Op :=
  match parse push with
  | none => []
  | some msg =>
    match b.byClientId.lookup msg.clientOrderId with
    | none => [.lookupMessage msg synth]
    | some _ => [.lookupMessage msg synth, .handle b.handling.length now]

def receive (arrival : UserPush × Int) : ExecutionBridge :=
  Machine.final (step enc) b (receiveOps b arrival.1 none arrival.2)

def receiveAll (arrivals : List (UserPush × Int)) : ExecutionBridge :=
  arrivals.foldl (receive enc) b

/-! ## An order and its pushes -/

/-- A push of the order or the fill channel, for the order with a client id, which is neither
cancelled nor rejected. -/
structure UserPush.For (push : UserPush) (clientId : String) : Prop where
  topic : push.topic = "order" ∨ push.topic = "fill" ∨ push.topic = "fast-fill"
  names : ∀ obj ∈ push.data, obj.clientOid = clientId ∧ ¬ (obj.clientOid = "" ∧ obj.orderId = "")
  live : ∀ obj ∈ push.data, obj.orderStatus ≠ "cancelled" ∧ obj.orderStatus ≠ "canceled" ∧
    obj.orderStatus ≠ "rejected"

/-- The quantities of the fill objects of a push. -/
def UserPush.execQtys (push : UserPush) : List ℚ :=
  if push.topic = "order" then [] else push.data.map fun obj => obj.execQty.getD 0

/-- What the venue executed, by its pushes. -/
def executed (arrivals : List (UserPush × Int)) : ℚ := (arrivals.map fun a => a.1.execQtys.sum).sum

/-- What is in the fill objects after the first of each push. -/
def unread (arrivals : List (UserPush × Int)) : ℚ :=
  (arrivals.map fun a => a.1.execQtys.tail.sum).sum

/-- The bridge follows the order. -/
def Follows (clientId : String) (engineId : Nat) : Prop :=
  b.byClientId.lookup clientId = some engineId ∧ (b.byEngineId.lookup engineId).isSome = true

theorem follows_submitOrder (o : OrderEvent) (minted : Option String) :
    Follows (b.submitOrder enc o minted) (clientIdFor o minted) o.orderId := by
  refine ⟨AList.lookup_insert _, ?_⟩
  show ((AList.insert o.orderId _ b.byEngineId).lookup o.orderId).isSome = true
  rw [AList.lookup_insert]
  rfl

variable {b : ExecutionBridge} {clientId : String} {engineId : Nat} {push : UserPush}
  (qtys : List ℚ)

/-- On the order channel a fill is demoted, and nothing else ends a live order. -/
theorem demoted_classify {status : String}
    (h : status ≠ "cancelled" ∧ status ≠ "canceled" ∧ status ≠ "rejected") :
    (if (classifyOrderStatus status).isFill then .other else classifyOrderStatus status
        : ExecKind).isFinal = false ∧
      (if (classifyOrderStatus status).isFill then .other else classifyOrderStatus status
        : ExecKind).isFill = false := by
  simp only [classifyOrderStatus, h]
  split_ifs <;> simp_all [ExecKind.isFill, ExecKind.isFinal]

/-- What the parser makes of a push: nothing, or a message about the order that does not end it and
has the quantity of the first fill object. -/
theorem parse_for (h : push.For clientId) :
    (parse push = none ∧ push.execQtys = []) ∨
      ∃ msg, parse push = some msg ∧ msg.clientOrderId = clientId ∧ msg.kind.isFinal = false ∧
        (if msg.kind.isFill then msg.lastFillQty else 0) = push.execQtys.head?.getD 0 := by
  obtain ⟨htopic, hnames, hlive⟩ := h
  have hparse : parse push = push.data.head?.bind (parseObject push.topic) := by
    rw [parse, if_neg (by rcases htopic with h | h | h <;> rw [h] <;> decide),
      if_neg (by rcases htopic with h | h | h <;> rw [h] <;> decide)]
  cases hdata : push.data with
  | nil => exact .inl ⟨by rw [hparse, hdata]; rfl, by rw [UserPush.execQtys, hdata]; split <;> rfl⟩
  | cons obj rest =>
    have hmem : obj ∈ push.data := hdata ▸ mem_cons_self
    obtain ⟨hclient, hnamed⟩ := hnames obj hmem
    refine .inr ?_
    rw [hparse, hdata, head?_cons, Option.bind_some, parseObject, if_neg hnamed,
      if_neg (by rcases htopic with h | h | h <;> rw [h] <;> simp), UserPush.execQtys, hdata]
    by_cases horder : push.topic = "order"
    · rw [if_neg (by simp [horder]), if_pos horder]
      obtain ⟨hfinal, hfill⟩ := demoted_classify (hlive obj hmem)
      exact ⟨_, rfl, hclient, hfinal, if_neg (by rw [Bool.not_eq_true]; exact hfill)⟩
    · have hfill : push.topic = "fill" ∨ push.topic = "fast-fill" ∨ obj.execQty.isSome = true := by
        rcases htopic with h | h | h
        · exact absurd h horder
        · exact .inl h
        · exact .inr (.inl h)
      rw [if_pos ⟨hfill, horder⟩, if_neg horder]
      exact ⟨_, rfl, hclient, rfl, rfl⟩

/-- A message that does not end its order leaves it in the tables, and a fill is put out. -/
theorem applyMessage_of_follows {msg : ParsedExec} (h : Follows b clientId engineId)
    (hclient : msg.clientOrderId = clientId) (hfinal : msg.kind.isFinal = false) (now : Int) :
    Follows (b.applyMessage msg now) clientId engineId ∧
      filledQty (b.applyMessage msg now).pendingFills engineId =
        filledQty b.pendingFills engineId + if msg.kind.isFill then msg.lastFillQty else 0 := by
  obtain ⟨hlook, hsome⟩ := h
  obtain ⟨t, ht⟩ := Option.isSome_iff_exists.1 hsome
  subst hclient
  simp only [applyMessage, hlook, ht, hfinal, Bool.false_eq_true, if_false]
  have hinsert : ((b.byEngineId.insert engineId (t.update msg)).lookup engineId).isSome = true := by
    rw [AList.lookup_insert]
    rfl
  split
  · refine ⟨⟨hlook, hinsert⟩, ?_⟩
    show filledQty (b.pendingFills ++ [_]) engineId = _
    rw [filledQty_append, filledQty_singleton]
    exact congrArg _ (if_pos rfl)
  · exact ⟨⟨hlook, hinsert⟩, (add_zero _).symm⟩

/-- **A push of an order leaves it in the tables and gives a fill for its first fill object.** -/
theorem receive_for (h : Follows b clientId engineId) (hpush : push.For clientId) (now : Int) :
    Follows (receive enc b (push, now)) clientId engineId ∧
      filledQty (receive enc b (push, now)).pendingFills engineId =
        filledQty b.pendingFills engineId + push.execQtys.head?.getD 0 := by
  rw [receive, receiveOps]
  rcases parse_for hpush with ⟨hparse, hnone⟩ | ⟨msg, hparse, hclient, hfinal, hqty⟩
  · rw [hparse, hnone]
    exact ⟨h, (add_zero _).symm⟩
  · have hlook : b.byClientId.lookup msg.clientOrderId = some engineId := hclient ▸ h.1
    rw [hparse, ← hqty]
    simp only [hlook, Machine.final, step, lookupMessage, handle, getElem?_concat_length]
    refine applyMessage_of_follows ?_ hclient hfinal now
    exact h

theorem sum_eq_head_add_tail : qtys.sum = qtys.head?.getD 0 + qtys.tail.sum := by
  cases qtys <;> simp

/-- **The bridge follows the order throughout, and its fills are what the first objects hold.** -/
theorem receiveAll_for (h : Follows b clientId engineId) {arrivals : List (UserPush × Int)}
    (harrivals : ∀ a ∈ arrivals, a.1.For clientId) :
    Follows (receiveAll enc b arrivals) clientId engineId ∧
      filledQty (receiveAll enc b arrivals).pendingFills engineId + unread arrivals =
        filledQty b.pendingFills engineId + executed arrivals := by
  induction arrivals generalizing b with
  | nil => exact ⟨h, rfl⟩
  | cons a arrivals ih =>
    obtain ⟨ha, hrest⟩ := forall_mem_cons.1 harrivals
    obtain ⟨hfollows, hqty⟩ := receive_for enc h ha a.2
    obtain ⟨hall, hsum⟩ := ih hfollows hrest
    refine ⟨hall, ?_⟩
    have hsplit := sum_eq_head_add_tail a.1.execQtys
    simp only [receiveAll, foldl_cons, unread, executed, map_cons, sum_cons] at *
    linarith

/-- **The fills of an order are what the venue executed, and the bridge follows it until that is all
of it, just if nothing is in the further objects of the pushes and the order is not filled.** -/
theorem fills_complete_iff (b : ExecutionBridge) (o : OrderEvent) (minted : Option String)
    {arrivals : List (UserPush × Int)}
    (harrivals : ∀ a ∈ arrivals, a.1.For (clientIdFor o minted)) :
    (filledQty (receiveAll enc (b.submitOrder enc o minted) arrivals).pendingFills o.orderId =
        filledQty b.pendingFills o.orderId + executed arrivals ∧
      ∀ early, early <+: arrivals → o.quantity ≤ executed early →
        ¬ Follows (receiveAll enc (b.submitOrder enc o minted) early) (clientIdFor o minted)
          o.orderId) ↔
      unread arrivals = 0 ∧ ∀ early, early <+: arrivals → executed early < o.quantity := by
  have hsubmit := follows_submitOrder enc b o minted
  have hsum := (receiveAll_for enc hsubmit harrivals).2
  have hfollows : ∀ early, early <+: arrivals →
      Follows (receiveAll enc (b.submitOrder enc o minted) early) (clientIdFor o minted)
        o.orderId :=
    fun early hearly => (receiveAll_for enc hsubmit fun a ha => harrivals a (hearly.subset ha)).1
  have hpending : (b.submitOrder enc o minted).pendingFills = b.pendingFills := rfl
  rw [hpending] at hsum
  constructor
  · rintro ⟨hqty, huntrack⟩
    refine ⟨by linarith, fun early hearly => ?_⟩
    by_contra hle
    exact huntrack early hearly (not_lt.1 hle) (hfollows early hearly)
  · rintro ⟨hunread, hopen⟩
    exact ⟨by linarith, fun early hearly hle => absurd (hopen early hearly) (not_lt.2 hle)⟩

def fillObject (qty : ℚ) : ExecObject :=
  ⟨"tt-1", "7", "BTCUSDT", "buy", "", some qty, some 100, none, none, some 1⟩

theorem fillPush_for : UserPush.For ⟨"fill", qtys.map fillObject⟩ "tt-1" := by
  refine ⟨.inr (.inl rfl), ?_, ?_⟩ <;> rw [forall_mem_map] <;> intro qty _ <;> simp [fillObject]

def bitgetOrder : OrderEvent := .new 0 1 "BTCUSDT" .limit .buy 10 100 .gtc 0

/-- A push with one fill of a part of the order. -/
theorem fills_complete_of_onePush :
    let arrivals := [(⟨"fill", [fillObject 4]⟩, 0)]
    let b := (opened false).submitOrder noEncoder bitgetOrder none
    filledQty (receiveAll noEncoder b arrivals).pendingFills 1 =
      filledQty [] 1 + executed arrivals ∧
      ∀ early, early <+: arrivals → 10 ≤ executed early →
        ¬ Follows (receiveAll noEncoder b early) "tt-1" 1 :=
  (fills_complete_iff noEncoder (opened false) bitgetOrder none
    (forall_mem_singleton.2 (fillPush_for [4]))).2
    ⟨by decide +kernel, by
      intro early hearly
      rcases prefix_cons_iff.1 hearly with rfl | ⟨later, rfl, hlater⟩
      · decide +kernel
      · rw [prefix_nil.1 hlater]
        decide +kernel⟩

/-- Two fills in one push, which fill the order: the second is lost and the order is followed on. -/
theorem fills_incomplete :
    let arrivals := [(⟨"fill", [fillObject 4, fillObject 6]⟩, 0)]
    let b := (opened false).submitOrder noEncoder bitgetOrder none
    executed arrivals = 10 ∧ filledQty (receiveAll noEncoder b arrivals).pendingFills 1 = 4 ∧
      Follows (receiveAll noEncoder b [(⟨"fill", [fillObject 10]⟩, 0)]) "tt-1" 1 := by
  refine ⟨by decide +kernel, by decide +kernel, ?_⟩
  rw [Follows]
  decide +kernel

end TrueTest.Bitget
