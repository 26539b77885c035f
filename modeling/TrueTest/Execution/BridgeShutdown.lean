import TrueTest.Execution.ExecutionBridge
import TrueTest.Util.WorkerQueue

/-!
# Closing the bridge

`close` lowers the flag that the transport thread tests and waits for the thread to end. The thread
ends at its next test, whatever the queue holds. The source says that the thread is stopped first
"so it can drain", but nothing drains the queue.

The queue and the thread are a `WorkerQueue` (`worker_step`). So every request is handed over at
most once, in order, and those that are have one result each; when `close` returns, all the requests
from before it have been handed over just if the queue was empty when it was called, or had one
request and the thread was past the test (`close_drains_iff`).
-/

namespace TrueTest.ExecutionBridge

open WorkerQueue Machine

open WorkerQueue (Worker Move)

variable (enc : Encoder)

/-! ## The queue and its thread -/

def Phase.worker : Phase → WorkerQueue.Phase SubmitRequest
  | .check => .check
  | .take => .take
  | .call req => .call req
  | .waiting req _ _ => .waiting req
  | .exited => .exited

def worker (b : ExecutionBridge) : Worker SubmitRequest where
  running := b.transportRunning
  phase := b.thread.worker
  queue := b.submitQueue
  enqueued := b.history.enqueued
  handed := b.history.handed.map Prod.fst
  finished := b.history.results.map Answered.request

/-- What a step of the bridge is for the queue. -/
def move (b : ExecutionBridge) : Op → Move SubmitRequest
  | .submitOrder o minted =>
    .enqueue ⟨o.orderId, clientIdFor o minted, o.symbol,
      enc.encodeSubmit o (clientIdFor o minted), false, ""⟩
  | .cancelOrder id =>
    match b.byEngineId.lookup id with
    | none => .stay
    | some t => .enqueue ⟨id, t.clientId, t.symbol, ⟨"", ""⟩, true, t.exchangeId⟩
  | .turn => .turn
  | .answer _ => .finish
  | .close => .stop
  | _ => .stay

variable (b : ExecutionBridge) (msg : ParsedExec) (synth : Option SynthResult) (req : SubmitRequest)

theorem worker_turn : (b.turn enc).worker = b.worker.turn := by
  rw [turn, Worker.turn]
  cases hthread : b.thread with
  | check => cases hrun : b.transportRunning <;> simp [worker, hthread, hrun, Phase.worker]
  | take => cases hqueue : b.submitQueue <;> simp [worker, hthread, hqueue, Phase.worker]
  | call req =>
    simp only [worker, hthread, Phase.worker, handOver]
    split <;> simp
  | waiting req symbol clientId | exited => simp [worker, hthread, Phase.worker]

@[simp] theorem worker_setExchangeId (engineId : Nat) (exchangeId : String) :
    (b.setExchangeId engineId exchangeId).worker = b.worker := by
  rw [setExchangeId]
  split
  · rfl
  · split <;> rfl

@[simp] theorem worker_applyResponse (clientId : String) (res : Response) :
    (b.applyResponse req clientId res).worker = b.worker := by
  rw [applyResponse]
  split <;> split
  · rfl
  · rfl
  · exact worker_setExchangeId b _ _
  · rfl

theorem worker_pushResult (symbol exchangeOrderId error : String) (ok : Bool) :
    (b.pushResult req symbol exchangeOrderId error ok).worker =
      { b.worker with finished := b.worker.finished ++ [req] } := by
  simp [worker, pushResult]

theorem worker_answer (res : Except String Response) : (b.answer res).worker = b.worker.finish := by
  rw [answer, Worker.finish]
  cases hthread : b.thread with
  | waiting req symbol clientId =>
    cases res with
    | ok res =>
      rw [worker_pushResult, worker_applyResponse]
      simp [worker, hthread, Phase.worker]
    | error what =>
      rw [worker_pushResult]
      simp [worker, hthread, Phase.worker]
  | _ => simp [worker, hthread, Phase.worker]

@[simp] theorem worker_dispatchUnknownFill :
    (b.dispatchUnknownFill msg synth).worker = b.worker := by
  rw [dispatchUnknownFill]
  split
  · cases synth <;> rfl
  · rfl

@[simp] theorem worker_lookupMessage : (b.lookupMessage msg synth).worker = b.worker := by
  rw [lookupMessage]
  split
  · rw [worker_dispatchUnknownFill]
    rfl
  · rfl

@[simp] theorem worker_applyMessage (now : Int) : (b.applyMessage msg now).worker = b.worker := by
  rw [applyMessage]
  split
  · rfl
  · split
    · rfl
    · cases msg.kind.isFinal <;> cases msg.kind.isFill <;> rfl

@[simp] theorem worker_handle (i : Nat) (now : Int) : (b.handle i now).worker = b.worker := by
  rw [handle]
  split
  · rfl
  · rw [worker_applyMessage]
    rfl

theorem worker_cancelOrder (id : Nat) :
    (b.cancelOrder id).2.worker = (WorkerQueue.step b.worker (move enc b (.cancelOrder id))).2 := by
  rw [cancelOrder, move]
  cases b.byEngineId.lookup id <;> rfl

/-- **The queue and the thread of the bridge are a worker's.** -/
theorem worker_step (op : Op) :
    (step enc b op).2.worker = (WorkerQueue.step b.worker (move enc b op)).2 := by
  cases op with
  | cancelOrder id => exact worker_cancelOrder enc b id
  | turn => exact worker_turn enc b
  | answer res => exact worker_answer b res
  | lookupMessage msg synth => exact worker_lookupMessage b msg synth
  | handle i now => exact worker_handle b i now
  | _ => rfl

theorem exists_moves (ops : List Op) :
    ∃ moves, (final (step enc) b ops).worker = final WorkerQueue.step b.worker moves := by
  induction ops generalizing b with
  | nil => exact ⟨[], rfl⟩
  | cons op ops ih =>
    obtain ⟨moves, hmoves⟩ := ih (step enc b op).2
    rw [worker_step] at hmoves
    exact ⟨move enc b op :: moves, hmoves⟩

/-! ## Closing -/

theorem inv_final (hb : WorkerQueue.Inv b.worker) (ops : List Op) :
    WorkerQueue.Inv (final (step enc) b ops).worker := by
  obtain ⟨moves, hmoves⟩ := exists_moves enc b ops
  rw [hmoves]
  exact invariant_of_step (fun w m hw => hw.step m) hb moves _ (final_mem_states _ _)

theorem slot_worker : b.worker.slot = if b.thread = .take then 1 else 0 := by
  rw [Worker.slot, worker]
  cases b.thread <;> rfl

/-- **When `close` has returned**, the requests have been handed to the transport at most once each
and in order, **and every one from before it has been, and has its result, just if the queue had no
request that the thread did not take before its next test.** -/
theorem close_drains_iff (hasHandler : Bool) (before after : List Op)
    (hexit : (final (step enc) (opened hasHandler) (before ++ .close :: after)).thread = .exited) :
    let b := final (step enc) (opened hasHandler) before
    let b' := final (step enc) (opened hasHandler) (before ++ .close :: after)
    b'.history.handed.map Prod.fst <+: b'.history.enqueued ∧
      ((b.history.enqueued <+: b'.history.handed.map Prod.fst ∧
        b'.history.results.map Answered.request = b'.history.handed.map Prod.fst) ↔
          b.submitQueue.length ≤ if b.thread = .take then 1 else 0) := by
  intro b b'
  have hb : WorkerQueue.Inv b.worker := inv_final enc _ ⟨rfl, rfl⟩ before
  have hb' : Inv b'.worker := inv_final enc _ ⟨rfl, rfl⟩ _
  have hphase : b'.worker.phase = .exited := by rw [worker, hexit, Phase.worker]
  obtain ⟨moves, hmoves⟩ := exists_moves enc (step enc b .close).2 after
  have hrun : b'.worker = final WorkerQueue.step b.worker.stop moves := by
    rw [← show (step enc b .close).2.worker = b.worker.stop from rfl, ← hmoves]
    exact congrArg worker (final_append _ _ _)
  have hresults : b'.worker.finished = b'.worker.handed := by
    simpa only [hphase, Phase.pending, List.append_nil] using hb'.handed_eq
  rw [← slot_worker]
  refine ⟨⟨_, (List.append_assoc _ _ _).symm.trans hb'.enqueued_eq⟩, ?_⟩
  refine Iff.trans (and_iff_left hresults) ?_
  show b.worker.enqueued <+: b'.worker.handed ↔ _
  rw [hrun] at hphase ⊢
  exact drained_iff hb hphase

def someOrder (id : Nat) : OrderEvent := .new 0 id "BTC" .limit .buy 10 100 .gtc 0

/-- An order is submitted and sent, and then the bridge is closed. -/
def sentRun : List Op :=
  [.submitOrder (someOrder 1) none, .turn, .turn, .turn, .answer (.ok ⟨true, "EX-1", ""⟩)]

theorem close_drains_of_sentRun :
    let b := final (step noEncoder) (opened false) sentRun
    let b' := final (step noEncoder) (opened false) (sentRun ++ [.close, .turn])
    b.history.enqueued <+: b'.history.handed.map Prod.fst ∧
      b'.history.results.map Answered.request = b'.history.handed.map Prod.fst :=
  (close_drains_iff noEncoder false sentRun [.turn] (by decide +kernel)).2.2 (by decide +kernel)

/-- An order that is submitted just before the bridge is closed is never sent. -/
theorem close_loses_backlog :
    let b := final (step noEncoder) (opened false) [.submitOrder (someOrder 1) none]
    let b' := final (step noEncoder) (opened false)
      [.submitOrder (someOrder 1) none, .close, .turn]
    b'.thread = .exited ∧ ¬ b.history.enqueued <+: b'.history.handed.map Prod.fst ∧
      b'.history.results.length = 0 := by
  decide +kernel

end TrueTest.ExecutionBridge
