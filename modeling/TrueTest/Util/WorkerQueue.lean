import TrueTest.Util.Machine

/-!
# A queue and the thread that works it off

Any thread may add to the queue. The worker tests a flag, takes the first item, hands it over and
waits until it is finished, over and over; it ends when the flag is down at the test. Each of these
is one step, so anything may happen between two of them.

The items are handed over once each and in order (`Inv`). Once the flag is down the worker takes no
more than one item, and only if it was past the test already. So what was in the queue when the flag
went down is all handed over just if it was no more than that (`drained_iff`).
-/

namespace WorkerQueue

open List Machine

variable {α : Type}

/-- Where the worker is. -/
inductive Phase (α : Type)
  | check
  | take
  | call (a : α)
  | waiting (a : α)
  | exited

structure Worker (α : Type) where
  running : Bool
  phase : Phase α
  queue : List α
  enqueued : List α
  handed : List α
  finished : List α

inductive Move (α : Type)
  | stay
  | enqueue (a : α)
  | turn
  | finish
  | stop

variable (w : Worker α)

/-- The worker, up to its next wait. -/
def Worker.turn : Worker α :=
  match w.phase with
  | .check => { w with phase := if w.running then .take else .exited }
  | .take =>
    match w.queue with
    | [] => { w with phase := .check }
    | a :: rest => { w with phase := .call a, queue := rest }
  | .call a => { w with phase := .waiting a, handed := w.handed ++ [a] }
  | .waiting _ | .exited => w

def Worker.finish : Worker α :=
  match w.phase with
  | .waiting a => { w with phase := .check, finished := w.finished ++ [a] }
  | _ => w

/-- The flag goes down. -/
def Worker.stop : Worker α := { w with running := false }

def step : Move α → Unit × Worker α
  | .stay => ((), w)
  | .enqueue a => ((), { w with queue := w.queue ++ [a], enqueued := w.enqueued ++ [a] })
  | .turn => ((), w.turn)
  | .finish => ((), w.finish)
  | .stop => ((), w.stop)

def Phase.inHand : Phase α → List α
  | .call a => [a]
  | _ => []

/-- The item that is handed over and not finished. -/
def Phase.pending : Phase α → List α
  | .waiting a => [a]
  | _ => []

/-- Every item is in one place, and their order is that of the queue. -/
structure Inv (w : Worker α) : Prop where
  enqueued_eq : w.handed ++ w.phase.inHand ++ w.queue = w.enqueued
  handed_eq : w.finished ++ w.phase.pending = w.handed

theorem Inv.turn {w : Worker α} (h : Inv w) : Inv w.turn := by
  obtain ⟨henqueued, hhanded⟩ := h
  rw [Worker.turn]
  split <;> rename_i hphase <;> rw [hphase] at henqueued hhanded
  · constructor <;> dsimp only <;> split <;> assumption
  · split <;> rename_i hqueue <;> rw [hqueue] at henqueued
    · exact ⟨by rw [hqueue]; exact henqueued, hhanded⟩
    · exact ⟨by simpa [Phase.inHand] using henqueued, hhanded⟩
  · exact ⟨by simpa [Phase.inHand] using henqueued, by simpa [Phase.pending] using hhanded⟩
  · exact ⟨by rw [hphase]; exact henqueued, by rw [hphase]; exact hhanded⟩
  · exact ⟨by rw [hphase]; exact henqueued, by rw [hphase]; exact hhanded⟩

theorem Inv.finish {w : Worker α} (h : Inv w) : Inv w.finish := by
  obtain ⟨henqueued, hhanded⟩ := h
  rw [Worker.finish]
  split
  · rename_i a hphase
    rw [hphase] at henqueued hhanded
    exact ⟨henqueued, by simpa [Phase.pending] using hhanded⟩
  · exact ⟨henqueued, hhanded⟩

theorem Inv.step {w : Worker α} (h : Inv w) (m : Move α) : Inv (step w m).2 := by
  cases m with
  | stay => exact h
  | enqueue a =>
    refine ⟨?_, h.handed_eq⟩
    show w.handed ++ w.phase.inHand ++ (w.queue ++ [a]) = w.enqueued ++ [a]
    rw [← h.enqueued_eq, append_assoc _ w.queue]
  | turn => exact h.turn
  | finish => exact h.finish
  | stop => exact ⟨h.enqueued_eq, h.handed_eq⟩

/-! ## After the flag is down -/

/-- The number of items that were taken from the queue. -/
def Worker.taken : Nat := w.handed.length + w.phase.inHand.length

/-- The number of items that the worker takes without another test. -/
def Worker.slot : Nat :=
  match w.phase with
  | .take => 1
  | _ => 0

/-- The flag is down; bounds for what the worker has taken, with what it is yet to take. -/
structure Stopping (earlier : List α) (least most : Nat) (w : Worker α) : Prop where
  running : w.running = false
  grows : earlier <+: w.enqueued
  atMost : w.taken + w.slot ≤ most
  atLeast : least ≤ w.taken + min w.slot w.queue.length

theorem Stopping.step {earlier : List α} {least most : Nat} {w : Worker α}
    (h : Stopping earlier least most w)
    (m : Move α) : Stopping earlier least most (step w m).2 := by
  obtain ⟨hrunning, hgrows, hmost, hleast⟩ := h
  cases m with
  | stay => exact ⟨hrunning, hgrows, hmost, hleast⟩
  | enqueue a =>
    refine ⟨hrunning, hgrows.trans (prefix_append _ _), hmost, ?_⟩
    have hlen : (w.queue ++ [a]).length = w.queue.length + 1 := length_append
    simp only [WorkerQueue.step, Worker.taken, Worker.slot, hlen] at *
    omega
  | stop => exact ⟨rfl, hgrows, hmost, hleast⟩
  | finish =>
    simp only [WorkerQueue.step, Worker.finish]
    split <;> rename_i hphase
    · constructor <;> simp_all [Worker.taken, Worker.slot, Phase.inHand]
    · exact ⟨hrunning, hgrows, hmost, hleast⟩
  | turn =>
    simp only [WorkerQueue.step, Worker.turn]
    split <;> rename_i hphase
    · constructor <;> simp_all [Worker.taken, Worker.slot, Phase.inHand]
    · split <;> rename_i hqueue <;> constructor <;>
        simp_all [Worker.taken, Worker.slot, Phase.inHand]
      omega
    · constructor <;> simp_all [Worker.taken, Worker.slot, Phase.inHand]
    · exact ⟨hrunning, hgrows, hmost, hleast⟩
    · exact ⟨hrunning, hgrows, hmost, hleast⟩

/-- **When the worker has ended, all that was in the queue when the flag went down is handed over
just if it was no more than the worker took without a test.** -/
theorem drained_iff {s : Worker α} (hs : Inv s) {moves : List (Move α)}
    (hexit : (final step s.stop moves).phase = .exited) :
    s.enqueued <+: (final step s.stop moves).handed ↔ s.queue.length ≤ s.slot := by
  have hmem : _ ∈ states step s.stop moves := final_mem_states s.stop moves
  have hinv := invariant_of_step (I := Inv) (fun w m hw => hw.step m) (hs.step .stop) moves _ hmem
  have hstop := invariant_of_step
    (I := Stopping s.enqueued (s.taken + min s.slot s.queue.length) (s.taken + s.slot))
    (fun w m hw => hw.step m) (s := s.stop)
    ⟨rfl, prefix_rfl, Nat.le_refl _, Nat.le_refl _⟩ moves _ hmem
  generalize final step s.stop moves = t at *
  have hbefore := congrArg length hs.enqueued_eq
  have hall := hinv.enqueued_eq
  obtain ⟨-, hgrows, hmost, hleast⟩ := hstop
  have hslot : t.slot = 0 := by rw [Worker.slot, hexit]
  have htaken : t.taken = t.handed.length := by rw [Worker.taken, hexit]; rfl
  rw [hslot, htaken] at hmost hleast
  rw [length_append, length_append, ← Worker.taken] at hbefore
  simp only [hexit, Phase.inHand, append_nil] at hall
  constructor
  · intro h
    have hle := h.length_le
    omega
  · intro h
    exact prefix_of_prefix_length_le hgrows ⟨t.queue, hall⟩ (by omega)

end WorkerQueue
