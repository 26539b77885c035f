import TrueTest.Util.Machine

/-!
# The line writer

`IlpWriter` of `data/questdb/ilp_writer.cpp` buffers lines and flushes the buffer to a connection,
or to a fallback sink when the connection fails. No line is lost or repeated. A flush takes a buffer
without text for an empty one, so lines without text stay in the count; the interface asks for lines
that end in a newline. The answers of the transport and the clock are inputs.
-/

namespace TrueTest.IlpWriter

open Machine List

abbrev Line := List Char

/-- The transport at a flush: whether it is connected, connects when asked, and takes a write. -/
structure Link where
  isConnected : Bool
  connects : Bool
  writes : Bool

structure Writer where
  flushEveryNLines : Nat
  flushEvery : Int
  /-- `buffer_` is the concatenation of these lines. -/
  buffer : List Line := []
  bufferCount : Nat := 0
  lastFlush : Int := 0
  consecutiveFailures : Nat := 0
  /-- The lines written to the sink. -/
  fallbackSink : Option (List Line) := none
  fallbackLines : Nat := 0
  /-- All lines that were enqueued. -/
  enqueued : List Line := []
  /-- All lines that were delivered or written to a sink, in flush order. -/
  written : List Line := []

variable (w : Writer) (link : Link) (now : Int)

def Writer.text : List Char := w.buffer.flatten

/-- The buffer leaves the writer. -/
def Writer.clear : Writer :=
  { w with buffer := [], bufferCount := 0, written := w.written ++ w.buffer }

/-- A failed connect and a failed write both put the buffer into the sink, if there is one. -/
def Writer.fail : Writer :=
  match w.fallbackSink with
  | some sink => { w.clear with
      consecutiveFailures := w.consecutiveFailures + 1
      fallbackSink := some (sink ++ w.buffer)
      fallbackLines := w.fallbackLines + w.bufferCount }
  | none => { w with consecutiveFailures := w.consecutiveFailures + 1 }

def Writer.flush : Option Bool × Writer :=
  if w.text = [] then (some true, { w with lastFlush := now })
  else if (link.isConnected ∨ link.connects) ∧ link.writes then
    (some true, { w.clear with consecutiveFailures := 0, lastFlush := now })
  else (some false, w.fail)

def Writer.append (line : Line) : Writer :=
  { w with
    buffer := w.buffer ++ [line], bufferCount := w.bufferCount + 1,
    enqueued := w.enqueued ++ [line] }

inductive Op
  | enqueue (line : Line)
  | flush
  | maybeTimeFlush
  | enableFallback (sink : Bool)

/-- A call, with the transport and the clock it meets. The output is the answer of the flush it
makes. -/
def step (w : Writer) : Op × Link × Int → Option Bool × Writer
  | (.enqueue line, link, now) =>
    let w := w.append line
    if w.flushEveryNLines ≤ w.bufferCount then w.flush link now else (none, w)
  | (.flush, link, now) => w.flush link now
  | (.maybeTimeFlush, link, now) =>
    if w.text ≠ [] ∧ w.flushEvery ≤ now - w.lastFlush then w.flush link now else (none, w)
  | (.enableFallback sink, _, _) =>
    (none, { w with fallbackSink := if sink then some [] else none, fallbackLines := 0 })

/-- What left the buffer and what is in it is what was enqueued, and the counts are right. -/
structure Kept (w : Writer) : Prop where
  lines : w.written ++ w.buffer = w.enqueued
  count : w.bufferCount = w.buffer.length
  fallback : w.fallbackLines = (w.fallbackSink.getD []).length

variable {w}

theorem Kept.flush (h : Kept w) : Kept (w.flush link now).2 := by
  unfold Writer.flush
  split_ifs
  · exact ⟨h.lines, h.count, h.fallback⟩
  · exact ⟨by simp [Writer.clear, h.lines], rfl, h.fallback⟩
  · unfold Writer.fail
    split
    · next sink hsink =>
      exact ⟨by simp [Writer.clear, h.lines], rfl, by simp [h.fallback, h.count, hsink]⟩
    · exact ⟨h.lines, h.count, h.fallback⟩

theorem Kept.append (h : Kept w) (line : Line) : Kept (w.append line) :=
  ⟨by simp [Writer.append, ← h.lines], by simp [Writer.append, h.count], h.fallback⟩

/-- After a flush that succeeds there is no text in the buffer. -/
theorem text_of_flush (h : (w.flush link now).1 = some true) : (w.flush link now).2.text = [] := by
  unfold Writer.flush at h ⊢
  split_ifs at h ⊢ with htext
  · exact htext
  · rfl
  · cases h

theorem Kept.step (h : Kept w) (op : Op × Link × Int) :
    Kept (step w op).2 ∧ ((step w op).1 = some true → (step w op).2.text = []) := by
  obtain ⟨op, link, now⟩ := op
  cases op with
  | enqueue line =>
    unfold IlpWriter.step
    dsimp only
    split
    · exact ⟨(h.append line).flush link now, text_of_flush link now⟩
    · exact ⟨h.append line, nofun⟩
  | flush => exact ⟨h.flush link now, text_of_flush link now⟩
  | maybeTimeFlush =>
    unfold IlpWriter.step
    dsimp only
    split
    · exact ⟨h.flush link now, text_of_flush link now⟩
    · exact ⟨h, nofun⟩
  | enableFallback sink => exact ⟨⟨h.lines, h.count, by cases sink <;> rfl⟩, nofun⟩

/-- **No line is lost or repeated**, and a flush that succeeds leaves no full buffer. -/
theorem run_kept (n : Nat) (flushEvery : Int) (ops : List (Op × Link × Int)) :
    ∀ w ∈ states step { flushEveryNLines := n, flushEvery := flushEvery } ops,
      w.written ++ w.buffer = w.enqueued ∧ w.fallbackLines = (w.fallbackSink.getD []).length ∧
        ∀ op, 0 < n → (∀ line ∈ (step w op).2.enqueued, line ≠ []) → (step w op).1 = some true →
          (step w op).2.bufferCount < n := by
  intro w hw
  have hkept : Kept w :=
    invariant_of_step (I := Kept) (fun w op h => (h.step op).1) ⟨rfl, rfl, rfl⟩ ops w hw
  refine ⟨hkept.lines, hkept.fallback, fun op hn hlines hop => ?_⟩
  obtain ⟨hnext, htext⟩ := hkept.step op
  have hempty : (step w op).2.buffer = [] := by
    refine eq_nil_iff_forall_not_mem.2 fun line hline => ?_
    exact hlines line (hnext.lines ▸ mem_append_right _ hline)
      (flatten_eq_nil_iff.1 (htext hop) line hline)
  rw [hnext.count, hempty]
  exact hn

/-- A line that could not be sent goes out with the next one. -/
theorem run_kept_line :
    let w := (step { flushEveryNLines := 1, flushEvery := 50 }
      (.enqueue ['a', '\n'], ⟨false, false, false⟩, 0)).2
    w.bufferCount = 1 ∧ (step w (.enqueue ['b', '\n'], ⟨true, true, true⟩, 0)).2.bufferCount < 1 :=
  ⟨by decide, (run_kept 1 50 [_] _ (mem_cons_of_mem _ mem_cons_self)).2.2 _ (by decide) (by decide)
    (by decide)⟩

/-- A line without text stays in the buffer after a flush that succeeds. -/
theorem flush_full_of_no_text :
    let w := step { flushEveryNLines := 1, flushEvery := 50 } (.enqueue [], ⟨true, true, true⟩, 0)
    w.1 = some true ∧ w.2.bufferCount = 1 := by
  decide

end TrueTest.IlpWriter
