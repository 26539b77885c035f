import Mathlib.Data.List.TakeWhile
import TrueTest.Core.EventLogFile

/-!
# Seeking in an event log

A replayer with a window seeks to an entry of the index instead of reading the log from its start.
It takes the last entry that is not after the start of the window. In a log whose times do not go
back, an entry after that one is of no use, but the events before it may have the same time: if one
of them is at the very start of the window it is in the window, and it is not read.

So a window gives what a filter of the whole log gives unless two events, the second with an entry
of its own, are both at the start of the window (`replay_write_eq_filter_iff`).
-/

namespace TrueTest.EventLog

open ByteFormat List

/-! ## Filters -/

def inWindow (replayFromUs replayToUs : Int) (e : Event) : Bool :=
  decide (replayFromUs ≤ microseconds e.timestamp ∧ microseconds e.timestamp ≤ replayToUs)

def InOrder (es : List Event) : Prop :=
  es.Pairwise fun e e' => e.timestamp.toInt ≤ e'.timestamp.toInt

instance (es : List Event) : Decidable (InOrder es) :=
  inferInstanceAs (Decidable (List.Pairwise _ _))

theorem microseconds_mono {ts ts' : I64} (h : ts.toInt ≤ ts'.toInt) :
    microseconds ts ≤ microseconds ts' :=
  Int.tdiv_le_tdiv (by decide) h

@[simp] theorem microseconds_kept (e : Event) :
    microseconds e.kept.timestamp = microseconds e.timestamp := by
  obtain ⟨d, _, _⟩ := e
  cases d <;> exact microseconds_keptTs _

variable {es : List Event} {i : Nat}

/-- In order, the loop ends at the first event after the window for good. -/
theorem deliver_eq_filter (horder : InOrder es) (replayFromUs replayToUs : Int) :
    deliver replayFromUs replayToUs (es.map fun e => some e.kept) =
      some ((es.map Event.kept).filter (inWindow replayFromUs replayToUs)) := by
  induction es with
  | nil => rfl
  | cons e es ih =>
    obtain ⟨hhead, htail⟩ := pairwise_cons.1 horder
    rw [map_cons, deliver, ih htail, microseconds_kept, map_cons, filter_cons]
    simp only [inWindow, microseconds_kept, decide_eq_true_eq]
    split_ifs with hafter hbefore hin hin
    · omega
    · have hnone : ∀ e' ∈ es.map Event.kept, ¬ inWindow replayFromUs replayToUs e' = true := by
        intro e' he'
        obtain ⟨e', hmem, rfl⟩ := mem_map.1 he'
        have hle := microseconds_mono (hhead e' hmem)
        rw [inWindow, microseconds_kept, decide_eq_true_eq]
        omega
      exact congrArg some (filter_eq_nil_iff.2 hnone).symm
    · omega
    · rfl
    · rfl
    · omega

/-! ## The sought event -/

theorem micros_mono (horder : InOrder es) {k : Nat} (hik : i ≤ k) (hk : k < es.length) :
    micros es i ≤ micros es k := by
  have hle : es[i].timestamp.toInt ≤ es[k].timestamp.toInt := by
    rcases hik.eq_or_lt with rfl | hlt
    · exact le_rfl
    · exact pairwise_iff_getElem.1 horder i k (hlt.trans hk) hk hlt
  rw [micros, micros, getElem?_eq_getElem hk, getElem?_eq_getElem (hik.trans_lt hk)]
  exact microseconds_mono hle

theorem mem_indexed_lt (h : i ∈ indexed es) : i < es.length :=
  (mem_marks.1 (mem_of_mem_take h)).1

theorem indexed_pairwise (es : List Event) : (indexed es).Pairwise (· < ·) :=
  (pairwise_lt_range.filter _).sublist (take_sublist _ _)

/-- The first event of a log has an entry. -/
theorem indexed_getElem?_zero (es : List Event) : (indexed es)[0]?.getD 0 = 0 := by
  have hmarks : ∀ n, (marks n)[0]?.getD 0 = 0 := by
    intro n
    cases n with
    | zero => rfl
    | succ n => rw [marks, range_succ_eq_map, filter_cons_of_pos (by decide)]; rfl
  rw [indexed, getElem?_take]
  split
  · exact hmarks _
  · rfl

/-- The indexed events up to the first one that is after a time. -/
def early (es : List Event) (ts : Int) : List Nat :=
  (indexed es).takeWhile fun i => decide (micros es i ≤ ts)

theorem early_pairwise (es : List Event) (ts : Int) : (early es ts).Pairwise (· < ·) :=
  (indexed_pairwise es).sublist (takeWhile_sublist _)

theorem mem_takeWhile_of_pairwise {α : Type} {p : α → Bool} {l : List α}
    (hl : l.Pairwise fun a b => p b = true → p a = true) {a : α} (ha : a ∈ l) (hp : p a = true) :
    a ∈ l.takeWhile p := by
  induction l with
  | nil => cases ha
  | cons b l ih =>
    obtain ⟨hb, hl⟩ := pairwise_cons.1 hl
    rcases mem_cons.1 ha with rfl | ha
    · rw [takeWhile_cons_of_pos hp]
      exact mem_cons_self
    · rw [takeWhile_cons_of_pos (hb a ha hp)]
      exact mem_cons_of_mem _ (ih hl ha)

theorem mem_early_iff (horder : InOrder es) {ts : Int} :
    i ∈ early es ts ↔ i ∈ indexed es ∧ micros es i ≤ ts := by
  constructor
  · intro h
    exact ⟨(takeWhile_sublist _).subset h, by simpa using mem_takeWhile_imp h⟩
  · rintro ⟨hi, hle⟩
    have hclosed : (indexed es).Pairwise fun i k =>
        decide (micros es k ≤ ts) = true → decide (micros es i ≤ ts) = true := by
      refine (indexed_pairwise es).imp_of_mem fun {i k} _ hk hlt => ?_
      have hmono := micros_mono horder (le_of_lt hlt) (mem_indexed_lt hk)
      rw [decide_eq_true_eq, decide_eq_true_eq]
      omega
    exact mem_takeWhile_of_pairwise hclosed hi (decide_eq_true hle)

section

variable {es : List Event} {replayFromUs : Int} (hpos : 0 < replayFromUs)
include hpos

theorem sought_eq : sought es replayFromUs = (early es replayFromUs).getLast?.getD 0 := by
  have hsplit : early es replayFromUs ++ _ = indexed es := takeWhile_append_dropWhile
  rw [sought, if_pos hpos, ← early]
  by_cases hearly : early es replayFromUs = []
  · rw [hearly]
    exact indexed_getElem?_zero es
  · have hlt : (early es replayFromUs).length - 1 < (early es replayFromUs).length :=
      Nat.sub_one_lt (length_pos_iff.2 hearly).ne'
    rw [← hsplit, getElem?_append_left hlt, getLast?_eq_getElem?]

theorem sought_mem (hne : sought es replayFromUs ≠ 0) :
    sought es replayFromUs ∈ early es replayFromUs := by
  rw [sought_eq hpos] at hne ⊢
  cases hlast : (early es replayFromUs).getLast? with
  | none => rw [hlast] at hne; exact absurd rfl hne
  | some i => exact mem_of_getLast? hlast

theorem le_sought (hi : i ∈ early es replayFromUs) : i ≤ sought es replayFromUs := by
  obtain ⟨n, hn, rfl⟩ := getElem_of_mem hi
  rw [sought_eq hpos, getLast?_eq_getElem?, getElem?_eq_getElem (by omega), Option.getD_some]
  rcases (Nat.le_sub_one_of_lt hn).eq_or_lt with heq | hlt
  · simp [heq]
  · exact (pairwise_iff_getElem.1 (early_pairwise es replayFromUs) n _ hn (by omega) hlt).le

end

/-! ## Windows -/

/-- An event with an entry of its own is at the start of the window together with the event before
it. -/
def Straddled (es : List Event) (replayFromUs : Int) : Prop :=
  ∃ i ∈ indexed es, i ≠ 0 ∧ micros es (i - 1) = replayFromUs ∧ micros es i = replayFromUs

theorem inWindow_kept (replayFromUs replayToUs : Int) (e : Event) :
    inWindow replayFromUs replayToUs e.kept = inWindow replayFromUs replayToUs e := by
  rw [inWindow, microseconds_kept, inWindow]

/-- An event before the sought one is in the window just if the entry is straddled. -/
theorem exists_lost_iff (horder : InOrder es) {replayFromUs replayToUs : Int}
    (hwindow : replayFromUs ≤ replayToUs) :
    (∃ i < sought es replayFromUs, replayFromUs ≤ micros es i ∧ micros es i ≤ replayToUs) ↔
      0 < replayFromUs ∧ Straddled es replayFromUs := by
  constructor
  · rintro ⟨i, hi, hfrom, hto⟩
    have hpos : 0 < replayFromUs := by
      by_contra hneg
      rw [sought_of_nonpos (not_lt.1 hneg)] at hi
      omega
    obtain ⟨hmem, hle⟩ := (mem_early_iff horder).1 (sought_mem hpos (by omega))
    have hlt := mem_indexed_lt hmem
    have hfirst := micros_mono horder (show i ≤ sought es replayFromUs - 1 by omega) (by omega)
    have hlast :=
      micros_mono horder (show sought es replayFromUs - 1 ≤ sought es replayFromUs by omega) hlt
    exact ⟨hpos, sought es replayFromUs, hmem, by omega, by omega, by omega⟩
  · rintro ⟨hpos, i, hi, hne, hbefore, hat⟩
    have hle := le_sought hpos ((mem_early_iff horder).2 ⟨hi, hat.le⟩)
    exact ⟨i - 1, by omega, hbefore.ge, hbefore.trans_le hwindow⟩

theorem sought_le_length (horder : InOrder es) (replayFromUs : Int) :
    sought es replayFromUs ≤ es.length := by
  by_cases hpos : 0 < replayFromUs
  · by_cases hzero : sought es replayFromUs = 0
    · omega
    · exact (mem_indexed_lt ((mem_early_iff horder).1 (sought_mem hpos hzero)).1).le
  · rw [sought_of_nonpos (not_lt.1 hpos)]
    exact Nat.zero_le _

theorem filter_take_eq_nil_iff {n : Nat} (hn : n ≤ es.length) (replayFromUs replayToUs : Int) :
    ((es.take n).map Event.kept).filter (inWindow replayFromUs replayToUs) = [] ↔
      ¬ ∃ i < n, replayFromUs ≤ micros es i ∧ micros es i ≤ replayToUs := by
  have hmicros : ∀ i (hi : i < es.length), micros es i = microseconds es[i].timestamp := by
    intro i hi
    rw [micros, getElem?_eq_getElem hi]
    rfl
  rw [filter_eq_nil_iff, forall_mem_map]
  constructor
  · rintro h ⟨i, hi, hin⟩
    rw [hmicros i (by omega)] at hin
    have hmem : es[i] ∈ es.take n := mem_take_iff_getElem.2 ⟨i, by omega, rfl⟩
    exact h es[i] hmem (by rw [inWindow_kept]; exact decide_eq_true hin)
  · intro h e he hin
    obtain ⟨i, hi, rfl⟩ := mem_take_iff_getElem.1 he
    rw [inWindow_kept, inWindow, decide_eq_true_eq, ← hmicros] at hin
    exact h ⟨i, by omega, hin⟩

/-- **A window gives a filter of the log, unless an entry is straddled by its start.** That the
replayer may take the log for a compressed one is as in `Misread`, here with the sought event for
the first; `zstd` is supposed to refuse the payload then. -/
theorem replay_write_eq_filter_iff (z : Zstd) {compress : Bool} {es : List Event}
    (horder : InOrder es)
    (hsize : (write z compress es).length < 2 ^ 63) {replayFromUs replayToUs : Int}
    (hwindow : replayFromUs ≤ replayToUs)
    (hrefuse : compress = false → ∀ e ∈ es, e.Magic → z.decompress (serialise e) = none) :
    replay z (write z compress es) replayFromUs replayToUs =
        some ((es.map Event.kept).filter (inWindow replayFromUs replayToUs)) ↔
      ¬ Misread compress (es.drop (sought es replayFromUs)) ∧
        ¬ (0 < replayFromUs ∧ Straddled es replayFromUs) := by
  rw [replay_write z hsize]
  by_cases hmisread : Misread compress (es.drop (sought es replayFromUs))
  · have hthrow : deliver replayFromUs replayToUs
        (decoded z compress (es.drop (sought es replayFromUs))) = none := by
      rw [decoded_of_misread z hmisread]
      obtain ⟨hraw, first, hfirst, hmagic⟩ := hmisread
      obtain ⟨later, hlater⟩ : ∃ later, es.drop (sought es replayFromUs) = first :: later :=
        ⟨_, eq_cons_of_mem_head? hfirst⟩
      have hmem : first ∈ es := mem_of_mem_drop (hlater ▸ mem_cons_self)
      rw [hlater, map_cons, hrefuse hraw first hmem hmagic]
      rfl
    simp [hthrow, hmisread]
  · have hlater : InOrder (es.drop (sought es replayFromUs)) :=
      Pairwise.sublist (drop_sublist _ _) horder
    have hsplit : es.map Event.kept = (es.take (sought es replayFromUs)).map Event.kept ++
        (es.drop (sought es replayFromUs)).map Event.kept := by
      rw [← map_append, take_append_drop]
    rw [decoded_of_not_misread z hmisread, deliver_eq_filter hlater, Option.some.injEq, hsplit,
      filter_append, self_eq_append_left,
      filter_take_eq_nil_iff (sought_le_length horder replayFromUs), exists_lost_iff horder hwindow]
    exact (and_iff_right hmisread).symm

/-- Three quotes and a window that leaves the first one out. -/
theorem replay_write_eq_filter_of_quotes :
    replay .stored (write .stored true [quote 1, quote 2, quote 3]) 2 3 =
      some (([quote 1, quote 2, quote 3].map Event.kept).filter (inWindow 2 3)) :=
  (replay_write_eq_filter_iff .stored (by decide +kernel) (by decide +kernel) (by decide)
    (fun h => absurd h (by decide))).2
    ⟨fun h => absurd h.1 (by decide), by
      rintro ⟨-, i, hi, hne, -⟩
      rw [show indexed [quote 1, quote 2, quote 3] = [0] by decide +kernel] at hi
      exact hne (mem_singleton.1 hi)⟩

/-- Of 1001 quotes at the start of a window, only the last is given. -/
theorem replay_write_ne_filter :
    let es := List.replicate 1001 (quote 5)
    InOrder es ∧ (write .stored true es).length < 2 ^ 63 ∧
      replay .stored (write .stored true es) 5 5 ≠
        some ((es.map Event.kept).filter (inWindow 5 5)) := by
  intro es
  have hsize : (write .stored true es).length < 2 ^ 63 := by
    rw [write_eq, length_append, length_flatMap, map_replicate, sum_replicate]
    decide +kernel
  have hlater : es.drop (sought es 5) = [quote 5] := by decide +kernel
  refine ⟨pairwise_replicate.2 (.inr le_rfl), hsize, ?_⟩
  rw [replay_write .stored hsize, hlater]
  decide +kernel

end TrueTest.EventLog
