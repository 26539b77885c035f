import TrueTest.Exits.Cap

/-!
# Armed quantities

What is armed for an opener, and what the calls of the exit manager do to it: an opener fill arms or
grows its intents, a trigger keeps those it does not fire, and a cancel, a sweep or a closer fill
that ends a bracket drops what one opener has and leaves the others alone (`Drops`).
-/

namespace TrueTest.ExitManager

open Machine List ArmedIntent

/-! ## Sums over the armed intents -/

section Armed

variable {entries : List (Nat × ArmedIntent)} {id : Nat}

@[simp] theorem armedQty_nil (id : Nat) : armedQty [] id = 0 := rfl

theorem armedQty_cons (e : Nat × ArmedIntent) (entries : List (Nat × ArmedIntent)) (id : Nat) :
    armedQty (e :: entries) id = (if e.1 = id then e.2.intent.qty else 0) +
      armedQty entries id := by
  by_cases he : e.1 = id <;> simp [armedQty, entriesOf, he]

theorem armedQty_append (xs ys : List (Nat × ArmedIntent)) (id : Nat) :
    armedQty (xs ++ ys) id = armedQty xs id + armedQty ys id := by
  simp [armedQty, entriesOf]

theorem armedQty_nonneg (h : ∀ e ∈ entries, 0 ≤ e.2.intent.qty) (id : Nat) :
    0 ≤ armedQty entries id := by
  refine sum_nonneg fun q hq => ?_
  obtain ⟨e, he, rfl⟩ := mem_map.1 hq
  exact h e (mem_filter.1 he).1

theorem armedQty_of_ne (h : ∀ e ∈ entries, e.1 ≠ id) : armedQty entries id = 0 := by
  have hnone : entriesOf entries id = [] :=
    filter_eq_nil_iff.2 fun e he heq => h e he (of_decide_eq_true heq)
  rw [armedQty, hnone]
  rfl

/-- An intent moves to a new place in the list. -/
theorem armedQty_middle (xs ys : List (Nat × ArmedIntent)) (e : Nat × ArmedIntent) (id : Nat) :
    armedQty (xs ++ e :: ys) id =
      armedQty (xs ++ ys) id + if e.1 = id then e.2.intent.qty else 0 := by
  rw [armedQty_append, armedQty_cons, armedQty_append]
  ring

theorem armedQty_perm {xs ys : List (Nat × ArmedIntent)} (h : xs.Perm ys) (id : Nat) :
    armedQty xs id = armedQty ys id :=
  ((h.filter _).map _).sum_eq

end Armed

/-! ## Arming and growing -/

@[simp] theorem arm_qty (f : FillEvent) (i : ExitIntent) :
    (i.arm f).intent.qty = f.filledQuantity * i.fraction := by
  unfold ExitIntent.arm ExitIntent.anchor
  dsimp only
  split
  · split
    · split <;> rfl
    · rfl
  · rfl

theorem grow_qty {f : FillEvent} (hf : 0 ≤ f.filledQuantity) (ai : ArmedIntent) :
    (ai.grow f).intent.qty = ai.intent.qty + f.filledQuantity * ai.intent.fraction := by
  unfold grow
  dsimp only
  have hadd : 0 ≤ f.filledQuantity * ai.intent.fraction :=
    mul_nonneg hf ai.intent.fraction_pos.le
  split
  · next hle => rw [le_antisymm hle hadd, add_zero]
  · rfl

@[simp] theorem seen_qty (px : ℚ) (ai : ArmedIntent) : (ai.seen px).intent.qty = ai.intent.qty := by
  unfold seen
  split <;> rfl

@[simp] theorem trail_qty (ai : ArmedIntent) : ai.trail.intent.qty = ai.intent.qty := by
  unfold trail
  cases ai.intent.trailingPct with
  | none => rfl
  | some pct => simp only [apply_ite (fun ai : ArmedIntent => ai.intent.qty), ite_self]

theorem probePrice_qty (px : ℚ) (ts : Int) (ai : ArmedIntent) :
    (ai.probePrice px ts).1.intent.qty = ai.intent.qty := by
  simp [probePrice]

theorem probeBar_qty (open_ low high close : ℚ) (ts : Int) (ai : ArmedIntent) :
    (ai.probeBar open_ low high close ts).1.intent.qty = ai.intent.qty := by
  unfold probeBar
  simp only [apply_ite (fun p : ArmedIntent × Option ℚ => p.1.intent.qty), trail_qty, seen_qty,
    ite_self]

/-- An intent of fraction one among some intents. -/
def hasFull (intents : List ExitIntent) : Bool := intents.any fun i => i.fraction = 1

/-- A fill of an opener finds an intent of fraction one where it looks for intents: among the
pending ones, or among the armed ones if nothing is pending. -/
def Ready (m : ExitManager) (opener : Nat) : Bool :=
  if (entriesOf m.pending opener).isEmpty then
    hasFull ((entriesOf m.armed opener).map fun e => e.2.intent)
  else hasFull ((entriesOf m.pending opener).map Prod.snd)

section OpenerFill

variable {f : FillEvent} {m : ExitManager} {order : IterationOrder (Nat × ExitIntent)}
  {entries : List (Nat × ArmedIntent)} {id : Nat}

/-- A later fill of an opener, on its armed intents. -/
def growAll (f : FillEvent) (entries : List (Nat × ArmedIntent)) : List (Nat × ArmedIntent) :=
  entries.map fun e => if e.1 = f.orderId then (e.1, e.2.grow f) else e

theorem openerFill_armed (placed : BracketHandles) :
    (m.openerFill f placed order).armed =
      if (entriesOf m.pending f.orderId).isEmpty then growAll f m.armed
      else m.armed ++ (order.run (entriesOf m.pending f.orderId)).map
        fun e => (e.1, e.2.arm f) := by
  have hperm := order.perm (entriesOf m.pending f.orderId)
  unfold openerFill
  cases hrun : order.run (entriesOf m.pending f.orderId) with
  | nil =>
    rw [hrun] at hperm
    rw [← hperm.nil_eq]
    rfl
  | cons first rest =>
    rw [hrun] at hperm
    have hne : (entriesOf m.pending f.orderId).isEmpty = false := by
      rw [isEmpty_eq_false_iff]
      intro hnil
      rw [hnil] at hperm
      exact cons_ne_nil _ _ hperm.eq_nil
    rw [hne]
    simp only [Bool.false_eq_true, if_false]
    split
    · unfold recordPlaced
      split <;> rfl
    · rfl

theorem armedQty_growAll_of_ne (h : id ≠ f.orderId) (entries : List (Nat × ArmedIntent)) :
    armedQty (growAll f entries) id = armedQty entries id := by
  induction entries with
  | nil => rfl
  | cons e entries ih =>
    rw [growAll, map_cons, armedQty_cons, armedQty_cons, ← growAll, ih]
    by_cases he : e.1 = f.orderId
    · simp [he, Ne.symm h]
    · simp [he]

theorem armedQty_le_growAll (hf : 0 ≤ f.filledQuantity) (entries : List (Nat × ArmedIntent)) :
    armedQty entries f.orderId ≤ armedQty (growAll f entries) f.orderId := by
  induction entries with
  | nil => exact le_rfl
  | cons e entries ih =>
    rw [growAll, map_cons, armedQty_cons, armedQty_cons, ← growAll]
    by_cases he : e.1 = f.orderId
    · have hadd : 0 ≤ f.filledQuantity * e.2.intent.fraction :=
        mul_nonneg hf e.2.intent.fraction_pos.le
      simp only [he, if_true, grow_qty hf]
      linarith
    · simp only [he, if_false]
      linarith

/-- Growing an intent of fraction one covers the fill. -/
theorem armedQty_growAll (hf : 0 ≤ f.filledQuantity)
    (hfull : hasFull ((entriesOf entries f.orderId).map fun e => e.2.intent)) :
    armedQty entries f.orderId + f.filledQuantity ≤ armedQty (growAll f entries) f.orderId := by
  induction entries with
  | nil => simp [hasFull, entriesOf] at hfull
  | cons e entries ih =>
    have hmono := armedQty_le_growAll hf entries
    rw [growAll, map_cons, armedQty_cons, armedQty_cons, ← growAll]
    by_cases he : e.1 = f.orderId
    · have hadd : 0 ≤ f.filledQuantity * e.2.intent.fraction :=
        mul_nonneg hf e.2.intent.fraction_pos.le
      simp only [he, if_true, grow_qty hf]
      by_cases hone : e.2.intent.fraction = 1
      · rw [hone, mul_one]
        linarith
      · have hrest : hasFull ((entriesOf entries f.orderId).map fun e => e.2.intent) := by
          simpa [hasFull, entriesOf, he, hone] using hfull
        linarith [ih hrest]
    · have hrest : hasFull ((entriesOf entries f.orderId).map fun e => e.2.intent) := by
        simpa [hasFull, entriesOf, he] using hfull
      simp only [he, if_false]
      linarith [ih hrest]

theorem mem_growAll (hf : 0 ≤ f.filledQuantity)
    (h : ∀ e ∈ entries, 0 ≤ e.2.intent.qty) : ∀ e ∈ growAll f entries, 0 ≤ e.2.intent.qty := by
  intro e he
  obtain ⟨x, hx, rfl⟩ := mem_map.1 he
  have hadd : 0 ≤ f.filledQuantity * x.2.intent.fraction := mul_nonneg hf x.2.intent.fraction_pos.le
  split
  · rw [grow_qty hf]
    exact add_nonneg (h x hx) hadd
  · exact h x hx

/-- The newly armed intents of an opener. -/
theorem mem_armed_new {e : Nat × ArmedIntent}
    (he : e ∈ (order.run (entriesOf m.pending f.orderId)).map fun e => (e.1, e.2.arm f)) :
    ∃ i, (f.orderId, i) ∈ m.pending ∧ e = (f.orderId, i.arm f) := by
  obtain ⟨x, hx, rfl⟩ := mem_map.1 he
  obtain ⟨hmem, hid⟩ := mem_filter.1 ((order.perm _).mem_iff.1 hx)
  have hid := of_decide_eq_true hid
  exact ⟨x.2, by rw [← hid]; exact hmem, by rw [hid]⟩

/-- **An opener fill is covered** when it finds an intent of fraction one. -/
theorem armedQty_openerFill (hf : 0 ≤ f.filledQuantity) (placed : BracketHandles)
    (hready : m.Ready f.orderId) :
    armedQty m.armed f.orderId + f.filledQuantity ≤
      armedQty (m.openerFill f placed order).armed f.orderId := by
  rw [openerFill_armed]
  unfold Ready at hready
  split at hready
  · next hempty =>
    rw [if_pos hempty]
    exact armedQty_growAll hf hready
  · next hempty =>
    rw [if_neg hempty, armedQty_append]
    obtain ⟨i, hi, hone⟩ := any_eq_true.1 hready
    obtain ⟨x, hx, rfl⟩ := mem_map.1 hi
    have hone := of_decide_eq_true hone
    have hxrun := (order.perm (entriesOf m.pending f.orderId)).mem_iff.2 hx
    have hid : x.1 = f.orderId := of_decide_eq_true (mem_filter.1 hx).2
    -- One summand is the fill itself, and the others are not negative.
    have hone_le : f.filledQuantity ≤ armedQty
        ((order.run (entriesOf m.pending f.orderId)).map fun e => (e.1, e.2.arm f)) f.orderId := by
      refine single_le_sum (fun q hq => ?_) _ ?_
      · obtain ⟨e, he, rfl⟩ := mem_map.1 hq
        obtain ⟨i, -, rfl⟩ := mem_armed_new (mem_filter.1 he).1
        rw [arm_qty]
        exact mul_nonneg hf i.fraction_pos.le
      · refine mem_map.2 ⟨(x.1, x.2.arm f), mem_filter.2
          ⟨mem_map.2 ⟨x, hxrun, rfl⟩, decide_eq_true hid⟩, ?_⟩
        rw [arm_qty, hone, mul_one]
    linarith

theorem armedQty_openerFill_of_ne (h : id ≠ f.orderId) (placed : BracketHandles) :
    armedQty (m.openerFill f placed order).armed id = armedQty m.armed id := by
  rw [openerFill_armed]
  split
  · exact armedQty_growAll_of_ne h _
  · have hnew : armedQty ((order.run (entriesOf m.pending f.orderId)).map
        fun e => (e.1, e.2.arm f)) id = 0 := by
      refine armedQty_of_ne fun e he => ?_
      obtain ⟨i, -, rfl⟩ := mem_armed_new he
      exact Ne.symm h
    rw [armedQty_append, hnew, add_zero]

theorem openerFill_qty_nonneg (hf : 0 ≤ f.filledQuantity) (placed : BracketHandles)
    (h : ∀ e ∈ m.armed, 0 ≤ e.2.intent.qty) :
    ∀ e ∈ (m.openerFill f placed order).armed, 0 ≤ e.2.intent.qty := by
  rw [openerFill_armed]
  split
  · exact mem_growAll hf h
  · intro e he
    rcases mem_append.1 he with he | he
    · exact h e he
    · obtain ⟨i, -, rfl⟩ := mem_armed_new he
      rw [arm_qty]
      exact mul_nonneg hf i.fraction_pos.le

end OpenerFill
/-! ## Triggers -/

section Triggers

variable {probe : ArmedIntent → ArmedIntent × Option ℚ} {symbol : String} {ts : Int}

/-- The loop keeps what it does not fire. -/
theorem armedQty_evaluate (hprobe : ∀ ai, (probe ai).1.intent.qty = ai.intent.qty)
    (rest kept : List (Nat × ArmedIntent)) (m : ExitManager) (id : Nat) :
    armedQty (evaluate probe symbol ts kept rest m).2.armed id =
      armedQty kept id + armedQty (rest.filter fun e => !triggers probe symbol e) id := by
  rw [evaluate_armed, armedQty_append]
  refine congrArg (_ + ·) ?_
  induction rest.filter fun e => !triggers probe symbol e with
  | nil => rfl
  | cons e rest ih => rw [map_cons, armedQty_cons, armedQty_cons, ih, passed_qty hprobe]

@[simp] theorem releaseVenueBracket_owners (m : ExitManager) (opener : Nat) :
    (m.releaseVenueBracket opener).strategySymbolToOpeners = m.strategySymbolToOpeners := by
  unfold releaseVenueBracket
  cases m.handles.lookup opener <;> rfl

end Triggers

end TrueTest.ExitManager
