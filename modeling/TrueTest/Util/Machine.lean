import Mathlib.Data.List.ReduceOption

/-!
# Runs of a step function

A deterministic machine is a step function from a state and an input to an output and the next
state. A statement about every run is one about the states it passes through and the outputs it
gives; `Along P` says that every step of a run is taken in a state and on an input that satisfy
`P`. Invariants and simulations are proved for one step and used for whole runs through
`invariant` and `simulation`.

A step that iterates an unordered container takes the order as part of its input: an
`IterationOrder` is any permutation of the entries, so that what holds of every run holds
for every order.

A step may be silent: its output is then `none`, and `visible` is what the other steps show.
-/

namespace Machine

open List

variable {σ τ ι ω : Type} (step : σ → ι → ω × σ) (step' : τ → ι → ω × τ)

/-- An order in which a container may be iterated. -/
structure IterationOrder (α : Type) where
  run : List α → List α
  perm : ∀ xs, (run xs).Perm xs

/-- The entries as they stand. -/
def IterationOrder.id {α : Type} : IterationOrder α := ⟨fun xs => xs, fun _ => .refl _⟩

/-- The states of a run, the first one included. -/
def states (s : σ) : List ι → List σ
  | [] => [s]
  | i :: is => s :: states (step s i).2 is

def outputs (s : σ) : List ι → List ω
  | [] => []
  | i :: is => (step s i).1 :: outputs (step s i).2 is

/-- The state a run ends in. -/
def final (s : σ) : List ι → σ
  | [] => s
  | i :: is => final (step s i).2 is

/-- Every step of the run is taken where `P` holds. -/
def Along (P : σ → ι → Prop) (s : σ) : List ι → Prop
  | [] => True
  | i :: is => P s i ∧ Along P (step s i).2 is

instance decidableAlong (P : σ → ι → Prop) [∀ s i, Decidable (P s i)] :
    ∀ (s : σ) (is : List ι), Decidable (Along step P s is)
  | _, [] => isTrue trivial
  | s, i :: is =>
    have := decidableAlong P (step s i).2 is
    inferInstanceAs (Decidable (P s i ∧ Along step P (step s i).2 is))

variable {step step'} {P : σ → ι → Prop} {I : σ → Prop} {R : σ → τ → Prop} {is : List ι} {s : σ}

/-- An invariant that every step satisfying `P` keeps holds throughout a run of such steps. -/
theorem invariant (hstep : ∀ s i, I s → P s i → I (step s i).2) (hs : I s)
    (hP : Along step P s is) : ∀ t ∈ states step s is, I t := by
  induction is generalizing s with
  | nil =>
    intro t ht
    rw [mem_singleton.1 ht]
    exact hs
  | cons i is ih =>
    intro t ht
    rcases mem_cons.1 ht with rfl | ht
    · exact hs
    · exact ih (hstep s i hs hP.1) hP.2 t ht

/-- An invariant that every step keeps holds throughout every run. -/
theorem invariant_of_step (hstep : ∀ s i, I s → I (step s i).2) (hs : I s) (is : List ι) :
    ∀ t ∈ states step s is, I t := by
  have hall (s : σ) (is : List ι) : Along step (fun _ _ => True) s is := by
    induction is generalizing s with
    | nil => trivial
    | cons i is ih => exact ⟨trivial, ih _⟩
  exact invariant (fun s i hI _ => hstep s i hI) hs (hall s is)

/-- What an invariant gives at every step satisfying `P` holds along a run of such steps. -/
theorem along_of_invariant {Q : σ → ι → Prop} (hstep : ∀ s i, I s → P s i → I (step s i).2 ∧ Q s i)
    (hs : I s) (hP : Along step P s is) : Along step Q s is := by
  induction is generalizing s with
  | nil => trivial
  | cons i is ih =>
    obtain ⟨hnext, hQ⟩ := hstep s i hs hP.1
    exact ⟨hQ, ih hnext hP.2⟩

/-- If a step keeps `J` exactly where `P` holds, then a run from `J` stays in `J` exactly if it is
one along `P`. -/
theorem forall_states_iff_along {J : σ → Prop} {C : ι → Prop}
    (hI : ∀ s i, I s → C i → I (step s i).2)
    (hstep : ∀ s i, I s → C i → J s → (J (step s i).2 ↔ P s i)) (hs : I s)
    (hC : ∀ i ∈ is, C i) (hJ : J s) : (∀ t ∈ states step s is, J t) ↔ Along step P s is := by
  induction is generalizing s with
  | nil => simpa [states, Along] using hJ
  | cons i is ih =>
    obtain ⟨hi, his⟩ := forall_mem_cons.1 hC
    have hnext := hI s i hs hi
    rw [states, forall_mem_cons, Along, ← hstep s i hs hi hJ]
    constructor
    · rintro ⟨-, hrest⟩
      have hJ' := hrest _ (by cases is <;> exact mem_cons_self)
      exact ⟨hJ', (ih hnext his hJ').1 hrest⟩
    · rintro ⟨hJ', hrest⟩
      exact ⟨hJ, (ih hnext his hJ').2 hrest⟩

theorem start_mem_states (s : σ) (is : List ι) : s ∈ states step s is := by
  cases is <;> exact mem_cons_self

theorem final_mem_states (s : σ) (is : List ι) : final step s is ∈ states step s is := by
  induction is generalizing s with
  | nil => exact mem_singleton.2 rfl
  | cons i is ih => exact mem_cons_of_mem _ (ih _)

theorem final_append (s : σ) (is js : List ι) :
    final step s (is ++ js) = final step (final step s is) js := by
  induction is generalizing s with
  | nil => rfl
  | cons i is ih => exact ih (step s i).2

theorem along_append (s : σ) (is js : List ι) :
    Along step P s (is ++ js) ↔ Along step P s is ∧ Along step P (final step s is) js := by
  induction is generalizing s with
  | nil => simp [Along, final]
  | cons i is ih => exact (and_congr_right fun _ => ih (step s i).2).trans and_assoc.symm

section

variable (hstep : ∀ s t i, R s t → P s i → (step s i).1 = (step' t i).1 ∧
  R (step s i).2 (step' t i).2)
  {s : σ} {t : τ} {is : List ι}
include hstep

/-- Two machines whose steps keep related states related, with equal outputs, run alike. -/
theorem simulation (hst : R s t) (hP : Along step P s is) : outputs step s is = outputs step' t is ∧
      Forall₂ R (states step s is) (states step' t is) := by
  induction is generalizing s t with
  | nil => exact ⟨rfl, .cons hst .nil⟩
  | cons i is ih =>
    obtain ⟨hout, hnext⟩ := hstep s t i hst hP.1
    obtain ⟨houts, hstates⟩ := ih hnext hP.2
    exact ⟨by rw [outputs, outputs, hout, houts], .cons hst hstates⟩

/-- If moreover a step outside `P` gives itself away by its output, the outputs agree exactly when
the run stays within `P`. -/
theorem outputs_eq_iff (hout : ∀ s t i, R s t → (step s i).1 = (step' t i).1 → P s i)
    (hst : R s t) :
    outputs step s is = outputs step' t is ↔ Along step P s is := by
  refine ⟨fun heq => ?_, fun hP => (simulation hstep hst hP).1⟩
  induction is generalizing s t with
  | nil => trivial
  | cons i is ih =>
    rw [outputs, outputs, cons.injEq] at heq
    have hP := hout s t i hst heq.1
    exact ⟨hP, ih (hstep s t i hst hP).2 heq.2⟩

end

/-! ## Silent steps -/

section Silent

variable {step : σ → ι → Option ω × σ}

/-- The outputs of a run, without those of its silent steps. -/
def visible (step : σ → ι → Option ω × σ) (s : σ) (is : List ι) : List ω :=
  (outputs step s is).reduceOption

theorem visible_cons (s : σ) (i : ι) (is : List ι) :
    visible step s (i :: is) = (step s i).1.toList ++ visible step (step s i).2 is := by
  cases h : (step s i).1 <;> simp [visible, outputs, h]

theorem visible_append (s : σ) (is js : List ι) :
    visible step s (is ++ js) = visible step s is ++ visible step (final step s is) js := by
  induction is generalizing s with
  | nil => rfl
  | cons i is ih => rw [cons_append, visible_cons, visible_cons, ih, append_assoc]; rfl

/-- A run that shows something takes silent steps up to the first output. -/
theorem visible_eq_cons {c : ω} {cs : List ω} (h : visible step s is = c :: cs) :
    ∃ js j ks, is = js ++ j :: ks ∧ visible step s js = [] ∧
      (step (final step s js) j).1 = some c ∧
      visible step (step (final step s js) j).2 ks = cs := by
  induction is generalizing s with
  | nil => cases h
  | cons i is ih =>
    rw [visible_cons] at h
    cases hi : (step s i).1 with
    | none =>
      rw [hi] at h
      obtain ⟨js, j, ks, rfl, hsilent, hj, hks⟩ := ih h
      exact ⟨i :: js, j, ks, rfl, by rw [visible_cons, hi, hsilent]; rfl, hj, hks⟩
    | some b =>
      rw [hi] at h
      obtain ⟨rfl, hcs⟩ := cons.inj h
      exact ⟨[], i, is, rfl, rfl, hi, hcs⟩

/-- A run splits where its visible outputs do. -/
theorem visible_eq_append {cs ds : List ω} (h : visible step s is = cs ++ ds) :
    ∃ js ks, is = js ++ ks ∧ visible step s js = cs ∧ visible step (final step s js) ks = ds := by
  induction cs generalizing s is with
  | nil => exact ⟨[], is, rfl, rfl, h⟩
  | cons c cs ih =>
    obtain ⟨js, j, ks, rfl, hsilent, hj, hks⟩ := visible_eq_cons h
    obtain ⟨ms, ns, rfl, hms, hns⟩ := ih hks
    refine ⟨js ++ j :: ms, ns, by simp, ?_, by rw [final_append]; exact hns⟩
    rw [visible_append, hsilent, visible_cons, hj, hms]
    rfl

end Silent

end Machine
