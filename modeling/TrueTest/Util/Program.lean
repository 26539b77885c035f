import Mathlib.Logic.Basic

/-!
# Programs over primitive calls

A `Program` is a computation that calls the primitives of a component and branches on their answers;
a `Handler` says what a primitive answers and how it changes the state. The control flow is then
written once, and a property of the component is proved primitive by primitive:

* `run_preserves`: what every primitive keeps, every program keeps;
* `run_simulates`: two handlers that answer alike on related states run every program alike, as long
  as the first state has not gone wrong for good;
* `run_simulates_of_trace`: they also do if they answer alike on the calls that the first run makes.

`Holds` is for what depends on the order of the calls: it is a Hoare triple, with one rule for each
way to put programs together. `Calls` says which primitives a program may call at all, whatever they
answer; such a program keeps what these primitives keep (`run_preserves_of_calls`). Both are
properties that `Composes` is about: pure programs have them, and sequencing and branching keep
them.
-/

/-- A computation that calls primitives `op : Op` and reads their answers. -/
inductive Program (Op : Type) (Ans : Op → Type) (α : Type)
  | done (a : α)
  | call (op : Op) (next : Ans op → Program Op Ans α)

namespace Program

variable {Op : Type} {Ans : Op → Type} {α β σ τ : Type} {c : Prop} {k : α → Program Op Ans β}
  {I : σ → Prop} {s : σ} {o : Op}

protected def bind : Program Op Ans α → (α → Program Op Ans β) → Program Op Ans β
  | done a, k => k a
  | call op next, k => call op fun r => (next r).bind k

instance : Monad (Program Op Ans) where
  pure := done
  bind := Program.bind

def op (o : Op) : Program Op Ans (Ans o) := call o done

/-- A program that is run only if a condition holds. -/
def onlyIf (c : Prop) [Decidable c] (p : Program Op Ans Unit) : Program Op Ans Unit :=
  if c then p else pure ()

/-- What each primitive answers, and the state it leaves. -/
abbrev Handler (Ans : Op → Type) (σ : Type) := (o : Op) → σ → Ans o × σ

def run (h : Handler Ans σ) : Program Op Ans α → σ → α × σ
  | done a, s => (a, s)
  | call o next, s => (next (h o s).1).run h (h o s).2

section Run

variable (h : Handler Ans σ) (s : σ)

@[simp] theorem run_pure (a : α) : (pure a : Program Op Ans α).run h s = (a, s) := rfl

@[simp] theorem run_op (o : Op) : (op o : Program Op Ans _).run h s = h o s := rfl

@[simp] theorem run_bind (p : Program Op Ans α) (k : α → Program Op Ans β) :
    (p >>= k).run h s = (k (p.run h s).1).run h (p.run h s).2 := by
  induction p generalizing s with
  | done a => rfl
  | call o next ih => exact ih (h o s).1 (h o s).2

theorem run_ite [Decidable c] (p q : Program Op Ans α) :
    (if c then p else q).run h s = if c then p.run h s else q.run h s := by
  split <;> rfl

end Run

/-! ## What every primitive keeps -/

theorem run_preserves {h : Handler Ans σ} (hop : ∀ o s, I s → I (h o s).2)
    (p : Program Op Ans α) (hs : I s) : I (p.run h s).2 := by
  induction p generalizing s with
  | done a => exact hs
  | call o next ih => exact ih (h o s).1 (hop o s hs)

/-- Handlers that answer alike on related states run alike, unless the first state goes wrong. -/
theorem run_simulates {h : Handler Ans σ} {h' : Handler Ans τ} (R : σ → τ → Prop) (Bad : σ → Prop)
    (hbad : ∀ o s, Bad s → Bad (h o s).2)
    (hop : ∀ o s t, R s t → ¬ Bad (h o s).2 → (h o s).1 = (h' o t).1 ∧ R (h o s).2 (h' o t).2)
    (p : Program Op Ans α) {t : τ} (hst : R s t) (hok : ¬ Bad (p.run h s).2) :
    (p.run h s).1 = (p.run h' t).1 ∧ R (p.run h s).2 (p.run h' t).2 := by
  induction p generalizing s t with
  | done a => exact ⟨rfl, hst⟩
  | call o next ih =>
    have hstep : ¬ Bad (h o s).2 := fun hgone => hok (run_preserves hbad (next (h o s).1) hgone)
    obtain ⟨hans, hnext⟩ := hop o s t hst hstep
    rw [run, run, ← hans]
    exact ih (h o s).1 hnext hok

/-- The calls of a run, each with the state it is made in. -/
def trace (h : Handler Ans σ) : Program Op Ans α → σ → List (Op × σ)
  | done _, _ => []
  | call o next, s => (o, s) :: (next (h o s).1).trace h (h o s).2

/-- Handlers that answer alike on related states, for the calls of the first run, run alike. -/
theorem run_simulates_of_trace {h : Handler Ans σ} {h' : Handler Ans τ} (R : σ → τ → Prop)
    (C : Op × σ → Prop)
    (hop : ∀ o s t, C (o, s) → R s t → (h o s).1 = (h' o t).1 ∧ R (h o s).2 (h' o t).2)
    (p : Program Op Ans α) {t : τ} (hst : R s t) (hcalls : ∀ c ∈ p.trace h s, C c) :
    (p.run h s).1 = (p.run h' t).1 ∧ R (p.run h s).2 (p.run h' t).2 := by
  induction p generalizing s t with
  | done a => exact ⟨rfl, hst⟩
  | call o next ih =>
    obtain ⟨hans, hnext⟩ := hop o s t (hcalls _ List.mem_cons_self) hst
    rw [run, run, ← hans]
    exact ih (h o s).1 hnext fun c hc => hcalls c (List.mem_cons_of_mem _ hc)

/-! ## Properties that are put together as programs are -/

/-- Pure programs have the property, and sequencing keeps it. -/
structure Composes (C : ∀ {α : Type}, Program Op Ans α → Prop) : Prop where
  pure : ∀ {α : Type} (a : α), C (pure a)
  bind : ∀ {α β : Type} {p : Program Op Ans α} {k : α → Program Op Ans β},
    C p → (∀ a, C (k a)) → C (p >>= k)

namespace Composes

variable {C : ∀ {α : Type}, Program Op Ans α → Prop} {c : Prop} [Decidable c]

theorem ite (_ : Composes @C) {p q : Program Op Ans α} (hp : C p) (hq : C q) :
    C (if c then p else q) := by
  split
  · exact hp
  · exact hq

theorem onlyIf (h : Composes @C) {p : Program Op Ans Unit} (hp : C p) : C (onlyIf c p) :=
  h.ite hp (h.pure ())

end Composes

/-! ## The calls of a program -/

/-- Every primitive that the program may call is in `C`. -/
def Calls (C : Op → Prop) : Program Op Ans α → Prop
  | done _ => True
  | call o next => C o ∧ ∀ r, (next r).Calls C

namespace Calls

variable {C : Op → Prop} {p q : Program Op Ans α}

theorem pure (a : α) : Calls C (pure a : Program Op Ans α) := trivial

theorem op (h : C o) : Calls C (op o : Program Op Ans (Ans o)) := ⟨h, fun _ => trivial⟩

theorem bind (hp : Calls C p) (hk : ∀ a, Calls C (k a)) : Calls C (p >>= k) := by
  induction p with
  | done a => exact hk a
  | call o next ih => exact ⟨hp.1, fun r => ih r (hp.2 r)⟩

theorem composes (C : Op → Prop) :
    Composes fun {_} (p : Program Op Ans _) => Calls C p := ⟨pure, bind⟩

theorem ite [Decidable c] (hp : Calls C p) (hq : Calls C q) : Calls C (if c then p else q) :=
  (composes C).ite hp hq

theorem onlyIf [Decidable c] {p : Program Op Ans Unit} (hp : Calls C p) :
    Calls C (onlyIf c p) := (composes C).onlyIf hp

theorem mono {C' : Op → Prop} (hp : Calls C p) (h : ∀ o, C o → C' o) : Calls C' p := by
  induction p with
  | done a => trivial
  | call o next ih => exact ⟨h o hp.1, fun r => ih r (hp.2 r)⟩

end Calls

theorem run_preserves_of_calls {h : Handler Ans σ} {C : Op → Prop}
    (hop : ∀ o s, C o → I s → I (h o s).2)
    (p : Program Op Ans α) (hp : Calls C p) (hs : I s) : I (p.run h s).2 := by
  induction p generalizing s with
  | done a => exact hs
  | call o next ih => exact ih (h o s).1 (hp.2 _) (hop o s hp.1 hs)

/-! ## Triples -/

/-- From a state in `P` the program ends with an answer and a state in `Q`. -/
def Holds (h : Handler Ans σ) (P : σ → Prop) (p : Program Op Ans α) (Q : α → σ → Prop) : Prop :=
  ∀ s, P s → Q (p.run h s).1 (p.run h s).2

namespace Holds

variable {h : Handler Ans σ} {P P' : σ → Prop} {p : Program Op Ans α} {Q : α → σ → Prop}

theorem pure {a : α} (hP : ∀ s, P s → Q a s) : Holds h P (pure a) Q := hP

theorem op {Q : Ans o → σ → Prop} (hP : ∀ s, P s → Q (h o s).1 (h o s).2) : Holds h P (op o) Q := hP

theorem bind {M : α → σ → Prop} {Q : β → σ → Prop}
    (hp : Holds h P p M) (hk : ∀ a, Holds h (M a) (k a) Q) : Holds h P (p >>= k) Q := by
  intro s hs
  rw [run_bind]
  exact hk _ _ (hp s hs)

theorem ite [Decidable c] {q : Program Op Ans α} (hp : c → Holds h P p Q)
    (hq : ¬ c → Holds h P q Q) : Holds h P (if c then p else q) Q := by
  by_cases hc : c
  · rw [if_pos hc]
    exact hp hc
  · rw [if_neg hc]
    exact hq hc

theorem composes : Composes fun {_} (p : Program Op Ans _) => Holds h P p fun _ => P :=
  ⟨fun _ _ hs => hs, bind⟩

theorem mono (hp : Holds h P p Q) (hP : ∀ s, P' s → P s) : Holds h P' p Q :=
  fun s hs => hp s (hP s hs)

end Holds

end Program
