import Mathlib.Data.List.Nodup
import Mathlib.Logic.Function.Basic
import Mathlib.Tactic

/-!
# Intrusive lists in a heap

A node carries a value and the two links of a doubly linked list; the list itself is nothing
but the pair of pointers to its first and last node. This file gives the two list operations
every intrusive queue is built from and says what they do to the list the pointers spell out.

* `Seg h p xs q`: in heap `h` the nodes `xs` are linked in this order, the first one's `prev`
  is `p` and the last one's `next` is `q`.
* `IsList h e xs`: the end pointers `e` hold exactly the list `xs`.
* `Stack h t xs`: the nodes `xs` are chained through `next` from the top pointer `t` (the shape
  of a free list).

`pushBack` appends and `unlink` takes out any node, in constant time and without a search. The
frame facts say which nodes they leave alone, so that several lists can share one heap.
-/

namespace IntrusiveList

open List Function

/-- A heap cell: a value and the two links. -/
structure Node (ν α : Type) where
  val : α
  next : Option ν
  prev : Option ν

/-- The end pointers of a list. -/
structure Ends (ν : Type) where
  head : Option ν
  tail : Option ν
deriving DecidableEq

/-- A heap gives every address a cell. -/
abbrev Heap (ν α : Type) := ν → Node ν α

variable {ν α : Type} {h h' : Heap ν α} {xs : List ν} {e : Ends ν} {n m : ν} {t p q : Option ν}
  {fuel : Nat}

section Operations

variable [DecidableEq ν]

/-- Write the `next` link of `n`. -/
def setNext (h : Heap ν α) (n : ν) (v : Option ν) : Heap ν α :=
  Function.update h n { h n with next := v }

/-- Write the `prev` link of `n`. -/
def setPrev (h : Heap ν α) (n : ν) (v : Option ν) : Heap ν α :=
  Function.update h n { h n with prev := v }

def pushBack (h : Heap ν α) (e : Ends ν) (n : ν) : Heap ν α × Ends ν :=
  let h := setPrev h n e.tail
  let h := setNext h n none
  match e.tail with
  | some t => (setNext h t (some n), { e with tail := some n })
  | none => (h, { head := some n, tail := some n })

/-- Make the node before `n` (or the head pointer) skip `n`. -/
def bypassNext (h : Heap ν α) (e : Ends ν) (n : ν) : Heap ν α × Ends ν :=
  match (h n).prev with
  | some p => (setNext h p (h n).next, e)
  | none => (h, { e with head := (h n).next })

/-- Make the node after `n` (or the tail pointer) skip `n`. -/
def bypassPrev (h : Heap ν α) (e : Ends ν) (n : ν) : Heap ν α × Ends ν :=
  match (h n).next with
  | some q => (setPrev h q (h n).prev, e)
  | none => (h, { e with tail := (h n).prev })

/-- Take `n` out, wherever it stands, and clear its links. -/
def unlink (h : Heap ν α) (e : Ends ν) (n : ν) : Heap ν α × Ends ν :=
  let (h, e) := bypassNext h e n
  let (h, e) := bypassPrev h e n
  (setNext (setPrev h n none) n none, e)

end Operations

/-! ## Segments -/

/-- The nodes `xs` are linked in order, with `p` before the first and `q` after the last. -/
def Seg (h : Heap ν α) : Option ν → List ν → Option ν → Prop
  | _, [], _ => True
  | p, x :: xs, q => (h x).prev = p ∧ (h x).next = xs.head?.or q ∧ Seg h (some x) xs q

/-- The end pointers `e` hold the list `xs`. -/
structure IsList (h : Heap ν α) (e : Ends ν) (xs : List ν) : Prop where
  head : e.head = xs.head?
  tail : e.tail = xs.getLast?
  seg : Seg h none xs none

/-- The nodes `xs` are chained through `next` from `t`. -/
def Stack (h : Heap ν α) : Option ν → List ν → Prop
  | t, [] => t = none
  | t, x :: xs => t = some x ∧ Stack h (h x).next xs

theorem Seg.congr (hs : Seg h p xs q)
    (heq : ∀ x ∈ xs, (h' x).next = (h x).next ∧ (h' x).prev = (h x).prev) : Seg h' p xs q := by
  induction xs generalizing p with
  | nil => trivial
  | cons x xs ih =>
    obtain ⟨hp, hn, hs⟩ := hs
    obtain ⟨hxn, hxp⟩ := heq x mem_cons_self
    exact ⟨hxp.trans hp, hxn.trans hn, ih hs fun y hy => heq y (mem_cons_of_mem _ hy)⟩

theorem Stack.congr (hs : Stack h t xs) (heq : ∀ x ∈ xs, (h' x).next = (h x).next) :
    Stack h' t xs := by
  induction xs generalizing t with
  | nil => exact hs
  | cons x xs ih =>
    obtain ⟨ht, hs⟩ := hs
    refine ⟨ht, ih (by rw [heq x mem_cons_self]; exact hs) fun y hy => ?_⟩
    exact heq y (mem_cons_of_mem _ hy)

/-- A segment splits at any point; each part sees the other's end. -/
theorem seg_append {as bs : List ν} :
    Seg h p (as ++ bs) q ↔ Seg h p as (bs.head?.or q) ∧ Seg h (as.getLast?.or p) bs q := by
  induction as generalizing p with
  | nil => simp [Seg]
  | cons a as ih =>
    have hhead : (as ++ bs).head?.or q = as.head?.or (bs.head?.or q) := by
      cases as <;> simp
    have hlast : (a :: as).getLast?.or p = as.getLast?.or (some a) := by
      cases as with
      | nil => simp
      | cons b bs =>
        rw [getLast?_cons_cons]
        cases hl : (b :: bs).getLast? with
        | none => simp at hl
        | some _ => simp
    simp only [cons_append, Seg, ih, hhead, hlast, and_assoc]

/-- The links of a node inside a list, and the two parts around it. -/
theorem IsList.split {as bs : List ν} (hl : IsList h e (as ++ n :: bs)) :
    (h n).prev = as.getLast? ∧ (h n).next = bs.head? ∧ Seg h none as (some n) ∧
      Seg h (some n) bs none := by
  obtain ⟨hseg, hp, hn, hseg'⟩ := seg_append.1 hl.seg
  exact ⟨by simpa using hp, by simpa using hn, by simpa using hseg, hseg'⟩

/-! ## Single writes -/

section Writes

variable [DecidableEq ν] (v : Option ν)

section

variable (h : Heap ν α)

@[simp] theorem setNext_val (n m : ν) (v : Option ν) : (setNext h n v m).val = (h m).val := by
  unfold setNext
  by_cases hm : m = n
  · subst hm; simp
  · simp [update_of_ne hm]

@[simp] theorem setPrev_val (n m : ν) (v : Option ν) : (setPrev h n v m).val = (h m).val := by
  unfold setPrev
  by_cases hm : m = n
  · subst hm; simp
  · simp [update_of_ne hm]

@[simp] theorem setNext_next_self (n : ν) (v : Option ν) :
    (setNext h n v n).next = v := by simp [setNext]

@[simp] theorem setPrev_prev_self (n : ν) (v : Option ν) :
    (setPrev h n v n).prev = v := by simp [setPrev]

@[simp] theorem setNext_prev (n m : ν) (v : Option ν) : (setNext h n v m).prev = (h m).prev := by
  unfold setNext
  by_cases hm : m = n
  · subst hm; simp
  · simp [update_of_ne hm]

@[simp] theorem setPrev_next (n m : ν) (v : Option ν) : (setPrev h n v m).next = (h m).next := by
  unfold setPrev
  by_cases hm : m = n
  · subst hm; simp
  · simp [update_of_ne hm]

theorem setNext_of_ne (hm : m ≠ n) : setNext h n v m = h m := update_of_ne hm _ _

theorem setPrev_of_ne (hm : m ≠ n) : setPrev h n v m = h m := update_of_ne hm _ _

end

section

variable {h : Heap ν α} {p q : Option ν} {xs : List ν} (hs : Seg h p xs q) (hnd : xs.Nodup)
include hs hnd

/-- Redirecting the last node's `next` moves the far end of the segment. -/
theorem Seg.setNext_last {l : ν} (hl : xs.getLast? = some l) (v : Option ν) :
    Seg (setNext h l v) p xs v := by
  obtain ⟨ys, rfl⟩ : ∃ ys, xs = ys ++ [l] :=
    ⟨xs.dropLast, (dropLast_append_getLast? l (by simp [hl])).symm⟩
  rw [seg_append] at hs ⊢
  have hne : ∀ y ∈ ys, y ≠ l := by
    intro y hy he
    subst he
    exact (disjoint_of_nodup_append hnd) hy (by simp)
  refine ⟨hs.1.congr fun y hy => ?_, by simpa [Seg] using hs.2.1⟩
  rw [setNext_of_ne _ _ (hne y hy)]
  exact ⟨rfl, rfl⟩

/-- Redirecting the first node's `prev` moves the near end of the segment. -/
theorem Seg.setPrev_head (hm : xs.head? = some m) (v : Option ν) : Seg (setPrev h m v) v xs q := by
  cases xs with
  | nil => trivial
  | cons x xs =>
    simp only [head?_cons, Option.some.injEq] at hm
    subst hm
    obtain ⟨-, hn, hs⟩ := hs
    refine ⟨by simp, by simpa using hn, hs.congr fun y hy => ?_⟩
    have hne : y ≠ x := fun he => (nodup_cons.1 hnd).1 (he ▸ hy)
    rw [setPrev_of_ne _ _ hne]
    exact ⟨rfl, rfl⟩

end

/-! ## Appending -/

theorem pushBack_val (h : Heap ν α) (e : Ends ν) (n m : ν) :
    ((pushBack h e n).1 m).val = (h m).val := by
  unfold pushBack
  cases e.tail <;> simp

/-- Appending writes only the new node and the old last one. -/
theorem pushBack_frame (hl : IsList h e xs) (hmn : m ≠ n) (hm : m ∉ xs) :
    (pushBack h e n).1 m = h m := by
  unfold pushBack
  cases ht : e.tail with
  | none => simp only [setNext_of_ne _ _ hmn, setPrev_of_ne _ _ hmn]
  | some t =>
    have hmt : m ≠ t := by
      rintro rfl
      exact hm (mem_of_getLast? (hl.tail ▸ ht))
    simp only [setNext_of_ne _ _ hmt, setNext_of_ne _ _ hmn, setPrev_of_ne _ _ hmn]

theorem pushBack_isList (hl : IsList h e xs) (hnd : xs.Nodup) (hn : n ∉ xs) :
    IsList (pushBack h e n).1 (pushBack h e n).2 (xs ++ [n]) := by
  have hne : ∀ x ∈ xs, x ≠ n := fun x hx he => hn (he ▸ hx)
  unfold pushBack
  cases ht : e.tail with
  | none =>
    have hxs : xs = [] := by simpa [ht] using hl.tail.symm
    subst hxs
    exact ⟨rfl, rfl, by simp [Seg]⟩
  | some t =>
    have hlast : xs.getLast? = some t := hl.tail ▸ ht
    have htn : t ≠ n := hne t (mem_of_getLast? hlast)
    refine ⟨?_, by simp, ?_⟩
    · rw [hl.head]
      cases xs with
      | nil => simp at hlast
      | cons x xs => rfl
    · rw [seg_append]
      refine ⟨?_, ?_⟩
      · have hseg : Seg (setNext (setPrev h n (some t)) n none) none xs none :=
          hl.seg.congr fun x hx => by
            rw [setNext_of_ne _ _ (hne x hx), setPrev_of_ne _ _ (hne x hx)]
            exact ⟨rfl, rfl⟩
        exact hseg.setNext_last hnd hlast (some n)
      · simp [Seg, hlast, setNext_of_ne _ _ (Ne.symm htn)]

/-! ## Unlinking -/

section

variable (h : Heap ν α) (e : Ends ν) (n m : ν)

theorem bypassNext_val : ((bypassNext h e n).1 m).val = (h m).val := by
  unfold bypassNext
  cases (h n).prev <;> simp

theorem bypassPrev_val : ((bypassPrev h e n).1 m).val = (h m).val := by
  unfold bypassPrev
  cases (h n).next <;> simp

theorem unlink_val : ((unlink h e n).1 m).val = (h m).val := by
  simp [unlink, bypassNext_val, bypassPrev_val]

end

section

variable {h : Heap ν α} {e : Ends ν} {as bs : List ν} {n : ν} (hl : IsList h e (as ++ n :: bs))
  (hnd : (as ++ n :: bs).Nodup)
include hl hnd

theorem bypassNext_spec : (bypassNext h e n).2.head = (as ++ bs).head? ∧
    (bypassNext h e n).2.tail = (as ++ n :: bs).getLast? ∧
    Seg (bypassNext h e n).1 none as bs.head? ∧
    ∀ m, m ∉ as → (bypassNext h e n).1 m = h m := by
  obtain ⟨hp, hn, hseg, -⟩ := hl.split
  unfold bypassNext
  cases hlast : as.getLast? with
  | none =>
    have has : as = [] := by simpa using hlast
    subst has
    rw [hp, hlast]
    exact ⟨by simpa using hn, hl.tail, trivial, fun _ _ => rfl⟩
  | some p =>
    rw [hp, hlast]
    refine ⟨?_, hl.tail, ?_, fun m hm => ?_⟩
    · rw [hl.head]
      cases as with
      | nil => simp at hlast
      | cons a as => rfl
    · rw [← hn]
      exact hseg.setNext_last (hnd.sublist (sublist_append_left _ _)) hlast _
    · exact setNext_of_ne _ _ fun he => hm (he ▸ mem_of_getLast? hlast)

theorem unlink_spec : IsList (unlink h e n).1 (unlink h e n).2 (as ++ bs) ∧
      ∀ m, m ∉ as ++ n :: bs → (unlink h e n).1 m = h m := by
  obtain ⟨hp, hn, -, hsegb⟩ := hl.split
  obtain ⟨hhead, htail, hsega, hframe⟩ := bypassNext_spec hl hnd
  set h₁ := (bypassNext h e n).1
  set e₁ := (bypassNext h e n).2
  have hdis : ∀ x ∈ as, x ≠ n ∧ x ∉ bs := by
    intro x hx
    have := (nodup_append.1 hnd).2.2 x hx
    exact ⟨this n mem_cons_self, fun hb => this x (mem_cons_of_mem _ hb) rfl⟩
  have hnas : n ∉ as := fun hx => (hdis n hx).1 rfl
  have hnbs : n ∉ bs := (nodup_cons.1 (hnd.sublist (sublist_append_right _ _))).1
  have hbnd : bs.Nodup := (nodup_cons.1 (hnd.sublist (sublist_append_right _ _))).2
  have hn₁ : h₁ n = h n := hframe n hnas
  have hsegb₁ : Seg h₁ (some n) bs none := hsegb.congr fun x hx => by
    rw [hframe x fun hxa => (hdis x hxa).2 hx]; exact ⟨rfl, rfl⟩
  -- The second bypass, on the part after `n`.
  have hbyp : (bypassPrev h₁ e₁ n).2.head = (as ++ bs).head? ∧
      (bypassPrev h₁ e₁ n).2.tail = (as ++ bs).getLast? ∧
      Seg (bypassPrev h₁ e₁ n).1 as.getLast? bs none ∧
      ∀ m, m ∉ bs → (bypassPrev h₁ e₁ n).1 m = h₁ m := by
    unfold bypassPrev
    rw [hn₁, hn, hp]
    cases hb : bs.head? with
    | none =>
      have hbs : bs = [] := by simpa using hb
      subst hbs
      exact ⟨hhead, by simp, trivial, fun _ _ => rfl⟩
    | some q =>
      refine ⟨hhead, ?_, hsegb₁.setPrev_head hbnd hb _, fun m hm => ?_⟩
      · rw [htail]
        cases bs with
        | nil => simp at hb
        | cons b bs => simp [getLast?_append, getLast?_cons_cons]
      · exact setPrev_of_ne _ _ fun he => hm (he ▸ mem_of_head? hb)
  obtain ⟨hhead₂, htail₂, hsegb₂, hframe₂⟩ := hbyp
  set h₂ := (bypassPrev h₁ e₁ n).1
  have hlinks : ∀ m, m ≠ n → (unlink h e n).1 m = h₂ m := fun m hm =>
    (setNext_of_ne _ _ hm).trans (setPrev_of_ne _ _ hm)
  refine ⟨⟨hhead₂, htail₂, seg_append.2 ⟨?_, ?_⟩⟩, fun m hm => ?_⟩
  · rw [Option.or_none]
    refine hsega.congr fun x hx => ?_
    rw [hlinks x (hdis x hx).1, hframe₂ x (hdis x hx).2]
    exact ⟨rfl, rfl⟩
  · rw [Option.or_none]
    refine hsegb₂.congr fun x hx => ?_
    rw [hlinks x fun he => hnbs (he ▸ hx)]
    exact ⟨rfl, rfl⟩
  · simp only [mem_append, mem_cons, not_or] at hm
    rw [hlinks m hm.2.1, hframe₂ m hm.2.2, hframe m hm.1]

end

variable {h : Heap ν α} {e : Ends ν} {xs : List ν} (hl : IsList h e xs) (hnd : xs.Nodup)
include hl hnd

theorem unlink_isList (hn : n ∈ xs) : IsList (unlink h e n).1 (unlink h e n).2 (xs.erase n) := by
  obtain ⟨as, bs, rfl⟩ := append_of_mem hn
  have hnas : n ∉ as := fun hx =>
    (nodup_append.1 hnd).2.2 n hx n mem_cons_self rfl
  rw [erase_append_right _ hnas, erase_cons_head]
  exact (unlink_spec hl hnd).1

/-- Unlinking writes only nodes of the list. -/
theorem unlink_frame (hn : n ∈ xs) (hm : m ∉ xs) : (unlink h e n).1 m = h m := by
  obtain ⟨as, bs, rfl⟩ := append_of_mem hn
  exact (unlink_spec hl hnd).2 m hm

end Writes

/-! ## Reading a list off the heap -/

/-- The nodes met by following `next` from a pointer, at most `fuel` of them. -/
def walk (h : Heap ν α) : Nat → Option ν → List ν
  | 0, _ => []
  | _ + 1, none => []
  | fuel + 1, some n => n :: walk h fuel (h n).next

theorem Stack.walk_eq (hs : Stack h t xs) (hlen : xs.length ≤ fuel) : walk h fuel t = xs := by
  induction xs generalizing t fuel with
  | nil =>
    rw [show t = none from hs]
    cases fuel <;> rfl
  | cons x xs ih =>
    obtain ⟨rfl, hs⟩ := hs
    obtain ⟨fuel, rfl⟩ : ∃ k, fuel = k + 1 := Nat.exists_eq_add_one.2 (Nat.lt_of_lt_of_le
      (Nat.succ_pos _) hlen)
    rw [walk, ih hs (Nat.le_of_succ_le_succ hlen)]

theorem Seg.stack (hs : Seg h p xs none) : Stack h xs.head? xs := by
  induction xs generalizing p with
  | nil => rfl
  | cons x xs ih =>
    obtain ⟨-, hn, hs⟩ := hs
    refine ⟨rfl, ?_⟩
    rw [hn, Option.or_none]
    exact ih hs

theorem IsList.walk_eq (hl : IsList h e xs) (hlen : xs.length ≤ fuel) :
    walk h fuel e.head = xs := by
  rw [hl.head]
  exact hl.seg.stack.walk_eq hlen

end IntrusiveList
