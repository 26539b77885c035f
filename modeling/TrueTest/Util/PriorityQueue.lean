import Mathlib.Data.List.Perm.Basic

/-!
# Priority queues

A priority queue is known by its content, in whatever arrangement, and by the order in which entries
leave it. `pop` takes an entry that no other precedes. Where the order is total on the content there
is one such entry, and a queue behaves as the sorted list of its content (`pop_of_sorted`).
-/

namespace PriorityQueue

open List

variable {α : Type} (lt : α → α → Prop) [DecidableRel lt]

/-- Nothing in the queue precedes the entry. -/
def isTop (q : List α) (a : α) : Bool := q.all fun b => ¬ lt b a

/-- Take the entry at the top. -/
def pop (q : List α) : Option (α × List α) :=
  (q.find? (isTop lt q)).map fun a => (a, q.eraseP (isTop lt q))

variable {lt} {q : List α} {a : α}

/-- The entry that is taken and those that are left make up the queue. -/
theorem perm_of_pop {rest : List α} (h : pop lt q = some (a, rest)) : q.Perm (a :: rest) := by
  obtain ⟨b, hfind, hpair⟩ := Option.map_eq_some_iff.1 h
  cases hpair
  obtain ⟨hb, as, bs, hq, has⟩ := find?_eq_some_iff_append.1 hfind
  have herase : q.eraseP (isTop lt q) = as ++ bs := by
    conv_lhs => rw [hq]
    rw [eraseP_append_right _ fun x hx => by simpa [← hq] using has x hx,
      eraseP_cons_of_pos (by rwa [← hq])]
  rw [herase, hq]
  exact perm_middle

/-- A queue gives out its content in order. -/
theorem pop_of_sorted (hasymm : ∀ a b, lt a b → ¬ lt b a) {sorted : List α}
    (hperm : (a :: sorted).Perm q)
    (hsorted : (a :: sorted).Pairwise lt) : ∃ rest, pop lt q = some (a, rest) ∧
    sorted.Perm rest := by
  have hfirst := (pairwise_cons.1 hsorted).1
  have htop : isTop lt q a = true := by
    refine all_eq_true.2 fun b hb => decide_eq_true ?_
    rcases mem_cons.1 (hperm.mem_iff.2 hb) with rfl | hb
    · exact fun h => hasymm b b h h
    · exact hasymm a b (hfirst b hb)
  have hmem : a ∈ q := hperm.mem_iff.1 mem_cons_self
  obtain ⟨b, hfind⟩ := Option.isSome_iff_exists.1 (find?_isSome.2 ⟨a, hmem, htop⟩)
  have hb := find?_some hfind
  have heq : b = a := by
    rcases mem_cons.1 (hperm.mem_iff.2 (mem_of_find?_eq_some hfind)) with rfl | hlater
    · rfl
    · exact absurd (hfirst b hlater) (of_decide_eq_true (all_eq_true.1 hb a hmem))
  subst heq
  have hpop : pop lt q = some (b, q.eraseP (isTop lt q)) := by rw [pop, hfind, Option.map_some]
  exact ⟨_, hpop, Perm.cons_inv (hperm.trans (perm_of_pop hpop))⟩

end PriorityQueue
