import Mathlib.Algebra.BigOperators.Group.List.Basic
import Mathlib.Data.List.AList
import Mathlib.Tactic.Abel

/-!
# Values of a map

The sum of a quantity over the values of a finite map, and what an update of the map does to it: the
old value of the key goes, the new one comes. What is found in the map after an update was there, or
is new.
-/

namespace KeyedSum

variable {κ β M : Type} [DecidableEq κ] [AddCommGroup M]

/-- The sum of `v` over the values of a map. -/
def keyedSum (v : β → M) (t : AList fun _ : κ => β) : M := (t.entries.map fun x => v x.2).sum

variable (v w : β → M) (t : AList fun _ : κ => β) (k : κ) (b : β)

omit [DecidableEq κ] in
@[simp] theorem keyedSum_empty : keyedSum v (∅ : AList fun _ : κ => β) = 0 := rfl

omit [DecidableEq κ] in
theorem keyedSum_add : keyedSum (fun x => v x + w x) t = keyedSum v t + keyedSum w t := by
  simp only [keyedSum]
  induction t.entries with
  | nil => simp
  | cons x xs ih =>
    simp only [List.map_cons, List.sum_cons, ih]
    abel

omit [DecidableEq κ] in
theorem keyedSum_congr (h : ∀ x ∈ t.entries, v x.2 = w x.2) : keyedSum v t = keyedSum w t := by
  rw [keyedSum, keyedSum, List.map_congr_left h]

theorem keyedSum_erase : keyedSum v (t.erase k) = keyedSum v t - ((t.lookup k).map v).getD 0 := by
  have hentries : (t.erase k).entries = t.entries.kerase k := rfl
  by_cases hk : k ∈ t.entries.keys
  · obtain ⟨b, l₁, l₂, -, hsplit, hrest⟩ := List.exists_of_kerase hk
    have hlook : t.lookup k = some b := AList.mem_lookup_iff.2 (by rw [hsplit]; simp)
    rw [keyedSum, hentries, hrest, hlook, keyedSum, hsplit]
    simp
    abel
  · have hlook : t.lookup k = none := AList.lookup_eq_none.2 hk
    rw [keyedSum, hentries, List.kerase_of_notMem_keys hk, hlook]
    simp [keyedSum]

theorem keyedSum_insert_erase : keyedSum v (t.insert k b) = v b + keyedSum v (t.erase k) := by
  rw [keyedSum, AList.entries_insert, List.map_cons, List.sum_cons]
  rfl

/-- **An update moves the sum by the difference** of the new value and the old one. -/
theorem keyedSum_insert :
    keyedSum v (t.insert k b) = keyedSum v t + (v b - ((t.lookup k).map v).getD 0) := by
  rw [keyedSum_insert_erase, keyedSum_erase]
  abel

/-- For a map with a default value that counts nothing. -/
theorem keyedSum_insert_getD {d : β} (hd : v d = 0) :
    keyedSum v (t.insert k b) = keyedSum v t + (v b - v ((t.lookup k).getD d)) := by
  rw [keyedSum_insert]
  cases t.lookup k with
  | none => simp [hd]
  | some c => rfl

end KeyedSum

namespace AList

variable {κ β : Type} [DecidableEq κ] {t : AList fun _ : κ => β} {k x : κ} {b y : β}

theorem lookup_erase_eq : (t.erase k).lookup x = if x = k then none else t.lookup x := by
  split_ifs with hx
  · rw [hx, lookup_erase]
  · rw [lookup_erase_ne hx]

theorem lookup_insert_eq : (t.insert k b).lookup x = if x = k then some b else t.lookup x := by
  split_ifs with hx
  · rw [hx, lookup_insert]
  · rw [lookup_insert_ne hx]

theorem lookup_of_lookup_erase (h : (t.erase k).lookup x = some y) :
    x ≠ k ∧ t.lookup x = some y := by
  rw [lookup_erase_eq] at h
  split_ifs at h with hx
  exact ⟨hx, h⟩

theorem forall_lookup_insert {P : κ → β → Prop} (hk : P k b)
    (h : ∀ x y, t.lookup x = some y → P x y)
    (x : κ) (y : β) (hxy : (t.insert k b).lookup x = some y) : P x y := by
  rw [lookup_insert_eq] at hxy
  split_ifs at hxy with hx
  · cases hxy
    exact hx ▸ hk
  · exact h x y hxy

end AList
