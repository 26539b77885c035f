import Mathlib.Data.Rat.Floor

/-!
# Rounding

The result of an operation on doubles is the exact result, rounded. The multiples of a power of two
are doubles as far as the significand counts, so among them a difference is exact (`OnGrid.sub_eq`).
-/

structure Rounding where
  round : ℚ → ℚ
  /-- A unit whose multiples are not rounded. -/
  unit : ℚ
  unit_pos : 0 < unit
  round_multiple : ∀ n : ℕ, n ≤ 2 ^ 53 → round (n * unit) = n * unit

namespace Rounding

variable (r : Rounding)

/-- Exact arithmetic. -/
def exact : Rounding := ⟨id, 1, by norm_num, fun _ _ => rfl⟩

def sub (x y : ℚ) : ℚ := r.round (x - y)

/-- A multiple of the unit that is not rounded. -/
def OnGrid (x : ℚ) : Prop := (x / r.unit).den = 1 ∧ 0 ≤ x / r.unit ∧ x / r.unit ≤ 2 ^ 53

instance (x : ℚ) : Decidable (r.OnGrid x) := inferInstanceAs (Decidable (_ ∧ _ ∧ _))

variable {r} {x y : ℚ}

theorem OnGrid.round_eq (h : r.OnGrid x) : r.round x = x := by
  obtain ⟨hden, hnonneg, hle⟩ := h
  obtain ⟨n, hn⟩ := Int.eq_ofNat_of_zero_le (Rat.num_nonneg.2 hnonneg)
  have hx : x / r.unit = (n : ℚ) := by
    rw [← Rat.coe_int_num_of_den_eq_one hden, hn, Int.cast_natCast]
  have hbound : n ≤ 2 ^ 53 := by
    rw [hx] at hle
    exact_mod_cast hle
  have hround := r.round_multiple n hbound
  rwa [← hx, div_mul_cancel₀ x r.unit_pos.ne'] at hround

theorem OnGrid.sub (hx : r.OnGrid x) (hy : r.OnGrid y) (hyx : y ≤ x) : r.OnGrid (x - y) := by
  have hnonneg : y / r.unit ≤ x / r.unit := div_le_div_of_nonneg_right hyx r.unit_pos.le
  rw [OnGrid, sub_div]
  refine ⟨?_, sub_nonneg.2 hnonneg, (sub_le_self _ hy.2.1).trans hx.2.2⟩
  rw [← Rat.coe_int_num_of_den_eq_one hx.1, ← Rat.coe_int_num_of_den_eq_one hy.1, ← Int.cast_sub]
  rfl

/-- **A difference on the grid is exact**, and on the grid. -/
theorem OnGrid.sub_eq (hx : r.OnGrid x) (hy : r.OnGrid y) (hyx : y ≤ x) : r.sub x y = x - y :=
  (hx.sub hy hyx).round_eq

end Rounding
