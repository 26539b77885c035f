import Mathlib.Tactic

/-!
# The kept equity curve

`Analytics` keeps at most `max_equity_points_` observations of equity: when there are more, it drops
every second one and doubles the stride of what it keeps from then on. The stride is applied to a
counter that starts at one, while a decimation keeps even indices: every point added after it has an
odd index. The constructor takes no bound below four.
-/

namespace TrueTest

open List

/-- `curve`, `stride` and `counter` of `record_equity_point`. -/
structure EquityCurve (α : Type) where
  points : List α := []
  stride : Nat := 1
  counter : Nat := 0

/-- The points at even positions. -/
def everySecond {α : Type} : List α → List α
  | [] => []
  | [x] => [x]
  | x :: _ :: l => x :: everySecond l

namespace EquityCurve

def recordEquityPoint {α : Type} (maxEquityPoints : Nat) (c : EquityCurve α)
    (pt : α) : EquityCurve α :=
  let counter := c.counter + 1
  if counter % c.stride ≠ 0 then { c with counter }
  else
    let points := c.points ++ [pt]
    if points.length > maxEquityPoints then ⟨everySecond points, c.stride * 2, counter⟩
    else ⟨points, c.stride, counter⟩

/-- The curve after `n` observations, each told by its index, when at most `K` are kept. -/
def recorded (K : Nat) : Nat → EquityCurve Nat
  | 0 => {}
  | n + 1 => (recorded K n).recordEquityPoint K n

/-- `max_equity_points_`, as the constructor sets it. -/
def maxEquityPoints (M : Nat) : Nat := if M > 4 then M else 4

/-- The curve after `n` observations, for a configured bound `M`. -/
def observed (M n : Nat) : EquityCurve Nat := recorded (maxEquityPoints M) n

/-- At most `M` points, in order and from the first on, and one for each multiple of a power of
two. -/
def EvenlySpaced (M n : Nat) (points : List Nat) : Prop :=
  points.length ≤ M ∧ points <+ range n ∧ points.head? = (range n).head? ∧
    ∃ k, points = (range n).filter (2 ^ k ∣ ·)

theorem everySecond_concat {α : Type} (l : List α) (x : α) :
    everySecond (l ++ [x]) = if l.length % 2 = 0 then everySecond l ++ [x] else everySecond l := by
  fun_induction everySecond l <;> grind [everySecond]

@[grind =]
theorem length_everySecond {α : Type} (l : List α) :
    (everySecond l).length = (l.length + 1) / 2 := by
  fun_induction everySecond l <;> grind

@[grind =]
theorem getLast?_everySecond {α : Type} (l : List α) (x : α) :
    (everySecond (l ++ [x])).getLast? = if l.length % 2 = 0 then some x else l.getLast? := by
  obtain rfl | ⟨l, y, rfl⟩ := l.eq_nil_or_concat <;> grind [everySecond_concat, everySecond]

theorem everySecond_range (n : Nat) : everySecond (range n) = (range n).filter (2 ∣ ·) := by
  induction n with
  | zero => rfl
  | succ n ih => grind [range_succ, everySecond_concat]

theorem recorded_of_le {K n : Nat} (h : n ≤ K) : recorded K n = ⟨range n, 1, n⟩ := by
  induction n with
  | zero => rfl
  | succ n ih =>
    simp [recorded, ih (by omega), recordEquityPoint, range_succ, Nat.not_lt.2 h, Nat.mod_one]

theorem recorded_decimated (K : Nat) :
    recorded K (K + 1) = ⟨everySecond (range (K + 1)), 2, K + 1⟩ := by
  simp [recorded, recorded_of_le, recordEquityPoint, range_succ, Nat.mod_one]

/-- What holds once the curve is decimated: the last point has an odd index, or no point was added
yet. -/
structure Off (K n : Nat) (c : EquityCurve Nat) : Prop where
  counter : c.counter = n
  stride : c.stride % 2 = 0
  room : c.points.length ≤ K
  last : (∃ x ∈ c.points.getLast?, x % 2 = 1) ∨
    (n = K + 1 ∨ n = K + 2 ∧ K % 2 = 1) ∧ c.stride = 2 ∧ c.points = everySecond (range (K + 1))

theorem Off.record {K n : Nat} {c : EquityCurve Nat} (hK : 2 ≤ K) (h : Off K n c) :
    Off K (n + 1) (c.recordEquityPoint K n) := by
  obtain ⟨rfl, hstride, hroom, hlast⟩ := h
  -- An even stride divides the counter, which is one more than the index.
  have hodd (h : (c.counter + 1) % c.stride = 0) : c.counter % 2 = 1 := by
    have := (Nat.dvd_of_mod_eq_zero hstride).trans (Nat.dvd_of_mod_eq_zero h)
    omega
  fun_cases recordEquityPoint
  case case1 => constructor <;> grind
  case case2 hd points hlen =>
    refine ⟨rfl, by grind, by grind, .inl ?_⟩
    rw [getLast?_everySecond]
    split_ifs
    · exact ⟨_, rfl, hodd (not_not.1 hd)⟩
    · grind
  case case3 hd points hlen =>
    exact ⟨rfl, hstride, not_lt.1 hlen, .inl ⟨_, getLast?_concat, hodd (not_not.1 hd)⟩⟩

theorem off_recorded {K n : Nat} (hK : 2 ≤ K) (h : K + 1 ≤ n) : Off K n (recorded K n) := by
  induction n, h using Nat.le_induction with
  | base => rw [recorded_decimated]; constructor <;> grind
  | succ n _ ih => exact ih.record hK

theorem not_evenlySpaced_of_odd {M n x : Nat} {points : List Nat} (hn : M < n) (hx : x ∈ points)
    (hodd : x % 2 = 1) : ¬ EvenlySpaced M n points := by
  rintro ⟨hlen, -, -, k, rfl⟩
  obtain rfl : k = 0 := by
    by_contra hk
    have := (dvd_pow_self 2 hk).trans (of_decide_eq_true (mem_filter.1 hx).2)
    omega
  simp at hlen
  omega

/-- **The kept curve is evenly spaced exactly as long as it is the whole one**, and once more when
the first decimation leaves no more than the configured points. -/
theorem evenlySpaced_observed_iff (M n : Nat) :
    EvenlySpaced M n (observed M n).points ↔ n ≤ M ∨ 3 ≤ M ∧ n = maxEquityPoints M + 1 := by
  have hM : M ≤ maxEquityPoints M ∧ 4 ≤ maxEquityPoints M ∧
      (4 ≤ M → maxEquityPoints M = M) ∧ (M ≤ 4 → maxEquityPoints M = 4) := by
    rw [maxEquityPoints]
    split <;> omega
  rw [observed]
  set K := maxEquityPoints M
  obtain hn | hn := le_or_gt n K
  · -- Nothing is dropped yet: all `n` observations are kept.
    rw [recorded_of_le hn]
    constructor
    · intro h
      exact .inl (by simpa using h.1)
    · intro h
      exact ⟨by simp; omega, .refl _, rfl, 0, by simp⟩
  · obtain rfl | hn := Nat.eq_or_lt_of_le hn
    · rw [Nat.succ_eq_add_one, recorded_decimated, everySecond_range]
      have hlen : ((range (K + 1)).filter (2 ∣ ·)).length = (K + 2) / 2 := by
        rw [← everySecond_range, length_everySecond, length_range]
      constructor
      · intro h
        have := hlen ▸ h.1
        omega
      · intro h
        exact ⟨hlen.trans_le (by omega), filter_sublist, by simp [range_succ_eq_map], 1, rfl⟩
    · refine iff_of_false (fun h => ?_) (by omega)
      obtain ⟨x, hx, hodd⟩ | ⟨hn, -, hpoints⟩ :=
        (off_recorded (by omega) (by omega : K + 1 ≤ n)).last
      · exact not_evenlySpaced_of_odd (by omega) (mem_of_getLast? hx) hodd h
      · -- The even index `K + 1` is missing.
        obtain ⟨-, -, -, k, hk⟩ := h
        rw [hpoints, everySecond_range] at hk
        have h2 : 2 ∈ (range n).filter (2 ^ k ∣ ·) :=
          hk ▸ mem_filter.2 ⟨mem_range.2 (by omega), rfl⟩
        have hdvd : 2 ^ k ∣ K + 1 := (of_decide_eq_true (mem_filter.1 h2).2).trans (by omega)
        have hlast : K + 1 ∈ (range (K + 1)).filter (2 ∣ ·) :=
          hk ▸ mem_filter.2 ⟨mem_range.2 (by omega), decide_eq_true hdvd⟩
        exact absurd (mem_range.1 (mem_filter.1 hlast).1) (lt_irrefl _)

/-- With the least bound the constructor allows, the sixth observation is kept beside the fifth. -/
theorem observed_not_evenlySpaced :
    (observed 4 6).points = [0, 2, 4, 5] ∧ ¬ EvenlySpaced 4 6 (observed 4 6).points :=
  ⟨by decide +kernel, not_evenlySpaced_of_odd (x := 5) (by decide) (by decide +kernel) rfl⟩

end EquityCurve

end TrueTest
