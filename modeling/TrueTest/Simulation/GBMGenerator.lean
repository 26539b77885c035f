import TrueTest.Data.DateParse
import TrueTest.Providers.Event

/-!
# The dates of generated bars

`GBMGenerator::generate` dates its bars by day, hour and minute. Without seconds the parser reads
such a text as a date, so that all bars of a day have the time of its midnight, and `resolve_bar_ts`
puts each a millisecond after the one before. After 31 days the dates are not in the calendar.
-/

namespace TrueTest.GBMGenerator

open List DateParse

/-- What a step draws: the factor `exp(drift + vol * z)`, `z` and the noise of the volume. A factor
that a double rounds to zero is left out. -/
structure Draw where
  growth : ℚ
  z : ℚ
  noise : ℚ
  growth_pos : 0 < growth
  z_lt : |z| < 2000
  noise_nonneg : 0 ≤ noise

/-- `%02lld`. -/
def pad (n : Nat) : List Char := (Nat.toDigits 10 n).leftpad 2 '0'

def day (i : Nat) : Nat := 1 + i / (24 * 60)

def date (i : Nat) : List Char :=
  "2024-01-".toList ++ pad (day i) ++ ' ' :: pad (i / 60 % 24) ++ ':' :: pad (i % 60)

def bar (symbol : String) (i : Nat) (prev : ℚ) (d : Draw) : Bar where
  date := String.ofList (date i)
  symbol := symbol
  open_ := prev
  high := max prev (prev * d.growth) * (1 + 5 / 10000 * |d.z|)
  low := min prev (prev * d.growth) * (1 - 5 / 10000 * |d.z|)
  close := prev * d.growth
  volume := ⌊1000 * d.noise⌋

/-- The bars of `generate` from a step and the price before it. -/
def generate (symbol : String) : Nat → ℚ → List Draw → List Bar
  | _, _, [] => []
  | i, prev, d :: ds => bar symbol i prev d :: generate symbol (i + 1) (prev * d.growth) ds

/-- `validate_and_append_bar`. -/
def accepts (b : Bar) : Bool :=
  0 < b.open_ ∧ 0 < b.high ∧ 0 < b.low ∧ 0 < b.close ∧ b.low ≤ b.high ∧ 0 ≤ b.volume

/-- The time of a bar after the bar at `prev`; the first bar has none before it. -/
def resolveBarTs (base : Int) (prev : Option Int) (b : Bar) : Int :=
  let ts := (parse b.date.toList).getD 0
  let later (t : Int) : Bool := prev.all (· < t)
  if ts ≠ 0 ∧ later ts then ts
  else ((parse b.date.toList).filter later).getD (prev.elim base (· + 1))

/-- The times at which a run processes the bars. -/
def runTimes (base : Int) : Option Int → List Bar → List Int
  | _, [] => []
  | prev, b :: bs => resolveBarTs base prev b :: runTimes base (resolveBarTs base prev b) bs

def times (base : Int) (symbol : String) (initial : ℚ) (draws : List Draw) : List Int :=
  runTimes base none ((generate symbol 0 initial draws).filter accepts)

variable (symbol : String) {price : ℚ} (i : Nat) (d : Draw)

theorem accepts_bar (h : 0 < price) : accepts (bar symbol i price d) = true := by
  have hz := d.z_lt
  have habs := abs_nonneg d.z
  have hclose := mul_pos h d.growth_pos
  have hmin := lt_min h hclose
  have hlow := mul_pos hmin (show 0 < 1 - 5 / 10000 * |d.z| by linarith)
  have hle := mul_le_mul min_le_max (show 1 - 5 / 10000 * |d.z| ≤ 1 + 5 / 10000 * |d.z| by linarith)
    (by linarith) (hmin.trans_le min_le_max).le
  have hvolume := Int.floor_nonneg.2 (mul_nonneg (show (0 : ℚ) ≤ 1000 by norm_num) d.noise_nonneg)
  exact decide_eq_true ⟨h, hlow.trans_le hle, hlow, hclose, hle, hvolume⟩

theorem filter_generate_of_nonpos (draws : List Draw) (h : price ≤ 0) :
    (generate symbol i price draws).filter accepts = [] := by
  induction draws generalizing i price with
  | nil => rfl
  | cons d ds ih =>
    have hopen : ¬ accepts (bar symbol i price d) = true := by simp [accepts, bar, h.not_gt]
    rw [generate, filter_cons_of_neg hopen, ih _ (mul_nonpos_of_nonpos_of_nonneg h d.growth_pos.le)]

@[simp] theorem date_bar : (bar symbol i price d).date.toList = date i := String.toList_ofList

/-- The second bar of a path comes a millisecond after the first. -/
theorem times_cons_cons (base : Int) (d' : Draw) (draws : List Draw) (h : 0 < price) : ∃ rest,
    times base symbol price (d :: d' :: draws) = 1704067200000 :: 1704067200001 :: rest := by
  have hzero : parse (date 0) = some 1704067200000 := by decide
  have hone : parse (date 1) = some 1704067200000 := by decide
  have hnext := mul_pos h d.growth_pos
  simp [times, generate, accepts_bar _ _ _ h, accepts_bar _ _ _ hnext, runTimes, resolveBarTs,
    hzero, hone, Option.filter]

/-- **The bars of a run are a minute apart, with dates of the calendar, only if there are not two of
them.** -/
theorem times_minutely_iff (symbol : String) (initial : ℚ) (draws : List Draw) (base : Int) :
    ((times base symbol initial draws).IsChain (fun s t => t = s + 60000) ∧
      ∀ i < draws.length, day i ≤ 31) ↔
      draws.length ≤ 1 ∨ initial ≤ 0 ∧ draws.length ≤ 44640 := by
  have hdays : (∀ i < draws.length, day i ≤ 31) ↔ draws.length ≤ 44640 := by
    constructor
    · intro h
      by_contra hlong
      exact absurd (h 44640 (by omega)) (by decide)
    · intro h i hi
      unfold day
      omega
  rw [hdays]
  rcases le_or_gt initial 0 with hinitial | hinitial
  · simp [times, filter_generate_of_nonpos _ _ _ hinitial, runTimes, hinitial]
    omega
  · match draws with
    | [] => simp [times, generate, runTimes]
    | [d] => simp [times, generate, accepts_bar _ _ _ hinitial, runTimes]
    | d :: d' :: draws =>
      obtain ⟨rest, htimes⟩ := times_cons_cons symbol d base d' draws hinitial
      simp [htimes, hinitial.not_ge]

/-- Two equal steps from 65000. -/
theorem times_not_minutely : let d : Draw := ⟨1, 0, 1, by norm_num, by norm_num, by norm_num⟩
    ¬ (times 0 "BTCUSDT" 65000 [d, d]).IsChain (fun s t => t = s + 60000) := by
  intro d
  obtain ⟨rest, htimes⟩ := times_cons_cons "BTCUSDT" d 0 d [] (show (0 : ℚ) < 65000 by norm_num)
  simp [htimes]

end TrueTest.GBMGenerator
