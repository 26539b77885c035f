import TrueTest.Core.Event
import TrueTest.Util.Machine

/-!
# The mean reversion strategy

`mean_reversion_strategy` of `strategy/mean_reversion_strategy.cpp` enters when the close crosses
its moving average: long below it, short above. The gate of a symbol stores the side of the close,
so that an entry needs a fresh cross. But it stores no side while a position is open: a cross that
happens meanwhile passes for a fresh one on the first bar after the close.

The symbols have states of their own, so the model is that of one. Each bar brings the quantity that
`compute_quantity_with_sl` gives for a long and for a short: the gate does not read what it depends
on.
-/

namespace TrueTest

open Machine

/-! ## The moving average -/

/-- `simple_moving_average` of `indicator/sma.h`. A period of zero divides by zero in the source;
here such an average is zero. -/
structure SimpleMovingAverage where
  period : Nat
  lastValue : Option ℚ := none
  window : List ℚ := []
  sum : ℚ := 0
deriving DecidableEq

namespace SimpleMovingAverage

/-- The window with a price pushed, and the oldest one popped when it is too long. -/
def push (a : SimpleMovingAverage) (price : ℚ) : SimpleMovingAverage :=
  let window := a.window ++ [price]
  if a.period < window.length then
    { a with window := window.tail, sum := a.sum + price - window.headD 0 }
  else { a with window := window, sum := a.sum + price }

def update (a : SimpleMovingAverage) (price : ℚ) : Option ℚ × SimpleMovingAverage :=
  let a := a.push price
  if a.window.length = a.period then
    let value := a.sum / a.period
    (some value, { a with lastValue := some value })
  else (none, a)

end SimpleMovingAverage

/-! ## The strategy -/

inductive SmaSide
  | unknown | below | equal | above
deriving DecidableEq

structure SymbolGate where
  positionOpen : Bool := false
  prevSide : SmaSide := .unknown

structure MeanReversion where
  sma : SimpleMovingAverage
  gate : SymbolGate := {}
  /-- The side of the last bar's close, if the average was ready; not in the source. -/
  lastSide : Option SmaSide := none

namespace MeanReversion

def sideOf (price smaValue : ℚ) : SmaSide :=
  if price < smaValue then .below else if smaValue < price then .above else .equal

/-- `try_entry`, with the side, the quantity and the price of the order. -/
def tryEntry (g : SymbolGate) (qty : Bool → ℚ) (price smaValue : ℚ) :
    Option (OrderSide × ℚ × ℚ) × SymbolGate :=
  if g.positionOpen then (none, g)
  else
    let side := sideOf price smaValue
    let long := side = .below ∧ g.prevSide ≠ .below
    let short := side = .above ∧ g.prevSide ≠ .above
    if side = .equal ∨ ¬ long ∧ ¬ short ∨ qty long ≤ 0 then (none, { g with prevSide := side })
    else (some (if long then .buy else .sell, qty long, price), ⟨true, side⟩)

inductive Op
  | bar (close : ℚ) (qty : Bool → ℚ)
  | setPositionOpen (isOpen : Bool)

def step (s : MeanReversion) : Op → Option (OrderSide × ℚ × ℚ) × MeanReversion
  | .bar close qty =>
    let r := s.sma.update close
    match r.1 with
    | none => (none, { s with sma := r.2, lastSide := none })
    | some value =>
      let e := tryEntry s.gate qty close value
      (e.1, ⟨r.2, e.2, some (sideOf close value)⟩)
  | .setPositionOpen isOpen => (none, { s with gate := { s.gate with positionOpen := isOpen } })

/-- No next bar gives an entry with its close on the side of the bar before. -/
def Fresh (s : MeanReversion) : Prop := ∀ close qty side, (s.step (.bar close qty)).1 ≠ none →
  (s.step (.bar close qty)).2.lastSide = some side → s.lastSide ≠ some side

/-- The position is reported closed only if the stored side is that of the last bar. -/
def Current (s : MeanReversion) : Op → Prop
  | .setPositionOpen false => s.lastSide = none ∨ s.lastSide = some s.gate.prevSide
  | _ => True

variable {s : MeanReversion}

/-- A closed gate stores the side, and an entry has another one than that stored before. -/
theorem tryEntry_cases (g : SymbolGate) (qty : Bool → ℚ) (price smaValue : ℚ) :
    g.positionOpen = true ∧ tryEntry g qty price smaValue = (none, g) ∨
      g.positionOpen = false ∧ (tryEntry g qty price smaValue).2.prevSide = sideOf price smaValue ∧
        ((tryEntry g qty price smaValue).1 ≠ none → sideOf price smaValue ≠ g.prevSide) := by
  simp only [tryEntry]
  split_ifs with hopen hno
  · exact .inl ⟨hopen, rfl⟩
  · exact .inr ⟨Bool.eq_false_of_not_eq_true hopen, rfl, fun h => absurd rfl h⟩
  all_goals
    refine .inr ⟨Bool.eq_false_of_not_eq_true hopen, rfl, fun _ hsame => hno (.inr (.inl ⟨?_, ?_⟩))⟩
    · exact fun hlong => hlong.2 (hsame ▸ hlong.1)
    · exact fun hshort => hshort.2 (hsame ▸ hshort.1)

/-- While no position is open, the stored side is that of the last bar. -/
def Tracks (s : MeanReversion) : Prop :=
  s.gate.positionOpen = false → s.lastSide = none ∨ s.lastSide = some s.gate.prevSide

theorem tracks_step {op : Op} (hop : s.Current op) : (s.step op).2.Tracks := by
  intro hopen
  match op with
  | .setPositionOpen true => cases hopen
  | .setPositionOpen false => exact hop
  | .bar close qty =>
    simp only [step] at hopen ⊢
    cases hvalue : (s.sma.update close).1 with
    | none => exact .inl rfl
    | some value =>
      simp only [hvalue] at hopen ⊢
      obtain ⟨hgate, heq⟩ | ⟨-, hside, -⟩ := tryEntry_cases s.gate qty close value
      · rw [heq, hgate] at hopen
        cases hopen
      · exact .inr (congrArg some hside.symm)

theorem Tracks.fresh (h : s.Tracks) : s.Fresh := by
  intro close qty side hentry hside hlast
  simp only [step] at hentry hside
  cases hvalue : (s.sma.update close).1 with
  | none =>
    rw [hvalue] at hentry
    exact hentry rfl
  | some value =>
    simp only [hvalue] at hentry hside
    obtain ⟨-, heq⟩ | ⟨hgate, -, hnew⟩ := tryEntry_cases s.gate qty close value
    · rw [heq] at hentry
      exact hentry rfl
    · have hprev := h hgate
      simp only [hlast, reduceCtorEq, false_or] at hprev
      exact hnew hentry (Option.some.inj (hside.trans hprev))

/-- **An entry needs a fresh cross** throughout a run in which the close never crosses the average
while a position is open that is then closed. -/
theorem fresh_of_current (period : Nat) (ops : List Op)
    (h : Along step Current { sma := { period } } ops) :
    ∀ s ∈ states step { sma := { period } } ops, s.Fresh :=
  fun s hs => (invariant (I := Tracks) (fun _ _ _ => tracks_step) (fun _ => .inl rfl) h s hs).fresh

theorem fresh_of_no_cross :
    (final step { sma := { period := 2 } }
      [.bar 10 1, .bar 8 1, .bar 7 1, .setPositionOpen false]).Fresh :=
  fresh_of_current 2 [.bar 10 1, .bar 8 1, .bar 7 1, .setPositionOpen false]
    ⟨trivial, trivial, trivial, .inr (by decide +kernel), trivial⟩ _ (final_mem_states _ _)

/-- A long below the average; the close crosses it, the position is closed, and the next close above
gives a short. -/
theorem cross_while_open_reused :
    let s :=
      final step { sma := { period := 2 } } [.bar 10 1, .bar 8 1, .bar 20 1, .setPositionOpen false]
    s.lastSide = some .above ∧ (s.step (.bar 30 1)).1 = some (.sell, 1, 30) ∧
      (s.step (.bar 30 1)).2.lastSide = some .above := by
  decide +kernel

end MeanReversion

end TrueTest
