import TrueTest.Analytics.Analytics
import TrueTest.Util.Machine

/-!
# Marks in the two threading modes

The engine marks its analytics through `on_event` in inline mode and through `on_mark` when the full
analytics run on a worker. `on_mark` moves the peak and the drawdown with every mark. `on_event`
does so for a bar, but `on_tick` only sets the equity. Fills and orders go through `on_event` in
both modes.

The two agree after every event of a sequence exactly if every tick finds the equity no higher than
the peak and no deeper than the maximal drawdown (`views_agree_iff`).
-/

namespace TrueTest

open Machine

/-- What the engine delivers to its analytics. -/
inductive AnalyticsEvent
  | market (m : MarketEvent)
  | tick (t : Tick)
  | order
  | fill (f : FillEvent)

namespace Analytics

variable (a : Analytics) (s : Analytics × Analytics)

def onEvent : AnalyticsEvent → Analytics
  | .market m => a.onMarket m
  | .tick t => a.onTick t
  | .order => a.onOrder
  | .fill f => a.onFill f

def onMark (symbol : String) (price : ℚ) : Analytics :=
  let a := a.mark symbol price
  let peak := max a.peakEquity a.lastEquity
  { a with
    peakEquity := peak
    maxDrawdown := if 0 < peak then max a.maxDrawdown ((peak - a.lastEquity) / peak)
      else a.maxDrawdown }

/-- The engine's analytics in threaded mode. -/
def onThreaded : AnalyticsEvent → Analytics
  | .market m => a.onMark m.symbol m.close
  | .tick t => a.onMark t.symbol t.price
  | .order => a.onOrder
  | .fill f => a.onFill f

structure DrawdownView where
  equity : ℚ
  peakEquity : ℚ
  drawdown : ℚ
  maxDrawdown : ℚ
deriving DecidableEq

def drawdownView : DrawdownView where
  equity := a.lastEquity
  peakEquity := a.peakEquity
  drawdown := if 0 < a.peakEquity then (a.peakEquity - a.lastEquity) / a.peakEquity else 0
  maxDrawdown := a.maxDrawdown

def equityAt (symbol : String) (price : ℚ) : ℚ :=
  a.cash + { a with
    openPositions :=
      a.openPositions.insert symbol { a.position symbol with lastPrice := price } }.positionValue

/-- An equity that moves neither the peak nor the maximal drawdown. -/
def Within (equity : ℚ) : Prop :=
  equity ≤ a.peakEquity ∧
    (0 < a.peakEquity → (a.peakEquity - equity) / a.peakEquity ≤ a.maxDrawdown)

/-! ## One event -/

section Event

variable (a : Analytics)

/-- A tick keeps the peak and the drawdown; a mark keeps them exactly if it stays within them. -/
theorem onTick_view_eq_iff (t : Tick) :
    (a.onTick t).drawdownView = (a.onMark t.symbol t.price).drawdownView ↔
      a.Within (a.equityAt t.symbol t.price) := by
  set e := a.equityAt t.symbol t.price
  have htick : (a.onTick t).drawdownView =
      ⟨e, a.peakEquity, if 0 < a.peakEquity then (a.peakEquity - e) / a.peakEquity else 0,
        a.maxDrawdown⟩ := rfl
  have hmark : (a.onMark t.symbol t.price).drawdownView = ⟨e, max a.peakEquity e,
        if 0 < max a.peakEquity e then (max a.peakEquity e - e) / max a.peakEquity e else 0,
        if 0 < max a.peakEquity e then
          max a.maxDrawdown ((max a.peakEquity e - e) / max a.peakEquity e)
        else a.maxDrawdown⟩ := rfl
  rw [htick, hmark, DrawdownView.mk.injEq]
  constructor
  · rintro ⟨-, hpeak, -, hdrawdown⟩
    rw [← hpeak] at hdrawdown
    refine ⟨max_eq_left_iff.1 hpeak.symm, fun hpos => ?_⟩
    rw [if_pos hpos] at hdrawdown
    exact max_eq_left_iff.1 hdrawdown.symm
  · rintro ⟨hpeak, hdrawdown⟩
    rw [max_eq_left hpeak]
    refine ⟨rfl, rfl, rfl, ?_⟩
    split
    · next hpos => exact (max_eq_left (hdrawdown hpos)).symm
    · rfl

end Event

/-! ## A sequence of events -/

/-- The engine's analytics in inline mode, and in threaded mode for the same events. -/
def bothStep (ev : AnalyticsEvent) : Unit × (Analytics × Analytics) :=
  ((), s.1.onEvent ev, s.2.onThreaded ev)

/-- The two differ in the peak and the drawdown at most. -/
def SameBooks : Prop :=
  s.2 = { s.1 with peakEquity := s.2.peakEquity, maxDrawdown := s.2.maxDrawdown }

/-- A tick moves neither the peak nor the drawdown. -/
def TickWithin : AnalyticsEvent → Prop
  | .tick t => s.1.Within (s.1.equityAt t.symbol t.price)
  | _ => True

theorem sameBooks_step (ev : AnalyticsEvent) (hs : SameBooks s) : SameBooks (bothStep s ev).2 := by
  obtain ⟨a, b⟩ := s
  simp only [SameBooks] at hs
  rw [SameBooks, bothStep, hs]
  cases ev with
  | fill f =>
    have hmet (p d : ℚ) :
        ({ a with peakEquity := p, maxDrawdown := d } : Analytics).met f = a.met f := rfl
    simp only [onEvent, onThreaded, onFill, hmet]
    split <;> rfl
  | _ => rfl

theorem eq_of_sameBooks {s : Analytics × Analytics} (hs : SameBooks s)
    (hview : s.1.drawdownView = s.2.drawdownView) : s.2 = s.1 := by
  have hpeak : s.1.peakEquity = s.2.peakEquity := congrArg DrawdownView.peakEquity hview
  have hdrawdown : s.1.maxDrawdown = s.2.maxDrawdown := congrArg DrawdownView.maxDrawdown hview
  rw [SameBooks, ← hpeak, ← hdrawdown] at hs
  exact hs

/-- **The two modes report the same** after every event of a sequence, exactly if no tick moves the
peak or the maximal drawdown. -/
theorem views_agree_iff (balance : ℚ) (events : List AnalyticsEvent) :
    (∀ s ∈ states bothStep (init balance, init balance) events,
        s.1.drawdownView = s.2.drawdownView) ↔
      Along bothStep TickWithin (init balance, init balance) events := by
  have hstep : ∀ s ev, SameBooks s → True → s.1.drawdownView = s.2.drawdownView →
      ((bothStep s ev).2.1.drawdownView = (bothStep s ev).2.2.drawdownView ↔ TickWithin s ev) := by
    intro s ev hs _ hview
    rw [bothStep, eq_of_sameBooks hs hview]
    cases ev with
    | market m | order | fill f => exact iff_of_true rfl trivial
    | tick t => exact onTick_view_eq_iff s.1 t
  exact forall_states_iff_along (fun s ev hs _ => sameBooks_step s ev hs) hstep rfl
    (fun _ _ => trivial) rfl

def boughtAt100 : FillEvent where
  timestamp := 0
  symbol := "X"
  orderId := 1
  side := .buy
  filledQuantity := 1
  fillPrice := 100
  commission := 0

/-- A tick above the peak: a mark moves the peak, the tick does not. -/
theorem views_differ_on_tick :
    ¬ ∀ s ∈ states bothStep (init 10000, init 10000)
        [.fill boughtAt100, .tick ⟨1, "X", 110, 1, .bid⟩],
      s.1.drawdownView = s.2.drawdownView := by
  decide +kernel

end Analytics

end TrueTest
