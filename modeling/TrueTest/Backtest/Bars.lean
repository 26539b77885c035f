import TrueTest.Backtest.Replay
import TrueTest.Backtest.Stops

/-!
# Three ways to take a bar

The steps of a bar are written out three times: in the loop of `run`, in `process_single_bar` for a
stream, and in `run_replay`. They differ in three details.

* `process_single_bar` sets the adapters' clocks first. Without a cancel in flight that makes no
  difference to the rest of the bar.
* `process_single_bar` looks at the stops again after the closing quotes. The second look finds
  nothing to do (`look_again`), but a halt by the fills of these quotes ends the bar there, and
  nowhere else.
* `run_replay` alone looks at the halt flag between the stops and the sweep of the resting orders.

So the three agree on a bar unless a fill halts the engine at one of these two places; `uniform`
says when.
-/

namespace TrueTest

open Machine Program Sim BookAdapter

namespace Backtest

variable {σ : Type} {cfg : BacktestConfig σ} {s t : Sim σ}

/-! ## The three paths -/

/-- The part of `process_single_bar` before the bar is logged: that of the loop, and after the
closing quotes another look at the stops. -/
def streamHead (cfg : EngineConfig) (m : MarketEvent) : M Bool := do
  if ← barHead cfg false m then
    checkPendingStops cfg m.open_ m.high m.low m.timestamp
    let halted ← call .halted
    return !halted
  else return false

section Paths

variable (cfg) (m : MarketEvent)

/-- One adapter of `advance_all`, with the order in which it goes through its cancels in flight. -/
def advanceAdapter (order : String → IterationOrder Nat) (ts : Int) (s : Sim σ)
    (symbol : String) : Sim σ :=
  match s.adapters.lookup symbol with
  | some a =>
    let called :=
      { a.state with book := a.detached.getD (s.bookOf symbol) }.advanceTime ts (order symbol)
    { s with
      adapters := s.adapters.insert symbol { a with
        state := { called with book := a.state.book }
        detached := a.detached.map fun _ => called.book }
      registry := if a.detached.isNone then s.registry.insert symbol called.book else s.registry }
  | none => s

/-- `advance_all` of the router. -/
def advanceAll (order : String → IterationOrder Nat) (ts : Int) (s : Sim σ) : Sim σ :=
  s.adapters.keys.foldl (advanceAdapter order ts) s

/-- The rest of a bar behind its head, with whether the head let analytics take the bar. -/
def finishBar (take : Sim σ → Sim σ) (r : Bool × Sim σ) : Bool × Sim σ :=
  (r.1, if r.1 then exec cfg (decideOnMarket cfg.engine cfg.strategies.length m) (take r.2)
    else r.2)

/-- An iteration of the loop of `run`. -/
def loopBar (s : Sim σ) : Bool × Sim σ :=
  finishBar cfg m (market m) ((barHead cfg.engine false m).run (handler cfg) s)

/-- The market case of `run_replay`, where the bar is not logged. -/
def replayBar (s : Sim σ) : Bool × Sim σ :=
  finishBar cfg m (fun s => { s with analytics := s.analytics.onMarket m })
    ((barHead cfg.engine true m).run (handler cfg) s)

def processSingleBar (order : String → IterationOrder Nat) (m : MarketEvent)
    (s : Sim σ) : Bool × Sim σ :=
  if s.engine.haltFlag then (false, s)
  else
    let flat := if s.engine.flattenRequest then
        exec cfg unwindPositions { s with engine := { s.engine with flattenRequest := false } }
      else s
    finishBar cfg m (market m)
      ((streamHead cfg.engine m).run (handler cfg) (advanceAll order m.timestamp flat))

/-! The state after each part of a bar, if the bar gets there. -/

def opened (s : Sim σ) : Sim σ := exec cfg (openBar cfg.engine m) s

def stopped (s : Sim σ) : Sim σ := exec cfg (stopBar cfg.engine m) (opened cfg m s)

def swept (s : Sim σ) : Sim σ :=
  exec cfg (sweepRestingLimits cfg.engine m.symbol m.low m.high m.timestamp) (stopped cfg m s)

def quoted (s : Sim σ) : Sim σ :=
  exec cfg (replenish cfg.engine m.symbol m.close true m.timestamp) (swept cfg m s)

/-- Whether no halt comes where the paths differ: by a stop's fill with a resting order still to
sweep, or by a fill of the closing quotes. -/
def uniform (s : Sim σ) : Bool :=
  (opened cfg m s).engine.haltFlag ||
    if (stopped cfg m s).engine.haltFlag then
      ((stopped cfg m s).sweep cfg m.symbol m.low m.high m.timestamp).1.isEmpty
    else (swept cfg m s).engine.haltFlag || !(quoted cfg m s).engine.haltFlag

end Paths

/-- The same bar for analytics, the same books, and everything else the same but the adapters' own
records and the log. -/
structure Agrees (r r₁ : Bool × Sim σ) : Prop where
  taken : r.1 = r₁.1
  rest : r₁.2 = r.2.shelve r₁.2.registry r₁.2.adapters r₁.2.log
  book : ∀ symbol, r₁.2.bookOf symbol = r.2.bookOf symbol

theorem Agrees.refl (r : Bool × Sim σ) : Agrees r r := ⟨rfl, rfl, fun _ => rfl⟩

theorem Agrees.engine {r r₁ : Bool × Sim σ} (h : Agrees r r₁) : r₁.2.engine = r.2.engine := by
  rw [h.rest]
  rfl

/-! ### In the loops -/

variable (m : MarketEvent) (order : String → IterationOrder Nat) {α : Type} (ts : Int)
  (symbol : String) (p : M α) (o : Op)

theorem loopBar_snd (s : Sim σ) : (loopBar cfg m s).2 = runBar cfg false m s := rfl

theorem log_eq_none_closed (s : Sim σ) (h : s.log = none) : (handler cfg o s).2.log = none := by
  by_cases hhalt : o = .triggerHalt
  · subst hhalt
    exact h
  · obtain ⟨fs, hstep⟩ := handler_step cfg s o hhalt
    change s.books.log = none at h
    change (handler cfg o s).2.books.log = none
    have hentry := hstep.entry
    generalize (handler cfg o s).2.books = b at hentry ⊢
    cases hentry with
    | none => exact h
    | _ => exact Option.map_eq_none_iff.2 h

/-- Without a logger the replay's bar is an iteration with the additional look at the halt flag. -/
theorem replayBar_snd (s : Sim σ) (h : s.log = none) :
    (replayBar cfg m s).2 = runBar cfg true m s := by
  have hlog : ((barHead cfg.engine true m).run (handler cfg) s).2.log = none :=
    run_preserves log_eq_none_closed _ h
  have htake :
      ∀ x : Sim σ, x.log = none → market m x = { x with analytics := x.analytics.onMarket m } := by
    intro x hx
    cases x
    cases hx
    rfl
  rw [replayBar, finishBar, runBar, htake _ hlog]

/-! ### Agreement -/

theorem Agrees.of_alikes {r r₁ : Bool × Sim σ} (h : Alikes r r₁) : Agrees r r₁ := by
  obtain ⟨b, s⟩ := r
  obtain ⟨b₁, t⟩ := r₁
  obtain ⟨hanswer, hstate⟩ := h
  cases hstate with
  | shelve registry adapters log book adapter => exact ⟨hanswer, rfl, book⟩

theorem finishBar_alikes {take take₁ : Sim σ → Sim σ}
    (htake : ∀ s t, s.Alike t → (take s).Alike (take₁ t)) {r r₁ : Bool × Sim σ}
    (h : Alikes r r₁) : Alikes (finishBar cfg m take r) (finishBar cfg m take₁ r₁) := by
  rw [finishBar, finishBar, ← h.answer]
  refine ⟨rfl, ?_⟩
  split
  · exact (run_alike _ (htake _ _ h.state)).state
  · exact h.state

theorem market_alike (h : s.Alike t) : (market m s).Alike (market m t) := by
  cases h with
  | shelve registry adapters log book adapter => exact .shelve registry adapters _ book adapter

/-- Whether the bar is logged makes no difference. -/
theorem market_alike_unlogged (h : s.Alike t) :
    (market m s).Alike { t with analytics := t.analytics.onMarket m } := by
  cases h with
  | shelve registry adapters log book adapter => exact .shelve registry adapters log book adapter

/-! ### Clocks -/

def NoCancelInFlight (s : Sim σ) : Prop :=
  ∀ x ∈ s.adapters.entries, x.2.state.pendingCancels.keys = []

instance (s : Sim σ) : Decidable (NoCancelInFlight s) :=
  inferInstanceAs (Decidable (∀ x ∈ s.adapters.entries, x.2.state.pendingCancels.keys = []))

theorem NoCancelInFlight.lookup (h : NoCancelInFlight s) {symbol : String} {a : BookAdapter}
    (ha : s.adapters.lookup symbol = some a) : a.state.pendingCancels.keys = [] :=
  h ⟨symbol, a⟩ (AList.mem_lookup_iff.1 ha)

theorem advanceAdapter_alike (hnone : NoCancelInFlight s)
    (h : s.Alike t) : s.Alike (advanceAdapter order ts t symbol) := by
  cases h with
  | shelve registry adapters log book adapter =>
    obtain ⟨now, hnow⟩ := adapter symbol
    have hadapters : (s.shelve registry adapters log).adapters = adapters := rfl
    rw [advanceAdapter, hadapters, hnow]
    cases ha : s.adapters.lookup symbol with
    | none => exact .shelve registry adapters log book adapter
    | some a =>
      have hkeys : a.state.pendingCancels.keys = [] := hnone.lookup ha
      have hadvance (b : Orderbook) :
          { (a.atTime now).state with book := b }.advanceTime ts (order symbol) =
            { a.state with book := b }.atTime ts :=
        LocalBook.advanceTime_eq_atTime _ ts (order symbol) hkeys
      dsimp only [Option.map_some]
      rw [hadvance]
      refine .shelve _ _ log (fun other => ?_) fun other => ?_
      · cases hdetached : a.detached with
        | none =>
          simp only [atTime, hdetached]
          exact (getD_lookup_insert_self rfl other).trans (book other)
        | some own =>
          simp only [atTime, hdetached]
          exact book other
      · by_cases hother : other = symbol
        · rw [hother, ha]
          refine ⟨ts, (AList.lookup_insert adapters).trans ?_⟩
          cases hdetached : a.detached with
          | none =>
            simp only [atTime, LocalBook.atTime, hdetached, Option.map_some, Option.map_none]
          | some own =>
            simp only [atTime, LocalBook.atTime, hdetached, Option.map_some, Option.getD_some]
        · rw [AList.lookup_insert_ne hother]
          exact adapter other

theorem advanceAll_alike (h : NoCancelInFlight s) : s.Alike (advanceAll order ts s) :=
  List.foldlRecOn (motive := s.Alike) _ _ (.refl s) fun _ ht symbol _ =>
    advanceAdapter_alike order ts symbol h ht

/-! ### Heads -/

theorem run_halted (s : Sim σ) : (call .halted).run (handler cfg) s = (s.engine.haltFlag, s) := rfl

theorem run_streamHead (s : Sim σ) : (streamHead cfg.engine m).run (handler cfg) s =
      let r := (barHead cfg.engine false m).run (handler cfg) s
      let looked := exec cfg (checkPendingStops cfg.engine m.open_ m.high m.low m.timestamp) r.2
      if r.1 then (!looked.engine.haltFlag, looked) else (false, r.2) := by
  rw [streamHead, run_bind, run_ite, run_bind, run_bind, run_pure, run_pure, run_halted]
  rfl

theorem run_barHead_eq (checksHalt : Bool) (m : MarketEvent) (s : Sim σ) :
    (barHead cfg.engine checksHalt m).run (handler cfg) s =
      if (opened cfg m s).engine.haltFlag then (false, opened cfg m s)
      else if checksHalt ∧ (stopped cfg m s).engine.haltFlag then (false, stopped cfg m s)
      else if (swept cfg m s).engine.haltFlag then (false, swept cfg m s)
      else (true, quoted cfg m s) := by
  rw [quoted, swept, run_barHead]
  dsimp only
  rw [run_sweepBar, stopped, opened]

theorem exec_halted (h : s.engine.haltFlag = true) : (exec cfg p s).engine.haltFlag = true :=
  (halted_closed cfg).exec p h

/-- The second look finds nothing to do, since the closing quotes leave the stops. -/
theorem look_again (s : Sim σ) (h : (stopped cfg m s).engine.haltFlag = false) :
    exec cfg (checkPendingStops cfg.engine m.open_ m.high m.low m.timestamp) (quoted cfg m s) =
      quoted cfg m s := by
  have hswept : (swept cfg m s).engine.pendingStops = (stopped cfg m s).engine.pendingStops := by
    rw [swept]
    exact exec_pendingStops ((walk_plain cfg.engine).sweepRestingLimits _ _ _ _) (stopped cfg m s)
  have hquoted : (quoted cfg m s).engine.pendingStops = (swept cfg m s).engine.pendingStops := by
    rw [quoted]
    exact exec_pendingStops ((walk_plain cfg.engine).replenish _ _ _ _) (swept cfg m s)
  have hstops : Unreached m.high m.low (quoted cfg m s).engine.pendingStops := by
    rw [hquoted, hswept]
    rw [stopped] at h ⊢
    exact stopBar_unreached m (opened cfg m s) h
  exact exec_checkPendingStops_unreached m.open_ m.high m.low m.timestamp (quoted cfg m s) hstops

/-! ### Fills -/

theorem handler_fills (s : Sim σ) : ∃ fs, (handler cfg o s).2.fills = s.fills ++ fs := by
  by_cases hhalt : o = .triggerHalt
  · subst hhalt
    have hact : Engine.Kept [] { s.engine with haltFlag := true } s.engine.triggerHalt :=
      .act _ .triggerHalt rfl
    exact ⟨[], hact.fills⟩
  · obtain ⟨fs, hstep⟩ := handler_step cfg s o hhalt
    exact ⟨fs, hstep.engine.fills⟩

/-- No program takes a fill back. -/
theorem length_fills_le_exec (s : Sim σ) : s.fills.length ≤ (exec cfg p s).fills.length := by
  have hop (o : Op) (t : Sim σ) (ht : s.fills.length ≤ t.fills.length) :
      s.fills.length ≤ (handler cfg o t).2.fills.length := by
    obtain ⟨fs, hfs⟩ : ∃ fs, (handler cfg o t).2.fills = t.fills ++ fs := handler_fills o t
    rw [hfs, List.length_append]
    exact le_add_right ht
  exact run_preserves hop p le_rfl

theorem length_fills_lt_handleFills (f : FillEvent) (fs : List FillEvent) (s : Sim σ) :
    s.fills.length < (exec cfg (handleFills cfg.engine (f :: fs)) s).fills.length := by
  have hfill : (s.applyFill cfg f).fills = s.fills ++ [s.engine.stampFillAttribution f] :=
    (Engine.Kept.applyFill s.engine f unplaced cfg.orders.intents _).fills
  have hrest : (s.applyFill cfg f).fills.length ≤ (exec cfg (do
      let action : RiskAction ← call (.checkPostFill f)
      if action = .halt then
        riskHalt cfg.engine
        return false
      else handleFills cfg.engine fs) (s.applyFill cfg f)).fills.length := length_fills_le_exec _ _
  rw [hfill, List.length_append] at hrest
  exact hrest

/-- A sweep that fills nothing leaves the book. -/
theorem sweepRestingRange_book {bookCfg : LocalBookConfig} (a : LocalBook) (symbol : String)
    (low high : ℚ) (ts : Int) (order : IterationOrder Nat)
    (h : (a.sweepRestingRange bookCfg symbol low high ts order).pendingFills = []) :
    (a.sweepRestingRange bookCfg symbol low high ts order).book = a.book := by
  have hfills :=
    LocalBook.sweepRestingRange_keeps (I := fun b => b.pendingFills ≠ [] ∨ b.book = a.book)
      bookCfg ts order symbol low high (.inr rfl) (fun _ _ _ hb _ _ => hb) fun _ _ _ _ _ _ _ =>
        .inl (List.append_ne_nil_of_right_ne_nil _ (List.cons_ne_nil _ _))
  exact hfills.resolve_left fun hne => hne h

theorem exec_sweepRestingLimits (low high : ℚ) (ts : Int) (s : Sim σ) :
    exec cfg (sweepRestingLimits cfg.engine symbol low high ts) s =
      exec cfg (handleFills cfg.engine (s.sweep cfg symbol low high ts).1)
        (s.sweep cfg symbol low high ts).2 := by
  rw [exec, sweepRestingLimits, run_bind, run_bind]
  rfl

/-- A sweep that hands out no fill leaves everything but the adapter's own records. -/
theorem agrees_sweep (s : Sim σ) (h : (s.sweep cfg m.symbol m.low m.high m.timestamp).1 = []) :
    Agrees (false, exec cfg (sweepRestingLimits cfg.engine m.symbol m.low m.high m.timestamp) s)
      (false, s) := by
  rw [exec_sweepRestingLimits, h]
  rw [sweep, callCached] at h ⊢
  cases ha : s.adapters.lookup m.symbol with
  | none => exact ⟨rfl, rfl, fun _ => rfl⟩
  | some a =>
    rw [ha] at h
    have hbook := sweepRestingRange_book _ _ _ _ _ _ h
    refine ⟨rfl, rfl, fun symbol => ?_⟩
    cases hdetached : a.detached with
    | some own =>
      simp only [callAdapter, hdetached]
      rfl
    | none =>
      rw [hdetached] at hbook
      simp only [callAdapter, hdetached]
      exact (getD_lookup_insert_self hbook symbol).symm

/-- One that does hand out a fill applies it. -/
theorem agrees_sweep_iff (s : Sim σ) :
    Agrees (false, exec cfg (sweepRestingLimits cfg.engine m.symbol m.low m.high m.timestamp) s)
      (false, s) ↔
      (s.sweep cfg m.symbol m.low m.high m.timestamp).1 = [] := by
  refine ⟨fun h => ?_, agrees_sweep m s⟩
  cases hfills : (s.sweep cfg m.symbol m.low m.high m.timestamp).1 with
  | nil => rfl
  | cons f fs =>
    have hkept : (s.sweep cfg m.symbol m.low m.high m.timestamp).2.engine = s.engine :=
      callCached_engine _ _ _
    have hmore : (s.sweep cfg m.symbol m.low m.high m.timestamp).2.fills.length <
        (exec cfg (handleFills cfg.engine (f :: fs))
          (s.sweep cfg m.symbol m.low m.high m.timestamp).2).fills.length :=
      length_fills_lt_handleFills f fs _
    rw [← hfills, ← exec_sweepRestingLimits, fills, fills, hkept, h.engine] at hmore
    exact absurd hmore (lt_irrefl _)

/-! ### The theorem -/

/-- Behind a head that does not let the bar through, nothing happens. -/
theorem finishBar_false (take : Sim σ → Sim σ) (s : Sim σ) :
    finishBar cfg m take (false, s) = (false, s) := rfl

theorem processSingleBar_alikes (m : MarketEvent) (hrunning : s.engine.haltFlag = false)
    (hflatten : s.engine.flattenRequest = false) (hcancels : NoCancelInFlight s) :
    Alikes (finishBar cfg m (market m) ((streamHead cfg.engine m).run (handler cfg) s))
      (processSingleBar cfg order m s) := by
  have hbar : processSingleBar cfg order m s = finishBar cfg m (market m)
      ((streamHead cfg.engine m).run (handler cfg) (advanceAll order m.timestamp s)) := by
    rw [processSingleBar, hrunning, hflatten]
    rfl
  rw [hbar]
  exact finishBar_alikes m (fun _ _ => market_alike m)
    (run_alike _ (advanceAll_alike order m.timestamp hcancels))

theorem swept_halted (s : Sim σ) (h : (stopped cfg m s).engine.haltFlag = true) :
    (swept cfg m s).engine.haltFlag = true := by
  rw [swept]
  exact exec_halted _ h

/-- If the closing quotes do not halt the engine, the stream's head is the loop's. -/
theorem run_streamHead_eq (s : Sim σ)
    (h : (swept cfg m s).engine.haltFlag = false → (quoted cfg m s).engine.haltFlag = false) :
    (streamHead cfg.engine m).run (handler cfg) s =
      (barHead cfg.engine false m).run (handler cfg) s := by
  rw [run_streamHead, run_barHead_eq]
  cases hopened : (opened cfg m s).engine.haltFlag with
  | true => rfl
  | false =>
    cases hswept : (swept cfg m s).engine.haltFlag with
    | true => simp only [Bool.false_eq_true, false_and, ↓reduceIte]
    | false =>
      have hstopped : (stopped cfg m s).engine.haltFlag = false :=
        Bool.eq_false_of_not_eq_true fun hhalt =>
          Bool.noConfusion (hswept.symm.trans (swept_halted m s hhalt))
      simp only [Bool.false_eq_true, false_and, ↓reduceIte, look_again m s hstopped, h hswept,
        Bool.not_false]

/-- Otherwise the stream does not let analytics take the bar. -/
theorem run_streamHead_halted (s : Sim σ) (hopened : (opened cfg m s).engine.haltFlag = false)
    (hswept : (swept cfg m s).engine.haltFlag = false)
    (h : (quoted cfg m s).engine.haltFlag = true) :
    ((streamHead cfg.engine m).run (handler cfg) s).1 = false := by
  rw [run_streamHead, run_barHead_eq]
  simp only [hopened, hswept, Bool.false_eq_true, false_and, ↓reduceIte, exec_halted _ h,
    Bool.not_true]

theorem agrees_processSingleBar_iff (m : MarketEvent) (s : Sim σ)
    (hrunning : s.engine.haltFlag = false) (hflatten : s.engine.flattenRequest = false)
    (hcancels : NoCancelInFlight s) (hopened : (opened cfg m s).engine.haltFlag = false) :
    Agrees (loopBar cfg m s) (processSingleBar cfg order m s) ↔
      ((swept cfg m s).engine.haltFlag = false → (quoted cfg m s).engine.haltFlag = false) := by
  have hstream : Alikes (finishBar cfg m (market m) ((streamHead cfg.engine m).run (handler cfg) s))
      (processSingleBar cfg order m s) := processSingleBar_alikes order m hrunning hflatten hcancels
  constructor
  · intro h hswept
    refine Bool.eq_false_of_not_eq_true fun hquoted => ?_
    have hloop : (loopBar cfg m s).1 = true := by
      rw [loopBar, finishBar, run_barHead_eq]
      simp only [hopened, hswept, Bool.false_eq_true, false_and, ↓reduceIte]
    have hsingle : (processSingleBar cfg order m s).1 = false :=
      hstream.answer.symm.trans (run_streamHead_halted m s hopened hswept hquoted)
    exact Bool.noConfusion (hloop.symm.trans (h.taken.trans hsingle))
  · intro h
    rw [run_streamHead_eq m s h] at hstream
    exact .of_alikes hstream

theorem agrees_replayBar_iff (s : Sim σ) (hopened : (opened cfg m s).engine.haltFlag = false) :
    Agrees (loopBar cfg m s) (replayBar cfg m s) ↔
      ((stopped cfg m s).engine.haltFlag = true →
        ((stopped cfg m s).sweep cfg m.symbol m.low m.high m.timestamp).1 = []) := by
  cases hstopped : (stopped cfg m s).engine.haltFlag with
  | false =>
    refine iff_of_true (.of_alikes ?_) nofun
    have hhead : (barHead cfg.engine true m).run (handler cfg) s =
        (barHead cfg.engine false m).run (handler cfg) s := by
      simp only [run_barHead_eq, hstopped, Bool.false_eq_true, and_false]
    rw [loopBar, replayBar, hhead]
    exact finishBar_alikes m (fun _ _ => market_alike_unlogged m) ⟨rfl, .refl _⟩
  | true =>
    have hloop : (barHead cfg.engine false m).run (handler cfg) s = (false, swept cfg m s) := by
      simp only [run_barHead_eq, hopened, swept_halted m s hstopped, Bool.false_eq_true, false_and,
        ↓reduceIte]
    have hreplay : (barHead cfg.engine true m).run (handler cfg) s = (false, stopped cfg m s) := by
      simp only [run_barHead_eq, hopened, hstopped, Bool.false_eq_true, and_self, ↓reduceIte]
    rw [loopBar, replayBar, hloop, hreplay, finishBar_false, finishBar_false, swept,
      agrees_sweep_iff]
    exact ⟨fun h _ => h, fun h => h rfl⟩

/-- **The three ways to take a bar agree exactly if no halt comes where they differ.** -/
theorem bar_paths_agree_iff (order : String → IterationOrder Nat) (m : MarketEvent) (s : Sim σ)
    (hrunning : s.engine.haltFlag = false) (hflatten : s.engine.flattenRequest = false)
    (hcancels : NoCancelInFlight s) :
    Agrees (loopBar cfg m s) (processSingleBar cfg order m s) ∧
      Agrees (loopBar cfg m s) (replayBar cfg m s) ↔ uniform cfg m s = true := by
  cases hopened : (opened cfg m s).engine.haltFlag with
  | true =>
    have hhead (checksHalt : Bool) : (barHead cfg.engine checksHalt m).run (handler cfg) s =
        (false, opened cfg m s) := by rw [run_barHead_eq, if_pos hopened]
    have hstream : Alikes _ (processSingleBar cfg order m s) :=
      processSingleBar_alikes order m hrunning hflatten hcancels
    rw [run_streamHead, hhead] at hstream
    refine iff_of_true ⟨?_, ?_⟩ ?_
    · rw [loopBar, hhead]
      exact .of_alikes hstream
    · rw [loopBar, replayBar, hhead, hhead, finishBar_false, finishBar_false]
      exact .refl _
    · rw [uniform, hopened, Bool.true_or]
  | false =>
    rw [agrees_processSingleBar_iff order m s hrunning hflatten hcancels hopened,
      agrees_replayBar_iff m s hopened, uniform, hopened, Bool.false_or]
    cases hstopped : (stopped cfg m s).engine.haltFlag with
    | true => simp [swept_halted m s hstopped]
    | false => simp [imp_iff_not_or]

/-! ### Runs -/

/-- A buy stop at 101 on the first bar, a bid at 90 on the second. -/
def stopThenBid : Strategy Nat := .ofMarket fun m n =>
  (match n with
    | 0 => some (.new m.timestamp 0 m.symbol .stop .buy 1 101 .gtc 101)
    | 1 => some (.new m.timestamp 0 m.symbol .limit .buy 1 90 .gtc 0)
    | _ => none, n + 1)

/-- The first fill halts the engine. -/
def oneTrade : BacktestConfig Nat := { plain stopThenBid with limits := { maxTradesPerHour := 1 } }

/-- After two bars the stop is pending and the bid deferred. -/
def afterTwoBars : Sim Nat :=
  runBar oneTrade false (flatBar 60 100)
    (runBar oneTrade false (flatBar 0 100) (.init oneTrade 1 1 [0]))

/-- The bid comes to rest, and no halt follows. -/
theorem bar_paths_agree_on_flatBar :
    afterTwoBars.engine.haltFlag = false ∧
      Agrees (loopBar oneTrade (flatBar 120 100) afterTwoBars)
        (processSingleBar oneTrade (fun _ => .id) (flatBar 120 100) afterTwoBars) ∧
      Agrees (loopBar oneTrade (flatBar 120 100) afterTwoBars)
        (replayBar oneTrade (flatBar 120 100) afterTwoBars) :=
  ⟨by decide +kernel, (bar_paths_agree_iff (fun _ => .id) (flatBar 120 100) afterTwoBars
    (by decide +kernel) (by decide +kernel) (by decide +kernel)).2 (by decide +kernel)⟩

/-- A bar that reaches both orders. The fill of the stop halts the engine; the loop still fills the
bid, the replay does not. -/
theorem not_agrees_replayBar_of_halting_stop :
    let wideBar : MarketEvent := ⟨120, "X", 100, 102, 89, 100, 1⟩
    afterTwoBars.engine.haltFlag = false ∧ afterTwoBars.engine.flattenRequest = false ∧
      NoCancelInFlight afterTwoBars ∧
      (loopBar oneTrade wideBar afterTwoBars).2.fills.map FillEvent.orderId = [3, 6] ∧
      (replayBar oneTrade wideBar afterTwoBars).2.fills.map FillEvent.orderId = [3] ∧
      ¬ Agrees (loopBar oneTrade wideBar afterTwoBars)
        (replayBar oneTrade wideBar afterTwoBars) := by
  intro wideBar
  have hloop : (loopBar oneTrade wideBar afterTwoBars).2.fills.map FillEvent.orderId = [3, 6] := by
    decide +kernel
  have hreplay : (replayBar oneTrade wideBar afterTwoBars).2.fills.map FillEvent.orderId = [3] := by
    decide +kernel
  refine ⟨by decide +kernel, by decide +kernel, by decide +kernel, hloop, hreplay, fun h => ?_⟩
  rw [fills, h.engine, ← fills, hloop] at hreplay
  exact absurd hreplay (by decide)

end Backtest

end TrueTest
