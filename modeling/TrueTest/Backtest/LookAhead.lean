import TrueTest.Backtest.Bars
import TrueTest.Exits.LookAhead

/-!
# A bar with several strategies

`process_single_bar` evaluates the exits before the primary strategy and again before each
additional one, always with the same bar. Nothing else in it evaluates them, so the exit manager is
shown the bar at most once for each strategy, whatever the orders, fills and halts in between
(`shown_processSingleBar`). With one strategy no exit looks ahead. With two, an intent that the bar
exposes fires at the second showing.
-/

namespace TrueTest

open Machine Program ExitManager List

/-! ## What the exit manager is shown -/

namespace Engine

variable {b : MarketEvent} {k l n : Nat} {e e₁ e₂ : Engine}

/-- The engine goes on, and the exit manager is shown the bar at most `k` times and nothing else. -/
def Shown (b : MarketEvent) (k : Nat) (e e₁ : Engine) : Prop :=
  ∃ new, Steps e e₁ new ∧ ExitManager.Passes b k (exitCalls new)

theorem passes_nil : ExitManager.Passes b k [] := ⟨fun _ h => absurd h not_mem_nil, Nat.zero_le k⟩

theorem Shown.trans (h : Shown b k e e₁) (h' : Shown b l e₁ e₂) (hn : k + l ≤ n) :
    Shown b n e e₂ := by
  obtain ⟨as, has, hpasses⟩ := h
  obtain ⟨bs, hbs, hpasses'⟩ := h'
  refine ⟨as ++ bs, has.trans hbs, ?_⟩
  rw [exitCalls, filterMap_append]
  refine ⟨forall_mem_append.2 ⟨hpasses.only, hpasses'.only⟩, ?_⟩
  rw [countP_append]
  exact (Nat.add_le_add hpasses.count hpasses'.count).trans hn

theorem Shown.of_eq (hacts : e₁.acts = e.acts) (hexits : e₁.exitManager = e.exitManager)
    (hflag : e₁.haltFlag = e.haltFlag) (hconfig : e₁.config = e.config) : Shown b k e e₁ :=
  ⟨[], .of_eq hacts hexits hflag hconfig, passes_nil⟩

theorem shown_act {a : Act} (hcall : a.call? = none) (hhalt : a.isHalt = false) :
    Shown b k e (e.act a) := by
  refine ⟨[a], steps_act hcall hhalt, ?_⟩
  rw [exitCalls, filterMap_cons_none hcall]
  exact passes_nil

theorem shown_callExits {c : ExitManager.Op} (hc : c.evaluates = false) :
    Shown b k e (e.callExits c).2 := by
  refine ⟨_, steps_callExits c, forall_mem_singleton.2 fun h => ?_, ?_⟩
  · rw [hc] at h
    cases h
  · have hpass : ¬ c.isPass b = true := by
      rw [isPass_iff]
      rintro ⟨order, rfl⟩
      cases hc
    exact (countP_cons_of_neg hpass).trans_le (Nat.zero_le k)

theorem shown_still : Still (fun _ _ => True) (Shown b 0) where
  refl _ := .of_eq rfl rfl rfl rfl
  trans h h' := h.trans h' le_rfl
  frame hacts hexits hflag hconfig _ _ _ := .of_eq hacts hexits hflag hconfig
  act e a ha _ _ := by cases a <;> first | exact shown_act rfl rfl | cases ha
  halt _ := ⟨_, steps_triggerHalt, passes_nil⟩
  call _ _ _ hc := shown_callExits hc

end Engine

namespace Backtest

open Engine (Shown shown_still shown_act shown_callExits)

variable {σ : Type} {cfg : BacktestConfig σ} {b : MarketEvent} {s : Sim σ} {k l n : Nat}
  {α β : Type} {p : M α} {f : α → M β}

/-- From every state the program shows the bar at most `k` times, and nothing else. -/
def Shows (cfg : BacktestConfig σ) (b : MarketEvent) (k : Nat) (p : M α) : Prop :=
  ∀ s : Sim σ, Shown b k s.engine (p.run (handler cfg) s).2.engine

theorem Shows.bind (hp : Shows cfg b k p) (hf : ∀ a, Shows cfg b l (f a))
    (hn : k + l ≤ n) : Shows cfg b n (p >>= f) := by
  intro s
  rw [run_bind]
  exact (hp s).trans (hf _ _) hn

theorem Shows.ite {c : Prop} [Decidable c] {q : M α} (hp : Shows cfg b k p) (hq : Shows cfg b k q) :
    Shows cfg b k (if c then p else q) := by
  split
  · exact hp
  · exact hq

theorem shows_pure (a : α) : Shows cfg b k (pure a) := fun _ => .of_eq rfl rfl rfl rfl

theorem shows_exitFree (hp : ExitFree p) : Shows cfg b 0 p := by
  intro s
  refine run_preserves_of_calls (I := fun t : Sim σ => Shown b 0 s.engine t.engine)
    (fun o t ho ht => shown_still.trans ht ?_) p hp (shown_still.refl _)
  by_cases hstops : o.setsStops = true
  · cases o with
    | setPendingStops stops => exact .of_eq rfl rfl rfl rfl
    | _ => cases hstops
  · exact engine_handler shown_still (fun _ _ => shown_act) (fun _ _ => shown_callExits)
      (fun _ _ => .of_eq rfl rfl rfl rfl) t o ⟨Bool.eq_false_of_not_eq_true hstops, ho⟩

/-- What evaluates no exits may come first. -/
theorem Shows.after (hp : ExitFree p) (hf : ∀ a, Shows cfg b k (f a)) :
    Shows cfg b k (p >>= f) := (shows_exitFree hp).bind hf (zero_add k).le

variable (e : EngineConfig) (order : String → IterationOrder Nat)

theorem shows_evaluateExits :
    Shows cfg b 1 (evaluateExits e (barTrigger b) b.symbol b.timestamp) := by
  have hexits : Shows cfg b 1 (call (.exits (barTrigger b) b.symbol b.timestamp)) := fun s =>
    ⟨_, Engine.steps_callExits _, forall_mem_singleton.2 fun _ => isPass_iff.2 ⟨_, rfl⟩,
     countP_le_length⟩
  refine hexits.bind (fun closes => shows_exitFree ?_) le_rfl
  exact (walk_exitFree e).routeCloses (fun _ => .op rfl) _ closes

theorem shows_routeStrategy (i : Nat) (ts : Int) (order : Option OrderEvent) :
    Shows cfg b 0 (routeStrategy e i ts order) :=
  shows_exitFree ((walk_exitFree e).routeStrategy (fun _ => .op rfl) i ts order)

theorem shows_dispatchExtras (i n : Nat) : Shows cfg b n (dispatchExtras e (barTrigger b) b.symbol
    b.timestamp (fun i => call (.onMarket i b)) i n) := by
  induction n generalizing i with
  | zero => exact shows_pure ()
  | succ n ih =>
    refine .after (.op rfl) fun halted => .ite (shows_pure ()) ?_
    refine (shows_evaluateExits e).bind (fun ok => .ite ?_ (shows_pure ())) (Nat.add_comm 1 n).le
    refine .after (.op rfl) fun order => ?_
    exact (shows_routeStrategy e i _ order).bind (fun _ => ih _) (zero_add n).le

theorem shows_decideOnMarket (count : Nat) :
    Shows cfg b (1 + (count - 1)) (decideOnMarket e count b) := by
  refine (shows_evaluateExits e).bind (fun ok => .ite ?_ (shows_pure false)) le_rfl
  refine .after (.op rfl) fun halted => .ite (shows_pure true) (.after (.op rfl) fun order => ?_)
  refine (shows_routeStrategy e 0 _ order).bind (fun _ => .after (.op rfl) fun halted => ?_)
    (zero_add _).le
  exact .ite (shows_pure false) ((shows_dispatchExtras e 1 _).bind
    (fun _ => shows_pure true) (add_zero _).le)

theorem advanceAll_engine (ts : Int) (s : Sim σ) : (advanceAll order ts s).engine = s.engine := by
  refine foldlRecOn s.adapters.keys (advanceAdapter order ts)
    (motive := fun t : Sim σ => t.engine = s.engine) rfl fun t ht symbol _ => ?_
  rw [advanceAdapter]
  split <;> exact ht

theorem shown_finishBar {r : Bool × Sim σ} (hhead : Shown b 0 s.engine r.2.engine) :
    Shown b (1 + cfg.strategies.tail.length) s.engine (finishBar cfg b (market b) r).2.engine := by
  obtain ⟨taken, t⟩ := r
  rw [length_tail]
  cases taken with
  | false => exact hhead.trans (.of_eq rfl rfl rfl rfl) (zero_add _).le
  | true => exact hhead.trans (shows_decideOnMarket cfg.engine _ (market b t)) (zero_add _).le

/-- **A bar is shown at most once for each strategy.** -/
theorem shown_processSingleBar (s : Sim σ) :
    Shown b (1 + cfg.strategies.tail.length) s.engine
      (processSingleBar cfg order b s).2.engine := by
  have hfree : ExitFree (streamHead cfg.engine b) := by
    have w := walk_exitFree cfg.engine
    have hlook := w.checkPendingStops (fun _ => .op rfl) b.open_ b.high b.low b.timestamp
    exact w.bind (w.barHead (fun _ => .op rfl) _ b) fun ok => w.ite
      (w.bind hlook fun _ => w.bind (.op rfl) fun halted => w.pure _) (w.pure false)
  have hhead (t : Sim σ) (ht : Shown b 0 s.engine t.engine) : Shown b 0 s.engine
      ((streamHead cfg.engine b).run (handler cfg) (advanceAll order b.timestamp t)).2.engine := by
    rw [← advanceAll_engine order b.timestamp t] at ht
    exact shown_still.trans ht (shows_exitFree hfree _)
  have hunwind (t : Sim σ) (ht : Shown b 0 s.engine t.engine) :
      Shown b 0 s.engine (exec cfg unwindPositions t).engine :=
    shown_still.trans ht (shows_exitFree (exitFree_of_plain calls_unwindPositions) t)
  rw [processSingleBar]
  split
  · exact .of_eq rfl rfl rfl rfl
  · refine shown_finishBar (hhead _ ?_)
    split
    · exact hunwind _ (.of_eq rfl rfl rfl rfl)
    · exact shown_still.refl _

/-! ## A paused engine -/

/-- The call that shows the bar. -/
def passOf (cfg : BacktestConfig σ) (b : MarketEvent) : ExitManager.Op :=
  (barTrigger b).call b.symbol b.timestamp cfg.orders.armed

/-- The state when the bar has been shown once more. -/
def passed (cfg : BacktestConfig σ) (b : MarketEvent) (s : Sim σ) : Sim σ :=
  { s with engine := (s.engine.callExits (passOf cfg b)).2 }

variable {e}

/-- Closes are not routed while the engine is paused. -/
theorem run_evaluateExits_paused (hflag : s.engine.haltFlag = false)
    (hpause : s.engine.pauseAll = true) :
    (evaluateExits e (barTrigger b) b.symbol b.timestamp).run (handler cfg) s =
      (true, passed cfg b s) := by
  have hcloses (t : Sim σ) (hflag : t.engine.haltFlag = false) (hpause : t.engine.pauseAll = true)
      (closes : List OrderEvent) :
      (routeCloses e b.timestamp closes).run (handler cfg) t = (true, t) := by
    induction closes with
    | nil => rfl
    | cons c closes ih =>
      have hroute : (routeOrder e c b.timestamp true).run (handler cfg) t = ((true, c), t) := by
        simp [routeOrder, handler, hflag, hpause]
      rw [routeCloses, run_bind, hroute]
      exact ih
  rw [evaluateExits, run_bind]
  exact hcloses (passed cfg b s) hflag hpause _

/-- Without the state of a strategy there is no callback. -/
theorem onMarket_of_nil (hnone : s.strategies = []) (i : Nat) : s.onMarket cfg i b = (none, s) := by
  simp [Sim.onMarket, Sim.callStrategy, hnone]

section

variable (hflag : s.engine.haltFlag = false) (hpause : s.engine.pauseAll = true)
  (hnone : s.strategies = [])
include hflag hpause hnone

theorem acts_dispatchExtras_paused (i n : Nat) :
    ((dispatchExtras e (barTrigger b) b.symbol b.timestamp (fun i => call (.onMarket i b)) i n).run
      (handler cfg) s).2.engine.acts = s.engine.acts ++ .replicate n (.exits (passOf cfg b)) := by
  induction n generalizing i s with
  | zero => exact (append_nil _).symm
  | succ n ih =>
    rw [dispatchExtras]
    simp only [run_bind, run_op, handler, hflag, Bool.false_eq_true, if_false]
    rw [run_evaluateExits_paused hflag hpause]
    simp only [if_true, run_bind, run_op, handler]
    rw [onMarket_of_nil (s := passed cfg b s) hnone]
    refine (ih (s := passed cfg b s) hflag hpause hnone (i + 1)).trans ?_
    rw [replicate_succ, append_cons]
    rfl

/-- The bar is shown once for each strategy. -/
theorem acts_decideOnMarket_paused (n : Nat) :
    ((decideOnMarket e (n + 1) b).run (handler cfg) s).2.engine.acts =
      s.engine.acts ++ .replicate (n + 1) (.exits (passOf cfg b)) := by
  rw [decideOnMarket, decideWith, run_bind, run_evaluateExits_paused hflag hpause]
  have hflag' : (passed cfg b s).engine.haltFlag = false := hflag
  simp only [if_true, run_bind, run_op, handler, hflag', Bool.false_eq_true, or_false,
    Nat.succ_ne_zero, if_false]
  rw [onMarket_of_nil (s := passed cfg b s) hnone]
  simp only [routeStrategy, run_pure, hflag', Bool.false_eq_true, if_false, run_bind]
  rw [acts_dispatchExtras_paused (s := passed cfg b s) hflag hpause hnone, replicate_succ,
    append_cons]
  rfl

end

/-- Without adapters nothing is swept, and the closing quotes are all. -/
theorem run_sweepBar_of_empty (hnone : s.adapters = ∅) (hflag : s.engine.haltFlag = false) :
    (sweepBar e b).run (handler cfg) s = (true, (s.requote cfg b.symbol b.close true).2) := by
  have hsweep : s.sweep cfg b.symbol b.low b.high b.timestamp = ([], s) := by
    simp [Sim.sweep, Sim.callCached, hnone]
  have hquotes : s.replenish cfg b.symbol b.close true b.timestamp =
      ([], (s.requote cfg b.symbol b.close true).2) := by
    have hkeeps : (s.requote cfg b.symbol b.close true).2.adapters = ∅ := hnone
    rw [Sim.replenish]
    split
    · rfl
    · simp [Sim.callCached, hkeeps]
  simp [sweepBar, sweepRestingLimits, replenish, handler, hsweep, handleFills, hflag, hquotes]

/-- `n` additional strategies. -/
def many (n : Nat) : BacktestConfig Bool :=
  { plain buyOnce with strategies := .replicate (n + 1) buyOnce }

/-- A new engine that is paused, with an exit manager and without the strategies' states. -/
def paused (m : ExitManager) : Sim Bool :=
  { Sim.init (many 0) 0 1 [] with
    engine := { Engine.init (many 0).engine with pauseAll := true, exitManager := m } }

theorem acts_processSingleBar_paused (m : ExitManager) (n : Nat)
    (order : String → IterationOrder Nat) :
    (processSingleBar (many n) order b (paused m)).2.engine.acts =
      .replicate (n + 1) (.exits (passOf (many n) b)) := by
  set e := (many n).engine
  set h := handler (many n)
  have hflag : (paused m).engine.haltFlag = false := rfl
  have hopen : (openBar e b).run h (paused m) = ((), { paused m with lastMidPrice := b.open_ }) :=
    rfl
  have hstop : (stopBar e b).run h { paused m with lastMidPrice := b.open_ } =
      ((), { paused m with lastMidPrice := b.close }) := rfl
  have hhead : (streamHead e b).run h (paused m) =
      (true, (Sim.requote (many n) { paused m with lastMidPrice := b.close }
        b.symbol b.close true).2) := by
    simp only [streamHead, barHead, run_bind, hopen, run_op, h, handler, hflag, Bool.false_eq_true,
      if_false, hstop, false_and]
    rw [run_sweepBar_of_empty rfl rfl]
    rfl
  have hbar : processSingleBar (many n) order b (paused m) = finishBar (many n) b (market b)
      ((streamHead e b).run h (paused m)) := rfl
  rw [hbar, hhead, finishBar, if_pos rfl]
  have hcount : (many n).strategies.length = n + 1 := length_replicate
  rw [hcount]
  exact acts_decideOnMarket_paused rfl rfl rfl n

/-- **No look-ahead within a bar.** Whatever else the engine does, an intent armed before the bar
fires only if the bar reaches it as it stood then: so it is for the exit manager `m`, the bar `b`
and `n` additional strategies exactly if there are none of these or the bar exposes no armed
intent. -/
theorem processSingleBar_noLookAhead_iff (m : ExitManager) (b : MarketEvent) (n : Nat) :
    (∀ (σ : Type) (cfg : BacktestConfig σ) (order : String → IterationOrder Nat) (s : Sim σ),
      cfg.strategies.tail.length = n → s.engine.exitManager = m →
      NoLookAhead b m
        (exitCalls ((processSingleBar cfg order b s).2.engine.acts.drop s.engine.acts.length))) ↔
      n = 0 ∨ ∀ x ∈ m.armed, x.2.exposed b = false := by
  constructor
  · intro hall
    by_contra hnot
    push Not at hnot
    obtain ⟨hn, x, hx, hexposed⟩ := hnot
    obtain ⟨n, rfl⟩ := Nat.exists_eq_succ_of_ne_zero hn
    have hno := hall Bool (many (n + 1)) (fun _ => .id) (paused m) (by simp [many]) rfl
    have hpass : (passOf (many (n + 1)) b).isPass b = true := isPass_iff.2 ⟨_, rfl⟩
    rw [acts_processSingleBar_paused] at hno
    exact not_noLookAhead_of_exposed hx (Bool.eq_true_of_not_eq_false hexposed) hpass hpass hno
  · rintro hsafe σ cfg order s rfl rfl
    obtain ⟨new, hsteps, hpasses⟩ : Shown b (1 + cfg.strategies.tail.length) s.engine
      (processSingleBar cfg order b s).2.engine := shown_processSingleBar order s
    rw [hsteps.acts, drop_left]
    exact noLookAhead_of_passes hpasses (hsafe.imp_left fun hn => by omega)

/-- A long of one unit at 100 with a stop at 95 that trails by 5%. -/
def trailed : Nat × ArmedIntent :=
  (1, ⟨⟨"X", .sell, 1, 1, some 95, none, none, some (5 / 100), none, 1, "s"⟩, 100, 100, 0⟩)

/-- The bar rises to 110 and never falls to 95. The first strategy's look pulls the stop to 104.5,
which is above the bar's low, and the second one's look fires it. -/
theorem trailing_stop_fires_for_second_strategy :
    let bar : MarketEvent := ⟨60, "X", 100, 110, 98, 105, 1⟩
    let m : ExitManager := { ExitManager.init false with
      armed := [trailed], openerRemainingQty := .singleton 1 1 }
    let s := { Sim.init (many 1) 0 1 [] with
      engine := { Engine.init (many 1).engine with exitManager := m } }
    trailed.2.reachedBy bar = false ∧
      ¬ NoLookAhead bar m
        (exitCalls (processSingleBar (many 1) (fun _ => .id) bar s).2.engine.acts) := by
  intro bar m s
  have hlooks :
      ((exitCalls (processSingleBar (many 1) (fun _ => .id) bar s).2.engine.acts).take 2).map
        (Op.isPass bar) = [true, true] := by decide +kernel
  refine ⟨by decide +kernel, ?_⟩
  generalize exitCalls (processSingleBar (many 1) (fun _ => .id) bar s).2.engine.acts
    = calls at hlooks ⊢
  obtain _ | ⟨c, _ | ⟨c', post⟩⟩ := calls
  · cases hlooks
  · simp at hlooks
  · obtain ⟨hc, hc', -⟩ : c.isPass bar = true ∧ c'.isPass bar = true ∧ True := by simpa using hlooks
    exact not_noLookAhead_of_exposed mem_cons_self (by decide +kernel) hc hc'

end Backtest

end TrueTest
