import TrueTest.Backtest.Effects

/-!
# Which primitives the loops call

Only `check_pending_stops` and the routing of an order write the pending stops, and only
`evaluate_exits` evaluates the exits. Everything below these two calls other primitives
(`Op.isPlain`), whatever they answer; so what those keep is kept by every part of a bar but these.
The loops are walked through once (`Walk`), for any property that is put together as they are.
-/

namespace TrueTest

open Machine Program Sim

namespace Backtest

/-- Whether the primitive writes the pending stops. -/
def Op.setsStops : Op → Bool
  | .setPendingStops _ => true
  | _ => false

/-- Whether the primitive evaluates the exits. -/
def Op.isExits : Op → Bool
  | .exits .. => true
  | _ => false

/-- Whether the primitive does neither. -/
def Op.isPlain (o : Op) : Prop := o.setsStops = false ∧ o.isExits = false

/-- Whether the primitive does neither and does not halt. -/
def Op.isQuiet : Op → Bool
  | .triggerHalt | .setPendingStops _ | .exits .. => false
  | _ => true

theorem Op.isPlain_of_isQuiet {o : Op} (h : o.isQuiet = true) : o.isPlain := by
  cases o <;> first | exact ⟨rfl, rfl⟩ | cases h

/-- Programs that evaluate no exits. -/
abbrev ExitFree {α : Type} (p : M α) : Prop := p.Calls fun o => o.isExits = false

variable (cfg : EngineConfig) (fills : List FillEvent) (symbol : String)

/-! ## Fills and orders -/

theorem calls_applyFills : (applyFills fills).Calls Op.isPlain := by
  induction fills with
  | nil => exact .pure ()
  | cons f fills ih => exact .bind (.op ⟨rfl, rfl⟩) fun _ => ih

theorem calls_unwindPositions : unwindPositions.Calls Op.isPlain := by
  have hall (positions : List (String × ℚ)) : (unwindAll positions).Calls Op.isPlain := by
    induction positions with
    | nil => exact .pure ()
    | cons p rest ih =>
      exact .bind (.op ⟨rfl, rfl⟩) fun o => .bind (.op ⟨rfl, rfl⟩) fun fills =>
        .bind (calls_applyFills fills) fun _ => ih
  exact .bind (.op ⟨rfl, rfl⟩) hall

theorem calls_riskHalt : (riskHalt cfg).Calls Op.isPlain :=
  .bind (.onlyIf calls_unwindPositions) fun _ => .op ⟨rfl, rfl⟩

theorem calls_handleFills : (handleFills cfg fills).Calls Op.isPlain := by
  induction fills with
  | nil => exact .pure true
  | cons f fills ih =>
    refine .bind (.op ⟨rfl, rfl⟩) fun _ => .bind (.op ⟨rfl, rfl⟩) fun action => .ite ?_ ih
    exact .bind (calls_riskHalt cfg) fun _ => .pure false

theorem calls_processOrder (o : OrderEvent) : (processOrder cfg o).Calls Op.isPlain := by
  refine .bind (.op ⟨rfl, rfl⟩) fun halted => .ite (.pure false) ?_
  refine .bind (.op ⟨rfl, rfl⟩) fun action => ?_
  cases action with
  | halt => exact .bind (calls_riskHalt cfg) fun _ => .pure false
  | reject => exact .pure true
  | pass | unwind => exact .bind (.op ⟨rfl, rfl⟩) (calls_handleFills cfg)

/-! ## A walk through the loops -/

/-- A property that is put together as the programs are, and that processing an order, handling
fills and every quiet primitive have. -/
structure Walk (cfg : EngineConfig) (C : ∀ {α : Type}, M α → Prop) : Prop extends Composes @C where
  op : ∀ {o : Op}, o.isQuiet = true → C (call o)
  handleFills : ∀ fills, C (handleFills cfg fills)
  processOrder : ∀ o, C (processOrder cfg o)

namespace Walk

variable {cfg} {C : ∀ {α : Type}, M α → Prop} (w : Walk cfg @C)
include w

theorem replenish (price : ℚ) (update : Bool) (ts : Int) :
    C (replenish cfg symbol price update ts) :=
  w.bind (w.op rfl) fun fills => w.bind (w.handleFills fills) fun _ => w.pure ()

theorem sweepRestingLimits (low high : ℚ) (ts : Int) :
    C (sweepRestingLimits cfg symbol low high ts) :=
  w.bind (w.op rfl) fun fills => w.bind (w.handleFills fills) fun _ => w.pure ()

theorem keepDay (o : OrderEvent) : C (keepDay o) := w.onlyIf (w.op rfl)

theorem anchored (o : OrderEvent) (ref : ℚ) (simTime : Int) : C (anchored cfg o ref simTime) := by
  refine w.bind (w.op rfl) fun barMid => w.bind (w.onlyIf ?_) fun _ => ?_
  · exact w.bind (w.replenish _ _ _ _) fun _ => w.op rfl
  · exact w.bind (w.keepDay o) fun _ => w.bind (w.processOrder o) fun ok =>
      w.bind (w.op rfl) fun _ => w.pure ok

theorem triggerStop (open_ : ℚ) (simTime : Int) (stop : OrderEvent) :
    C (triggerStop cfg open_ simTime stop) := by
  refine w.bind (w.op rfl) fun barMid => w.bind (w.op rfl) fun _ =>
    w.bind (w.onlyIf (w.replenish _ _ _ _)) fun _ => w.bind (w.op rfl) fun o => ?_
  exact w.bind (w.keepDay o) fun _ => w.bind (w.processOrder o) fun ok =>
    w.bind (w.op rfl) fun _ => w.pure ok

theorem drainPending (until_ : Option Int) : C (drainPending cfg until_) := by
  have hloop (n : Nat) : C (drainLoop cfg until_ n) := by
    induction n with
    | zero => exact w.pure ()
    | succ n ih =>
      refine w.bind (w.op rfl) fun pending => ?_
      cases pending with
      | nil => exact w.pure ()
      | cons o rest =>
        refine w.bind (w.op rfl) fun halted => w.ite (w.pure ()) ?_
        refine w.bind (w.op rfl) fun _ => w.bind (w.keepDay o) fun _ => ?_
        exact w.bind (w.processOrder o) fun ok => w.ite ih (w.pure ())
  exact w.bind (w.op rfl) fun pending => hloop _

theorem openBar (m : MarketEvent) : C (openBar cfg m) :=
  w.bind (w.op rfl) fun _ => w.bind (w.op rfl) fun _ =>
    w.bind (w.onlyIf (w.replenish _ _ _ _)) fun _ => w.drainPending _

theorem sweepBar (m : MarketEvent) : C (sweepBar cfg m) := by
  refine w.bind (w.sweepRestingLimits _ _ _ _) fun _ => w.bind (w.op rfl) fun halted => ?_
  exact w.ite (w.pure false) (w.bind (w.replenish _ _ _ _) fun _ => w.pure true)

/-! ### Programs that also write the stops -/

variable (hstops : ∀ stops, C (call (.setPendingStops stops)))
include hstops

theorem dispatch (o : OrderEvent) (simTime : Int) (anchorImmediate : Bool) :
    C (dispatch cfg o simTime anchorImmediate) := by
  refine w.ite ?_ (w.ite (w.anchored _ _ _) (w.ite ?_ (w.ite ?_ ?_)))
  · exact w.bind (w.op rfl) fun stops => w.bind (hstops _) fun _ => w.pure true
  · exact w.bind (w.op rfl) fun latency => w.bind (w.op rfl) fun _ => w.pure true
  · exact w.bind (w.op rfl) fun _ => w.pure true
  · exact w.bind (w.keepDay o) fun _ => w.processOrder _

theorem routeOrder (o : OrderEvent) (simTime : Int) (anchorImmediate : Bool) :
    C (routeOrder cfg o simTime anchorImmediate) := by
  refine w.bind (w.op rfl) fun halted => w.ite (w.pure _) ?_
  refine w.bind (w.op rfl) fun paused => w.ite (w.pure _) ?_
  refine w.bind (w.op rfl) fun rounded => w.ite ?_ (w.pure _)
  exact w.bind (w.dispatch hstops _ _ _) fun ok => w.pure _

theorem routeCloses (ts : Int) (closes : List OrderEvent) : C (routeCloses cfg ts closes) := by
  induction closes with
  | nil => exact w.pure true
  | cons c closes ih =>
    exact w.bind (w.routeOrder hstops c ts true) fun r => w.ite ih (w.pure false)

theorem routeStrategy (i : Nat) (ts : Int) (order : Option OrderEvent) :
    C (routeStrategy cfg i ts order) := by
  cases order with
  | none => exact w.pure ()
  | some o => exact w.bind (w.routeOrder hstops o ts false) fun r => w.op rfl

theorem checkPendingStops (open_ high low : ℚ) (simTime : Int) :
    C (checkPendingStops cfg open_ high low simTime) := by
  have hloop (rest : List OrderEvent) :
      ∀ kept, C (checkStops cfg open_ high low simTime kept rest) := by
    induction rest with
    | nil => exact fun _ => hstops _
    | cons stop rest ih =>
      intro kept
      refine w.bind (w.op rfl) fun halted => w.ite (hstops _) (w.ite ?_ (ih _))
      exact w.bind (w.triggerStop _ _ _) fun ok => w.ite (ih _) (hstops _)
  exact w.bind (w.op rfl) fun stops => hloop stops []

theorem stopBar (m : MarketEvent) : C (stopBar cfg m) :=
  w.bind (w.op rfl) fun _ => w.checkPendingStops hstops _ _ _ _

theorem barHead (checksHalt : Bool) (m : MarketEvent) : C (barHead cfg checksHalt m) := by
  refine w.bind (w.openBar m) fun _ => w.bind (w.op rfl) fun halted => ?_
  refine w.ite (w.pure false) (w.bind (w.stopBar hstops m) fun _ => ?_)
  exact w.bind (w.op rfl) fun halted => w.ite (w.pure false) (w.sweepBar m)

end Walk

theorem walk_plain : Walk cfg fun {_} p => p.Calls Op.isPlain where
  toComposes := Calls.composes Op.isPlain
  op ho := .op (Op.isPlain_of_isQuiet ho)
  handleFills := calls_handleFills cfg
  processOrder := calls_processOrder cfg

theorem exitFree_of_plain {α : Type} {p : M α} (h : p.Calls Op.isPlain) : ExitFree p :=
  h.mono fun _ ho => ho.2

theorem walk_exitFree : Walk cfg fun {_} p => ExitFree p where
  toComposes := Calls.composes _
  op ho := .op (Op.isPlain_of_isQuiet ho).2
  handleFills fills := exitFree_of_plain (calls_handleFills cfg fills)
  processOrder o := exitFree_of_plain (calls_processOrder cfg o)

/-! ## What the plain primitives do to the engine -/

variable {σ : Type} {cfg : BacktestConfig σ}

theorem callCached_engine (s : Sim σ) (symbol : String) (f : LocalBook → LocalBook) :
    (s.callCached symbol f).2.engine = s.engine := by
  rw [callCached]
  split <;> rfl

/-- **A relation that the elementary parts of the engine keep** is kept by every plain primitive, if
it holds across submits, the steps of handling a fill, a registration and a change of the deferred
orders. -/
theorem engine_handler {R : Engine → Engine → Prop} (h : Engine.Still (fun _ _ => True) R)
    (hact : ∀ e a, a.call? = none → a.isHalt = false → R e (e.act a))
    (hcall : ∀ e c, c.evaluates = false → R e (e.callExits c).2)
    (horders : ∀ (e : Engine) orders, R e { e with pendingOrders := orders }) (s : Sim σ) (o : Op)
    (ho : o.isPlain) : R s.engine (handler cfg o s).2.engine := by
  cases o with
  | triggerHalt => exact h.halt _
  | replenish symbol price update ts =>
    have hquotes : R s.engine (s.requote cfg symbol price update).2.engine :=
      h.frame rfl rfl rfl rfl (Nat.le_add_right _ _) rfl rfl
    rw [handler, Sim.replenish]
    split
    · exact hquotes
    · rw [callCached_engine]
      exact hquotes
  | sweep symbol low high ts =>
    rw [handler, sweep, callCached_engine]
    exact h.refl _
  | checkOrder o =>
    have hcheck (v : RiskAction) : R s.engine (s.engine.act (.check o v)) := hact _ _ rfl rfl
    rw [handler, checkOrder]
    split
    · exact h.trans (hcheck _) (h.reject _ o _ false trivial)
    · exact h.trans (hcheck _) (h.reject _ o _ false trivial)
    · exact hcheck _
    · exact hcheck _
  | submit o => exact h.trans (h.setStatus s.engine o.orderId .open) (hact _ _ rfl rfl)
  | applyFill f =>
    exact h.applyFill (fun _ _ _ => hact _ _ rfl rfl) (fun _ _ _ _ _ => hcall _ _ rfl) _ _
  | unwindOrder symbol qty => exact h.frame rfl rfl rfl rfl (Nat.le_succ _) rfl rfl
  | accept o close =>
    have henroll : R s.engine (s.enroll o close).2.engine :=
      h.accept s.engine o close fun _ _ _ _ => trivial
    rw [handler, accept]
    split
    · exact h.trans henroll (hact _ _ rfl rfl)
    · exact h.trans henroll (h.reject _ _ _ false trivial)
  | defer o | popPending => exact horders _ _
  | setPendingStops stops => exact absurd ho.1.symm Bool.false_ne_true
  | exits t symbol ts => exact absurd ho.2.symm Bool.false_ne_true
  | onMarket i m =>
    rw [handler, onMarket, callStrategy_engine]
    exact h.refl _
  | onTick i t =>
    rw [handler, onTick, callStrategy_engine]
    exact h.refl _
  | finalize i o halted =>
    rw [handler, finalizeStrategyRoute]
    split <;> exact h.notice.finalizeStrategyRoute (fun _ _ => hcall _ _ rfl) _ _ _ _ _ _ _
  | _ => exact h.refl _

end Backtest

end TrueTest
