import TrueTest.Backtest.Loop
import TrueTest.Engine.Trace
import TrueTest.Exits.Cap

/-!
# What a primitive does to the books

The books of the backtest engine are the log, the portfolio and analytics. A primitive leaves them
alone, or logs a rejection, or logs and counts an order, or logs, applies and counts a fill
(`Entry`). Every count that is kept during a run is derived from that.

The halt flag is raised by `triggerHalt` alone. What the configuration sets is never changed
(`Kept`).
-/

namespace TrueTest

open Machine Program List Sim

/-! ## The parts of the engine a run never changes -/

namespace ExitManager

variable (m : ExitManager) (opener : Nat)

@[simp] theorem releaseVenueBracket_hasBracketAdapter :
    (m.releaseVenueBracket opener).hasBracketAdapter = m.hasBracketAdapter := by
  rw [releaseVenueBracket]
  split <;> rfl

@[simp] theorem cancel_hasBracketAdapter :
    (m.cancel opener).hasBracketAdapter = m.hasBracketAdapter := by
  simp only [cancel, releaseVenueBracket_hasBracketAdapter]
  split <;> rfl

theorem cancelStrategy_hasBracketAdapter (strategyName symbol : String) :
    (m.cancelStrategy strategyName symbol).hasBracketAdapter = m.hasBracketAdapter :=
  foldlRecOn (motive := fun m₁ : ExitManager => m₁.hasBracketAdapter = m.hasBracketAdapter) _ _ rfl
    fun _ h id _ => (releaseVenueBracket_hasBracketAdapter _ id).trans h

theorem onFill_hasBracketAdapter (f : FillEvent) (opener : Nat) (placed : BracketHandles)
    (order : IterationOrder (Nat × ExitIntent)) :
    (m.onFill f opener placed order).hasBracketAdapter = m.hasBracketAdapter := by
  rw [onFill]
  split
  · obtain ⟨inFlight, -, hclose⟩ := m.closerFill_eq f opener
    rw [hclose]
    split
    · exact cancel_hasBracketAdapter _ opener
    · rfl
  · rw [openerFill]
    split
    · rfl
    · dsimp only
      split
      · rw [recordPlaced]
        split <;> rfl
      · rfl

theorem consumeOpenerQty_hasBracketAdapter (requested : ℚ) :
    (m.consumeOpenerQty opener requested).2.hasBracketAdapter = m.hasBracketAdapter := by
  rw [consumeOpenerQty]
  split
  · split <;> rfl
  · rfl

theorem fire_hasBracketAdapter (ts : Int) (price : ℚ) (opener : Nat) (ai : ArmedIntent)
    (others : List (Nat × ArmedIntent)) :
    (m.fire ts price opener ai others).2.hasBracketAdapter = m.hasBracketAdapter := by
  have hconsume := consumeOpenerQty_hasBracketAdapter m opener ai.intent.qty
  rw [fire]
  dsimp only
  split
  · split <;> simp only [releaseVenueBracket_hasBracketAdapter]
    · exact hconsume
    · exact hconsume
  · split
    · exact (releaseVenueBracket_hasBracketAdapter _ opener).trans hconsume
    · exact hconsume

theorem evaluate_hasBracketAdapter (probe : ArmedIntent → ArmedIntent × Option ℚ) (symbol : String)
    (ts : Int) (kept rest : List (Nat × ArmedIntent)) :
    (evaluate probe symbol ts kept rest m).2.hasBracketAdapter = m.hasBracketAdapter :=
  evaluate_induction probe symbol ts
    (motive := fun _ _ m r => r.2.hasBracketAdapter = m.hasBracketAdapter)
    (fun _ _ => rfl) (fun _ _ _ _ _ _ _ _ _ ih => ih)
    (fun _ _ _ _ _ _ _ _ _ ih => ih.trans (fire_hasBracketAdapter _ _ _ _ _ _)) kept rest m

theorem call_hasBracketAdapter (op : Op) :
    (m.call op).2.hasBracketAdapter = m.hasBracketAdapter := by
  cases op with
  | register intent =>
    rw [call, registerPending]
    split <;> rfl
  | fill f opener placed order => exact onFill_hasBracketAdapter m f opener placed order
  | price symbol px ts order =>
    rw [call, onPrice]
    split
    · rfl
    · exact evaluate_hasBracketAdapter m _ symbol ts [] _
  | bar symbol open_ low high close ts order =>
    rw [call, onBar]
    split
    · rfl
    · exact evaluate_hasBracketAdapter m _ symbol ts [] _
  | cancel opener => exact cancel_hasBracketAdapter m opener
  | cancelStrategy strategyName symbol =>
    exact cancelStrategy_hasBracketAdapter m strategyName symbol

end ExitManager

def fillsApplied (acts : List Act) : List FillEvent := acts.filterMap fun
  | .apply .portfolio f => some f
  | _ => none

namespace Engine

/-- What only the operator and the configuration set is kept, and so is the halt flag, while the
fills `fs` are applied to the portfolio. -/
structure Kept (fs : List FillEvent) (e e₁ : Engine) : Prop where
  config : e₁.config = e.config
  pauseAll : e₁.pauseAll = e.pauseAll
  flattenRequest : e₁.flattenRequest = e.flattenRequest
  adapter : e₁.exitManager.hasBracketAdapter = e.exitManager.hasBracketAdapter
  haltFlag : e₁.haltFlag = e.haltFlag
  fills : fillsApplied e₁.acts = fillsApplied e.acts ++ fs

namespace Kept

variable {e e₁ e₂ : Engine} {fs gs : List FillEvent}

theorem refl (e : Engine) : Kept [] e e := ⟨rfl, rfl, rfl, rfl, rfl, (append_nil _).symm⟩

theorem trans (h : Kept fs e e₁) (h' : Kept gs e₁ e₂) : Kept (fs ++ gs) e e₂ where
  config := h'.config.trans h.config
  pauseAll := h'.pauseAll.trans h.pauseAll
  flattenRequest := h'.flattenRequest.trans h.flattenRequest
  adapter := h'.adapter.trans h.adapter
  haltFlag := h'.haltFlag.trans h.haltFlag
  fills := by rw [h'.fills, h.fills, append_assoc]

/-- What applies no fill may follow. -/
theorem quiet (h : Kept fs e e₁) (h' : Kept [] e₁ e₂) : Kept fs e e₂ := by
  simpa only [append_nil] using h.trans h'

theorem act (e : Engine) (a : Act) (ha : fillsApplied [a] = fs) : Kept fs e (e.act a) :=
  ⟨rfl, rfl, rfl, rfl, rfl, ha ▸ filterMap_append⟩

theorem toPortfolio (h : Kept [] e e₁) (f : FillEvent) :
    Kept [f] e (e₁.act (.apply .portfolio f)) :=
  h.trans (act e₁ (.apply .portfolio f) rfl)

theorem callExits (e : Engine) (call : ExitManager.Op) : Kept [] e (e.callExits call).2 where
  config := rfl
  pauseAll := rfl
  flattenRequest := rfl
  adapter := ExitManager.call_hasBracketAdapter e.exitManager call
  haltFlag := rfl
  fills := (act e (.exits call) rfl).fills

theorem publish (e : Engine) : e.publish false = e := by
  rw [Engine.publish, Bool.and_false]
  rfl

theorem setStatus (e : Engine) (id : Nat) (status : OrderStatus) :
    Kept [] e (e.setStatus id status) :=
  ⟨rfl, rfl, rfl, rfl, rfl, (append_nil _).symm⟩

theorem reject (e : Engine) (o : OrderEvent) (why : Refusal) :
    Kept [] e (e.reject o why false) := by
  rw [Engine.reject, publish]
  exact (act e (.reject o why) rfl).quiet (setStatus _ _ _)

theorem notice : Notice (Kept []) :=
  ⟨refl, quiet, fun e _ _ => act e _ rfl, fun e _ _ => callExits e _⟩

theorem applyFill (e : Engine) (f : FillEvent) (placed : BracketHandles)
    (order : IterationOrder (Nat × ExitIntent)) (isOpen : Bool) :
    Kept [e.stampFillAttribution f] e (e.applyFill ⟨f, placed, order, isOpen, false⟩) := by
  rw [Engine.applyFill, publish]
  refine quiet ?_ (act _ _ rfl)
  refine quiet ?_ (notice.notifyPositionChangeAll _ _ _)
  refine quiet ?_ (callExits _ _)
  refine toPortfolio ?_ _
  refine quiet ?_ (act _ _ rfl)
  exact ⟨rfl, rfl, rfl, rfl, rfl, (append_nil _).symm⟩

end Kept

end Engine

namespace Portfolio

variable (p : Portfolio) (f : FillEvent) (opener : Nat) (strategyName : String)

theorem applyLotFill_eq :
    ∃ lots, p.applyLotFill f opener strategyName = { p with lots := lots } := by
  rw [applyLotFill]
  split
  · split <;> exact ⟨_, rfl⟩
  · split
    · exact ⟨_, rfl⟩
    · split <;> exact ⟨_, rfl⟩

/-- A fill is counted, and the initial balance stays. -/
theorem onFill_totalFills : (p.onFill f opener strategyName).totalFills = p.totalFills + 1 ∧
    (p.onFill f opener strategyName).initialBalance = p.initialBalance := by
  rw [onFill]
  split
  · obtain ⟨lots, hlots⟩ := applyLotFill_eq
      ({ p with totalFills := p.totalFills + 1 }.applyNettedFill f) f opener strategyName
    rw [hlots]
    exact ⟨rfl, rfl⟩
  · exact ⟨rfl, rfl⟩

end Portfolio

/-! ## The books -/

variable {α : Type}

namespace Sim

variable {σ : Type} (cfg : BacktestConfig σ) (s : Sim σ)

/-- The log, the portfolio and analytics. -/
structure Books where
  log : Option (List Logged)
  portfolio : Portfolio
  analytics : Analytics

def books : Books := ⟨s.log, s.portfolio, s.analytics⟩

/-- Enter an event in the log. -/
def Books.record (b : Books) (ev : Logged) : Books := { b with log := b.log.map (· ++ [ev]) }

/-- What a primitive may do to the books, with the fills it applies. -/
inductive Entry (b : Books) : List FillEvent → Books → Prop
  | none : Entry b [] b
  | rejection (ts : Int) (symbol : String) (id : Nat) (reason : String) :
      Entry b [] (b.record (.rejection ts symbol id reason))
  | order (o : OrderEvent) :
      Entry b [] { b.record (.order o) with analytics := b.analytics.onOrder }
  | fill (f : FillEvent) :
      Entry b [f] { b.record (.fill f) with
        portfolio := b.portfolio.onFill f f.openerOrderId f.strategyName
        analytics := b.analytics.onFill f }

/-- What a call of an adapter or a strategy leaves as it is. -/
structure Quiet (s s₁ : Sim σ) : Prop where
  books : s₁.books = s.books
  engine : s.engine.Kept [] s₁.engine

theorem Quiet.trans {s s₁ s₂ : Sim σ} (h : s.Quiet s₁) (h' : s₁.Quiet s₂) : s.Quiet s₂ :=
  ⟨h'.books.trans h.books, h.engine.quiet h'.engine⟩

variable (symbol : String) (o : OrderEvent) (i : Nat) (close : Bool) (price : ℚ)
  (f : Strategy σ → σ → α × σ)

theorem callAdapter_quiet (a : BookAdapter) (f : LocalBook → LocalBook) :
    s.Quiet (s.callAdapter symbol a f).2 := ⟨rfl, .refl _⟩

theorem callCached_quiet (f : LocalBook → LocalBook) : s.Quiet (s.callCached symbol f).2 := by
  rw [callCached]
  split
  · exact callAdapter_quiet s _ _ _
  · exact ⟨rfl, .refl _⟩

theorem requote_quiet (update : Bool) : s.Quiet (s.requote cfg symbol price update).2 :=
  ⟨rfl, rfl, rfl, rfl, rfl, rfl, (append_nil _).symm⟩

theorem replenish_quiet (update : Bool) (ts : Int) :
    s.Quiet (s.replenish cfg symbol price update ts).2 := by
  have hquote := requote_quiet cfg s symbol price update
  rw [replenish]
  split
  · exact hquote
  · exact hquote.trans (callCached_quiet _ _ _)

theorem callStrategy_quiet : s.Quiet (s.callStrategy cfg i f).2 := by
  rw [callStrategy]
  split
  · exact ⟨rfl, .refl _⟩
  · exact ⟨rfl, .refl _⟩

theorem callStrategy_engine : (s.callStrategy cfg i f).2.engine = s.engine := by
  rw [callStrategy]
  split <;> rfl

theorem dispatchFillToStrategy_books (f : FillEvent) :
    (s.dispatchFillToStrategy cfg f).books = s.books := by
  rw [dispatchFillToStrategy]
  split
  · rfl
  · split
    · exact (callStrategy_quiet cfg s _ _).books
    · rfl

theorem finalizeStrategyRoute_quiet (o : OrderEvent) (halted : Bool) :
    s.Quiet (s.finalizeStrategyRoute cfg i o halted) := by
  have hcall := callStrategy_quiet cfg s i Strategy.takePendingExitIntents
  have hfinal := Engine.Kept.notice.finalizeStrategyRoute (fun e _ => .callExits e _) s.engine
    ((names cfg).getD i "") o
    ((s.callStrategy cfg i Strategy.takePendingExitIntents).1.getD []) halted
    (s.portfolio.position o.symbol).qty (s.portfolio.positionOpen o.symbol)
  rw [finalizeStrategyRoute]
  split <;> exact ⟨hcall.books, hfinal⟩

theorem applyFill_books (fill : FillEvent) : (s.applyFill cfg fill).books =
    let f := s.engine.stampFillAttribution fill
    { s.books.record (.fill f) with
      portfolio := s.portfolio.onFill f f.openerOrderId f.strategyName
      analytics := s.analytics.onFill f } := by
  have hlog := congrArg Books.log (dispatchFillToStrategy_books cfg
    (s.record (.fill (s.engine.stampFillAttribution fill))) (s.engine.stampFillAttribution fill))
  exact congrArg (fun log => (⟨log, _, _⟩ : Books)) hlog

/-- An entry of a primitive, with the fills it applies. -/
structure Step (fs : List FillEvent) (s s₁ : Sim σ) : Prop where
  entry : Entry s.books fs s₁.books
  engine : s.engine.Kept fs s₁.engine

theorem Quiet.step {s s₁ : Sim σ} (h : s.Quiet s₁) : Step [] s s₁ := ⟨h.books ▸ .none, h.engine⟩

theorem Quiet.reject {s s₁ : Sim σ} (h : s.Quiet s₁) (o : OrderEvent) (ts : Int) (why : Refusal) :
    Step [] s (s₁.reject o ts why) where
  entry := by
    have hentry : Entry s₁.books [] (s₁.reject o ts why).books :=
      .rejection ts o.symbol o.orderId why.reason
    rwa [h.books] at hentry
  engine := h.engine.quiet (.reject _ _ _)

theorem checkOrder_step : Step [] s (s.checkOrder cfg o).2 := by
  have hcheck (verdict : RiskAction) (rm : RiskManager) :
      s.Quiet { s with riskManager := rm, engine := s.engine.act (.check o verdict) } :=
    ⟨rfl, .act _ _ rfl⟩
  rw [checkOrder]
  split
  · exact (hcheck _ _).reject _ _ _
  · exact (hcheck _ _).reject _ _ _
  · exact (hcheck _ _).step
  · exact (hcheck _ _).step

theorem enroll_quiet : s.Quiet (s.enroll o close).2 := by
  refine ⟨rfl, .quiet ?_ (.act _ _ rfl)⟩
  exact ⟨rfl, rfl, rfl, rfl, rfl, (append_nil _).symm⟩

theorem accept_step : Step [] s (s.accept o close).2 := by
  have henroll := enroll_quiet s o close
  rw [accept]
  split
  · exact Quiet.step ⟨henroll.books, henroll.engine.quiet (.act _ _ rfl)⟩
  · exact henroll.reject _ _ _

theorem submit_step : Step [] s (s.submit cfg o).2 :=
  ⟨.order o, .quiet (.setStatus _ _ _) (.act _ _ rfl)⟩

end Sim

namespace Backtest

variable {σ : Type} (cfg : BacktestConfig σ) (s : Sim σ)

/-- **Every primitive but `triggerHalt` makes at most one entry** and keeps what the configuration
set. -/
theorem handler_step (o : Op) (h : o ≠ .triggerHalt) : ∃ fs, Step fs s (handler cfg o s).2 := by
  cases o with
  | triggerHalt => exact absurd rfl h
  | replenish symbol price update ts =>
    exact ⟨_, (replenish_quiet cfg s symbol price update ts).step⟩
  | sweep symbol low high ts => exact ⟨_, (callCached_quiet s symbol _).step⟩
  | checkOrder o => exact ⟨_, checkOrder_step cfg s o⟩
  | submit o => exact ⟨_, submit_step cfg s o⟩
  | applyFill f =>
    refine ⟨_, ?_, .applyFill s.engine f unplaced cfg.orders.intents _⟩
    change Entry s.books _ (s.applyFill cfg f).books
    rw [applyFill_books]
    exact .fill _
  | accept o close => exact ⟨_, accept_step s o close⟩
  | exits t symbol ts => exact ⟨_, Quiet.step ⟨rfl, .callExits s.engine _⟩⟩
  | onMarket i m =>
    exact ⟨_, (callStrategy_quiet cfg s i fun strategy => strategy.onMarket m).step⟩
  | onTick i t => exact ⟨_, (callStrategy_quiet cfg s i fun strategy => strategy.onTick t).step⟩
  | finalize i o halted => exact ⟨_, (finalizeStrategyRoute_quiet cfg s i o halted).step⟩
  | _ => exact ⟨_, Quiet.step ⟨rfl, rfl, rfl, rfl, rfl, rfl, (append_nil _).symm⟩⟩

/-- What such an entry and a halt keep, every primitive keeps. -/
theorem handler_keeps {I : Sim σ → Prop}
    (hhalt : ∀ s, I s → I { s with engine := s.engine.triggerHalt })
    (hstep : ∀ {s s₁ : Sim σ} {fs}, I s → Step fs s s₁ → I s₁) (o : Op) (s : Sim σ) (hs : I s) :
    I (handler cfg o s).2 := by
  by_cases ho : o = .triggerHalt
  · subst ho
    exact hhalt s hs
  · obtain ⟨fs, hentry⟩ := handler_step cfg s o ho
    exact hstep hs hentry

/-! ## Runs -/

/-- What every primitive and every step of the loops keeps. -/
structure Closed (I : Sim σ → Prop) : Prop where
  call : ∀ o s, I s → I (handler cfg o s).2
  market : ∀ m s, I s → I (market m s)
  tick : ∀ t s, I s → I (tick t s)
  /-- A bar of the aggregator is not logged. -/
  aggregated : ∀ (m : MarketEvent) (s : Sim σ), I s →
    I { s with analytics := s.analytics.onMarket m }
  cancelDayOrders : ∀ s, I s → I (cancelDayOrders s)

namespace Closed

variable {cfg s} {I : Sim σ → Prop} (hI : Closed cfg I)

include hI

theorem exec (p : M α) (hs : I s) : I (p.run (handler cfg) s).2 :=
  run_preserves hI.call p hs

theorem runBar (checksHalt : Bool) (m : MarketEvent) (hs : I s) :
    I (runBar cfg checksHalt m s) := by
  rw [Backtest.runBar]
  split
  · exact hI.exec _ (hI.market m _ (hI.exec _ hs))
  · exact hI.exec _ hs

theorem runBars (ms : List MarketEvent) (hs : I s) : I (runBars cfg ms s) := by
  induction ms generalizing s with
  | nil => exact hs
  | cons m ms ih =>
    rw [runBars]
    split
    · exact hs
    · split
      · exact hI.runBar false m hs
      · exact ih (hI.runBar false m hs)

theorem emitBar (m : MarketEvent) (hs : I s) : I (emitBar cfg m s) :=
  hI.exec _ (hI.aggregated m s hs)

theorem runTick (t : Tick) (b : OpenBar) (hs : I s) : I (runTick cfg t (s, b)).1 := by
  rw [Backtest.runTick]
  dsimp only
  split
  · have hdecided := hI.exec (decideOnTick cfg.engine cfg.strategies.length t)
      (hI.tick t _ (hI.exec (tickHead cfg.engine true t) hs))
    split
    · dsimp only
      split
      · exact hI.emitBar _ hdecided
      · exact hdecided
    · exact hdecided
  · exact hI.exec _ hs

theorem runTicks (ts : List Tick) (b : OpenBar) (hs : I s) : I (runTicks cfg ts (s, b)).1 := by
  induction ts generalizing s b with
  | nil => exact hs
  | cons t ts ih =>
    rw [runTicks]
    split
    · exact hs
    · exact ih _ (hI.runTick t b hs)

/-- **What the steps keep holds after a run**, if it holds at its start. -/
theorem run (data : MarketData) (hs : I (start cfg.logs s)) : I (run cfg data s) := by
  cases data with
  | bars ms => exact hI.cancelDayOrders _ (hI.exec _ (hI.runBars ms hs))
  | ticks ts =>
    have hticks := hI.runTicks ts none hs
    refine hI.exec _ ?_
    rw [flush]
    split
    · exact hI.emitBar _ hticks
    · exact hticks

end Closed

end Backtest

end TrueTest
