import TrueTest.Backtest.Calls

/-!
# The stops that a bar leaves

`check_pending_stops` triggers every stop that a bar reaches. Unless the engine halts on the way,
the stops it leaves are not reached (`stopBar_unreached`), nothing but the loop itself writes them
(`exec_pendingStops`), and so another look with the same bar changes nothing
(`exec_checkPendingStops_unreached`).
-/

namespace TrueTest

open Machine Program List

namespace Backtest

variable {σ : Type} {cfg : BacktestConfig σ} (open_ : ℚ)

/-! ## Who writes the stops -/

/-- A program that never writes the pending stops leaves them as they are. -/
theorem exec_pendingStops {α : Type} {p : M α} (hp : p.Calls Op.isPlain) (s : Sim σ) :
    (exec cfg p s).engine.pendingStops = s.engine.pendingStops := by
  have hstill : Engine.Still (fun _ _ => True) fun e e₁ => e₁.pendingStops = e.pendingStops :=
    ⟨fun _ => rfl, fun h h' => h'.trans h, fun _ _ _ _ _ _ h => h, fun _ _ _ _ _ => rfl,
     fun _ => rfl,
      fun _ _ _ _ => rfl⟩
  refine run_preserves_of_calls (I := fun t : Sim σ => t.engine.pendingStops =
    s.engine.pendingStops)
    (fun o t ho ht => ?_) p hp rfl
  exact (engine_handler hstill (fun _ _ _ _ => rfl) (fun _ _ _ => rfl) (fun _ _ => rfl)
    t o ho).trans ht

/-- An answer `false` comes with a halt. -/
def Stopped (ok : Bool) (s : Sim σ) : Prop := ok = false → s.engine.haltFlag = true

theorem holds_riskHalt : Holds (handler cfg) (fun _ => True) (riskHalt cfg.engine)
    fun _ s => s.engine.haltFlag = true :=
  .bind (M := fun _ _ => True) (fun _ _ => trivial) fun _ => .op fun _ _ => rfl

theorem holds_handleFills (fills : List FillEvent) :
    Holds (handler cfg) (fun _ => True) (handleFills cfg.engine fills) Stopped := by
  induction fills with
  | nil => exact .pure fun _ _ => Bool.noConfusion
  | cons f fills ih =>
    refine .bind (M := fun _ _ => True) (fun _ _ => trivial) fun _ =>
      .bind (fun _ _ => trivial) fun action => .ite (fun _ => ?_) fun _ => ih
    exact .bind holds_riskHalt fun _ => .pure fun _ hs _ => hs

theorem holds_processOrder (o : OrderEvent) :
    Holds (handler cfg) (fun _ => True) (processOrder cfg.engine o) Stopped := by
  refine .bind (M := fun halted s => s.engine.haltFlag = halted) (fun _ _ => rfl) fun halted =>
    .ite (fun hhalted => .pure fun s hs _ => hs.trans hhalted) fun _ =>
      .bind (M := fun _ _ => True) (fun _ _ => trivial) fun action => ?_
  cases action with
  | halt => exact .bind holds_riskHalt fun _ => .pure fun _ hs _ => hs
  | reject => exact .pure fun _ _ => Bool.noConfusion
  | pass | unwind => exact .bind (fun _ _ => trivial) holds_handleFills

theorem holds_triggerStop (simTime : Int) (stop : OrderEvent) :
    Holds (handler cfg) (fun _ => True) (triggerStop cfg.engine open_ simTime stop) Stopped := by
  have hany {α : Type} (p : M α) : Holds (handler cfg) (fun _ => True) p fun _ _ => True :=
    fun _ _ => trivial
  exact .bind (hany _) fun _ => .bind (hany _) fun _ => .bind (hany _) fun _ => .bind (hany _)
    fun o => .bind (hany _) fun _ => .bind (holds_processOrder o) fun ok =>
      .bind (.op fun _ hs => hs) fun _ => .pure fun _ hs => hs

/-- No pending stop is reached by the bar. -/
def Unreached (high low : ℚ) (stops : List OrderEvent) : Prop :=
  ∀ stop ∈ stops, Engine.stopTriggered high low stop = false

/-- The loop over the stops leaves only stops that the bar does not reach, unless it halts. -/
theorem holds_checkStops (high low : ℚ) (simTime : Int) (rest : List OrderEvent) :
    ∀ kept, Unreached high low kept → Holds (handler cfg) (fun _ => True)
      (checkStops cfg.engine open_ high low simTime kept rest)
      fun _ s => s.engine.haltFlag = true ∨ Unreached high low s.engine.pendingStops := by
  induction rest with
  | nil => exact fun kept hkept => .op fun _ _ => .inr hkept
  | cons stop rest ih =>
    intro kept hkept
    refine .bind (M := fun halted s => s.engine.haltFlag = halted) (fun _ _ => rfl) fun halted =>
      .ite (fun hhalted => .op fun s hs => .inl (hs.trans hhalted)) fun _ =>
        .ite (fun _ => ?_) fun hreach => ?_
    · refine .bind (.mono (holds_triggerStop open_ simTime stop) fun _ _ => trivial) fun ok =>
        .ite (fun _ => ?_) fun hok => ?_
      · exact .mono (ih kept hkept) fun _ _ => trivial
      · exact .op fun s hs => .inl (hs (Bool.eq_false_of_not_eq_true hok))
    · refine .mono (ih (kept ++ [stop]) ?_) fun _ _ => trivial
      exact forall_mem_append.2 ⟨hkept, forall_mem_singleton.2
        (Bool.eq_false_of_not_eq_true hreach)⟩

theorem stopBar_unreached (m : MarketEvent) (s : Sim σ)
    (h : (exec cfg (stopBar cfg.engine m) s).engine.haltFlag = false) :
    Unreached m.high m.low (exec cfg (stopBar cfg.engine m) s).engine.pendingStops := by
  have hstops : Holds (handler cfg) (fun _ => True) (stopBar cfg.engine m)
      fun _ s => s.engine.haltFlag = true ∨ Unreached m.high m.low s.engine.pendingStops :=
    .bind (M := fun _ _ => True) (fun _ _ => trivial) fun _ =>
      .bind (fun _ _ => trivial) fun stops =>
        holds_checkStops m.open_ m.high m.low m.timestamp stops [] fun _ hstop =>
          absurd hstop not_mem_nil
  refine (hstops s trivial).resolve_left fun hhalt => ?_
  exact Bool.noConfusion (h.symm.trans hhalt)

/-- A look at stops that the bar does not reach changes nothing. -/
theorem exec_checkPendingStops_unreached (high low : ℚ) (simTime : Int) (s : Sim σ)
    (h : Unreached high low s.engine.pendingStops) :
    exec cfg (checkPendingStops cfg.engine open_ high low simTime) s = s := by
  have hloop (rest : List OrderEvent) : ∀ kept, Unreached high low rest →
      exec cfg (checkStops cfg.engine open_ high low simTime kept rest) s =
        { s with engine := { s.engine with pendingStops := kept ++ rest } } := by
    induction rest with
    | nil =>
      intro kept _
      rw [append_nil]
      rfl
    | cons stop rest ih =>
      intro kept hrest
      have hstop : Engine.stopTriggered high low stop = false := hrest stop mem_cons_self
      have hnext := ih (kept ++ [stop]) fun x hx => hrest x (mem_cons_of_mem _ hx)
      simp only [exec, checkStops, run_bind, run_ite, hstop, Bool.false_eq_true, ↓reduceIte]
      rw [append_assoc] at hnext
      split
      · rfl
      · exact hnext
  exact hloop s.engine.pendingStops [] h

end Backtest

end TrueTest
