import TrueTest.Backtest.Calls

/-!
# What a halt leaves in the log

The backtest engine halts itself in two places: after the risk manager's verdict on an order, and
after a post-fill check. The first leaves a rejection with its own reason in the log, the second
comes after a fill. So the log of a halted run tells (`Explained`): it holds a fill or such a
rejection.

That depends on the order of the calls. It is proved for the two programs with a halt in them, and
carried through the loops by their walk.
-/

namespace TrueTest

open Machine Program Sim

/-! ## Kinds of events -/

namespace Logged

def isFill : Logged → Bool
  | .fill _ => true
  | _ => false

def isOrder : Logged → Bool
  | .order _ => true
  | _ => false

/-- A rejection that halts the engine. -/
def isHalt : Logged → Bool
  | .rejection _ _ _ reason => reason = Refusal.riskHalt.reason
  | _ => false

/-- A bar or a tick. -/
def isPrice : Logged → Bool
  | .market _ | .tick _ => true
  | _ => false

/-- What a halt leaves. -/
def tells (ev : Logged) : Bool := ev.isFill || ev.isHalt

end Logged

namespace Sim

variable {σ : Type} {cfg : BacktestConfig σ} {s s₁ : Sim σ}

/-- The log extends what it was by order events, fills and rejections. -/
def Extends (s s₁ : Sim σ) : Prop :=
  ∀ log, s.log = some log → ∃ new, s₁.log = some (log ++ new) ∧ ∀ ev ∈ new, ev.isPrice = false

theorem Extends.refl (s : Sim σ) : s.Extends s :=
  fun log hlog => ⟨[], by rw [hlog, List.append_nil], by simp⟩

theorem Extends.trans {s₂ : Sim σ} (h : s.Extends s₁) (h' : s₁.Extends s₂) : s.Extends s₂ := by
  intro log hlog
  obtain ⟨new, hnew, hprice⟩ := h log hlog
  obtain ⟨new', hnew', hprice'⟩ := h' _ hnew
  refine ⟨new ++ new', by rw [hnew', List.append_assoc], fun ev hev => ?_⟩
  exact (List.mem_append.1 hev).elim (hprice ev) (hprice' ev)

theorem Entry.extends {fs : List FillEvent} (h : Entry s.books fs s₁.books) : s.Extends s₁ := by
  have hrecord (ev : Logged) (hprice : ev.isPrice = false)
      (hlog₁ : s₁.log = (s.books.record ev).log) :
      s.Extends s₁ := by
    intro log hlog
    refine ⟨[ev], ?_, by simpa using hprice⟩
    rw [hlog₁, Books.record, books, hlog]
    rfl
  have hbooks : s₁.books.log = s₁.log := rfl
  generalize s₁.books = b at h hbooks
  cases h with
  | none => exact fun log hlog => ⟨[], by rw [← hbooks, List.append_nil]; exact hlog, by simp⟩
  | rejection | order o | fill f => exact hrecord _ rfl hbooks.symm

/-- The log holds a fill or a halting rejection. -/
def Telling (s : Sim σ) : Prop := ∃ log, s.log = some log ∧ log.any Logged.tells

theorem Extends.telling (h : s.Extends s₁) (ht : s.Telling) : s₁.Telling := by
  obtain ⟨log, hlog, htells⟩ := ht
  obtain ⟨new, hnew, -⟩ := h log hlog
  exact ⟨_, hnew, by rw [List.any_append, htells, Bool.true_or]⟩

/-- There is a log, and it tells of a halt. -/
structure Explained (s : Sim σ) : Prop where
  logs : s.log.isSome
  telling : s.engine.haltFlag → s.Telling

theorem Telling.explained (h : s.Telling) : s.Explained := by
  obtain ⟨log, hlog, -⟩ := id h
  exact ⟨by rw [hlog]; rfl, fun _ => h⟩

theorem Extends.isSome (h : s.Extends s₁) (hlog : s.log.isSome) : s₁.log.isSome := by
  obtain ⟨log, hlog⟩ := Option.isSome_iff_exists.1 hlog
  obtain ⟨new, hnew, -⟩ := h log hlog
  rw [hnew]
  rfl

/-- An entry at the end of a log that tells. -/
theorem Explained.record (h : s.Explained) (ev : Logged) (hev : ev.tells)
    (hlog₁ : s₁.log = (s.books.record ev).log) : s₁.Telling := by
  obtain ⟨log, hlog⟩ := Option.isSome_iff_exists.1 h.logs
  refine ⟨log ++ [ev], ?_, by simp [hev]⟩
  rw [hlog₁, Books.record, books, hlog]
  rfl

end Sim

namespace Backtest

variable {σ α : Type} {cfg : BacktestConfig σ} {s : Sim σ} (p : M α)

theorem handler_extends (o : Op) (s : Sim σ) : s.Extends (handler cfg o s).2 := by
  by_cases hhalt : o = .triggerHalt
  · subst hhalt
    exact .refl s
  · obtain ⟨fs, hstep⟩ := handler_step cfg s o hhalt
    exact hstep.entry.extends

theorem run_extends (s : Sim σ) : s.Extends (p.run (handler cfg) s).2 :=
  run_preserves (fun o _ h => h.trans (handler_extends o _)) p (.refl s)

/-! ## Triples -/

/-- The program leaves a log that tells of a halt. -/
def Sound {α : Type} (cfg : BacktestConfig σ) (p : M α) : Prop :=
  Holds (handler cfg) Explained p fun _ => Explained

theorem sound_call {o : Op} (h : o ≠ .triggerHalt) : Sound cfg (call o) := by
  intro s hs
  obtain ⟨fs, hstep⟩ := handler_step cfg s o h
  have hextends := hstep.entry.extends
  exact ⟨hextends.isSome hs.logs, fun hflag =>
    hextends.telling (hs.telling (hstep.engine.haltFlag ▸ hflag))⟩

/-- Behind an event that tells, a program may do anything. -/
theorem holds_telling : Holds (handler cfg) Telling p fun _ => Explained :=
  fun s hs => ((run_extends p s).telling hs).explained

theorem holds_applyFill (f : FillEvent) :
    Holds (handler cfg) Explained (call (.applyFill f)) fun _ => Telling := by
  intro s hs
  exact hs.record (.fill (s.engine.stampFillAttribution f)) rfl
    (congrArg Books.log (applyFill_books cfg s f))

theorem holds_checkOrder (o : OrderEvent) :
    Holds (handler cfg) Explained (call (.checkOrder o)) fun (action : RiskAction) s =>
      s.Explained ∧ (action = .halt → s.Telling) := by
  intro s hs
  refine ⟨sound_call (by simp) s hs, fun hhalt => ?_⟩
  have hverdict : (s.checkOrder cfg o).1 = .halt := hhalt
  have hverdict' : (s.riskManager.checkOrder cfg.limits o (s.orderTime o) s.portfolio
      s.analytics.riskView).1 = .halt := hverdict
  change (s.checkOrder cfg o).2.Telling
  rw [checkOrder]
  rw [hverdict']
  exact hs.record (.rejection (s.orderTime o) o.symbol o.orderId Refusal.riskHalt.reason)
    (by simp [Logged.tells, Logged.isHalt]) rfl

variable (e : EngineConfig)

theorem sound_handleFills (fs : List FillEvent) : Sound cfg (handleFills e fs) := by
  cases fs with
  | nil => exact fun _ hs => hs
  | cons f fs => exact Holds.bind (holds_applyFill f) fun _ => holds_telling _

theorem sound_processOrder (o : OrderEvent) : Sound cfg (processOrder e o) := by
  refine Holds.bind (sound_call (by simp)) fun halted => Holds.ite (fun _ _ hs => hs) fun _ => ?_
  refine Holds.bind (holds_checkOrder o) fun action => ?_
  have hgo : Holds (handler cfg) (fun s => s.Explained ∧ (action = .halt → s.Telling))
      (call (.submit o) >>= handleFills e) fun _ => Explained :=
    Holds.mono (Holds.bind (sound_call (by simp)) fun fills => sound_handleFills e fills)
      fun _ hs => hs.1
  cases action with
  | halt => exact Holds.mono (holds_telling _) fun _ hs => hs.2 rfl
  | reject => exact fun _ hs => hs.1
  | pass | unwind => exact hgo

theorem walk_sound : Walk e fun {_} p => Sound cfg p where
  toComposes := Holds.composes
  op ho := sound_call fun h => by simp [h, Op.isQuiet] at ho
  handleFills := sound_handleFills e
  processOrder := sound_processOrder e

theorem sound_setPendingStops (stops : List OrderEvent) :
    Sound cfg (call (.setPendingStops stops)) :=
  sound_call (by simp)

theorem sound_evaluateExits (t : Engine.Trigger) (symbol : String) (ts : Int) :
    Sound cfg (evaluateExits e t symbol ts) :=
  Holds.bind (sound_call (by simp)) fun _ => (walk_sound e).routeCloses sound_setPendingStops ts _

variable {callback : Nat → M (Option OrderEvent)} (hcallback : ∀ i, Sound cfg (callback i))
include hcallback

theorem sound_dispatchExtras (t : Engine.Trigger) (symbol : String) (ts : Int) (n : Nat) :
    ∀ i, Sound cfg (dispatchExtras e t symbol ts callback i n) := by
  have w : Walk e fun {_} p => Sound cfg p := walk_sound e
  induction n with
  | zero => exact fun _ => w.pure ()
  | succ n ih =>
    intro i
    refine w.bind (sound_call (by simp)) fun _ => w.ite (w.pure ()) ?_
    refine w.bind (sound_evaluateExits e t symbol ts) fun _ => w.ite ?_ (w.pure ())
    refine w.bind (hcallback i) fun _ => ?_
    exact w.bind (w.routeStrategy sound_setPendingStops i ts _) fun _ => ih (i + 1)

theorem sound_decideWith (count : Nat) (t : Engine.Trigger) (symbol : String) (ts : Int) :
    Sound cfg (decideWith e count t symbol ts callback) := by
  have w : Walk e fun {_} p => Sound cfg p := walk_sound e
  refine w.bind (sound_evaluateExits e t symbol ts) fun _ => w.ite ?_ (w.pure false)
  refine w.bind (sound_call (by simp)) fun _ => w.ite (w.pure true) ?_
  refine w.bind (hcallback 0) fun _ => w.bind (w.routeStrategy sound_setPendingStops 0 ts _)
    fun _ => ?_
  refine w.bind (sound_call (by simp)) fun _ => w.ite (w.pure false) ?_
  exact w.bind (sound_dispatchExtras e hcallback t symbol ts _ 1) fun _ => w.pure true

end Backtest

end TrueTest
