import TrueTest.Backtest.Halts
import TrueTest.Backtest.Reset

/-!
# Replaying a log

`run_replay` runs the strategies again over the bars of a log. Beside that it hands the logged
orders and fills to analytics, which has counted those of its own run already: a fill of the log is
booked twice.

`replay_same` says when the replay ends as the run did: the run was over bars with times in whole
microseconds, its log holds no fill and no rejection that halts, and so few orders that counting
them twice stays below the limit on open orders. The replay is then the run in every step, on a
state (`replica`) that has no log and more orders counted. Conversely a replay that does not halt
agrees with its run only if the log holds no fill.
-/

namespace TrueTest

open Machine Program List Sim Analytics Logged

/-! ## The risk check and the number of orders -/

theorem bmod_le_self {n : Int} (h : 0 ≤ n) : n.bmod (2 ^ 32) ≤ n := by
  rw [Int.bmod]
  split <;> omega

/-- Below the limit on open orders, the check does not depend on their number. -/
theorem RiskManager.checkOrder_withOrders (limits : RiskLimits) (rm : RiskManager) (o : OrderEvent)
    (now : Int) (p : Portfolio) (a : Analytics) (k : Nat) (hfills : a.totalFills = 0)
    (hfew : ((a.totalOrders + k : Nat) : Int) < limits.maxOpenOrders) :
    rm.checkOrder limits o now p (a.withOrders k).riskView =
      rm.checkOrder limits o now p a.riskView := by
  have hbelow (n : Nat) (hn : n ≤ a.totalOrders + k) :
      ¬ limits.maxOpenOrders ≤ ((n : Int) - (0 : Nat)).bmod (2 ^ 32) := by
    have := bmod_le_self (Int.natCast_nonneg n)
    simp only [Nat.cast_zero, sub_zero]
    omega
  have hmany := hbelow (a.totalOrders + k) le_rfl
  have hfirst := hbelow a.totalOrders (Nat.le_add_right _ _)
  simp only [checkOrder, riskView, withOrders, hfills, if_neg hmany, if_neg hfirst]
  rfl

/-! ## The replica -/

namespace Sim

variable {σ : Type} (cfg : BacktestConfig σ) (k : Nat) (s : Sim σ) (o : OrderEvent)
  (symbol : String)

/-- The state without a log, and with `k` more orders counted. -/
def replica : Sim σ := { s with log := none, analytics := s.analytics.withOrders k }

/-- A state and its answer, on the replica. -/
def mirrored {α : Type} (r : α × Sim σ) : α × Sim σ := (r.1, r.2.replica k)

theorem callCached_replica (f : LocalBook → LocalBook) :
    (s.replica k).callCached symbol f = mirrored k (s.callCached symbol f) := by
  have hadapters : (s.replica k).adapters = s.adapters := rfl
  rw [callCached, callCached, hadapters]
  cases s.adapters.lookup symbol <;> rfl

theorem replenish_replica (price : ℚ) (update : Bool) (ts : Int) :
    (s.replica k).replenish cfg symbol price update ts =
      mirrored k (s.replenish cfg symbol price update ts) := by
  have hquote : (s.replica k).requote cfg symbol price update =
      mirrored k (s.requote cfg symbol price update) := rfl
  rw [replenish, replenish, hquote]
  cases hempty : (s.requote cfg symbol price update).1.isEmpty with
  | true => simp only [mirrored, hempty, ↓reduceIte]
  | false =>
    simp only [mirrored, hempty, Bool.false_eq_true, ↓reduceIte]
    exact callCached_replica k _ symbol _

theorem Blind.replica {α : Type} {op : Sim σ → α × Sim σ} {s : Sim σ} (h : s.Blind op) :
    op (s.replica k) = mirrored k (op s) := by
  obtain ⟨note, hnone, hnote⟩ := h
  obtain ⟨hregistry, hadapters, hlatencies⟩ := Framed.left (Blind.framed ⟨note, hnone, hnote⟩)
  refine (hnote s.registry s.adapters none s.latencies k).trans ?_
  rw [hnone, ← hregistry, ← hadapters, ← hlatencies]
  rfl

theorem place_replica : (s.replica k).place o = (s.place o).replica k := by
  simp only [place, replica, record, withOrders_onOrder, Option.map_none]

theorem submit_replica : (s.replica k).submit cfg o = mirrored k (s.submit cfg o) := by
  rw [submit, submit, place_replica]
  rfl

theorem checkOrder_replica (hfills : s.analytics.totalFills = 0)
    (hfew : ((s.analytics.totalOrders + k : Nat) : Int) < cfg.limits.maxOpenOrders) :
    (s.replica k).checkOrder cfg o = mirrored k (s.checkOrder cfg o) := by
  have hcheck : (s.replica k).riskManager.checkOrder cfg.limits o ((s.replica k).orderTime o)
      (s.replica k).portfolio (s.replica k).analytics.riskView =
        s.riskManager.checkOrder cfg.limits o (s.orderTime o) s.portfolio s.analytics.riskView :=
    RiskManager.checkOrder_withOrders _ _ _ _ _ _ _ hfills hfew
  rw [checkOrder, checkOrder, hcheck]
  cases (s.riskManager.checkOrder cfg.limits o (s.orderTime o) s.portfolio
    s.analytics.riskView).1 <;> rfl

end Sim

/-! ## Counts -/

def ordersIn (log : List Logged) : Nat := log.countP isOrder

def fillsIn (log : List Logged) : Nat := log.countP isFill

theorem ordersIn_append (as bs : List Logged) : ordersIn (as ++ bs) = ordersIn as + ordersIn bs :=
  countP_append

variable {log : List Logged} {n k : Nat} {m : MarketEvent} {ms : List MarketEvent}
  {fs : List FillEvent}

theorem fillsIn_eq_zero (h : log.any tells = false) : fillsIn log = 0 := by
  rw [fillsIn, countP_eq_zero]
  intro ev hev hfill
  have htells := any_eq_false.1 h ev hev
  simp [tells, hfill] at htells

namespace Sim

variable {σ : Type} {cfg : BacktestConfig σ} {s s₁ : Sim σ}

/-- Analytics has counted the orders and the fills of the log. -/
def Counted (s : Sim σ) : Prop :=
  ∀ log, s.log = some log →
    s.analytics.totalOrders = ordersIn log ∧ s.analytics.totalFills = fillsIn log

/-- Analytics has counted `n` fills beside those that were applied. -/
def Surplus (n : Nat) (s : Sim σ) : Prop := s.analytics.totalFills = s.fills.length + n

/-- An event at the end of the log keeps the counts if analytics counts it. -/
theorem Counted.record (h : s.Counted) (ev : Logged) (hlog : s₁.log = (s.books.record ev).log)
    (horders : s₁.analytics.totalOrders = s.analytics.totalOrders + ordersIn [ev])
    (hfills : s₁.analytics.totalFills = s.analytics.totalFills + fillsIn [ev]) : s₁.Counted := by
  intro log₁ hlog₁
  rw [hlog] at hlog₁
  obtain ⟨log, hold, rfl⟩ := Option.map_eq_some_iff.1 hlog₁
  obtain ⟨ho, hf⟩ := h log hold
  rw [horders, hfills, ho, hf, ordersIn_append, fillsIn, fillsIn, fillsIn, countP_append]
  exact ⟨rfl, rfl⟩

theorem Counted.step (h : s.Counted) (hstep : Step fs s s₁) : s₁.Counted := by
  have hentry := hstep.entry
  generalize hb : s₁.books = b at hentry
  have hlog : s₁.log = b.log := congrArg Books.log hb
  have hanalytics : s₁.analytics = b.analytics := congrArg Books.analytics hb
  cases hentry with
  | none =>
    intro log hlog₁
    rw [hanalytics]
    exact h log (hlog.symm.trans hlog₁)
  | rejection | order o => exact h.record _ hlog (by rw [hanalytics]; rfl) (by rw [hanalytics]; rfl)
  | fill f =>
    exact h.record _ hlog (by rw [hanalytics]; exact totalOrders_onFill _ f)
      (by rw [hanalytics]; exact totalFills_onFill _ f)

theorem Surplus.step (h : s.Surplus n) (hstep : Step fs s s₁) : s₁.Surplus n := by
  have hentry := hstep.entry
  have hfills : s₁.fills = s.fills ++ fs := hstep.engine.fills
  generalize hb : s₁.books = b at hentry
  have hanalytics : s₁.analytics = b.analytics := congrArg Books.analytics hb
  rw [Surplus] at h ⊢
  rw [hfills, length_append, hanalytics]
  cases hentry with
  | fill f =>
    have hcount := totalFills_onFill s.analytics f
    have hone : [f].length = 1 := rfl
    rw [hone]
    exact hcount.trans (by omega)
  | _ => exact h

end Sim

namespace Backtest

variable {σ : Type} {cfg : BacktestConfig σ} {s s₁ : Sim σ}

theorem counted_closed (cfg : BacktestConfig σ) : Closed cfg Counted where
  call := handler_keeps cfg (fun _ hs => hs) Counted.step
  market := fun m _ hs => hs.record (.market m) rfl rfl rfl
  tick := fun t _ hs => hs.record (.tick t) rfl rfl rfl
  aggregated := fun _ _ hs => hs
  cancelDayOrders := fun _ hs => hs

theorem surplus_closed (cfg : BacktestConfig σ) (n : Nat) : Closed cfg (Surplus n) where
  call := by
    refine handler_keeps cfg (fun s hs => ?_) Surplus.step
    have hact : Engine.Kept [] { s.engine with haltFlag := true } s.engine.triggerHalt :=
      .act _ .triggerHalt rfl
    have hfills : fills { s with engine := s.engine.triggerHalt } = s.fills :=
      hact.fills.trans (append_nil _)
    rw [Surplus, hfills]
    exact hs
  market := fun _ _ hs => hs
  tick := fun _ _ hs => hs
  aggregated := fun _ _ hs => hs
  cancelDayOrders := fun _ hs => hs

/-! ## The replay in step with the run -/

theorem handler_replica (k : Nat) (o : Op) (h : ∀ x, o ≠ .checkOrder x) (s : Sim σ) :
    handler cfg o (s.replica k) = mirrored k (handler cfg o s) := by
  cases o with
  | checkOrder x => exact absurd rfl (h x)
  | replenish symbol price update ts => exact replenish_replica cfg k s symbol price update ts
  | sweep symbol low high ts => exact callCached_replica k s symbol _
  | submit o => exact submit_replica cfg k s o
  | applyFill f => exact (s.blind_applyFill cfg f).replica k
  | accept o close => exact (s.blind_accept o close).replica k
  | onMarket i m => exact (s.blind_onMarket cfg i m).replica k
  | onTick i t => exact (s.blind_onTick cfg i t).replica k
  | finalize i o halted => exact (s.blind_finalizeStrategyRoute cfg i o halted).replica k
  | _ => rfl

/-- The log does not tell, and holds at most `n` orders. -/
def Fine (n : Nat) (s : Sim σ) : Prop :=
  ∃ log, s.log = some log ∧ log.any tells = false ∧ ordersIn log ≤ n

/-- The log begins with `log`. -/
def Continues (log : List Logged) (s : Sim σ) : Prop := ∃ new, s.log = some (log ++ new)

/-- A state with an earlier log is fine too. -/
theorem Fine.of_continues (h : Fine n s₁)
    (hlog : s.log = some log) (hcont : Continues log s₁) : Fine n s := by
  obtain ⟨new, hnew⟩ := hcont
  obtain ⟨log₁, hlog₁, htells, horders⟩ := h
  cases hnew.symm.trans hlog₁
  rw [any_append, Bool.or_eq_false_iff] at htells
  rw [ordersIn_append] at horders
  exact ⟨log, hlog, htells.1, by omega⟩

theorem Fine.of_extends (h : Fine n s₁) (hext : s.Extends s₁) (hlogs : s.log.isSome) :
    Fine n s := by
  obtain ⟨log, hlog⟩ := Option.isSome_iff_exists.1 hlogs
  obtain ⟨new, hnew, -⟩ := hext log hlog
  exact h.of_continues hlog ⟨new, hnew⟩

/-- **A program runs alike on the replica**, if it neither fills nor halts and orders little. -/
theorem run_replica {α : Type} (p : M α) (hmax : (2 * n : Int) < cfg.limits.maxOpenOrders)
    (hk : k ≤ n) (hs : s.Counted) (hlogs : s.log.isSome)
    (hfine : Fine n (p.run (handler cfg) s).2) :
    p.run (handler cfg) (s.replica k) = mirrored k (p.run (handler cfg) s) := by
  have hbad (o : Op) (s : Sim σ) (hb : s.log.isSome ∧ ¬ Fine n s) :
      (handler cfg o s).2.log.isSome ∧ ¬ Fine n (handler cfg o s).2 :=
    ⟨(handler_extends o s).isSome hb.1, fun h => hb.2 (h.of_extends (handler_extends o s) hb.1)⟩
  have hop (o : Op) (s t : Sim σ) (hst : t = s.replica k ∧ s.Counted ∧ s.log.isSome)
      (hok : ¬ ((handler cfg o s).2.log.isSome ∧ ¬ Fine n (handler cfg o s).2)) :
      (handler cfg o s).1 = (handler cfg o t).1 ∧
      (handler cfg o t).2 = (handler cfg o s).2.replica k ∧
        (handler cfg o s).2.Counted ∧ (handler cfg o s).2.log.isSome := by
    obtain ⟨rfl, hcounted, hlogs⟩ := hst
    have hlogs' : (handler cfg o s).2.log.isSome := (handler_extends o s).isSome hlogs
    have hfine' : Fine n (handler cfg o s).2 := by_contra fun h => hok ⟨hlogs', h⟩
    have hmirror : handler cfg o (s.replica k) = mirrored k (handler cfg o s) := by
      by_cases hcheck : ∃ x, o = .checkOrder x
      · obtain ⟨x, rfl⟩ := hcheck
        obtain ⟨log, hlog, htells, horders⟩ := hfine'.of_extends (handler_extends _ s) hlogs
        obtain ⟨hcountO, hcountF⟩ := hcounted log hlog
        refine checkOrder_replica cfg k s x (hcountF.trans (fillsIn_eq_zero htells)) ?_
        rw [hcountO]
        omega
      · exact handler_replica k o (fun x hx => hcheck ⟨x, hx⟩) s
    rw [hmirror]
    exact ⟨rfl, rfl, (counted_closed cfg).call o s hcounted, hlogs'⟩
  obtain ⟨hans, hstate, -⟩ := run_simulates (fun s t => t = s.replica k ∧ s.Counted ∧ s.log.isSome)
    (fun s => s.log.isSome ∧ ¬ Fine n s) hbad hop p ⟨rfl, hs, hlogs⟩ fun hb => hb.2 hfine
  exact Prod.ext hans.symm hstate

/-- **The counts agree** after any backtest: of analytics, of the log, of the fills applied. -/
theorem counts_agree (data : MarketData) (seed nextId : Nat) (strategies : List σ) :
    let s := run cfg data (.init cfg seed nextId strategies)
    s.Counted ∧ s.Surplus 0 := by
  refine ⟨(counted_closed cfg).run data fun log hlog => ?_, (surplus_closed cfg 0).run data rfl⟩
  rw [start] at hlog
  split at hlog <;> cases hlog
  exact ⟨rfl, rfl⟩

/-! ## Bars -/

theorem halted_eq_false (h : s.Explained) (hquiet : ¬ s.Telling) : s.engine.haltFlag = false := by
  cases hflag : s.engine.haltFlag with
  | false => rfl
  | true => exact absurd (h.telling hflag) hquiet

theorem run_barHead (checksHalt : Bool) (m : MarketEvent) (s : Sim σ) :
    (barHead cfg.engine checksHalt m).run (handler cfg) s =
      let s₁ := exec cfg (openBar cfg.engine m) s
      let s₂ := exec cfg (stopBar cfg.engine m) s₁
      if s₁.engine.haltFlag then (false, s₁)
      else if checksHalt ∧ s₂.engine.haltFlag then (false, s₂)
      else (sweepBar cfg.engine m).run (handler cfg) s₂ := by
  simp only [barHead, run_bind, run_ite]
  rfl

theorem run_sweepBar (m : MarketEvent) (s : Sim σ) :
    (sweepBar cfg.engine m).run (handler cfg) s =
      let s₁ := exec cfg (sweepRestingLimits cfg.engine m.symbol m.low m.high m.timestamp) s
      if s₁.engine.haltFlag then (false, s₁)
      else (true, exec cfg (replenish cfg.engine m.symbol m.close true m.timestamp) s₁) := by
  simp only [sweepBar, run_bind, run_ite]
  rfl

/-- Before anything that tells, the head of a bar does not depend on the check that only the replay
makes, and lets the bar be logged. -/
theorem barHead_quiet (hs : s.Explained)
    (hquiet : ¬ ((barHead cfg.engine false m).run (handler cfg) s).2.Telling) :
    ((barHead cfg.engine false m).run (handler cfg) s).1 = true ∧
      (barHead cfg.engine true m).run (handler cfg) s =
        (barHead cfg.engine false m).run (handler cfg) s := by
  have hexplained₁ : (exec cfg (openBar cfg.engine m) s).Explained :=
    (walk_sound cfg.engine).openBar m s hs
  rw [run_barHead] at hquiet
  simp only [run_barHead]
  generalize exec cfg (openBar cfg.engine m) s = s₁ at hexplained₁ hquiet
  cases hflag₁ : s₁.engine.haltFlag with
  | true => exact absurd (hexplained₁.telling hflag₁) (by simpa [hflag₁] using hquiet)
  | false =>
    have hexplained₂ : (exec cfg (stopBar cfg.engine m) s₁).Explained :=
      (walk_sound cfg.engine).stopBar sound_setPendingStops m s₁ hexplained₁
    simp only [hflag₁, Bool.false_eq_true, false_and, ↓reduceIte, true_and] at hquiet ⊢
    generalize exec cfg (stopBar cfg.engine m) s₁ = s₂ at hexplained₂ hquiet
    have hflag₂ : s₂.engine.haltFlag = false :=
      halted_eq_false hexplained₂ fun h => hquiet ((run_extends _ s₂).telling h)
    have hexplained₃ : (exec cfg (sweepRestingLimits cfg.engine m.symbol m.low m.high m.timestamp)
        s₂).Explained := (walk_sound cfg.engine).sweepRestingLimits _ _ _ _ s₂ hexplained₂
    rw [run_sweepBar] at hquiet
    simp only [hflag₂, Bool.false_eq_true, ↓reduceIte, run_sweepBar]
    generalize exec cfg (sweepRestingLimits cfg.engine m.symbol m.low m.high m.timestamp) s₂ = s₃
      at hexplained₃ hquiet
    cases hflag₃ : s₃.engine.haltFlag with
    | true => exact absurd (hexplained₃.telling hflag₃) (by simpa [hflag₃] using hquiet)
    | false => simp

/-! ## The log as input -/

theorem replayEvents_append (as bs : List Logged) (s : Sim σ) :
    replayEvents cfg (as ++ bs) s = replayEvents cfg bs (replayEvents cfg as s) := by
  induction as generalizing s with
  | nil => rfl
  | cons ev as ih =>
    rw [cons_append, replayEvents, replayEvents]
    split_ifs with hhalt
    · cases bs with
      | nil => rfl
      | cons ev' bs => rw [replayEvents, if_pos hhalt]
    · exact ih _

/-- Orders and rejections of the log only move the count of orders. -/
theorem replay_entries {new : List Logged} (hflag : s.engine.haltFlag = false)
    (hprice : ∀ ev ∈ new, ev.isPrice = false) (htells : new.any tells = false) :
    replayEvents cfg new (s.replica k) = s.replica (k + ordersIn new) := by
  induction new generalizing k with
  | nil => rfl
  | cons ev new ih =>
    rw [any_cons, Bool.or_eq_false_iff] at htells
    obtain ⟨hev, hnew⟩ := forall_mem_cons.1 hprice
    have hrunning : ¬ (s.replica k).engine.haltFlag = true := by
      rw [replica, hflag]
      decide
    have hcons : ordersIn (ev :: new) = ordersIn [ev] + ordersIn new := ordersIn_append [ev] new
    rw [replayEvents, if_neg hrunning, hcons, ← Nat.add_assoc]
    cases ev with
    | market m | tick t => cases hev
    | fill f => cases htells.1
    | order o => exact ih (k := k + 1) hnew htells.2
    | rejection ts symbol id reason => exact ih hnew htells.2

theorem market_log (hlog : s.log = some log) (m : MarketEvent) :
    (market m s).log = some (log ++ [.market m]) := by
  rw [market, record, hlog]
  rfl

theorem isSome_market (h : s.log.isSome) (m : MarketEvent) : (market m s).log.isSome := by
  obtain ⟨log, hlog⟩ := Option.isSome_iff_exists.1 h
  rw [market_log hlog]
  rfl

theorem explained_market (hs : s.Explained) (m : MarketEvent) : (market m s).Explained := by
  obtain ⟨log, hlog⟩ := Option.isSome_iff_exists.1 hs.logs
  refine ⟨isSome_market hs.logs m, fun hflag => ?_⟩
  obtain ⟨log', hlog', htells⟩ := hs.telling hflag
  cases hlog.symm.trans hlog'
  exact ⟨_, market_log hlog m, by rw [any_append, htells, Bool.true_or]⟩

theorem Continues.append (h : Continues log s)
    (hnext : ∀ old, s.log = some old → ∃ new, s₁.log = some (old ++ new)) : Continues log s₁ := by
  obtain ⟨new, hnew⟩ := h
  obtain ⟨new', hnew'⟩ := hnext _ hnew
  exact ⟨new ++ new', by rw [hnew', append_assoc]⟩

theorem continues_closed (cfg : BacktestConfig σ) (log : List Logged) :
    Closed cfg (Continues log) where
  call := by
    intro o s hs
    refine hs.append fun old hold => ?_
    obtain ⟨new, hnew, -⟩ := (handler_extends o s : s.Extends (handler cfg o s).2) old hold
    exact ⟨new, hnew⟩
  market := fun m _ hs => hs.append fun _ hold => ⟨_, market_log hold m⟩
  tick := by
    intro t s hs
    refine hs.append fun old hold => ⟨[.tick t], ?_⟩
    rw [tick, record, hold]
    rfl
  aggregated := fun _ _ hs => hs
  cancelDayOrders := fun _ hs => hs

/-! ## Runs over bars -/

/-- The books of a run with a log. -/
structure Recorded (s : Sim σ) : Prop where
  counted : s.Counted
  explained : s.Explained

theorem Fine.telling (h : Fine n s) : ¬ s.Telling := by
  rintro ⟨log, hlog, htells⟩
  obtain ⟨log', hlog', hquiet, -⟩ := h
  cases hlog.symm.trans hlog'
  rw [htells] at hquiet
  cases hquiet

/-- What is replayed leads from the replica of one state to the replica of another. -/
def Replays (cfg : BacktestConfig σ) (s s₁ : Sim σ) : Prop :=
  ∀ log, s.log = some log → ∃ new, s₁.log = some (log ++ new) ∧
    replayEvents cfg new (s.replica (ordersIn log)) = s₁.replica (ordersIn (log ++ new))

theorem Replays.refl (cfg : BacktestConfig σ) (s : Sim σ) : Replays cfg s s :=
  fun log hlog => ⟨[], by rw [hlog, append_nil], by rw [append_nil]; rfl⟩

theorem Replays.trans {s₂ : Sim σ} (h : Replays cfg s s₁) (h' : Replays cfg s₁ s₂) :
    Replays cfg s s₂ := by
  intro log hlog
  obtain ⟨new, hnew, hreplay⟩ := h log hlog
  obtain ⟨new', hnew', hreplay'⟩ := h' _ hnew
  refine ⟨new ++ new', by rw [hnew', append_assoc], ?_⟩
  rw [replayEvents_append, hreplay, hreplay', append_assoc]

theorem recorded_runBar (m : MarketEvent) (hs : Recorded s) : Recorded (runBar cfg false m s) := by
  refine ⟨(counted_closed cfg).runBar false m hs.counted, ?_⟩
  have hhead : ((barHead cfg.engine false m).run (handler cfg) s).2.Explained :=
    (walk_sound cfg.engine).barHead sound_setPendingStops false m s hs.explained
  rw [runBar]
  split
  · exact sound_decideWith cfg.engine (fun _ => sound_call (by simp)) _ _ _ _ _
      (explained_market hhead m)
  · exact hhead

section

variable {n : Nat} {m : MarketEvent} (hs : Recorded s) (hfine : Fine n (runBar cfg false m s))
include hs hfine

/-- A quiet bar: its head lets it be logged, with or without the replay's check. -/
theorem quiet_barHead : let r := (barHead cfg.engine false m).run (handler cfg) s
    Fine n r.2 ∧ r.1 = true ∧ (barHead cfg.engine true m).run (handler cfg) s = r := by
  intro r
  have hlogs : r.2.log.isSome := (run_extends _ s).isSome hs.explained.logs
  obtain ⟨log, hlog⟩ := Option.isSome_iff_exists.1 hlogs
  have hcont : Continues log (runBar cfg false m s) := by
    have hclosed := continues_closed cfg log
    have hstart : Continues log r.2 := ⟨[], by rw [append_nil, hlog]⟩
    rw [runBar]
    split
    · exact hclosed.exec _ (hclosed.market m _ hstart)
    · exact hstart
  have hhead : Fine n r.2 := hfine.of_continues hlog hcont
  exact ⟨hhead, barHead_quiet hs.explained hhead.telling⟩

/-- A quiet bar is logged between the entries of its head and those of the decision. -/
theorem runBar_log (hlog : s.log = some log) :
    ∃ head tail, (runBar cfg false m s).log = some (log ++ (head ++ .market m :: tail)) ∧
      (∀ ev ∈ head, ev.isPrice = false) ∧ ∀ ev ∈ tail, ev.isPrice = false := by
  obtain ⟨-, hgo, -⟩ := quiet_barHead hs hfine
  obtain ⟨head, hhead, hheadPrice⟩ :=
    (run_extends _ s : s.Extends ((barHead cfg.engine false m).run (handler cfg) s).2) log hlog
  rw [runBar, if_pos hgo]
  obtain ⟨tail, htail, htailPrice⟩ := run_extends
    (decideOnMarket cfg.engine cfg.strategies.length m) _ _ (market_log hhead m)
  refine ⟨head, tail, htail.trans ?_, hheadPrice, htailPrice⟩
  rw [append_assoc, append_assoc, singleton_append]

end

theorem cancelDayOrders_replica (k : Nat) (s : Sim σ) :
    cancelDayOrders (s.replica k) = (cancelDayOrders s).replica k := rfl

section

variable (hmax : (2 * n : Int) < cfg.limits.maxOpenOrders)
include hmax

/-- The replay makes the same of a quiet bar. -/
theorem runBar_replica (hk : k ≤ n) (hs : Recorded s) (hfine : Fine n (runBar cfg false m s)) :
    runBar cfg true m (s.replica k) = (runBar cfg false m s).replica k := by
  obtain ⟨hfineHead, hgo, hchecks⟩ := quiet_barHead hs hfine
  have hhead := run_replica (barHead cfg.engine true m) hmax hk hs.counted hs.explained.logs
    (by rw [hchecks]; exact hfineHead)
  rw [hchecks] at hhead
  rw [runBar, if_pos hgo] at hfine
  rw [runBar, runBar, hhead, mirrored, if_pos hgo, if_pos hgo]
  have hcounted : ((barHead cfg.engine false m).run (handler cfg) s).2.Counted :=
    (counted_closed cfg).exec _ hs.counted
  have hlogs : ((barHead cfg.engine false m).run (handler cfg) s).2.log.isSome :=
    (run_extends _ s).isSome hs.explained.logs
  generalize ((barHead cfg.engine false m).run (handler cfg) s).2 = s₁ at hfine hcounted hlogs
  have hdecide := run_replica (decideOnMarket cfg.engine cfg.strategies.length m) hmax hk
    ((counted_closed cfg).market m s₁ hcounted) (isSome_market hlogs m) hfine
  exact congrArg Prod.snd hdecide

theorem replays_runBar (htime : truncateToMicros m.timestamp = m.timestamp) (hs : Recorded s)
    (hfine : Fine n (runBar cfg false m s)) : Replays cfg s (runBar cfg false m s) := by
  intro log hlog
  obtain ⟨head, tail, hlogged, hheadPrice, htailPrice⟩ := runBar_log hs hfine hlog
  refine ⟨head ++ .market m :: tail, hlogged, ?_⟩
  have hnext : (runBar cfg false m s).Explained := (recorded_runBar m hs).explained
  obtain ⟨log', hlog', htells, horders⟩ := id hfine
  cases hlogged.symm.trans hlog'
  simp only [any_append, any_cons, Bool.or_eq_false_iff] at htells
  have hcons : ordersIn (.market m :: tail) = ordersIn tail :=
    (ordersIn_append [.market m] tail).trans (Nat.zero_add _)
  rw [ordersIn_append, ordersIn_append, hcons] at horders ⊢
  have hfineStart : Fine n s := ⟨log, hlog, htells.1, by omega⟩
  have hflag := halted_eq_false hs.explained hfineStart.telling
  have hflag' := halted_eq_false hnext hfine.telling
  have hrunning : ¬ (s.replica (ordersIn log + ordersIn head)).engine.haltFlag = true := by
    rw [replica, hflag]
    decide
  have hevent : replayEvent cfg (.market m) (s.replica (ordersIn log + ordersIn head)) =
      (runBar cfg false m s).replica (ordersIn log + ordersIn head) := by
    rw [replayEvent, htime]
    exact runBar_replica hmax (by omega) hs hfine
  rw [replayEvents_append, replay_entries hflag hheadPrice htells.2.1, replayEvents,
    if_neg hrunning, hevent, replay_entries hflag' htailPrice htells.2.2.2, Nat.add_assoc]

theorem replays_runBars (htime : ∀ m ∈ ms, truncateToMicros m.timestamp = m.timestamp)
    (hs : Recorded s) (hfine : Fine n (runBars cfg ms s)) :
    Replays cfg s (runBars cfg ms s) ∧ Recorded (runBars cfg ms s) := by
  induction ms generalizing s with
  | nil => exact ⟨.refl cfg s, hs⟩
  | cons m ms ih =>
    obtain ⟨hm, hms⟩ := forall_mem_cons.1 htime
    have hnext : Recorded (runBar cfg false m s) := recorded_runBar m hs
    rw [runBars] at hfine ⊢
    by_cases hhalt : s.engine.haltFlag
    · rw [if_pos hhalt]
      exact ⟨.refl cfg s, hs⟩
    · rw [if_neg hhalt] at hfine ⊢
      by_cases hempty : cfg.strategies.isEmpty
      · rw [if_pos hempty] at hfine ⊢
        exact ⟨replays_runBar hmax hm hs hfine, hnext⟩
      · rw [if_neg hempty] at hfine ⊢
        obtain ⟨hrest, hrecorded⟩ := ih hms hnext hfine
        obtain ⟨log, hlog⟩ := Option.isSome_iff_exists.1 hnext.explained.logs
        have hcont := (continues_closed cfg log).runBars ms ⟨[], by rw [append_nil, hlog]⟩
        exact ⟨(replays_runBar hmax hm hs (hfine.of_continues hlog hcont)).trans hrest, hrecorded⟩

/-- The replay of the log of a run over bars ends in the replica of the state the run ends in. -/
theorem runReplay_eq (hlogs : cfg.logs = true)
    (htime : ∀ m ∈ ms, truncateToMicros m.timestamp = m.timestamp) (seed nextId : Nat)
    (strategies : List σ) (hfine : Fine n (run cfg (.bars ms) (.init cfg seed nextId strategies)))
    (hlog : (run cfg (.bars ms) (.init cfg seed nextId strategies)).log = some log) :
    runReplay cfg log (.init cfg seed nextId strategies) =
      (run cfg (.bars ms) (.init cfg seed nextId strategies)).replica (ordersIn log) := by
  set s₀ := start cfg.logs (.init cfg seed nextId strategies) with hs₀
  set s₁ := runBars cfg ms s₀
  set drain := drainPending cfg.engine none with hdrain
  have hlog₀ : s₀.log = some [] := by rw [hs₀, start, hlogs]; rfl
  have hrecorded₀ : Recorded s₀ := by
    refine ⟨fun l hl => ?_, ⟨by rw [hlog₀]; rfl, fun hflag => by cases hflag⟩⟩
    cases hlog₀.symm.trans hl
    exact ⟨rfl, rfl⟩
  have hrun : run cfg (.bars ms) (.init cfg seed nextId strategies) =
      cancelDayOrders (exec cfg drain s₁) := rfl
  -- Up to the last bar.
  have hlogs₁ : s₁.log.isSome := by
    obtain ⟨new, hnew⟩ := (continues_closed cfg []).runBars ms ⟨[], hlog₀⟩
    rw [hnew]
    rfl
  have hfineDrain : Fine n (exec cfg drain s₁) := by
    rw [hrun] at hfine
    exact hfine
  have hfine₁ : Fine n s₁ := hfineDrain.of_extends (run_extends drain s₁) hlogs₁
  obtain ⟨hreplays, hrecorded₁⟩ := replays_runBars hmax htime hrecorded₀ hfine₁
  obtain ⟨bars, hbars, hreplay⟩ := hreplays [] hlog₀
  -- The orders that are drained behind it.
  obtain ⟨last, hlast, hlastPrice⟩ := run_extends drain s₁ _ hbars
  have hall : log = bars ++ last := by
    rw [hrun] at hlog
    exact Option.some.inj (hlog.symm.trans hlast)
  obtain ⟨all, hallLog, htells, horders⟩ := id hfineDrain
  cases hlast.symm.trans hallLog
  simp only [nil_append, any_append, Bool.or_eq_false_iff] at htells
  have hstart : start false (.init cfg seed nextId strategies) = s₀.replica 0 := by
    rw [hs₀, start, start]
    rfl
  have hflag₁ := halted_eq_false hrecorded₁.explained hfine₁.telling
  have hevents : replayEvents cfg log (start false (.init cfg seed nextId strategies)) =
      s₁.replica (ordersIn log) := by
    have hbars' : replayEvents cfg bars (s₀.replica 0) = s₁.replica (ordersIn bars) := hreplay
    rw [hstart, hall, replayEvents_append, hbars', replay_entries hflag₁ hlastPrice htells.2,
      ordersIn_append]
  have horders' : ordersIn log ≤ n := by
    rw [hall]
    exact horders
  have hdrained := run_replica drain hmax horders' hrecorded₁.counted hlogs₁ hfineDrain
  rw [runReplay, hevents, drainFinalPending, exec, ← hdrain, hdrained, hrun]
  exact cancelDayOrders_replica _ _

end

/-! ## When the replay agrees -/

/-- What the replay is compared by: the fills, the portfolio, and the closed trades and the number
of fills in analytics. -/
structure SameResult (s t : Sim σ) : Prop where
  fills : s.fills = t.fills
  cash : s.portfolio.cash = t.portfolio.cash
  positions : s.portfolio.positions = t.portfolio.positions
  tradeReturns : s.analytics.tradeReturns = t.analytics.tradeReturns
  totalFills : s.analytics.totalFills = t.analytics.totalFills

/-- The data are bars with times in whole microseconds; the log holds no fill and no rejection that
halts, and not half as many orders as may be open. -/
def Replayable (limits : RiskLimits) : MarketData → List Logged → Prop
  | .bars ms, log => (∀ m ∈ ms, truncateToMicros m.timestamp = m.timestamp) ∧
      log.any tells = false ∧ (2 * ordersIn log : Int) < limits.maxOpenOrders
  | .ticks _, _ => False

theorem halted_closed (cfg : BacktestConfig σ) : Closed cfg fun s => s.engine.haltFlag = true where
  call := handler_keeps cfg (fun _ _ => rfl) fun hs hstep => hstep.engine.haltFlag.trans hs
  market := fun _ _ hs => hs
  tick := fun _ _ hs => hs
  aggregated := fun _ _ hs => hs
  cancelDayOrders := fun _ hs => hs

/-- A logged fill is counted beside those that the replay applies. -/
theorem surplus_replayEvent (ev : Logged) (h : s.Surplus n) :
    (replayEvent cfg ev s).Surplus (n + fillsIn [ev]) := by
  have hclosed := surplus_closed cfg n
  cases ev with
  | market m => exact hclosed.runBar true _ h
  | tick t =>
    rw [replayEvent]
    split
    · exact hclosed.exec _ (hclosed.tick _ _ (hclosed.exec _ h))
    · exact hclosed.exec _ h
  | order o | rejection => exact h
  | fill f =>
    have hcount := totalFills_onFill s.analytics f
    rw [Surplus] at h
    change (s.analytics.onFill f).totalFills = s.fills.length + (n + 1)
    omega

theorem surplus_replayEvents (log : List Logged) (h : s.Surplus n) :
    (replayEvents cfg log s).engine.haltFlag = true ∨
      (replayEvents cfg log s).Surplus (n + fillsIn log) := by
  induction log generalizing s n with
  | nil => exact .inr h
  | cons ev log ih =>
    rw [replayEvents]
    split
    · rename_i hhalt
      exact .inl hhalt
    · have hcons : fillsIn ([ev] ++ log) = fillsIn [ev] + fillsIn log := countP_append
      rw [← singleton_append, hcons, ← Nat.add_assoc]
      exact ih (surplus_replayEvent ev h)

/-- **When a replay agrees with its run.** -/
theorem replay_same (cfg : BacktestConfig σ) (data : MarketData) (seed nextId : Nat)
    (strategies : List σ) (hlogs : cfg.logs = true) :
    let s := run cfg data (.init cfg seed nextId strategies)
    let log := s.log.getD []
    let t := runReplay cfg log (.init cfg seed nextId strategies)
    (Replayable cfg.limits data log → SameResult t s) ∧
      (SameResult t s → t.engine.haltFlag = true ∨ fillsIn log = 0) := by
  intro s log t
  have hlog : s.log = some log := by
    have hstart : Continues [] (start cfg.logs (.init cfg seed nextId strategies)) :=
      ⟨[], by rw [start, hlogs]; rfl⟩
    obtain ⟨new, hnew⟩ := (continues_closed cfg []).run data hstart
    simp only [log, s, hnew, Option.getD_some]
  constructor
  · intro hreplayable
    cases data with
    | ticks ts => exact hreplayable.elim
    | bars ms =>
      obtain ⟨htime, htells, hmax⟩ := hreplayable
      have heq : t = s.replica (ordersIn log) :=
        runReplay_eq hmax hlogs htime seed nextId strategies ⟨log, hlog, htells, le_rfl⟩ hlog
      rw [heq]
      exact ⟨rfl, rfl, rfl, rfl, rfl⟩
  · intro hsame
    have hrun : s.Surplus 0 := (surplus_closed cfg 0).run data rfl
    have hstart : (start false (.init cfg seed nextId strategies)).Surplus 0 := rfl
    rcases surplus_replayEvents log hstart with hhalt | hsurplus
    · exact .inl ((halted_closed cfg).cancelDayOrders _ ((halted_closed cfg).exec _ hhalt))
    · have hfinal : t.Surplus (0 + fillsIn log) :=
        (surplus_closed cfg _).cancelDayOrders _ ((surplus_closed cfg _).exec _ hsurplus)
      rw [Surplus] at hrun hfinal
      rw [hsame.totalFills, hsame.fills] at hfinal
      exact .inr (by omega)

instance (limits : RiskLimits) (data : MarketData) (log : List Logged) :
    Decidable (Replayable limits data log) := by
  cases data <;> rw [Replayable] <;> infer_instance

/-- Bid far below the market once. -/
def bidLow : Strategy Bool := .ofMarket fun m sent =>
  (if sent then none else some (.new m.timestamp 0 m.symbol .limit .buy 1 (m.close / 2) .gtc 0),
   true)

/-- A bid that rests until the end. -/
theorem replay_same_of_bid :
    let cfg := plain bidLow
    let s := run cfg twoBars (.init cfg 7 1 [false])
    let log := s.log.getD []
    cfg.logs = true ∧ ordersIn log = 1 ∧ Replayable cfg.limits twoBars log ∧
      SameResult (runReplay cfg log (.init cfg 7 1 [false])) s := by
  have hreplayable : Replayable (plain bidLow).limits twoBars
      ((run (plain bidLow) twoBars (.init (plain bidLow) 7 1 [false])).log.getD []) := by
    decide +kernel
  exact ⟨rfl, by decide +kernel, hreplayable,
    (replay_same (plain bidLow) twoBars 7 1 [false] rfl).1 hreplayable⟩

/-- Buy one unit on the first bar and sell it on the second. -/
def buyThenSell : Strategy Nat := .ofMarket fun m n =>
  (if n = 0 then some (.new m.timestamp 0 m.symbol .market .buy 1 m.close .gtc 0)
    else if n = 1 then some (.new m.timestamp 0 m.symbol .market .sell 1 m.close .gtc 0)
    else none, n + 1)

def threeBars : MarketData := .bars [flatBar 1000 100, flatBar 2000 100, flatBar 3000 100]

/-- One trade is closed in the run, and two in the analytics of its replay. -/
theorem replay_not_same :
    let cfg := plain buyThenSell
    let s := run cfg threeBars (.init cfg 7 1 [0])
    let t := runReplay cfg (s.log.getD []) (.init cfg 7 1 [0])
    s.fills = t.fills ∧ s.analytics.tradeReturns.length = 1 ∧ t.analytics.tradeReturns.length = 2 ∧
      s.analytics.totalFills = 2 ∧ t.analytics.totalFills = 4 ∧ ¬ SameResult t s := by
  have hrun :
      (run (plain buyThenSell) threeBars (.init (plain buyThenSell) 7 1 [0])).analytics.totalFills =
      2 := by decide +kernel
  have hreplay : (runReplay (plain buyThenSell)
      ((run (plain buyThenSell) threeBars (.init (plain buyThenSell) 7 1 [0])).log.getD [])
      (.init (plain buyThenSell) 7 1 [0])).analytics.totalFills = 4 := by decide +kernel
  refine ⟨by decide +kernel, by decide +kernel, by decide +kernel, hrun, hreplay, fun hsame => ?_⟩
  have htotal := hsame.totalFills
  rw [hrun, hreplay] at htotal
  cases htotal

end Backtest

end TrueTest
