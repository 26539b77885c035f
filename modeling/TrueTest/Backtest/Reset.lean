import TrueTest.Backtest.Alike

/-!
# Reusing an engine

`reset_for_next_trial` of `engine/engine.cpp` makes a used engine ready for another run. It resets
the portfolio, analytics, the exit manager, the tracker, the risk manager, the market maker and the
order attribution, and it clears the registry of books. It does not touch `execution_adapters_`: an
adapter of the last run keeps its orders, its draws and its pointer to a book that the registry has
cleared and dropped. The next run quotes a new book, and sends its orders to the old one.

`outcome_reset` says when that does not show: the next run calls no adapter that is left, and
samples no latency if the last run did. Up to the adapters that are left, the reset engine and a new
one then go through the same states (`Burdened`).
-/

namespace TrueTest

open Machine Program AList

def Portfolio.reset (p : Portfolio) : Portfolio :=
  { p with
    cash := p.initialBalance
    positions := ∅
    lots := ∅
    totalTrades := 0
    totalFills := 0
    totalFundingPnl := 0 }

/-- The bracket adapter is set once, at startup. -/
def ExitManager.reset (m : ExitManager) : ExitManager :=
  { m with
    pending := []
    armed := []
    openerRemainingQty := ∅
    openerCloseInFlightQty := ∅
    strategySymbolToOpeners := []
    handles := ∅
    exchangeToLeg := ∅
    venueCancels := [] }

def RiskManager.reset (_ : RiskManager) : RiskManager := ⟨[], [], 0, 0, 0⟩

def MarketMaker.reset (_ : MarketMaker) : MarketMaker := ⟨[], ∅⟩

namespace Sim

variable {σ : Type} (cfg : BacktestConfig σ) (s : Sim σ)

/-- What `orderbook_registry_.clear()` leaves an adapter with: its book, cleared. A book the
registry dropped earlier is not cleared again. -/
def detach (symbol : String) (a : BookAdapter) : BookAdapter :=
  { a with detached := some (a.detached.getD (s.bookOf symbol).clear) }

def detachedAdapters : AList fun _ : String => BookAdapter where
  entries := s.adapters.entries.map fun x => ⟨x.1, s.detach x.1 x.2⟩
  nodupKeys := by
    have hkeys := s.adapters.nodupKeys
    rw [List.NodupKeys] at hkeys ⊢
    rwa [List.keys, List.map_map]

/-- `reset_for_next_trial`. What was done is forgotten with the trial. -/
def resetForNextTrial (seed : Nat) : Sim σ :=
  { s with
    portfolio := s.portfolio.reset
    analytics := s.analytics.reset (if 0 < cfg.initialBalance then cfg.initialBalance else 10000)
    engine := { s.engine with
      exitManager := s.engine.exitManager.reset
      orderTracker := .init
      orderMeta := ∅
      acts := [] }
    riskManager := s.riskManager.reset
    seed := seed
    lastMidPrice := 0
    registry := ∅
    adapters := s.detachedAdapters
    marketMaker := s.marketMaker.reset
    orderTimes := ∅ }

/-- The same engine with other strategy objects, or with these after their own reset. -/
def withStrategies (strategies : List σ) : Sim σ := { s with strategies := strategies }

/-- What a trial is judged by. -/
structure Outcome where
  fills : List FillEvent
  portfolio : Portfolio
  analytics : Analytics

/-- The fills in the order they were applied. -/
def fills : List FillEvent := fillsApplied s.engine.acts

def outcome : Outcome := ⟨s.fills, s.portfolio, s.analytics⟩

theorem fills_eq_of_outcome_eq {s t : Sim σ} (h : s.outcome = t.outcome) : s.fills = t.fills :=
  congrArg Outcome.fills h

/-- The parts that the configuration sets are as it sets them. -/
structure Configured : Prop where
  config : s.engine.config = cfg.engine
  pauseAll : s.engine.pauseAll = false
  flattenRequest : s.engine.flattenRequest = false
  adapter : s.engine.exitManager.hasBracketAdapter = cfg.engine.hasBracketAdapter
  balance : s.portfolio.initialBalance = cfg.initialBalance

variable {cfg s} {fs : List FillEvent}

theorem Configured.of_kept {s₁ : Sim σ} (h : s.Configured cfg) (hkept : s.engine.Kept fs s₁.engine)
    (hbalance : s₁.portfolio.initialBalance = s.portfolio.initialBalance) : s₁.Configured cfg where
  config := hkept.config.trans h.config
  pauseAll := hkept.pauseAll.trans h.pauseAll
  flattenRequest := hkept.flattenRequest.trans h.flattenRequest
  adapter := hkept.adapter.trans h.adapter
  balance := hbalance.trans h.balance

theorem Entry.initialBalance {b b₁ : Books} (h : Entry b fs b₁) :
    b₁.portfolio.initialBalance = b.portfolio.initialBalance := by
  cases h with
  | fill f => exact (Portfolio.onFill_totalFills b.portfolio f _ _).2
  | _ => rfl

end Sim

namespace Backtest

variable {σ : Type} {cfg : BacktestConfig σ} {s : Sim σ}

theorem configured_closed (cfg : BacktestConfig σ) : Closed cfg (Sim.Configured cfg) where
  call := handler_keeps cfg
    (fun _ hs => ⟨hs.config, hs.pauseAll, hs.flattenRequest, hs.adapter, hs.balance⟩)
    fun hs hstep => hs.of_kept hstep.engine hstep.entry.initialBalance
  market := fun _ _ hs => hs.of_kept (.refl _) rfl
  tick := fun _ _ hs => hs.of_kept (.refl _) rfl
  aggregated := fun _ _ hs => hs.of_kept (.refl _) rfl
  cancelDayOrders := fun _ hs => hs.of_kept (.refl _) rfl

/-- The state after any run of a new engine is configured. -/
theorem configured_run (cfg : BacktestConfig σ) (seed nextId : Nat) (strategies : List σ)
    (data : MarketData) : (run cfg data (.init cfg seed nextId strategies)).Configured cfg :=
  (configured_closed cfg).run data ⟨rfl, rfl, rfl, rfl, rfl⟩

end Backtest

/-! ## Adapters that are left -/

namespace Sim

variable {σ : Type} {cfg : BacktestConfig σ} {s t : Sim σ} {n : Nat} {left : String → Prop}
  {symbol : String} {f : LocalBook → LocalBook}

/-- The state with adapters of an earlier run under the symbols `left`, and after `n` more
latencies. -/
inductive Burdened (left : String → Prop) (n : Nat) (s : Sim σ) : Sim σ → Prop
  | recast (adapters : AList fun _ : String => BookAdapter) (log : Option (List Logged))
      (own : ∀ symbol, ¬ left symbol → adapters.lookup symbol = s.adapters.lookup symbol) :
      Burdened left n s (s.recast s.registry adapters log (n + s.latencies) 0)

/-- The same answer, and the state stays burdened. -/
def Burdens {α : Type} (left : String → Prop) (n : Nat) (r r₁ : α × Sim σ) : Prop :=
  r.1 = r₁.1 ∧ r.2.Burdened left n r₁.2

section

variable (h : s.Burdened left n t)
include h

theorem Burdened.outcome : t.outcome = s.outcome := by
  cases h
  rfl

theorem Burdened.haltFlag : t.engine.haltFlag = s.engine.haltFlag := by
  cases h
  rfl

theorem Burdened.framed {α : Type} {op : Sim σ → α × Sim σ} (hop : s.Framed op) :
    Burdens left n (op s) (op t) := by
  obtain ⟨hregistry, hadapters, hlatencies⟩ := hop.left
  cases h with
  | recast adapters old own =>
    obtain ⟨log, hlog⟩ := hop s.registry adapters old (n + s.latencies)
    rw [hlog, ← hregistry, ← hlatencies]
    rw [← hadapters] at own
    exact ⟨rfl, .recast adapters log own⟩

/-- An adapter of its own is called as by a new engine. -/
theorem Burdened.callAdapter (a : BookAdapter) :
    Burdens left n (s.callAdapter symbol a f) (t.callAdapter symbol a f) := by
  cases h with
  | recast adapters log own =>
    refine ⟨rfl, .recast _ log fun other hother => ?_⟩
    by_cases hsame : other = symbol
    · rw [hsame]
      simp only [Sim.callAdapter, lookup_insert]
      rfl
    · exact ((lookup_insert_ne hsame).trans (own other hother)).trans (lookup_insert_ne hsame).symm

theorem Burdened.lookup (hleft : ¬ left symbol) :
    t.adapters.lookup symbol = s.adapters.lookup symbol := by
  cases h with
  | recast adapters log own => exact own symbol hleft

theorem Burdened.callCached (hleft : ¬ left symbol) :
    Burdens left n (s.callCached symbol f) (t.callCached symbol f) := by
  rw [Sim.callCached, Sim.callCached, h.lookup hleft]
  cases s.adapters.lookup symbol with
  | none => exact ⟨rfl, h⟩
  | some a => exact h.callAdapter a

theorem Burdened.replenish (price : ℚ) (update : Bool) (ts : Int)
    (hleft : (s.requote cfg symbol price update).1.isEmpty = false → ¬ left symbol) :
    Burdens left n (s.replenish cfg symbol price update ts)
      (t.replenish cfg symbol price update ts) := by
  have hquote :
      Burdens left n (s.requote cfg symbol price update) (t.requote cfg symbol price update) := by
    cases h with
    | recast adapters log own => exact ⟨rfl, .recast adapters log own⟩
  rw [Sim.replenish, Sim.replenish, ← hquote.1]
  split
  · exact ⟨rfl, hquote.2⟩
  · next hsome => exact hquote.2.callCached (hleft (Bool.eq_false_iff.2 hsome))

theorem Burdened.submit {o : OrderEvent} (hleft : ¬ left o.symbol) :
    Burdens left n (s.submit cfg o) (t.submit cfg o) := by
  have hlookup := h.lookup hleft
  cases h with
  | recast adapters log own =>
    have hplace : (s.place o).Burdened left n
        ((s.recast s.registry adapters log (n + s.latencies) 0).place o) := .recast adapters _ own
    rw [Sim.submit, Sim.submit, resolveAdapter, resolveAdapter, hlookup]
    exact hplace.callAdapter _

end

end Sim

namespace Backtest

open Sim

variable {σ : Type} {cfg : BacktestConfig σ} {s t : Sim σ} {n : Nat} {left : String → Prop}

/-- A call, with the state of a new engine in which it is made, that does not reach an adapter under
the symbols `left`, and samples no latency if there were some before. -/
def Spares (cfg : BacktestConfig σ) (left : String → Prop) (n : Nat) : Op × Sim σ → Prop
  | (.submit o, _) => ¬ left o.symbol
  | (.sweep symbol _ _ _, _) => ¬ left symbol
  | (.replenish symbol price update _, s) =>
    (s.requote cfg symbol price update).1.isEmpty = false → ¬ left symbol
  | (.orderLatency, _) => n = 0
  | _ => True

instance [DecidablePred left] : DecidablePred (Spares cfg left n) := fun c => by
  obtain ⟨o, s⟩ := c
  induction o using Op.casesOn <;> unfold Spares <;> infer_instance

theorem handler_burdened (o : Op) (hspares : Spares cfg left n (o, s)) (h : s.Burdened left n t) :
    Burdens left n (handler cfg o s) (handler cfg o t) := by
  cases o with
  | submit o => exact h.submit hspares
  | sweep symbol low high ts => exact h.callCached hspares
  | replenish symbol price update ts => exact h.replenish price update ts hspares
  | orderLatency =>
    obtain rfl : n = 0 := hspares
    cases h with
    | recast adapters log own => exact ⟨by simp [handler, recast], .recast adapters log own⟩
  | _ => exact h.framed (handler_framed s _ rfl)

/-! ## The calls of a run -/

section Calls

variable (cfg)

def emitCalls (m : MarketEvent) (s : Sim σ) : List (Op × Sim σ) :=
  (decideOnMarket cfg.engine cfg.strategies.length m).trace (handler cfg)
    { s with analytics := s.analytics.onMarket m }

def barCalls (m : MarketEvent) (s : Sim σ) : List (Op × Sim σ) :=
  let head := barHead cfg.engine false m
  let r := head.run (handler cfg) s
  head.trace (handler cfg) s ++ if r.1 then emitCalls cfg m (r.2.record (.market m)) else []

def barsCalls : List MarketEvent → Sim σ → List (Op × Sim σ)
  | [], _ => []
  | m :: ms, s =>
    if s.engine.haltFlag then []
    else barCalls cfg m s ++
      if cfg.strategies.isEmpty then [] else barsCalls ms (runBar cfg false m s)

def tickCalls (t : Tick) (s : Sim σ × OpenBar) : List (Op × Sim σ) :=
  let head := tickHead cfg.engine true t
  let decide := decideOnTick cfg.engine cfg.strategies.length t
  let r := head.run (handler cfg) s.1
  let d := decide.run (handler cfg) (tick t r.2)
  head.trace (handler cfg) s.1 ++
    if r.1 then decide.trace (handler cfg) (tick t r.2) ++
      if d.1 then (aggregate s.2 t).1.toList.flatMap (emitCalls cfg · d.2) else []
    else []

def ticksCalls : List Tick → Sim σ × OpenBar → List (Op × Sim σ)
  | [], _ => []
  | t :: ts, s =>
    if s.1.engine.haltFlag then [] else tickCalls cfg t s ++ ticksCalls ts (runTick cfg t s)

/-- The calls of `run`, each with the state it is made in. -/
def runCalls : MarketData → Sim σ → List (Op × Sim σ)
  | .bars ms, s =>
    barsCalls cfg ms (start cfg.logs s) ++
      (drainPending cfg.engine none).trace (handler cfg) (runBars cfg ms (start cfg.logs s))
  | .ticks ts, s =>
    let b := runTicks cfg ts (start cfg.logs s, none)
    ticksCalls cfg ts (start cfg.logs s, none) ++ (b.2.toList.flatMap (emitCalls cfg · b.1) ++
      (drainPending cfg.engine none).trace (handler cfg) (flush cfg b))

end Calls

section Runs

variable (h : s.Burdened left n t)
include h

theorem run_burdened {α : Type} (p : M α)
    (hcalls : ∀ c ∈ p.trace (handler cfg) s, Spares cfg left n c) :
    Burdens left n (p.run (handler cfg) s) (p.run (handler cfg) t) :=
  run_simulates_of_trace (Burdened left n) (Spares cfg left n)
    (fun o _ _ hspares h => handler_burdened o hspares h) p h hcalls

theorem burdened_record (ev : Logged) : (s.record ev).Burdened left n (t.record ev) := by
  cases h with
  | recast adapters log own => exact .recast adapters _ own

theorem burdened_analytics (observe : Analytics → Analytics) :
    Burdened left n { s with analytics := observe s.analytics }
      { t with analytics := observe t.analytics } := by
  cases h with
  | recast adapters log own => exact .recast adapters log own

theorem emitBar_burdened (m : MarketEvent) (hcalls : ∀ c ∈ emitCalls cfg m s, Spares cfg left n c) :
    (emitBar cfg m s).Burdened left n (emitBar cfg m t) :=
  (run_burdened (burdened_analytics h (·.onMarket m)) _ hcalls).2

theorem runBar_burdened (m : MarketEvent) (hcalls : ∀ c ∈ barCalls cfg m s, Spares cfg left n c) :
    (runBar cfg false m s).Burdened left n (runBar cfg false m t) := by
  rw [barCalls, List.forall_mem_append] at hcalls
  obtain ⟨hanswer, hhead⟩ := run_burdened h (barHead cfg.engine false m) hcalls.1
  rw [runBar, runBar, ← hanswer]
  split
  · next hgoes =>
    rw [if_pos hgoes] at hcalls
    exact emitBar_burdened (burdened_record hhead (.market m)) m hcalls.2
  · exact hhead

theorem runBars_burdened (ms : List MarketEvent)
    (hcalls : ∀ c ∈ barsCalls cfg ms s, Spares cfg left n c) :
    (runBars cfg ms s).Burdened left n (runBars cfg ms t) := by
  induction ms generalizing s t with
  | nil => exact h
  | cons m ms ih =>
    rw [runBars, runBars, h.haltFlag]
    rw [barsCalls] at hcalls
    split
    · exact h
    · next hgoes =>
      rw [if_neg hgoes, List.forall_mem_append] at hcalls
      have hbar := runBar_burdened h m hcalls.1
      split
      · exact hbar
      · next hsome =>
        rw [if_neg hsome] at hcalls
        exact ih hbar hcalls.2

end Runs

section Ticks

variable {p q : Sim σ × OpenBar} (h : p.1.Burdened left n q.1 ∧ p.2 = q.2)
include h

theorem flush_burdened (hcalls : ∀ c ∈ p.2.toList.flatMap (emitCalls cfg · p.1),
    Spares cfg left n c) :
    (flush cfg p).Burdened left n (flush cfg q) := by
  obtain ⟨s, b⟩ := p
  obtain ⟨t, b'⟩ := q
  obtain ⟨hst, rfl⟩ : s.Burdened left n t ∧ b = b' := h
  cases b with
  | none => exact hst
  | some bar =>
    rw [Option.toList_some, List.flatMap_singleton] at hcalls
    exact emitBar_burdened hst bar hcalls

theorem runTick_burdened (tk : Tick) (hcalls : ∀ c ∈ tickCalls cfg tk p, Spares cfg left n c) :
    (runTick cfg tk p).1.Burdened left n (runTick cfg tk q).1 ∧
      (runTick cfg tk p).2 = (runTick cfg tk q).2 := by
  rw [tickCalls, List.forall_mem_append] at hcalls
  obtain ⟨hanswer, hhead⟩ := run_burdened h.1 (tickHead cfg.engine true tk) hcalls.1
  rw [runTick, runTick, ← hanswer, ← h.2]
  generalize (tickHead cfg.engine true tk).run (handler cfg) p.1 = r at *
  generalize (tickHead cfg.engine true tk).run (handler cfg) q.1 = r₁ at *
  split
  · next hgoes =>
    rw [if_pos hgoes, List.forall_mem_append] at hcalls
    have htick : (tick tk r.2).Burdened left n (tick tk r₁.2) :=
      burdened_analytics (burdened_record hhead (.tick tk)) (·.onTick tk)
    obtain ⟨hdecides, hdecided⟩ :=
      run_burdened htick (decideOnTick cfg.engine cfg.strategies.length tk) hcalls.2.1
    dsimp only
    rw [← hdecides]
    generalize (decideOnTick cfg.engine cfg.strategies.length tk).run (handler cfg) (tick tk r.2)
      = d at *
    split
    · next hstays =>
      rw [if_pos hstays] at hcalls
      exact ⟨flush_burdened (p := (d.2, _)) (q := (_, _)) ⟨hdecided, rfl⟩ hcalls.2.2, rfl⟩
    · exact ⟨hdecided, rfl⟩
  · exact ⟨hhead, rfl⟩

theorem runTicks_burdened (ts : List Tick)
    (hcalls : ∀ c ∈ ticksCalls cfg ts p, Spares cfg left n c) :
    (runTicks cfg ts p).1.Burdened left n (runTicks cfg ts q).1 ∧
      (runTicks cfg ts p).2 = (runTicks cfg ts q).2 := by
  induction ts generalizing p q with
  | nil => exact h
  | cons tk ts ih =>
    rw [runTicks, runTicks, h.1.haltFlag]
    rw [ticksCalls] at hcalls
    split
    · exact h
    · next hgoes =>
      rw [if_neg hgoes, List.forall_mem_append] at hcalls
      exact ih (runTick_burdened h tk hcalls.1) hcalls.2

end Ticks

/-- A run from a burdened start ends burdened, if its calls spare what is left. -/
theorem run_burdened_of_start (data : MarketData)
    (h : (start cfg.logs s).Burdened left n (start cfg.logs t))
    (hcalls : ∀ c ∈ runCalls cfg data s, Spares cfg left n c) :
    (run cfg data s).Burdened left n (run cfg data t) := by
  cases data with
  | bars ms =>
    obtain ⟨hbars, hdrain⟩ := List.forall_mem_append.1 hcalls
    have hcancel : ∀ {s t : Sim σ}, s.Burdened left n t →
        (cancelDayOrders s).Burdened left n (cancelDayOrders t) := by
      intro s t h
      cases h with
      | recast adapters log own => exact .recast adapters log own
    exact hcancel (run_burdened (runBars_burdened h ms hbars) _ hdrain).2
  | ticks ts =>
    obtain ⟨hticks, hrest⟩ := List.forall_mem_append.1 hcalls
    obtain ⟨hflush, hdrain⟩ := List.forall_mem_append.1 hrest
    have hstates := runTicks_burdened (p := (_, none)) (q := (_, none)) ⟨h, rfl⟩ ts hticks
    exact (run_burdened (flush_burdened hstates hflush) _ hdrain).2

/-! ## A reset engine -/

/-- After a reset the engine is a new one but for the adapters and the latencies. -/
theorem start_reset (hs : s.Configured cfg) (hbalance : 0 < cfg.initialBalance) (seed : Nat)
    (strategies : List σ) :
    (start cfg.logs (.init cfg seed s.engine.nextOrderId strategies)).Burdened (· ∈ s.adapters)
      s.latencies (start cfg.logs ((s.resetForNextTrial cfg seed).withStrategies strategies)) := by
  have hexits : s.engine.exitManager.reset = ExitManager.init cfg.engine.hasBracketAdapter := by
    rw [ExitManager.reset, hs.adapter]
    rfl
  have hportfolio : s.portfolio.reset = .init cfg.initialBalance := by
    rw [Portfolio.reset, hs.balance]
    rfl
  have hstart : start cfg.logs ((s.resetForNextTrial cfg seed).withStrategies strategies) =
      (start cfg.logs (.init cfg seed s.engine.nextOrderId strategies)).recast ∅ s.detachedAdapters
        (if cfg.logs then some [] else none) (s.latencies + 0) 0 := by
    simp only [start, Sim.withStrategies, Sim.resetForNextTrial, Sim.init, Engine.init, hexits,
      hportfolio, hs.config, hs.pauseAll, hs.flattenRequest, if_pos hbalance]
    rfl
  rw [hstart]
  refine .recast _ _ fun symbol hnone => ?_
  have hkeys : symbol ∉ s.detachedAdapters := by
    rwa [mem_keys, AList.keys, detachedAdapters, List.keys, List.map_map]
  exact lookup_eq_none.2 hkeys

def twoBars : MarketData := .bars [flatBar 1000 100, flatBar 2000 100]

/-- Two bars of another symbol. -/
def otherBars : MarketData :=
  .bars [{ flatBar 1000 100 with symbol := "Y" }, { flatBar 2000 100 with symbol := "Y" }]

end Backtest

end TrueTest
