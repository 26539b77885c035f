import TrueTest.Backtest.Effects

/-!
# The clocks of the adapters

An adapter knows the time for its cancels in flight alone. A call of another kind neither reads nor
sets it (`Timeless`), and no primitive of the engine reads the log. So on states that differ only in
their clocks and logs (`Alike`) every primitive, and with it every program, does the same.
-/

namespace TrueTest

open Machine Program AList LocalBook

/-! ## Calls that do not depend on the time -/

variable {α : Type} {f : LocalBook → LocalBook} (symbol : String) (a : LocalBook) (ts : Int)

namespace LocalBook

variable {cfg : LocalBookConfig} (o : OrderEvent) (p : Nat)

def atTime (now : Int) (a : LocalBook) : LocalBook := { a with currentTime := now }

/-- A call that neither reads nor sets the time. -/
def Timeless (f : LocalBook → LocalBook) : Prop := ∀ a now, f (a.atTime now) = (f a).atTime now

theorem Timeless.foldl {f : LocalBook → α → LocalBook} (hf : ∀ x, Timeless (f · x))
    (xs : List α) : Timeless (xs.foldl f) := by
  intro a now
  exact List.foldl_hom (atTime now) fun a x => hf x a now

theorem recordRestingFill_atTime (a : LocalBook) (ti : TradeInfo) (now : Int) :
    (a.atTime now).recordRestingFill cfg ts ti = (a.recordRestingFill cfg ts ti).atTime now := by
  have hresting : (a.atTime now).resting = a.resting := rfl
  rw [recordRestingFill, recordRestingFill, hresting]
  cases a.resting.lookup ti.orderId with
  | none => rfl
  | some ri =>
    rw [apply_ite (atTime now)]
    rfl

theorem recordTakerFill_atTime (ours counter : TradeInfo)
    (now : Int) : (a.atTime now).recordTakerFill cfg o p ours counter =
      (a.recordTakerFill cfg o p ours counter).atTime now := by
  rw [recordTakerFill, recordTakerFill, apply_ite (atTime now)]
  rfl

theorem timeless_recordTrade (t : Trade) : Timeless (recordTrade cfg o p · t) := by
  intro a now
  have hmaker (c : Prop) [Decidable c] (counter : TradeInfo) :
      (if c then (a.atTime now).recordRestingFill cfg o.earliestEligibleTs counter
        else a.atTime now) =
        (if c then a.recordRestingFill cfg o.earliestEligibleTs counter else a).atTime now := by
    rw [apply_ite (atTime now), recordRestingFill_atTime]
  simp only [recordTrade]
  rw [hmaker, recordTakerFill_atTime]
  exact (apply_ite (atTime now) _ _ _).symm

theorem timeless_submitOrder (draw : ℚ) : Timeless (submitOrder cfg · o draw) := by
  intro a now
  have htrade : ∀ t, Timeless (recordTrade cfg o (a.place cfg o).1 · t) := timeless_recordTrade o _
  have htrades := Timeless.foldl htrade (a.place cfg o).2.1 (a.place cfg o).2.2 now
  exact (congrArg (fun b => if a.accepts cfg o draw then b else a.atTime now) htrades).trans
    (apply_ite (atTime now) (a.accepts cfg o draw = true) _ _).symm

theorem timeless_onBookTrades (trades : Trades) (ts : Int) :
    Timeless (onBookTrades cfg · trades ts) := by
  refine .foldl (fun t a now => ?_) trades
  simp only [recordRestingFill_atTime]

theorem timeless_sweepOne (low high : ℚ) (ts : Int) (id : Nat) :
    Timeless (sweepOne cfg symbol low high ts · id) := by
  intro a now
  have hresting : (a.atTime now).resting = a.resting := rfl
  simp only [sweepOne, hresting]
  cases a.resting.lookup id with
  | none => rfl
  | some ri =>
    simp only [apply_ite (atTime now)]
    rfl

theorem timeless_sweepRestingRange (low high : ℚ) (ts : Int)
    (order : IterationOrder Nat) : Timeless (sweepRestingRange cfg · symbol low high ts order) := by
  intro a now
  have hone : ∀ id, Timeless (sweepOne cfg symbol (min low high) (max low high) ts · id) :=
    timeless_sweepOne symbol _ _ ts
  have hall := Timeless.foldl hone (order.run a.resting.keys) a now
  exact (congrArg (fun b => if ¬ 0 < low ∨ ¬ 0 < high then a.atTime now else b) hall).trans
    (apply_ite (atTime now) (¬ 0 < low ∨ ¬ 0 < high) _ _).symm

/-- Without a cancel in flight only the clock moves. -/
theorem advanceTime_eq_atTime (order : IterationOrder Nat)
    (h : a.pendingCancels.keys = []) : a.advanceTime ts order = a.atTime ts := by
  have hnone : order.run a.pendingCancels.keys = [] := by
    rw [h]
    exact List.perm_nil.1 (order.perm [])
  rw [advanceTime, hnone]
  rfl

end LocalBook

/-! ## States that differ in their clocks and logs -/

def BookAdapter.atTime (now : Int) (a : BookAdapter) : BookAdapter :=
  { a with state := a.state.atTime now }

namespace Sim

variable {σ : Type} {cfg : BacktestConfig σ} {s t : Sim σ}
  {registry : AList fun _ : String => Orderbook}

/-- The state with other books, adapters and another log. -/
def shelve (s : Sim σ) (registry : AList fun _ : String => Orderbook)
    (adapters : AList fun _ : String => BookAdapter) (log : Option (List Logged)) : Sim σ :=
  { s with registry := registry, adapters := adapters, log := log }

/-- A state with the same books, and the same adapters up to their times; the log may be another. -/
inductive Alike (s : Sim σ) : Sim σ → Prop
  | shelve (registry : AList fun _ : String => Orderbook)
      (adapters : AList fun _ : String => BookAdapter)
      (log : Option (List Logged))
      (book : ∀ symbol, (registry.lookup symbol).getD Orderbook.init = s.bookOf symbol)
      (adapter : ∀ symbol, ∃ now,
        adapters.lookup symbol = (s.adapters.lookup symbol).map (BookAdapter.atTime now)) :
      Alike s (s.shelve registry adapters log)

theorem Alike.refl (s : Sim σ) : s.Alike s := by
  refine .shelve s.registry s.adapters s.log (fun _ => rfl) fun symbol => ?_
  cases h : s.adapters.lookup symbol with
  | none => exact ⟨0, rfl⟩
  | some a => exact ⟨a.state.currentTime, rfl⟩

/-- The same answer, and states that are alike. -/
structure Alikes {α : Type} (r r₁ : α × Sim σ) : Prop where
  answer : r.1 = r₁.1
  state : r.2.Alike r₁.2

/-- The books stay the same if both registries get the same book. -/
theorem getD_lookup_insert {registry₁ : AList fun _ : String => Orderbook}
    (h : ∀ symbol, (registry₁.lookup symbol).getD Orderbook.init =
      (registry.lookup symbol).getD Orderbook.init)
    (symbol : String) (book : Orderbook) (other : String) :
    ((registry₁.insert symbol book).lookup other).getD Orderbook.init =
      ((registry.insert symbol book).lookup other).getD Orderbook.init := by
  by_cases hother : other = symbol
  · rw [hother, lookup_insert, lookup_insert]
  · rw [lookup_insert_ne hother, lookup_insert_ne hother]
    exact h other

/-- Putting back the book of a symbol changes no book. -/
theorem getD_lookup_insert_self {symbol : String}
    {book : Orderbook} (h : book = (registry.lookup symbol).getD Orderbook.init) (other : String) :
    ((registry.insert symbol book).lookup other).getD Orderbook.init =
      (registry.lookup other).getD Orderbook.init := by
  by_cases hother : other = symbol
  · rw [hother, lookup_insert, Option.getD_some, h]
  · rw [lookup_insert_ne hother]

section

variable (h : s.Alike t) (symbol : String)
include h

theorem Alike.callAdapter (a : BookAdapter) (now : Int) (hf : Timeless f) :
    Alikes (s.callAdapter symbol a f) (t.callAdapter symbol (a.atTime now) f) := by
  cases h with
  | shelve registry adapters log book adapter =>
    have hbook : (s.shelve registry adapters log).bookOf symbol = s.bookOf symbol := book symbol
    have hcalled : f { (a.atTime now).state with
        book := (a.atTime now).detached.getD ((s.shelve registry adapters log).bookOf symbol) } =
          (f { a.state with book := a.detached.getD (s.bookOf symbol) }).atTime now := by
      rw [hbook]
      exact hf { a.state with book := a.detached.getD (s.bookOf symbol) } now
    rw [callAdapter, callAdapter, hcalled]
    refine ⟨rfl, .shelve _ _ log ?_ ?_⟩
    · intro other
      cases hdetached : a.detached with
      | none =>
        simp only [BookAdapter.atTime, hdetached]
        exact getD_lookup_insert book symbol _ other
      | some own =>
        simp only [BookAdapter.atTime, hdetached]
        exact book other
    · intro other
      by_cases hother : other = symbol
      · rw [hother]
        refine ⟨now, ?_⟩
        rw [lookup_insert, lookup_insert]
        rfl
      · rw [lookup_insert_ne hother, lookup_insert_ne hother]
        exact adapter other

theorem Alike.callCached (hf : Timeless f) :
    Alikes (s.callCached symbol f) (t.callCached symbol f) := by
  have hcall := fun a now => h.callAdapter symbol a now hf
  cases h with
  | shelve registry adapters log book adapter =>
    obtain ⟨now, hnow⟩ := adapter symbol
    have hadapters : (s.shelve registry adapters log).adapters = adapters := rfl
    rw [callCached, callCached, hadapters, hnow]
    cases s.adapters.lookup symbol with
    | none => exact ⟨rfl, .shelve registry adapters log book adapter⟩
    | some a => exact hcall a now

theorem Alike.replenish (price : ℚ) (update : Bool) (ts : Int) :
    Alikes (s.replenish cfg symbol price update ts) (t.replenish cfg symbol price update ts) := by
  have hquote : Alikes (s.requote cfg symbol price update) (t.requote cfg symbol price update) := by
    cases h with
    | shelve registry adapters log book adapter =>
      have hbook : (s.shelve registry adapters log).bookOf symbol = s.bookOf symbol := book symbol
      rw [requote, requote, hbook]
      exact ⟨rfl, .shelve _ adapters log (getD_lookup_insert book symbol _) adapter⟩
  rw [Sim.replenish, Sim.replenish, ← hquote.answer]
  split
  · exact ⟨rfl, hquote.state⟩
  · exact hquote.state.callCached symbol (timeless_onBookTrades _ ts)

theorem Alike.resolveAdapter :
    ∃ now, t.resolveAdapter cfg symbol = (s.resolveAdapter cfg symbol).atTime now := by
  cases h with
  | shelve registry adapters log book adapter =>
    obtain ⟨now, hnow⟩ := adapter symbol
    have hadapters : (s.shelve registry adapters log).adapters = adapters := rfl
    rw [resolveAdapter, resolveAdapter, hadapters, hnow]
    cases s.adapters.lookup symbol with
    | none => exact ⟨0, rfl⟩
    | some a => exact ⟨now, rfl⟩

end

theorem Alike.submit (h : s.Alike t) (o : OrderEvent) :
    Alikes (s.submit cfg o) (t.submit cfg o) := by
  obtain ⟨now, hnow⟩ : ∃ now, t.resolveAdapter cfg o.symbol =
    (s.resolveAdapter cfg o.symbol).atTime now := h.resolveAdapter o.symbol
  rw [Sim.submit, Sim.submit, hnow]
  set a := s.resolveAdapter cfg o.symbol
  cases h with
  | shelve registry adapters log book adapter =>
    have hplace : (s.place o).Alike ((s.shelve registry adapters log).place o) :=
      .shelve registry adapters _ book adapter
    have hdrawn :
        (if s.draws cfg o then { a.atTime now with draws := a.draws + 1 } else a.atTime now) =
        (if s.draws cfg o then { a with draws := a.draws + 1 } else a).atTime now :=
      (apply_ite (BookAdapter.atTime now) (s.draws cfg o = true)
        { a with draws := a.draws + 1 } a).symm
    have hsubmit : Timeless fun l =>
        { l with midPrice := s.lastMidPrice, l2Seeded := false }.submitOrder cfg.book o
          (cfg.draw a.seed a.draws) := fun l now =>
      timeless_submitOrder o (cfg.draw a.seed a.draws)
        { l with midPrice := s.lastMidPrice, l2Seeded := false } now
    have hcall := hplace.callAdapter o.symbol
      (if s.draws cfg o then { a with draws := a.draws + 1 } else a) now hsubmit
    rw [← hdrawn] at hcall
    exact hcall

/-! ### What the books and the log do not enter -/

/-- The state with other books and adapters, another log, `n` latencies sampled and `k` more orders
counted. -/
def recast (s : Sim σ) (registry : AList fun _ : String => Orderbook)
    (adapters : AList fun _ : String => BookAdapter) (log : Option (List Logged)) (n k : Nat) :
    Sim σ :=
  { s with
    registry := registry, adapters := adapters, log := log, latencies := n
    analytics := s.analytics.withOrders k }

/-- A part that the books, the log, the latencies and the number of orders do not enter. To the log
it can only add. -/
def Blind {α : Type} (op : Sim σ → α × Sim σ) (s : Sim σ) : Prop :=
  ∃ note : Option (List Logged) → Option (List Logged), note none = none ∧
    ∀ registry adapters log n k, op (s.recast registry adapters log n k) =
      ((op s).1, (op s).2.recast registry adapters (note log) n k)

section Shelve

variable (cfg) (s) (registry : AList fun _ : String => Orderbook)
  (adapters : AList fun _ : String => BookAdapter) (log : Option (List Logged)) (n k i : Nat)
  (f : Strategy σ → σ → α × σ) (o : OrderEvent)

theorem callStrategy_recast :
    (s.recast registry adapters log n k).callStrategy cfg i f =
      ((s.callStrategy cfg i f).1,
      (s.callStrategy cfg i f).2.recast registry adapters log n k) := by
  have hstrategies : (s.recast registry adapters log n k).strategies = s.strategies := rfl
  rw [callStrategy, callStrategy, hstrategies]
  cases cfg.strategies[i]? with
  | none => rfl
  | some strategy => cases s.strategies[i]? <;> rfl

theorem dispatchFillToStrategy_recast (f : FillEvent) :
    (s.recast registry adapters log n k).dispatchFillToStrategy cfg f =
      (s.dispatchFillToStrategy cfg f).recast registry adapters log n k := by
  have hengine : (s.recast registry adapters log n k).engine = s.engine := rfl
  rw [dispatchFillToStrategy, dispatchFillToStrategy, hengine]
  split
  · rfl
  · split
    · rw [callStrategy_recast]
    · rfl

theorem blind_callStrategy {β : Type} (g : Option α → β) :
    s.Blind fun s => (g (s.callStrategy cfg i f).1, (s.callStrategy cfg i f).2) := by
  refine ⟨id, rfl, fun registry adapters log n k => ?_⟩
  dsimp only
  rw [callStrategy_recast]
  rfl

theorem blind_onMarket (m : MarketEvent) : s.Blind fun s => s.onMarket cfg i m :=
  s.blind_callStrategy cfg i (fun strategy => strategy.onMarket m) fun r => r.join.map (named cfg i)

theorem blind_onTick (t : Tick) : s.Blind fun s => s.onTick cfg i t :=
  s.blind_callStrategy cfg i (fun strategy => strategy.onTick t) fun r => r.join.map (named cfg i)

theorem blind_applyFill (f : FillEvent) : s.Blind fun s => ((), s.applyFill cfg f) := by
  refine ⟨(·.map (· ++ [.fill (s.engine.stampFillAttribution f)])), rfl,
    fun registry adapters log n k => ?_⟩
  have hengine : (s.recast registry adapters log n k).engine = s.engine := rfl
  have hrecord :
      (s.recast registry adapters log n k).record (.fill (s.engine.stampFillAttribution f)) =
      (s.record (.fill (s.engine.stampFillAttribution f))).recast registry adapters
        (log.map (· ++ [.fill (s.engine.stampFillAttribution f)])) n k := rfl
  dsimp only
  rw [applyFill, applyFill, hengine, hrecord, dispatchFillToStrategy_recast]
  simp only [recast, Analytics.withOrders_onFill]
  rfl

theorem blind_finalizeStrategyRoute (halted : Bool) :
    s.Blind fun s => ((), s.finalizeStrategyRoute cfg i o halted) := by
  refine ⟨id, rfl, fun registry adapters log n k => ?_⟩
  have hengine : (s.recast registry adapters log n k).engine = s.engine := rfl
  dsimp only
  rw [finalizeStrategyRoute, finalizeStrategyRoute, callStrategy_recast, hengine]
  by_cases hresync : ¬ halted ∧ (o.orderId = 0 ∨
    s.engine.orderTracker.getOrderStatus o.orderId = .rejected)
  · simp only [if_pos hresync]
    rfl
  · simp only [if_neg hresync]
    rfl

theorem blind_accept (close : Bool) : s.Blind fun s => s.accept o close := by
  have henroll (registry adapters log n k) : (s.recast registry adapters log n k).enroll o close =
      ((s.enroll o close).1, (s.enroll o close).2.recast registry adapters log n k) := rfl
  cases hgood : ((s.enroll o close).2.engine.applySpec (s.enroll o close).1).1 with
  | true =>
    refine ⟨id, rfl, fun registry adapters log n k => ?_⟩
    dsimp only
    rw [accept, accept, henroll]
    simp only [recast, hgood, ↓reduceIte]
    rfl
  | false =>
    refine ⟨(·.map (· ++ [.rejection o.earliestEligibleTs (s.enroll o close).1.symbol
      (s.enroll o close).1.orderId Refusal.venueFilter.reason])), rfl,
      fun registry adapters log n k => ?_⟩
    dsimp only
    rw [accept, accept, henroll]
    simp only [recast, hgood, Bool.false_eq_true, ↓reduceIte]
    rfl

theorem checkOrder_recast : ∃ log₁,
    (s.recast registry adapters log n 0).checkOrder cfg o =
      ((s.checkOrder cfg o).1, (s.checkOrder cfg o).2.recast registry adapters log₁ n 0) := by
  have hcheck : (s.recast registry adapters log n 0).riskManager.checkOrder cfg.limits o
      ((s.recast registry adapters log n 0).orderTime o)
      (s.recast registry adapters log n 0).portfolio
      (s.recast registry adapters log n 0).analytics.riskView =
        s.riskManager.checkOrder cfg.limits o (s.orderTime o) s.portfolio
          s.analytics.riskView := rfl
  rw [checkOrder, checkOrder, hcheck]
  cases (s.riskManager.checkOrder cfg.limits o (s.orderTime o) s.portfolio
      s.analytics.riskView).1 <;>
    exact ⟨_, rfl⟩

end Shelve

/-- A part that the books, the log and the latencies do not enter. -/
def Framed (op : Sim σ → α × Sim σ) (s : Sim σ) : Prop := ∀ registry adapters log n, ∃ log₁,
  op (s.recast registry adapters log n 0) = ((op s).1, (op s).2.recast registry adapters log₁ n 0)

section

variable {op : Sim σ → α × Sim σ}

theorem Blind.framed (h : s.Blind op) : s.Framed op := by
  obtain ⟨note, -, hnote⟩ := h
  intro registry adapters log n
  exact ⟨note log, hnote registry adapters log n 0⟩

/-- Such a part leaves the books and the latencies as they are. -/
theorem Framed.left (h : s.Framed op) : (op s).2.registry = s.registry ∧
    (op s).2.adapters = s.adapters ∧ (op s).2.latencies = s.latencies := by
  obtain ⟨own, hown⟩ := h s.registry s.adapters s.log s.latencies
  have hself : (op s).2 = (op s).2.recast s.registry s.adapters own s.latencies 0 :=
    congrArg Prod.snd hown
  rw [hself]
  exact ⟨rfl, rfl, rfl⟩

/-- It does the same on states that are alike. -/
theorem Alike.framed (h : s.Alike t) (hop : s.Framed op) : Alikes (op s) (op t) := by
  obtain ⟨hregistry, hadapters, hlatencies⟩ := hop.left
  cases h with
  | shelve registry adapters old book adapter =>
    obtain ⟨log, hlog⟩ := hop registry adapters old s.latencies
    have hsame : (op s).2.recast registry adapters log s.latencies 0 =
        (op s).2.shelve registry adapters log := by
      rw [← hlatencies]
      rfl
    have hshelve : op (s.shelve registry adapters old) =
        ((op s).1, (op s).2.shelve registry adapters log) := hlog.trans (by rw [hsame])
    rw [hshelve]
    refine ⟨rfl, .shelve registry adapters log (fun symbol => ?_) fun symbol => ?_⟩
    · rw [book symbol, bookOf, bookOf, hregistry]
    · rw [hadapters]
      exact adapter symbol

end

end Sim

namespace Backtest

variable {σ : Type} {cfg : BacktestConfig σ} {s t : Sim σ}

/-- Whether the primitive reads or writes the books or the latencies. -/
def Op.entersBooks : Op → Bool
  | .replenish .. | .sweep .. | .submit _ | .orderLatency => true
  | _ => false

theorem handler_framed (s : Sim σ) (o : Op) (ho : o.entersBooks = false) :
    s.Framed (handler cfg o) := by
  cases o with
  | replenish symbol price update ts | sweep symbol low high ts | submit o | orderLatency =>
    cases ho
  | checkOrder o =>
    exact fun registry adapters log n => s.checkOrder_recast cfg registry adapters log n o
  | applyFill f => exact (s.blind_applyFill cfg f).framed
  | accept o close => exact (s.blind_accept o close).framed
  | onMarket i m => exact (s.blind_onMarket cfg i m).framed
  | onTick i tick => exact (s.blind_onTick cfg i tick).framed
  | finalize i o halted => exact (s.blind_finalizeStrategyRoute cfg i o halted).framed
  | _ => exact fun _ _ _ _ => ⟨_, rfl⟩

/-- **A primitive does the same on states that are alike.** -/
theorem handler_alike (o : Op) (h : s.Alike t) :
    Sim.Alikes (handler cfg o s) (handler cfg o t) := by
  cases o with
  | replenish symbol price update ts => exact h.replenish symbol price update ts
  | sweep symbol low high ts =>
    exact h.callCached symbol (timeless_sweepRestingRange symbol low high ts cfg.orders.resting)
  | submit o => exact h.submit o
  | orderLatency =>
    cases h with
    | shelve registry adapters log book adapter =>
      exact ⟨rfl, .shelve registry adapters log book adapter⟩
  | _ => exact h.framed (handler_framed s _ rfl)

/-- A program does the same on states that are alike. -/
theorem run_alike (p : M α) (h : s.Alike t) :
    Sim.Alikes (p.run (handler cfg) s) (p.run (handler cfg) t) := by
  have hrun : (p.run (handler cfg) s).1 = (p.run (handler cfg) t).1 ∧
      (p.run (handler cfg) s).2.Alike (p.run (handler cfg) t).2 :=
    run_simulates Sim.Alike (fun _ => False) (fun _ _ => id)
      (fun o s t hst _ => ⟨(handler_alike o hst).answer, (handler_alike o hst).state⟩) p h id
  exact ⟨hrun.1, hrun.2⟩

end Backtest

end TrueTest
