import TrueTest.Engine.Trace
import TrueTest.Exits.Coverage

/-!
# Protected openers

Whether an opener's fills are covered by armed intents depends on the order in which the engine
calls the exit manager. `finalize_strategy_route` registers an order's intents after `route_order`
has returned; an order that is deferred has its intents pending by the time it fills, but one that
executes at once fills first, and its intents then wait for a fill that never comes.
-/

namespace TrueTest.Engine

open Machine ExitManager

variable (e : Engine)

/-- The account of the exit manager's calls so far. -/
def account : Account :=
  final Account.step (Account.init e.config.hasBracketAdapter) (exitCalls e.acts)

theorem final_manager (a : Account) (calls : List ExitManager.Op) :
    (final Account.step a calls).ledger.manager = a.ledger.manager.callAll calls := by
  induction calls generalizing a with
  | nil => rfl
  | cons call calls ih =>
    rw [final, ih]
    show ((ExitManager.step a.ledger call).2.manager).callAll calls = _
    rw [(step_call a.ledger call).2]
    rfl

/-- The account follows the engine, and its manager is the engine's. -/
def Accounted : Prop := e.account.ledger.manager = e.exitManager

theorem account_of_traces {e e' : Engine} (h : Traces e e') :
    e'.account = final Account.step e.account (exitCalls (e'.acts.drop e.acts.length)) := by
  obtain ⟨new, hacts, -, hconfig⟩ := h
  rw [account, account, hconfig, hacts, List.drop_left, exitCalls, List.filterMap_append,
    final_append]
  rfl

theorem accounted_of_traces {e e' : Engine} (ha : e.Accounted) (h : Traces e e') :
    e'.Accounted := by
  have hacc := account_of_traces h
  obtain ⟨new, hacts, hexits, -⟩ := h
  rw [hacts, List.drop_left] at hacc
  rw [Accounted, hacc, final_manager, ha, hexits]

/-- Every call that the operation makes of the exit manager is a protected one, in the state in
which it is made. -/
def Protects (op : Op) : Prop :=
  Along Account.step Account.Protected e.account (exitCalls (e.step op).1)

instance (op : Op) : Decidable (e.Protects op) := decidableAlong _ _ _ _

theorem perform_secure (op : Op) (h : e.account.Secure) (hp : e.Protects op) :
    (e.perform op).account.Secure := by
  rw [account_of_traces (traces_perform e op)]
  exact invariant (fun _ call => Account.step_secure call) h hp _ (final_mem_states _ _)

/-- **An opener with an intent of fraction one stays covered**, in every run whose calls of the exit
manager are protected, until its bracket is cancelled or closed by a closer fill. -/
theorem filled_le_armed_add_closed (config : EngineConfig) (ops : List Op)
    (hops : Along step Protects (init config) ops) :
    ∀ e ∈ states step (init config) ops, ∀ opener, e.account.Guards opener →
      e.account.ledger.filled opener ≤
        armedQty e.exitManager.armed opener + e.account.ledger.closed opener := by
  intro e he opener hguards
  have hinit : (init config).Accounted ∧ (init config).account.Secure :=
    ⟨rfl, Account.secure_init config.hasBracketAdapter⟩
  have hstep : ∀ (e : Engine) (op : Op), e.Accounted ∧ e.account.Secure → e.Protects op →
      (e.step op).2.Accounted ∧ (e.step op).2.account.Secure := fun e op h hp =>
    ⟨accounted_of_traces h.1 (traces_perform e op), perform_secure e op h.2 hp⟩
  obtain ⟨hmanager, hsecure⟩ := invariant hstep hinit hops e he
  rw [← hmanager]
  exact (hsecure.balanced opener hguards).covered

/-! ## Examples -/

/-- An inline engine with one strategy and a given delay. -/
def backtestConfig (executionBarDelay : Nat) : EngineConfig where
  shadow := false
  riskUnwind := false
  haltOnDrop := false
  hasLatencyModel := false
  executionBarDelay := executionBarDelay
  exitDefaults := {}
  primaryStrategyName := "s"
  additionalStrategyNames := []
  hasBracketAdapter := false
  instrument := fun _ => none
  asyncSubmit := fun _ => false

/-- An engine that adds no exits of its own. -/
def plainExits : EngineConfig := { backtestConfig 0 with exitDefaults := { mode := .strategyOnly } }

/-- A strategy's limit order to buy 10 at 100. -/
def entryOrder : OrderEvent :=
  { OrderEvent.new 0 0 "BTC" .limit .buy 10 100 .gtc 0 with strategyName := "s" }

/-- A fill that leaves the position open. -/
def deliver (orderId : Nat) (side : OrderSide) (qty price remainingQty : ℚ) : FillReply where
  delivery :=
    { fill :=
        { timestamp := 1, symbol := "BTC", orderId := orderId, side := side, filledQuantity := qty,
          fillPrice := price, commission := 0, remainingQty := remainingQty }
      placed := noHandles
      order := .id
      positionOpen := true
      dropped := false }
  postFill := .pass
  unwind := []

/-- The entry fills in two parts on the next bar, and a price then reaches the stop. -/
def deferredRun : List Op :=
  [.startWorkers,
    .strategyOrder "s" entryOrder [longIntent 1 (some 95) none] 0 0 false .quiet,
    .drainPending (some 1)
      [{ Replies.quiet with fills := [deliver 1 .buy 4 100 6, deliver 1 .buy 6 100 0] }],
    .evaluateExits (.price 94) "BTC" 2 .id
      [{ Replies.quiet with fills := [deliver 2 .sell 10 94 0] }]]

theorem filled_le_armed_add_closed_of_deferredRun :
    let e := final step (init (backtestConfig 1)) (deferredRun.take 3)
    e.account.ledger.filled 1 = 10 ∧
      e.account.ledger.filled 1 ≤ armedQty e.exitManager.armed 1 + e.account.ledger.closed 1 :=
  ⟨by decide +kernel, filled_le_armed_add_closed (backtestConfig 1) (deferredRun.take 3)
    (by decide +kernel) _ (final_mem_states _ _) 1 (by decide +kernel)⟩

/-- The same entry without a delay. -/
def immediateRun : List Op :=
  [.startWorkers,
    .strategyOrder "s" entryOrder [longIntent 1 (some 95) none] 0 0 false
      { Replies.quiet with fills := [deliver 1 .buy 10 100 0] }]

/-- The entry fills inside `route_order`, before its intent is registered, and nothing is armed. -/
theorem filled_gt_armed_add_closed_of_immediateRun :
    ¬ ∀ (config : EngineConfig) (ops : List Op), ∀ e ∈ states step (init config) ops, ∀ opener,
      e.account.Guards opener → e.account.ledger.filled opener ≤
        armedQty e.exitManager.armed opener + e.account.ledger.closed opener := by
  intro h
  have hlast := h (backtestConfig 0) immediateRun _ (final_mem_states _ _) 1 (by decide +kernel)
  exact absurd hlast (by decide +kernel)

end TrueTest.Engine
