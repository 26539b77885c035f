import TrueTest.Engine.Venue

/-!
# The desk

The portfolio and the risk manager, as the engine uses them: an order is checked against the
portfolio before it is submitted, and a fill goes into the portfolio. In the engine the verdict of a
check is an input. An engine and a desk run together if the verdicts that the engine's acts record
are those of the desk, at the portfolio that the recorded fills have led to.
-/

namespace TrueTest

open Machine

/-- A call of the risk manager with its verdict, or a fill for the portfolio. -/
inductive DeskCall
  | check (o : OrderEvent) (verdict : RiskAction)
  | fill (f : FillEvent)
deriving DecidableEq

def Act.deskCall? : Act → Option DeskCall
  | .check o verdict => some (.check o verdict)
  | .apply .portfolio f => some (.fill f)
  | _ => none

def deskCalls (acts : List Act) : List DeskCall := acts.filterMap Act.deskCall?

def DeskCall.fill? : DeskCall → Option FillEvent
  | .fill f => some f
  | .check _ _ => none

def bookedFills (calls : List DeskCall) : List FillEvent := calls.filterMap DeskCall.fill?

structure Desk where
  portfolio : Portfolio
  risk : RiskManager

namespace Desk

def init (balance : ℚ) : Desk := ⟨.init balance, .init⟩

inductive Move
  /-- `check_order`, for an order event of the time `now`. -/
  | check (o : OrderEvent) (now : Int) (snap : RiskSnapshot)
  | fill (f : FillEvent)
  | postFill (f : FillEvent) (snap : RiskSnapshot)

def book (p : Portfolio) (f : FillEvent) : Portfolio := p.onFill f f.openerOrderId f.strategyName

def step (limits : RiskLimits) (d : Desk) : Move → Option DeskCall × Desk
  | .check o now snap =>
    let s := d.risk.checkOrder limits o now d.portfolio snap
    (some (.check o s.1), { d with risk := s.2 })
  | .fill f => (some (.fill f), ⟨book d.portfolio f, d.risk.onFill limits f⟩)
  | .postFill f snap => (none, { d with risk := (d.risk.checkPostFill limits f snap).2 })

def portfolioAfter (balance : ℚ) (calls : List DeskCall) : Portfolio :=
  (bookedFills calls).foldl book (.init balance)

theorem portfolioAfter_append (balance : ℚ) (cs ds : List DeskCall) :
    portfolioAfter balance (cs ++ ds) =
      (bookedFills ds).foldl book (portfolioAfter balance cs) := by
  rw [portfolioAfter, bookedFills, List.filterMap_append, List.foldl_append]
  rfl

/-- Moves that make some calls once more, with quiet analytics. -/
def replay (calls : List DeskCall) : List Move :=
  calls.map fun
    | .check o _ => .check o o.earliestEligibleTs {}
    | .fill f => .fill f

variable {limits : RiskLimits}

theorem final_portfolio (d : Desk) (moves : List Move) :
    (final (step limits) d moves).portfolio =
      (bookedFills (visible (step limits) d moves)).foldl book d.portfolio := by
  induction moves generalizing d with
  | nil => rfl
  | cons m moves ih =>
    rw [visible_cons]
    cases m <;> exact ih _

/-- An order passes at the portfolio that the calls before have led to. -/
theorem within_of_pass {balance : ℚ} {moves : List Move} {o : OrderEvent}
    {before after : List DeskCall}
    (h : visible (step limits) (init balance) moves = before ++ .check o .pass :: after)
    (hopens : ¬ reducesPositionExposure o
      ((portfolioAfter balance before).positions.lookup o.symbol)) :
    projectedPositionNotional o ((portfolioAfter balance before).positions.lookup o.symbol) ≤
      limits.maxPositionValue := by
  obtain ⟨first, rest, rfl, hfirst, hrest⟩ := visible_eq_append h
  obtain ⟨silent, m, last, rfl, hsilent, hcall, -⟩ := visible_eq_cons hrest
  set d := final (step limits) (final (step limits) (init balance) first) silent with hd
  have hportfolio : d.portfolio = portfolioAfter balance before := by
    rw [hd, final_portfolio, hsilent, final_portfolio, hfirst]
    rfl
  rw [← hportfolio] at hopens ⊢
  cases m with
  | check o' now snap =>
    obtain ⟨rfl, hpass⟩ := DeskCall.check.inj (Option.some.inj hcall)
    exact RiskManager.within_of_pass hpass hopens
  | fill f | postFill f snap => cases hcall

end Desk

namespace Engine

/-- A run of the engine and moves of a desk, together. -/
def Managed (limits : RiskLimits) (balance : ℚ) (config : EngineConfig) (ops : List Op)
    (moves : List Desk.Move) : Prop :=
  visible (Desk.step limits) (Desk.init balance) moves =
    deskCalls (final step (init config) ops).acts

instance (limits : RiskLimits) (balance : ℚ) (config : EngineConfig) (ops : List Op)
    (moves : List Desk.Move) : Decidable (Managed limits balance config ops moves) :=
  inferInstanceAs (Decidable (_ = _))

end Engine

end TrueTest
