import TrueTest.Exits.ExitManager

/-!
# The platform's exit policy

`exits/default_exit_policy.cpp` and the constructors of `exits/exit_intent.h`: after a strategy has
declared its exit intents for an order, the engine completes or replaces them by a protective intent
of its own. In every mode but one the strategy's intents stay, with the parts of the fill they
close.
-/

namespace TrueTest

inductive ExitPolicyMode
  | floor
  | strategyOnly
  | engineOnly
  | unionMode
deriving DecidableEq, Repr

structure DefaultExitParams where
  mode : ExitPolicyMode := .floor
  slPct : ℚ := 5 / 1000
  tpPct : ℚ := 1 / 100
  trailPct : ℚ := 0

/-- The order closes an earlier entry or reduces the net position. -/
def isPositionReducing (order : OrderEvent) (netQty : ℚ) : Bool :=
  (order.openerOrderId ≠ 0 ∧ (order.orderId = 0 ∨ order.openerOrderId ≠ order.orderId)) ∨
    (dust < netQty ∧ order.side = .sell) ∨ (netQty < -dust ∧ order.side = .buy)

def intentsHaveStopLoss (intents : List ExitIntent) : Bool := intents.any (·.stopLoss.isSome)

def intentsHaveTakeProfit (intents : List ExitIntent) : Bool := intents.any (·.takeProfit.isSome)

/-- An intent with levels at given distances from the entry; `up` is the direction of profit. -/
def bracketIntent (closeSide : OrderSide) (up : ℚ) (symbol : String) (entry qty slPct tpPct : ℚ)
    (strategyName : String) : ExitIntent where
  symbol := symbol
  closeSide := closeSide
  qty := qty
  qtyFraction := 1
  stopLoss := if 0 < slPct then some (entry * (1 - up * slPct)) else none
  takeProfit := if 0 < tpPct then some (entry * (1 + up * tpPct)) else none
  referenceEntry := some entry
  trailingPct := none
  deadline := none
  openerOrderId := 0
  strategyName := strategyName

def makeLongExitIntent := bracketIntent .sell 1

def makeShortExitIntent := bracketIntent .buy (-1)

def makePlatformExitIntent (order : OrderEvent) (p : DefaultExitParams) : Option ExitIntent :=
  if ¬ (0 < p.slPct ∨ 0 < p.tpPct ∨ 0 < p.trailPct) then none
  else if ¬ 0 < order.price ∨ ¬ 0 < order.quantity then none
  else
    let make := if order.side = .buy then makeLongExitIntent else makeShortExitIntent
    let ei := make order.symbol order.price order.quantity (if 0 < p.slPct then p.slPct else 0)
      (if 0 < p.tpPct then p.tpPct else 0) ""
    let ei := { ei with
      stopLoss := if p.slPct ≤ 0 then none else ei.stopLoss
      takeProfit := if p.tpPct ≤ 0 then none else ei.takeProfit
      trailingPct := if 0 < p.trailPct then some p.trailPct else ei.trailingPct }
    if ei.stopLoss.isNone ∧ ei.takeProfit.isNone ∧ ei.trailingPct.isNone then none else some ei

/-- `floor` for a strategy with a plan: what no intent of the plan has goes on its first one. -/
def patchFirst (p : DefaultExitParams) (platform : Option ExitIntent) (first : ExitIntent)
    (rest : List ExitIntent) : ExitIntent :=
  let reference (first pl : ExitIntent) := first.referenceEntry.or pl.referenceEntry
  let patched := match platform with
    | none => first
    | some pl =>
      let withStop := if ¬ intentsHaveStopLoss (first :: rest) ∧ pl.stopLoss.isSome then
          { first with stopLoss := pl.stopLoss, referenceEntry := reference first pl }
        else first
      if ¬ intentsHaveTakeProfit (first :: rest) ∧ pl.takeProfit.isSome ∧ 0 < p.tpPct then
        { withStop with takeProfit := pl.takeProfit, referenceEntry := reference withStop pl }
      else withStop
  if 0 < p.trailPct ∧ ¬ (first :: rest).any (·.trailingPct.isSome) then
    { patched with trailingPct := some p.trailPct }
  else patched

/-- The intents that are registered for an order. -/
def applyDefaultExitPolicy (p : DefaultExitParams) (order : OrderEvent) (netQty : ℚ)
    (intents : List ExitIntent) : List ExitIntent :=
  if p.mode = .strategyOnly then intents
  else if isPositionReducing order netQty then
    if p.mode = .engineOnly then [] else intents
  else
    let platform := makePlatformExitIntent order p
    match p.mode with
    | .strategyOnly => intents
    | .engineOnly => platform.toList
    | .unionMode =>
      match platform with
      | none => intents
      | some pl =>
        if pl.stopLoss.isSome ∧ ¬ intentsHaveStopLoss intents then
          intents ++ [{ pl with takeProfit := none }]
        else if intents.isEmpty then [pl]
        else intents
    | .floor =>
      match intents with
      | [] => platform.toList
      | first :: rest => patchFirst p platform first rest :: rest

end TrueTest
