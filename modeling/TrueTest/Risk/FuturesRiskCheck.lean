import TrueTest.Risk.RiskManager

/-!
# The futures check

`FuturesRiskCheck::evaluate` of `risk/futures_risk_check.h`, which is asked before the risk manager.
The caps are held against the position that an order leads to, whichever way the order goes: one
that makes the position smaller is refused when what is left of it is still over a cap. The risk
manager lets it pass.
-/

namespace TrueTest.FuturesRiskCheck

/-- A cap of zero is off. -/
structure Config where
  maxNotionalUsdt : ℚ := 0
  maxLeverage : ℚ := 0
  minLiquidationDistancePct : ℚ := 0
  maintenanceMarginPct : ℚ := 5 / 1000

structure MarginTier where
  notionalCap : ℚ
  maintenanceMarginRate : ℚ

def maintenanceMarginRateForNotional (tiers : List MarginTier) (notional : ℚ) : ℚ :=
  match tiers.find? (notional ≤ ·.notionalCap) with
  | some tier => tier.maintenanceMarginRate
  | none => (tiers.getLast?.map MarginTier.maintenanceMarginRate).getD (5 / 1000)

inductive Refusal
  | notional
  | leverage
  | liquidationDistance
deriving DecidableEq

variable (c : Config) (tiers : List MarginTier) (o : OrderEvent) (p : Portfolio) (mark : ℚ)

def postNotional : ℚ := |projectedPositionQty o (p.positions.lookup o.symbol)| * mark

/-- The liquidation distance, as the share of the mark. Without tiers the rate is the configured
one. -/
def distance (cash notional : ℚ) : ℚ :=
  cash / notional -
    if tiers.isEmpty then c.maintenanceMarginPct
    else maintenanceMarginRateForNotional tiers notional

def evaluate : Option Refusal :=
  let notional := postNotional o p mark
  if mark ≤ 0 then none
  else if c.maxNotionalUsdt ≤ 0 ∧ c.maxLeverage ≤ 0 ∧ c.minLiquidationDistancePct ≤ 0 then none
  else if 0 < c.maxNotionalUsdt ∧ c.maxNotionalUsdt < notional then some .notional
  else if 0 < p.cash ∧ 0 < notional then
    if 0 < c.maxLeverage ∧ c.maxLeverage < notional / p.cash then some .leverage
    else if 0 < c.minLiquidationDistancePct ∧
        distance c tiers p.cash notional < c.minLiquidationDistancePct then
        some .liquidationDistance
    else none
  else none

/-- The position that the order leads to is within the caps that are on. -/
def Within : Prop :=
  let notional := |projectedPositionQty o (p.positions.lookup o.symbol)| * mark
  let rate := if tiers.isEmpty then c.maintenanceMarginPct
    else maintenanceMarginRateForNotional tiers notional
  (0 < c.maxNotionalUsdt → notional ≤ c.maxNotionalUsdt) ∧
    (0 < p.cash → 0 < notional →
      (0 < c.maxLeverage → notional / p.cash ≤ c.maxLeverage) ∧
        (0 < c.minLiquidationDistancePct →
          c.minLiquidationDistancePct ≤ p.cash / notional - rate))

theorem evaluate_eq_none_iff (hmark : 0 < mark) :
    evaluate c tiers o p mark = none ↔ Within c tiers o p mark := by
  rw [evaluate, if_neg hmark.not_ge, Within, ← postNotional, ← distance]
  split_ifs <;> grind

/-- The order makes the position smaller and does not turn it around. -/
def Reduces : Prop :=
  let qty := (p.position o.symbol).qty
  let post := projectedPositionQty o (p.positions.lookup o.symbol)
  |post| < |qty| ∧ 0 ≤ qty * post

instance : Decidable (Reduces o p) := inferInstanceAs (Decidable (_ ∧ _))

/-- **Orders that reduce a position are never refused exactly when what they leave is within the
caps.** Other orders that are allowed always leave a position within the caps. -/
theorem evaluate_faithful_iff :
    ((Reduces o p → evaluate c tiers o p mark = none) ∧
      (0 < mark → 0 < p.cash → ¬ Reduces o p → evaluate c tiers o p mark = none →
        Within c tiers o p mark)) ↔
    (0 < mark → Reduces o p → Within c tiers o p mark) := by
  constructor
  · intro h hmark hreduces
    exact (evaluate_eq_none_iff c tiers o p mark hmark).1 (h.1 hreduces)
  · refine fun h => ⟨fun hreduces => ?_,
      fun hmark _ _ => (evaluate_eq_none_iff c tiers o p mark hmark).1⟩
    by_cases hmark : 0 < mark
    · exact (evaluate_eq_none_iff c tiers o p mark hmark).2 (h hmark hreduces)
    · rw [evaluate, if_pos (not_lt.1 hmark)]

/-- Half of a position of 600 is closed, with a cap of 100. -/
theorem evaluate_refuses_reducing :
    let p := { Portfolio.init 100 with
      positions := (∅ : AList fun _ : String => Position).insert "BTCUSDT" ⟨2 / 100, 600⟩ }
    let o : OrderEvent := .new 0 1 "BTCUSDT" .market .sell (1 / 100) 0 .ioc 0
    Reduces o p ∧ evaluate { maxNotionalUsdt := 100 } [] o p 30000 = some .notional := by
  decide +kernel

end TrueTest.FuturesRiskCheck
