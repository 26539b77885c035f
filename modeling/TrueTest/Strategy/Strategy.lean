import TrueTest.Exits.ExitManager
import TrueTest.Providers.Event

/-!
# Strategies

`IStrategy` of `strategy/strategy_interface.h`, for an object with state `σ`: what the engine calls
on a strategy during a run. An order that a callback returns has no id yet. Depth updates and
parameters are left out.
-/

namespace TrueTest

structure Strategy (σ : Type) where
  onMarket : MarketEvent → σ → Option OrderEvent × σ
  onTick : Tick → σ → Option OrderEvent × σ
  onFill : FillEvent → Nat → σ → σ
  setPositionOpen : String → Bool → σ → σ
  takePendingExitIntents : σ → List ExitIntent × σ

/-- The defaults of the interface, for a strategy that decides on bars. -/
def Strategy.ofMarket {σ : Type}
    (onMarket : MarketEvent → σ → Option OrderEvent × σ) : Strategy σ where
  onMarket := onMarket
  onTick := fun _ s => (none, s)
  onFill := fun _ _ s => s
  setPositionOpen := fun _ _ s => s
  takePendingExitIntents := fun s => ([], s)

end TrueTest
