import TrueTest.Engine.Lifecycle
import TrueTest.Execution.MarketPrice

/-!
# The paper venue

Without a live provider every symbol has a book of its own, and a `LocalBookAdapter` for it. The
venue is all of them. It moves when the engine submits to, cancels at or polls an adapter, and by
itself: the market maker quotes, a bar sweeps the resting orders, depth arrives, an order is
amended, day orders are pulled at the end of a run.

An engine and a venue run together if the calls that the engine's acts record are the calls that the
venue's moves answer, in this order. What an adapter hands out when it is polled is then no longer
an input of the run.
-/

namespace TrueTest

open Machine LocalBook

/-- A call of an adapter, with its answer. -/
inductive VenueCall
  | submit (o : OrderEvent)
  | cancel (symbol : String) (id : Nat) (ok : Bool)
  | poll (fills : List FillEvent)
deriving DecidableEq

def Act.venueCall? : Act → Option VenueCall
  | .submit o => some (.submit o)
  | .cancel symbol id ok => some (.cancel symbol id ok)
  | .poll fills => some (.poll (fills.map Prod.fst))
  | _ => none

/-- The calls of the adapters among some acts. -/
def venueCalls (acts : List Act) : List VenueCall := acts.filterMap Act.venueCall?

theorem venueCalls_append (as bs : List Act) :
    venueCalls (as ++ bs) = venueCalls as ++ venueCalls bs := List.filterMap_append

/-- The book and the adapter of every symbol. -/
abbrev Venue := String → World

namespace Venue

def init : Venue := fun _ => .init

/-- What happens at the book of one symbol. -/
inductive Move
  | adapter (op : Op)
  /-- `cancel_day_orders` goes straight to the book. -/
  | cancelDay (id : Nat)
  | l2Snapshot (gen : OrderIdGenerator) (bids asks : List (Int × Nat))
  | l2Update (gen : OrderIdGenerator) (s : Side) (price : Int) (newQty : Nat)

def setBook (w : World) (book : Orderbook) : World :=
  { w with adapter := { w.adapter with book := book } }

def move (cfg : LocalBookConfig) (w : World) : Move → World
  | .adapter op => (step cfg w op).2
  | .cancelDay id => setBook w (w.adapter.book.cancelOrder id)
  | .l2Snapshot gen bids asks => setBook w (w.adapter.book.applyL2Snapshot gen bids asks).1
  | .l2Update gen s price newQty => setBook w (w.adapter.book.applyL2Update gen s price newQty).1

/-- The call that a move answers, if the engine makes it. Without latency an adapter agrees to every
cancel. -/
def call? (symbol : String) (w : World) : Move → Option VenueCall
  | .adapter (.submit o _) => some (.submit o)
  | .adapter (.cancel id _) => some (.cancel symbol id true)
  | .adapter .poll => some (.poll w.adapter.pendingFills)
  | _ => none

def step (cfg : LocalBookConfig) (v : Venue) (m : String × Move) : Option VenueCall × Venue :=
  (call? m.1 (v m.1) m.2, Function.update v m.1 (move cfg (v m.1) m.2))

/-- An order goes to the adapter of its symbol, and fills are polled before an order is
cancelled. -/
def Allowed (v : Venue) (m : String × Move) : Prop :=
  match m.2 with
  | .adapter (.submit o _) => o.symbol = m.1
  | .adapter (.cancel _ _) => (v m.1).adapter.pendingFills = []
  | _ => True

instance (v : Venue) (m : String × Move) : Decidable (Allowed v m) := by
  obtain ⟨symbol, move⟩ := m
  induction move using Move.casesOn with
  | adapter op => induction op using LocalBook.Op.casesOn <;> unfold Allowed <;> infer_instance
  | _ => unfold Allowed; infer_instance

def calls (cfg : LocalBookConfig) (v : Venue) (moves : List (String × Move)) : List VenueCall :=
  visible (step cfg) v moves

end Venue

namespace Engine

/-- A run of the engine and moves of the paper venue, together. -/
structure Paper (cfg : LocalBookConfig) (config : EngineConfig) (ops : List Op)
    (moves : List (String × Venue.Move)) : Prop where
  synchronous : Synchronous config
  latency : cfg.hasLatencyModel = false
  allowed : Along (Venue.step cfg) Venue.Allowed Venue.init moves
  calls : Venue.calls cfg Venue.init moves = venueCalls (final step (init config) ops).acts

end Engine

end TrueTest
