import TrueTest.Core.Event
import TrueTest.Util.KeyedSum
import TrueTest.Util.Machine

/-!
# The exit manager

`ExitManager` of `exits/exit_manager.h`: a strategy declares exit intents for an entry, the opener's
first fill arms them, and a price or a bar fires those whose stop, target or deadline it reaches.
Everything is keyed by the opener's order id.

The multimaps are lists of entries. The order in which one is iterated is an input of the call, and
so are the handles that the venue's bracket adapter returns. `on_price` and `on_bar` differ in the
probe of an armed intent and share the rest of the loop (`evaluate`, `fire`).

The overload of `on_fill` without an opener passes the fill's own opener id, or its order id if it
has none. Restart recovery (`rehydrate`) is in `TrueTest/Exits/Rehydrate.lean`; the read-only
snapshots are left out.
-/

namespace TrueTest

open Machine

structure ExitIntent where
  symbol : String
  closeSide : OrderSide
  qty : ℚ
  /-- The part of the opener's fill to close. -/
  qtyFraction : ℚ
  stopLoss : Option ℚ
  takeProfit : Option ℚ
  /-- Set when the levels are relative to an intended entry. -/
  referenceEntry : Option ℚ
  trailingPct : Option ℚ
  deadline : Option Int
  openerOrderId : Nat
  strategyName : String

structure ArmedIntent where
  intent : ExitIntent
  entryPrice : ℚ
  /-- The best price seen, for the trailing stop. -/
  bestPrice : ℚ
  tsArmed : Int

/-- What a bracket adapter returns for the orders it placed at the venue. -/
structure BracketHandles where
  slExchangeId : Option String
  tpExchangeId : Option String
  ocoListId : Option String
  symbol : String

def BracketHandles.empty (h : BracketHandles) : Bool :=
  h.slExchangeId.isNone ∧ h.tpExchangeId.isNone ∧ h.ocoListId.isNone

structure ExchangeLeg where
  openerOrderId : Nat
  strategyName : String

structure ExitManager where
  pending : List (Nat × ExitIntent)
  armed : List (Nat × ArmedIntent)
  openerRemainingQty : AList fun _ : Nat => ℚ
  openerCloseInFlightQty : AList fun _ : Nat => ℚ
  strategySymbolToOpeners : List ((String × String) × Nat)
  hasBracketAdapter : Bool
  handles : AList fun _ : Nat => BracketHandles
  exchangeToLeg : AList fun _ : String => ExchangeLeg
  /-- The cancels sent to the bracket adapter. -/
  venueCancels : List (Nat × BracketHandles)

namespace ExitIntent

/-- The fraction that is used: one if it is not positive, and at most one. -/
def fraction (i : ExitIntent) : ℚ :=
  let frac := if i.qtyFraction ≤ 0 then 1 else i.qtyFraction
  if 1 < frac then 1 else frac

theorem fraction_pos (i : ExitIntent) : 0 < i.fraction := by
  unfold fraction
  dsimp only
  split_ifs <;> linarith

/-- Levels relative to an intended entry move with the fill. -/
def anchor (f : FillEvent) (i : ExitIntent) : ExitIntent :=
  match i.referenceEntry with
  | some ref =>
    if 0 < ref then
      let delta := f.fillPrice - ref
      let i := if 1 / 10 ^ 15 < |delta| then
          { i with
            stopLoss := i.stopLoss.map (· + delta), takeProfit := i.takeProfit.map (· + delta) }
        else i
      { i with referenceEntry := some f.fillPrice }
    else i
  | none => i

/-- The first opener fill arms an intent. -/
def arm (f : FillEvent) (i : ExitIntent) : ArmedIntent where
  intent := anchor f { i with qty := f.filledQuantity * i.fraction }
  entryPrice := f.fillPrice
  bestPrice := f.fillPrice
  tsArmed := f.timestamp

end ExitIntent

namespace ArmedIntent

/-- A later opener fill grows an armed intent and rolls the entry to the average price. -/
def grow (f : FillEvent) (ai : ArmedIntent) : ArmedIntent :=
  let add := f.filledQuantity * ai.intent.fraction
  if add ≤ 0 then ai
  else
    let prev := ai.intent.qty
    { ai with
      entryPrice := if 0 < prev + add then
          (ai.entryPrice * prev + f.fillPrice * add) / (prev + add)
        else ai.entryPrice
      intent := { ai.intent with qty := prev + add } }

variable (ai : ArmedIntent)

def isLong : Bool := ai.intent.closeSide = .sell

/-- Move the best price. -/
def seen (px : ℚ) (ai : ArmedIntent) : ArmedIntent :=
  if (ai.isLong ∧ ai.bestPrice < px) ∨ (¬ ai.isLong ∧ px < ai.bestPrice) then
    { ai with bestPrice := px }
  else ai

/-- Pull the stop behind the best price. -/
def trail : ArmedIntent :=
  match ai.intent.trailingPct with
  | none => ai
  | some pct =>
    let trailed := ai.bestPrice * (if ai.isLong then 1 - pct else 1 + pct)
    let tighter : Bool := if ai.isLong then ai.intent.stopLoss.getD 0 < trailed
      else match ai.intent.stopLoss with
        | some cur => trailed < cur
        | none => true
    if tighter then { ai with intent := { ai.intent with stopLoss := some trailed } } else ai

/-- Whether the stop is reached at a price. -/
def stopHit (px : ℚ) : Bool :=
  ai.intent.stopLoss.any fun sl => if ai.isLong then px ≤ sl else sl ≤ px

/-- Whether the target is reached at a price. -/
def targetHit (px : ℚ) : Bool :=
  ai.intent.takeProfit.any fun tp => if ai.isLong then tp ≤ px else px ≤ tp

def timeHit (ts : Int) : Bool := ai.intent.deadline.any fun d => d ≤ ts

/-- `on_price` for one armed intent: the trail moves first, so that one tick can raise the stop and
fire it. The second part is the price it fires at. -/
def probePrice (px : ℚ) (ts : Int) (ai : ArmedIntent) : ArmedIntent × Option ℚ :=
  let ai := (ai.seen px).trail
  (ai, if ai.stopHit px ∨ ai.targetHit px ∨ ai.timeHit ts then some px else none)

/-- `on_bar` for one armed intent: the stop is tested at its level from earlier bars, and before
the target. An intent that survives the bar rolls its trail. -/
def probeBar (open_ low high close : ℚ) (ts : Int) (ai : ArmedIntent) : ArmedIntent × Option ℚ :=
  let favorable := if ai.isLong then high else low
  let adverse := if ai.isLong then low else high
  if ai.stopHit adverse then
    let sl := ai.intent.stopLoss.getD 0
    (ai, some (if (if ai.isLong then open_ ≤ sl else sl ≤ open_) then open_ else sl))
  else if ai.targetHit favorable then
    let tp := ai.intent.takeProfit.getD 0
    (ai, some (if (if ai.isLong then tp ≤ open_ else open_ ≤ tp) then open_ else tp))
  else if ai.timeHit ts then (ai, some close)
  else ((ai.seen favorable).trail, none)

end ArmedIntent

namespace ExitManager

def init (hasBracketAdapter : Bool) : ExitManager where
  pending := []
  armed := []
  openerRemainingQty := ∅
  openerCloseInFlightQty := ∅
  strategySymbolToOpeners := []
  hasBracketAdapter := hasBracketAdapter
  handles := ∅
  exchangeToLeg := ∅
  venueCancels := []

def entriesOf {α : Type} (entries : List (Nat × α)) (opener : Nat) : List (Nat × α) :=
  entries.filter fun e => e.1 = opener

def dropOpener {α : Type} (entries : List (Nat × α)) (opener : Nat) : List (Nat × α) :=
  entries.filter fun e => e.1 ≠ opener

variable (m : ExitManager)

/-- An intent without an opener cannot be keyed and is dropped. -/
def registerPending (intent : ExitIntent) : ExitManager :=
  if intent.openerOrderId = 0 then m
  else { m with
    strategySymbolToOpeners := m.strategySymbolToOpeners ++
      [((intent.strategyName, intent.symbol), intent.openerOrderId)]
    pending := m.pending ++ [(intent.openerOrderId, intent)] }

def untrackOpener (opener : Nat) (strategyName symbol : String) : ExitManager :=
  { m with strategySymbolToOpeners := m.strategySymbolToOpeners.filter fun e =>
      ¬ (e.1 = (strategyName, symbol) ∧ e.2 = opener) }

/-- `erase` of an optional key. -/
def eraseLeg (legs : AList fun _ : String => ExchangeLeg) (id : Option String) :
    AList fun _ : String => ExchangeLeg :=
  match id with
  | some id => legs.erase id
  | none => legs

/-- `emplace` of an optional key; an entry that is there stays. -/
def emplaceLeg (legs : AList fun _ : String => ExchangeLeg) (id : Option String)
    (leg : ExchangeLeg) : AList fun _ : String => ExchangeLeg :=
  match id with
  | some id => if (legs.lookup id).isSome then legs else legs.insert id leg
  | none => legs

/-- Drop an opener's venue orders and have the adapter cancel them. -/
def releaseVenueBracket (opener : Nat) : ExitManager :=
  match m.handles.lookup opener with
  | none => m
  | some h =>
    { m with
      handles := m.handles.erase opener
      exchangeToLeg := eraseLeg (eraseLeg m.exchangeToLeg h.slExchangeId) h.tpExchangeId
      venueCancels := if m.hasBracketAdapter then m.venueCancels ++ [(opener, h)]
        else m.venueCancels }

/-- The strategy and symbol of an opener's first pending or armed intent. -/
def ownerOf (opener : Nat) : Option (String × String) :=
  match m.pending.find? fun e => e.1 = opener with
  | some e => some (e.2.strategyName, e.2.symbol)
  | none => (m.armed.find? fun e => e.1 = opener).map fun e =>
      (e.2.intent.strategyName, e.2.intent.symbol)

/-- Drop everything that is kept for one opener. -/
def forget (opener : Nat) : ExitManager :=
  { m with
    pending := dropOpener m.pending opener
    armed := dropOpener m.armed opener
    openerRemainingQty := m.openerRemainingQty.erase opener
    openerCloseInFlightQty := m.openerCloseInFlightQty.erase opener }

def cancel (opener : Nat) : ExitManager :=
  let owner := (m.ownerOf opener).getD ("", "")
  let m := m.forget opener
  let m := if owner ≠ ("", "") then m.untrackOpener opener owner.1 owner.2 else m
  m.releaseVenueBracket opener

/-- `cancel(strategy_name, symbol)`: every opener of the strategy and symbol. -/
def cancelStrategy (strategyName symbol : String) : ExitManager :=
  let openers := (m.strategySymbolToOpeners.filter fun e => e.1 = (strategyName, symbol)).map
    Prod.snd
  let m := { m with strategySymbolToOpeners :=
    m.strategySymbolToOpeners.filter fun e => e.1 ≠ (strategyName, symbol) }
  openers.foldl (fun m id => (m.forget id).releaseVenueBracket id) m

def openersFor (strategyName symbol : String) : Nat :=
  m.strategySymbolToOpeners.countP fun e => e.1 = (strategyName, symbol)

/-! ## Fills -/

/-- A fill that closes an earlier entry. What the manager's own closes account for is taken from
the quantity in flight; anything else ends the bracket. -/
def closerFill (f : FillEvent) (opener : Nat) : ExitManager :=
  let inFlight := m.openerCloseInFlightQty.lookup opener
  let matched := match inFlight with
    | some q => min f.filledQuantity q
    | none => 0
  let m := match inFlight with
    | some q => { m with openerCloseInFlightQty :=
        if q - matched ≤ dust then m.openerCloseInFlightQty.erase opener
        else m.openerCloseInFlightQty.insert opener (q - matched) }
    | none => m
  if dust < f.filledQuantity - matched then m.cancel opener
  else match m.openerRemainingQty.lookup opener with
    | some rem => if rem ≤ 0 then m.cancel opener else m
    | none => m.cancel opener

def addRemaining (opener : Nat) (qty : ℚ) : ExitManager :=
  let rem := (m.openerRemainingQty.lookup opener).getD 0 + qty
  { m with openerRemainingQty := m.openerRemainingQty.insert opener rem }

def recordPlaced (opener : Nat) (first : ExitIntent) (h : BracketHandles) : ExitManager :=
  if h.empty then m
  else
    let leg : ExchangeLeg := ⟨opener, first.strategyName⟩
    { m with
      exchangeToLeg := emplaceLeg (emplaceLeg m.exchangeToLeg h.slExchangeId leg) h.tpExchangeId leg
      handles := if (m.handles.lookup opener).isSome then m.handles else m.handles.insert opener h }

/-- A fill of the opener itself. The first one arms the pending intents; later ones grow the armed
intents. The bracket adapter is given the first of the new intents. -/
def openerFill (f : FillEvent) (placed : BracketHandles)
    (order : IterationOrder (Nat × ExitIntent)) : ExitManager :=
  match order.run (entriesOf m.pending f.orderId) with
  | [] =>
    let grown := m.armed.map fun e => if e.1 = f.orderId then (e.1, e.2.grow f) else e
    { m with armed := grown }.addRemaining f.orderId f.filledQuantity
  | first :: rest =>
    let new := (first :: rest).map fun e => (e.1, e.2.arm f)
    let m := { m with
      armed := m.armed ++ new
      pending := dropOpener m.pending f.orderId }
    let m := m.addRemaining f.orderId f.filledQuantity
    if m.hasBracketAdapter then m.recordPlaced f.orderId (first.2.arm f).intent placed else m

def onFill (f : FillEvent) (opener : Nat) (placed : BracketHandles)
    (order : IterationOrder (Nat × ExitIntent)) : ExitManager :=
  if opener ≠ 0 ∧ opener ≠ f.orderId then m.closerFill f opener
  else m.openerFill f placed order

/-! ## Triggers -/

/-- What may be closed of a requested quantity. Without an entry for the opener, all of it. -/
def consumeOpenerQty (opener : Nat) (requested : ℚ) : ℚ × ExitManager :=
  if 0 < requested then
    match m.openerRemainingQty.lookup opener with
    | none => (requested, m)
    | some rem =>
      let qty := min requested rem
      let left := if |rem - qty| < dust then 0 else rem - qty
      (qty, { m with openerRemainingQty := m.openerRemainingQty.insert opener left })
  else (0, m)

def closeOrder (ts : Int) (opener : Nat) (ai : ArmedIntent) (qty price : ℚ) : OrderEvent :=
  { OrderEvent.new ts 0 ai.intent.symbol .market ai.intent.closeSide qty price .gtc 0 with
    openerOrderId := opener
    strategyName := ai.intent.strategyName }

/-- The opener has no entry, or one with nothing left. -/
def isFlat (opener : Nat) : Bool :=
  (m.openerRemainingQty.lookup opener).all fun rem => rem ≤ 0

/-- The end of an iteration whose intent is triggered and erased; `others` are the intents that
stay armed. -/
def fire (ts : Int) (price : ℚ) (opener : Nat) (ai : ArmedIntent)
    (others : List (Nat × ArmedIntent)) : Option OrderEvent × ExitManager :=
  let last := (entriesOf others opener).isEmpty
  let release (m : ExitManager) :=
    (m.untrackOpener opener ai.intent.strategyName ai.intent.symbol).releaseVenueBracket opener
  let (qty, m) := m.consumeOpenerQty opener ai.intent.qty
  if 0 < qty then
    let inFlight := (m.openerCloseInFlightQty.lookup opener).getD 0 + qty
    let m := { m with openerCloseInFlightQty := m.openerCloseInFlightQty.insert opener inFlight }
    let m := m.releaseVenueBracket opener
    let m := if m.isFlat opener ∨ last then
        release { m with openerRemainingQty := m.openerRemainingQty.erase opener }
      else m
    (some (closeOrder ts opener ai qty price), m)
  else (none, if last then release m else m)

/-- The loop of `on_price` and `on_bar`: the intents already passed that stay, and those to come. -/
def evaluate (probe : ArmedIntent → ArmedIntent × Option ℚ) (symbol : String) (ts : Int) :
    List (Nat × ArmedIntent) → List (Nat × ArmedIntent) → ExitManager →
      List OrderEvent × ExitManager
  | kept, [], m => ([], { m with armed := kept })
  | kept, (opener, ai) :: rest, m =>
    if ai.intent.symbol ≠ symbol then evaluate probe symbol ts (kept ++ [(opener, ai)]) rest m
    else
      match probe ai with
      | (ai, none) => evaluate probe symbol ts (kept ++ [(opener, ai)]) rest m
      | (ai, some price) =>
        let (close, m) := m.fire ts price opener ai (kept ++ rest)
        let (closes, m) := evaluate probe symbol ts kept rest m
        (close.toList ++ closes, m)

def onPrice (symbol : String) (px : ℚ) (ts : Int)
    (order : IterationOrder (Nat × ArmedIntent)) : List OrderEvent × ExitManager :=
  if m.armed.isEmpty ∨ ¬ 0 < px then ([], m)
  else evaluate (ArmedIntent.probePrice px ts) symbol ts [] (order.run m.armed) m

def onBar (symbol : String) (open_ low high close : ℚ) (ts : Int)
    (order : IterationOrder (Nat × ArmedIntent)) : List OrderEvent × ExitManager :=
  if m.armed.isEmpty ∨ ¬ 0 < low ∨ ¬ 0 < high ∨ ¬ 0 < close then ([], m)
  else
    evaluate (ArmedIntent.probeBar (if 0 < open_ then open_ else close) (min low high)
      (max low high) close ts) symbol ts [] (order.run m.armed) m

/-! ## Runs -/

inductive Op
  | register (intent : ExitIntent)
  | fill (f : FillEvent) (opener : Nat) (placed : BracketHandles)
      (order : IterationOrder (Nat × ExitIntent))
  | price (symbol : String) (px : ℚ) (ts : Int) (order : IterationOrder (Nat × ArmedIntent))
  | bar (symbol : String) (open_ low high close : ℚ) (ts : Int)
      (order : IterationOrder (Nat × ArmedIntent))
  | cancel (opener : Nat)
  | cancelStrategy (strategyName symbol : String)

/-- A call that evaluates the armed intents. -/
def Op.evaluates : Op → Bool
  | .price .. | .bar .. => true
  | _ => false

/-- One operation, with the closing orders it emits. -/
def call : Op → List OrderEvent × ExitManager
  | .register intent => ([], m.registerPending intent)
  | .fill f opener placed order => ([], m.onFill f opener placed order)
  | .price symbol px ts order => m.onPrice symbol px ts order
  | .bar symbol open_ low high close ts order => m.onBar symbol open_ low high close ts order
  | .cancel opener => ([], m.cancel opener)
  | .cancelStrategy strategyName symbol => ([], m.cancelStrategy strategyName symbol)

def closedQty (closes : List OrderEvent) (opener : Nat) : ℚ :=
  ((closes.filter fun o => o.openerOrderId = opener).map OrderEvent.quantity).sum

/-- The manager, with what was filled of each opener and what was emitted to close it. -/
structure Ledger where
  manager : ExitManager
  filled : Nat → ℚ
  closed : Nat → ℚ

def Ledger.init (hasBracketAdapter : Bool) : Ledger where
  manager := ExitManager.init hasBracketAdapter
  filled := fun _ => 0
  closed := fun _ => 0

/-- Whether `on_fill` takes the fill as one of the opener itself. -/
def isOpenerFill (f : FillEvent) (opener : Nat) : Bool := ¬ (opener ≠ 0 ∧ opener ≠ f.orderId)

/-- Record the closes that a trigger emitted. -/
def Ledger.fired (l : Ledger) (r : List OrderEvent × ExitManager) : List OrderEvent × Ledger :=
  (r.1, { l with manager := r.2, closed := fun opener => l.closed opener + closedQty r.1 opener })

/-- One operation, on the ledger. -/
def step (l : Ledger) : Op → List OrderEvent × Ledger
  | .register intent => ([], { l with manager := l.manager.registerPending intent })
  | .fill f opener placed order => ([], { l with
      manager := l.manager.onFill f opener placed order
      filled := fun id => l.filled id +
        if isOpenerFill f opener ∧ f.orderId = id then f.filledQuantity else 0 })
  | .price symbol px ts order => l.fired (l.manager.onPrice symbol px ts order)
  | .bar symbol open_ low high close ts order =>
    l.fired (l.manager.onBar symbol open_ low high close ts order)
  | .cancel opener => ([], { l with manager := l.manager.cancel opener })
  | .cancelStrategy strategyName symbol =>
    ([], { l with manager := l.manager.cancelStrategy strategyName symbol })

/-- The ledger's manager is the manager that runs without one. -/
theorem step_call (l : Ledger) (op : Op) :
    (step l op).1 = (l.manager.call op).1 ∧ (step l op).2.manager = (l.manager.call op).2 := by
  cases op <;> exact ⟨rfl, rfl⟩

end ExitManager

end TrueTest
