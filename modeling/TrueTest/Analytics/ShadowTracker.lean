import TrueTest.Core.Event

/-!
# The shadow tracker

`ShadowTracker` has one record for each order id. A fill, simulated or of the exchange, is written
over the fill before it, so that the record compares the two executions of an order only if each
came in one fill.
-/

namespace TrueTest

open List

/-- What one of the two executions is recorded with. -/
structure ShadowLeg where
  price : ℚ := 0
  quantity : ℚ := 0
  filled : Bool := false
deriving DecidableEq

structure ShadowFill where
  symbol : String := ""
  side : OrderSide := .buy
  sim : ShadowLeg := {}
  exchange : ShadowLeg := {}

def ShadowFill.slippage (r : ShadowFill) : ℚ :=
  if r.sim.filled = false ∨ r.exchange.filled = false then 0 else r.exchange.price - r.sim.price

def ShadowFill.leg (r : ShadowFill) (simulated : Bool) : ShadowLeg :=
  if simulated then r.sim else r.exchange

abbrev ShadowTracker := AList fun _ : Nat => ShadowFill

namespace ShadowTracker

variable (t : ShadowTracker)

def getOrCreate (id : Nat) : ShadowFill := (t.lookup id).getD {}

def onSimulatedFill (f : FillEvent) : ShadowTracker :=
  t.insert f.orderId { t.getOrCreate f.orderId with
    sim := ⟨f.fillPrice, f.filledQuantity, true⟩, symbol := f.symbol, side := f.side }

def onExchangeFill (f : FillEvent) : ShadowTracker :=
  t.insert f.orderId { t.getOrCreate f.orderId with
    exchange := ⟨f.fillPrice, f.filledQuantity, true⟩, symbol := f.symbol, side := f.side }

structure Delivery where
  simulated : Bool
  fill : FillEvent
  pos : 0 < fill.filledQuantity

def deliver (d : Delivery) : ShadowTracker :=
  if d.simulated then t.onSimulatedFill d.fill else t.onExchangeFill d.fill

def run (ds : List Delivery) : ShadowTracker := ds.foldl deliver ∅

/-- The fills of one execution of an order. -/
def fillsOf (ds : List Delivery) (simulated : Bool) (id : Nat) : List Delivery :=
  ds.filter fun d => d.simulated = simulated ∧ d.fill.orderId = id

/-- The total quantity and the volume-weighted price of some fills. -/
def aggregate (ds : List Delivery) : ShadowLeg :=
  let quantity := (ds.map (·.fill.filledQuantity)).sum
  ⟨(ds.map fun d => d.fill.fillPrice * d.fill.filledQuantity).sum / quantity, quantity, !ds.isEmpty⟩

variable (d : Delivery) (ds : List Delivery) (simulated : Bool) (id : Nat)

def Delivery.leg : ShadowLeg := ⟨d.fill.fillPrice, d.fill.filledQuantity, true⟩

theorem leg_deliver : ((t.deliver d).getOrCreate id).leg simulated =
    if d.simulated = simulated ∧ d.fill.orderId = id then d.leg
    else (t.getOrCreate id).leg simulated := by
  by_cases hid : d.fill.orderId = id
  · subst hid
    cases hd : d.simulated <;> cases simulated <;>
      simp [deliver, hd, onSimulatedFill, onExchangeFill, getOrCreate, ShadowFill.leg, Delivery.leg]
  · cases hd : d.simulated <;>
      simp [deliver, hd, onSimulatedFill, onExchangeFill, getOrCreate, hid,
        AList.lookup_insert_ne (Ne.symm hid)]

/-- A record has the last fill. -/
theorem leg_run : ((run ds).getOrCreate id).leg simulated =
    ((fillsOf ds simulated id).getLast?.map Delivery.leg).getD {} := by
  induction ds using reverseRecOn with
  | nil => cases simulated <;> rfl
  | append_singleton ds d ih =>
    rw [run, foldl_append, foldl_cons, foldl_nil, leg_deliver, ← run, ih]
    by_cases hd : d.simulated = simulated ∧ d.fill.orderId = id <;> simp [fillsOf, hd]

theorem sum_quantity_nonneg : 0 ≤ (ds.map (·.fill.filledQuantity)).sum :=
  sum_nonneg fun q hq => by
    obtain ⟨d, -, rfl⟩ := mem_map.1 hq
    exact d.pos.le

/-- **The records are the total quantities and volume-weighted prices of their orders exactly if no
order has two fills of one execution.** -/
theorem leg_eq_aggregate_iff (ds : List Delivery) :
    (∀ simulated id, ((run ds).getOrCreate id).leg simulated =
      aggregate (fillsOf ds simulated id)) ↔
      ∀ simulated id, (fillsOf ds simulated id).length ≤ 1 := by
  refine forall₂_congr fun simulated id => ?_
  rw [leg_run]
  rcases eq_nil_or_concat (fillsOf ds simulated id) with hnil | ⟨init, d, hsnoc⟩
  · simp [hnil, aggregate]
  · rw [hsnoc, concat_eq_append, getLast?_concat]
    cases init with
    | nil => simp [aggregate, Delivery.leg, d.pos.ne']
    | cons d' init =>
      have hrest := sum_quantity_nonneg init
      have hpos := d'.pos
      simp only [aggregate, Delivery.leg, Option.map_some, Option.getD_some, ShadowLeg.mk.injEq,
        cons_append, map_cons, map_append, map_nil, sum_cons, sum_append, sum_nil]
      refine iff_of_false (fun h => ?_) (by simp)
      linarith [h.2.1]

/-- One execution in two fills and the other in one, at the same average price: the record has a
slippage. -/
theorem leg_ne_aggregate :
    let fill price qty : FillEvent := ⟨0, "BTC", 1, .buy, qty, price, 0, 0, 0, "", 0⟩
    let ds : List Delivery := [⟨true, fill 100 1, by decide⟩, ⟨true, fill 102 1, by decide⟩,
      ⟨false, fill 101 2, by decide⟩]
    ((run ds).getOrCreate 1).leg true ≠ aggregate (fillsOf ds true 1) ∧
      ((run ds).getOrCreate 1).slippage = -1 := by
  decide +kernel

end ShadowTracker

end TrueTest
