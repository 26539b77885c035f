import Mathlib.Tactic.Linarith
import TrueTest.Execution.FillStatus
import TrueTest.Util.Machine
import TrueTest.Util.Rounding

/-!
# The trade-tape shadow adapter

`TradeTapeShadowAdapter` of `execution/trade_tape_shadow_adapter.h`: open orders are filled from the
venue's trade prints, each print paying down the queue ahead of an order first. Sampled latencies
and the estimate of the queue position model are inputs of the calls. The flags the calls return,
the receive times and the fill source are left out.

Each fill is written after the order's remaining quantity was reduced, so it carries what is open
(`carriesRemaining_of_run`) as long as the reduction is exact: ten prints of 0.1 leave more than
nothing of an order of 1.0 in doubles. The result of every subtraction passes the rounding of the
configuration.
-/

namespace TrueTest

open Machine List

structure TradeTapeConfig where
  /-- Takes side, quantity, price and whether the fill is a taker's. -/
  feeModel : Option (OrderSide → ℚ → ℚ → Bool → ℚ)
  hasLatencyModel : Bool
  hasQueueModel : Bool
  rounding : Rounding

structure OpenOrder where
  engineId : Nat
  symbol : String
  side : OrderSide
  type : OrderType
  limitPrice : ℚ
  qtyRemaining : ℚ
  queueAhead : ℚ
  initialQueue : ℚ
  queueConsumed : ℚ
  countedDrain : Bool
  submitTs : Int
  strategyName : String
  openerOrderId : Nat

structure TradeTape where
  openOrders : List OpenOrder
  pendingFills : List FillEvent
  nextFillId : Nat
  submittedWithQueue : Nat
  filledAfterDrain : Nat
  pendingCancels : AList fun _ : Nat => Int
  currentTime : Int

namespace TradeTape

def init : TradeTape where
  openOrders := []
  pendingFills := []
  nextFillId := 0
  submittedWithQueue := 0
  filledAfterDrain := 0
  pendingCancels := ∅
  currentTime := 0

variable (cfg : TradeTapeConfig) (a : TradeTape) (s : Session TradeTape)

def submitOrder (o : OrderEvent) (latency : Int) (queueAhead : ℚ) : TradeTape :=
  let queue := if cfg.hasQueueModel ∧ o.orderType = .limit then queueAhead else 0
  { a with
    submittedWithQueue := if 0 < queue then a.submittedWithQueue + 1 else a.submittedWithQueue
    openOrders := a.openOrders ++ [{
      engineId := o.orderId
      symbol := o.symbol
      side := o.side
      type := o.orderType
      limitPrice := o.price
      qtyRemaining := o.quantity
      queueAhead := queue
      initialQueue := queue
      queueConsumed := 0
      countedDrain := false
      submitTs := if cfg.hasLatencyModel then o.earliestEligibleTs + latency
        else o.earliestEligibleTs
      strategyName := o.strategyName
      openerOrderId := o.openerOrderId }] }

def pollFills : List FillEvent × TradeTape :=
  (a.pendingFills, { a with pendingFills := [] })

/-- `std::remove_if` by id. -/
def remove (id : Nat) : TradeTape :=
  { a with openOrders := a.openOrders.filter fun oo => oo.engineId ≠ id }

def cancelOrder (id : Nat) (latency : Int) : TradeTape :=
  if cfg.hasLatencyModel then
    if a.openOrders.any fun oo => oo.engineId = id then
      { a with pendingCancels := a.pendingCancels.insert id (a.currentTime + latency) }
    else a
  else a.remove id

def landCancel (ts : Int) (a : TradeTape) (id : Nat) : TradeTape :=
  match a.pendingCancels.lookup id with
  | some due =>
    if due ≤ ts then { a.remove id with pendingCancels := a.pendingCancels.erase id } else a
  | none => a

def advanceTime (ts : Int) (order : IterationOrder Nat) : TradeTape :=
  (order.run a.pendingCancels.keys).foldl (landCancel ts) { a with currentTime := ts }

/-- Set the price and the remaining quantity of the first order with the id. -/
def modifyFirst (id : Nat) (price qty : ℚ) : List OpenOrder → List OpenOrder
  | [] => []
  | oo :: rest =>
    if oo.engineId = id then { oo with limitPrice := price, qtyRemaining := qty } :: rest
    else oo :: modifyFirst id price qty rest

def modifyOrder (id : Nat) (price qty : ℚ) : TradeTape :=
  { a with openOrders := modifyFirst id price qty a.openOrders }

/-! ## Trade prints -/

/-- Whether a print at `price` touches the order. -/
def crosses (oo : OpenOrder) (price : ℚ) : Bool :=
  oo.type = .market ∨ (oo.side = .buy ∧ price ≤ oo.limitPrice) ∨
    (oo.side = .sell ∧ oo.limitPrice ≤ price)

/-- The fill for what a print gives an order. -/
def tapeFill (price : ℚ) (ts : Int) (oo : OpenOrder) (qty : ℚ) : FillEvent where
  timestamp := ts
  symbol := oo.symbol
  orderId := oo.engineId
  side := oo.side
  filledQuantity := qty
  fillPrice := price
  commission := match cfg.feeModel with
    | some fee => fee oo.side qty price true
    | none => 0
  remainingQty := max 0 (cfg.rounding.sub oo.qtyRemaining qty)
  fillId := a.nextFillId + 1
  strategyName := oo.strategyName
  openerOrderId := oo.openerOrderId

/-- Fill an order from what is left of a print; an order that is done is erased. -/
def fillFrom (price : ℚ) (ts : Int) (oo : OpenOrder) (tape : ℚ)
    (a : TradeTape) : Option OpenOrder × ℚ × TradeTape :=
  let qty := min oo.qtyRemaining tape
  let left := cfg.rounding.sub oo.qtyRemaining qty
  let a := { a with
    pendingFills := a.pendingFills ++ [a.tapeFill cfg price ts oo qty]
    nextFillId := a.nextFillId + 1 }
  (if left ≤ dust then none else some { oo with qtyRemaining := left },
   cfg.rounding.sub tape qty, a)

/-- The print pays down the queue ahead of an order. -/
def drain (oo : OpenOrder) (tape : ℚ) : OpenOrder × ℚ :=
  let eaten := min oo.queueAhead tape
  ({ oo with
      queueAhead := cfg.rounding.sub oo.queueAhead eaten
      queueConsumed := cfg.rounding.round (oo.queueConsumed + eaten) },
    cfg.rounding.sub tape eaten)

/-- One iteration of the loop over the open orders. -/
def touch (symbol : String) (price : ℚ) (ts : Int) (oo : OpenOrder)
    (tape : ℚ) (a : TradeTape) : Option OpenOrder × ℚ × TradeTape :=
  if oo.symbol ≠ symbol ∨ ts < oo.submitTs ∨ ¬ crosses oo price then (some oo, tape, a)
  else if 0 < oo.queueAhead then
    let (oo, tape) := drain cfg oo tape
    if dust < oo.queueAhead ∨ tape ≤ 0 then (some oo, tape, a)
    else if 0 < oo.initialQueue ∧ ¬ oo.countedDrain then
      fillFrom cfg price ts { oo with countedDrain := true } tape
        { a with filledAfterDrain := a.filledAfterDrain + 1 }
    else fillFrom cfg price ts oo tape a
  else fillFrom cfg price ts oo tape a

def touchAll (cfg : TradeTapeConfig) (symbol : String) (price : ℚ) (ts : Int) :
    List OpenOrder → ℚ → TradeTape → List OpenOrder × TradeTape
  | [], _, a => ([], a)
  | oo :: rest, tape, a =>
    if 0 < tape then
      let (kept, tape, a) := touch cfg symbol price ts oo tape a
      let (rest, a) := touchAll cfg symbol price ts rest tape a
      (kept.toList ++ rest, a)
    else (oo :: rest, a)

def onTrade (symbol : String) (price qty : ℚ) (ts : Int) : TradeTape :=
  if 0 < qty ∧ 0 < price then
    let (orders, a) := touchAll cfg symbol price ts a.openOrders qty a
    { a with openOrders := orders }
  else a

/-! ## Runs -/

inductive Op
  | submit (o : OrderEvent) (latency : Int) (queueAhead : ℚ)
  | cancel (id : Nat) (latency : Int)
  | modify (id : Nat) (price qty : ℚ)
  | advanceTime (ts : Int) (order : IterationOrder Nat)
  | trade (symbol : String) (price qty : ℚ) (ts : Int)
  | poll

def step : Op → Unit × Session TradeTape
  | .submit o latency queueAhead => ((), { s with
      adapter := s.adapter.submitOrder cfg o latency queueAhead
      submitted := s.submitted ++ [o] })
  | .cancel id latency => ((), { s with adapter := s.adapter.cancelOrder cfg id latency })
  | .modify id price qty => ((), { s with adapter := s.adapter.modifyOrder id price qty })
  | .advanceTime ts order => ((), { s with adapter := s.adapter.advanceTime ts order })
  | .trade symbol price qty ts =>
    ((), { s with adapter := s.adapter.onTrade cfg symbol price qty ts })
  | .poll =>
    let (fills, a) := s.adapter.pollFills
    ((), { s with adapter := a, delivered := s.delivered ++ fills })

def reported : List FillEvent := s.delivered ++ s.adapter.pendingFills

/-- Ids are submitted once, nothing is modified, and the quantities of orders, queues and prints are
multiples of one unit, so that no subtraction rounds. -/
def Admissible : Op → Prop
  | .submit o _ queueAhead => o.orderId ∉ s.submittedIds ∧
      cfg.rounding.OnGrid o.quantity ∧ cfg.rounding.OnGrid queueAhead
  | .modify .. => False
  | .trade _ _ qty _ => cfg.rounding.OnGrid qty
  | _ => True

instance (op : Op) : Decidable (Admissible cfg s op) := by
  cases op <;> unfold Admissible <;> infer_instance

/-! ## Remaining quantities -/

section Touch

variable {cfg : TradeTapeConfig} {symbol : String} {price tape : ℚ} {ts : Int}
  {submitted : List OrderEvent} {fs : List FillEvent} {oo : OpenOrder} {a : TradeTape}

/-- The quantities that are subtracted from each other are on the grid. -/
def Gridded (cfg : TradeTapeConfig) (oo : OpenOrder) : Prop :=
  cfg.rounding.OnGrid oo.qtyRemaining ∧ cfg.rounding.OnGrid oo.queueAhead

/-- The fills carry what is open, and so do the records of some orders. -/
structure Tallied (cfg : TradeTapeConfig) (submitted : List OrderEvent) (orders : List OpenOrder)
    (fills : List FillEvent) : Prop where
  carries : CarriesRemaining submitted fills
  owed : ∀ oo ∈ orders, Owed submitted fills oo.engineId oo.qtyRemaining
  grid : ∀ oo ∈ orders, Gridded cfg oo

/-- What one iteration does to its order: it appends fills of that order only, and what it keeps of
the order is tallied again. What is left of the print stays on the grid. -/
structure Touched (cfg : TradeTapeConfig) (submitted : List OrderEvent) (fs : List FillEvent)
    (oo : OpenOrder) (a : TradeTape) (r : Option OpenOrder × ℚ × TradeTape) : Prop where
  fills : ∃ new, r.2.2.pendingFills = a.pendingFills ++ new ∧ ∀ f ∈ new, f.orderId = oo.engineId
  kept : ∀ x ∈ r.1, x.engineId = oo.engineId
  tallied : Tallied cfg submitted r.1.toList (fs ++ r.2.2.pendingFills)
  tape : cfg.rounding.OnGrid r.2.1

/-- What is taken of two quantities on the grid leaves both on it, exactly. -/
theorem grid_take {x : ℚ} (hx : cfg.rounding.OnGrid x) (htape : cfg.rounding.OnGrid tape) :
    (cfg.rounding.sub x (min x tape) = x - min x tape ∧
      cfg.rounding.OnGrid (cfg.rounding.sub x (min x tape))) ∧
      cfg.rounding.OnGrid (cfg.rounding.sub tape (min x tape)) := by
  have htaken : cfg.rounding.OnGrid (min x tape) := by
    rcases min_choice x tape with h | h <;> rwa [h]
  rw [hx.sub_eq htaken (min_le_left x tape), htape.sub_eq htaken (min_le_right x tape)]
  exact ⟨⟨rfl, hx.sub htaken (min_le_left x tape)⟩, htape.sub htaken (min_le_right x tape)⟩

section

variable (h : Tallied cfg submitted [oo] (fs ++ a.pendingFills)) (htape : cfg.rounding.OnGrid tape)
include h htape

theorem touched_self : Touched cfg submitted fs oo a (some oo, tape, a) where
  fills := ⟨[], (append_nil _).symm, fun _ hf => absurd hf not_mem_nil⟩
  kept := fun x hx => by rw [Option.mem_some_iff.1 hx]
  tallied := h
  tape := htape

theorem fillFrom_touched : Touched cfg submitted fs oo a (fillFrom cfg price ts oo tape a) := by
  obtain ⟨hqty, hqueue⟩ := h.grid oo mem_cons_self
  obtain ⟨⟨hleft, hgrid⟩, hrest⟩ := grid_take hqty htape
  set qty := min oo.qtyRemaining tape
  have hle : qty ≤ oo.qtyRemaining := min_le_left _ _
  have hrem : (a.tapeFill cfg price ts oo qty).remainingQty =
      oo.qtyRemaining - (a.tapeFill cfg price ts oo qty).filledQuantity := by
    rw [tapeFill, hleft]
    exact max_eq_right (sub_nonneg.2 hle)
  obtain ⟨hcarries, howed⟩ := h.carries.fill (h.owed oo mem_cons_self) hrem
  have hkept : ∀ x ∈ (fillFrom cfg price ts oo tape a).1,
      x = { oo with qtyRemaining := cfg.rounding.sub oo.qtyRemaining qty } := by
    intro x hx
    rw [fillFrom] at hx
    split at hx
    · cases hx
    · exact Option.mem_some_iff.1 hx |>.symm
  refine ⟨⟨[a.tapeFill cfg price ts oo qty], rfl, fun f hf => ?_⟩, fun x hx => ?_,
    ⟨?_, fun x hx => ?_, fun x hx => ?_⟩, hrest⟩
  · rw [mem_singleton.1 hf]
    rfl
  · rw [hkept x hx]
  · rw [fillFrom, ← append_assoc]
    exact hcarries
  · rw [hkept x (Option.mem_toList.1 hx), fillFrom, ← append_assoc, hleft]
    exact howed
  · rw [hkept x (Option.mem_toList.1 hx)]
    exact ⟨hgrid, hqueue⟩

theorem touch_touched : Touched cfg submitted fs oo a (touch cfg symbol price ts oo tape a) := by
  obtain ⟨hqty, hqueue⟩ := h.grid oo mem_cons_self
  obtain ⟨⟨-, hahead⟩, hrest⟩ := grid_take hqueue htape
  -- Draining the queue changes neither the id nor what remains.
  have hsame : ∀ x, x.engineId = oo.engineId → x.qtyRemaining = oo.qtyRemaining →
      x.queueAhead = (drain cfg oo tape).1.queueAhead →
      Tallied cfg submitted [x] (fs ++ a.pendingFills) := by
    intro x hid hsame hdrained
    refine ⟨h.carries, forall_mem_singleton.2 ?_, forall_mem_singleton.2 ⟨?_, ?_⟩⟩
    · rw [hid, hsame]
      exact h.owed oo mem_cons_self
    · rwa [hsame]
    · rwa [hdrained]
  have hmove : ∀ x (b : TradeTape) (r : Option OpenOrder × ℚ × TradeTape),
      Touched cfg submitted fs x b r → x.engineId = oo.engineId → b.pendingFills = a.pendingFills →
      Touched cfg submitted fs oo a r := by
    intro x b r ht hid hfills
    obtain ⟨hf, hk, htal, hgrid⟩ := ht
    rw [hid] at hk
    rw [hfills, hid] at hf
    exact ⟨hf, hk, htal, hgrid⟩
  unfold touch
  split
  · exact touched_self h htape
  · split
    · have hdrained := hsame (drain cfg oo tape).1 rfl rfl rfl
      dsimp only
      split
      · exact hmove _ _ _ (touched_self hdrained hrest) rfl rfl
      · split
        · refine hmove { (drain cfg oo tape).1 with countedDrain := true }
            { a with filledAfterDrain := a.filledAfterDrain + 1 } _ ?_ rfl rfl
          exact fillFrom_touched (hsame _ rfl rfl rfl) hrest
        · exact hmove _ _ _ (fillFrom_touched hdrained hrest) rfl rfl
    · exact fillFrom_touched h htape

end

/-- The loop appends fills of its orders only, and tallies what it keeps. -/
theorem touchAll_tallied {orders : List OpenOrder} (hnd : (orders.map OpenOrder.engineId).Nodup)
    (h : Tallied cfg submitted orders (fs ++ a.pendingFills)) (htape : cfg.rounding.OnGrid tape) :
    let r := touchAll cfg symbol price ts orders tape a
    (∃ new, r.2.pendingFills = a.pendingFills ++ new ∧
      ∀ f ∈ new, f.orderId ∈ orders.map OpenOrder.engineId) ∧
    (r.1.map OpenOrder.engineId).Sublist (orders.map OpenOrder.engineId) ∧
    Tallied cfg submitted r.1 (fs ++ r.2.pendingFills) := by
  induction orders generalizing tape a with
  | nil =>
    exact ⟨⟨[], (append_nil _).symm, fun _ hf => absurd hf not_mem_nil⟩, Sublist.refl _, h⟩
  | cons oo rest ih =>
    obtain ⟨hnot, hnd⟩ := nodup_cons.1 hnd
    rw [touchAll]
    split
    · have ht : Touched cfg submitted fs oo a (touch cfg symbol price ts oo tape a) :=
        touch_touched ⟨h.carries, forall_mem_singleton.2 (h.owed oo mem_cons_self),
          forall_mem_singleton.2 (h.grid oo mem_cons_self)⟩ htape
      set t := touch cfg symbol price ts oo tape a
      obtain ⟨new, hnew, hid⟩ := ht.fills
      have hrest : Tallied cfg submitted rest (fs ++ t.2.2.pendingFills) := by
        refine ⟨ht.tallied.carries, fun x hx => ?_, fun x hx => h.grid x (mem_cons_of_mem _ hx)⟩
        rw [hnew, ← append_assoc]
        refine (h.owed x (mem_cons_of_mem _ hx)).other fun f hf he => hnot ?_
        rw [← hid f hf, he]
        exact mem_map_of_mem hx
      obtain ⟨⟨more, hmore, hids⟩, hsub, htal⟩ := ih hnd hrest ht.tape
      set r := touchAll cfg symbol price ts rest t.2.1 t.2.2
      refine ⟨⟨new ++ more, by rw [hmore, hnew, append_assoc], fun f hf => ?_⟩, ?_,
        htal.carries, fun x hx => ?_, forall_mem_append.2 ⟨ht.tallied.grid, htal.grid⟩⟩
      · rcases mem_append.1 hf with hf | hf
        · rw [hid f hf]
          exact mem_cons_self
        · exact mem_cons_of_mem _ (hids f hf)
      · rw [map_append]
        cases hk : t.1 with
        | none => exact hsub.cons _
        | some x =>
          rw [Option.toList_some, map_singleton, ht.kept x hk]
          exact hsub.cons_cons _
      · rcases mem_append.1 hx with hx | hx
        · have hxid := ht.kept x (Option.mem_toList.1 hx)
          rw [hmore, ← append_assoc]
          refine (ht.tallied.owed x hx).other fun f hf he => hnot ?_
          rw [← hxid, ← he]
          exact hids f hf
        · exact htal.owed x hx
    · exact ⟨⟨[], (append_nil _).symm, fun _ hf => absurd hf not_mem_nil⟩, Sublist.refl _, h⟩

end Touch

/-- The open orders were submitted, under distinct ids, and everything is tallied. -/
structure Consistent (cfg : TradeTapeConfig) (s : Session TradeTape) : Prop where
  nodup : (s.adapter.openOrders.map OpenOrder.engineId).Nodup
  known : ∀ oo ∈ s.adapter.openOrders, oo.engineId ∈ s.submittedIds
  fills_known : ∀ f ∈ reported s, f.orderId ∈ s.submittedIds
  tallied : Tallied cfg s.submitted s.adapter.openOrders (reported s)

section Steps

variable {cfg : TradeTapeConfig} {s : Session TradeTape}

/-- Dropping open orders. -/
theorem Consistent.filter (h : Consistent cfg s) {a : TradeTape}
    (horders : a.openOrders.Sublist s.adapter.openOrders)
    (hfills : a.pendingFills = s.adapter.pendingFills) :
    Consistent cfg { s with adapter := a } := by
  have hrep : reported { s with adapter := a } = reported s := by rw [reported, hfills]; rfl
  exact {
    nodup := h.nodup.sublist (horders.map _)
    known := fun oo hoo => h.known oo (horders.subset hoo)
    fills_known := by rw [hrep]; exact h.fills_known
    tallied := by
      rw [hrep]
      exact ⟨h.tallied.carries, fun oo hoo => h.tallied.owed oo (horders.subset hoo),
        fun oo hoo => h.tallied.grid oo (horders.subset hoo)⟩ }

theorem landCancel_sublist (ts : Int) (a : TradeTape) (id : Nat) :
    (landCancel ts a id).openOrders.Sublist a.openOrders ∧
      (landCancel ts a id).pendingFills = a.pendingFills := by
  unfold landCancel
  cases a.pendingCancels.lookup id with
  | none => exact ⟨Sublist.refl _, rfl⟩
  | some due =>
    dsimp only
    split
    · exact ⟨filter_sublist, rfl⟩
    · exact ⟨Sublist.refl _, rfl⟩

theorem advanceTime_sublist (ts : Int) (order : IterationOrder Nat) :
    (a.advanceTime ts order).openOrders.Sublist a.openOrders ∧
      (a.advanceTime ts order).pendingFills = a.pendingFills := by
  refine foldlRecOn (motive := fun b : TradeTape => b.openOrders.Sublist a.openOrders ∧
    b.pendingFills = a.pendingFills) _ _ ⟨.refl _, rfl⟩ fun b hb id _ => ?_
  obtain ⟨hsub, hfills⟩ := landCancel_sublist ts b id
  exact ⟨hsub.trans hb.1, hfills.trans hb.2⟩

/-- Every step but a modification keeps the tally. -/
theorem step_consistent (op : Op) (h : Consistent cfg s) (hop : Admissible cfg s op) :
    Consistent cfg (step cfg s op).2 := by
  cases op with
  | submit o latency queueAhead =>
    obtain ⟨hfresh, hqty, hahead⟩ := hop
    have hqueue : cfg.rounding.OnGrid
        (if cfg.hasQueueModel ∧ o.orderType = .limit then queueAhead else 0) := by
      split
      · exact hahead
      · exact sub_self o.quantity ▸ hqty.sub hqty le_rfl
    have hnone : ∀ f ∈ reported s, f.orderId ≠ o.orderId := fun f hf he =>
      hfresh (he ▸ h.fills_known f hf)
    refine ⟨?_, ?_, fun f hf => mem_orderIds_snoc.2 (.inl (h.fills_known f hf)),
      h.tallied.carries.submit hnone, ?_,
      forall_mem_append.2 ⟨h.tallied.grid, forall_mem_singleton.2 ⟨hqty, hqueue⟩⟩⟩
    · show ((s.adapter.openOrders ++ [_]).map OpenOrder.engineId).Nodup
      rw [map_append, map_singleton]
      refine nodup_append.2 ⟨h.nodup, nodup_singleton _, fun x hx y hy he => hfresh ?_⟩
      obtain ⟨oo, hoo, rfl⟩ := mem_map.1 hx
      have hid : oo.engineId = o.orderId := he.trans (mem_singleton.1 hy)
      exact hid ▸ h.known oo hoo
    · exact forall_mem_append.2 ⟨fun oo hoo => mem_orderIds_snoc.2 (.inl (h.known oo hoo)),
        forall_mem_singleton.2 (mem_orderIds_snoc.2 (.inr rfl))⟩
    · exact forall_mem_append.2 ⟨fun oo hoo => (h.tallied.owed oo hoo).submit fun he =>
        hfresh (he ▸ h.known oo hoo), forall_mem_singleton.2 (owed_new hfresh hnone)⟩
  | cancel id latency =>
    show Consistent cfg { s with adapter := s.adapter.cancelOrder cfg id latency }
    unfold cancelOrder
    split
    · split
      · exact h.filter (Sublist.refl _) rfl
      · exact h
    · exact h.filter filter_sublist rfl
  | modify id price qty => exact hop.elim
  | advanceTime ts order =>
    obtain ⟨hsub, hfills⟩ := advanceTime_sublist s.adapter ts order
    exact h.filter hsub hfills
  | trade symbol price qty ts =>
    show Consistent cfg { s with adapter := s.adapter.onTrade cfg symbol price qty ts }
    unfold onTrade
    split
    · obtain ⟨⟨new, hnew, hids⟩, hsub, htal⟩ := @touchAll_tallied cfg symbol price qty ts
        s.submitted s.delivered s.adapter _ h.nodup h.tallied hop
      have hknown : ∀ id ∈ s.adapter.openOrders.map OpenOrder.engineId, id ∈ s.submittedIds := by
        intro id hid
        obtain ⟨oo, hoo, rfl⟩ := mem_map.1 hid
        exact h.known oo hoo
      refine ⟨h.nodup.sublist hsub, fun oo hoo => hknown _ (hsub.subset (mem_map_of_mem hoo)), ?_,
        htal⟩
      show ∀ f ∈ s.delivered ++ _, f.orderId ∈ s.submittedIds
      rw [hnew, ← append_assoc]
      exact forall_mem_append.2 ⟨h.fills_known, fun f hf => hknown _ (hids f hf)⟩
    · exact h
  | poll =>
    have hrep : reported (step cfg s .poll).2 = reported s := append_nil _
    refine ⟨h.nodup, h.known, ?_, ?_⟩
    · rw [hrep]
      exact h.fills_known
    · rw [hrep]
      exact h.tallied

/-- Every fill of every run without modifications carries what is open of its order, if no
subtraction rounds. -/
theorem carriesRemaining_of_run (cfg : TradeTapeConfig) (ops : List Op)
    (hops : Along (step cfg) (Admissible cfg) ⟨init, [], []⟩ ops) :
    ∀ s ∈ states (step cfg) ⟨init, [], []⟩ ops, CarriesRemaining s.submitted (reported s) := by
  have hinit : Consistent cfg ⟨init, [], []⟩ := {
    nodup := nodup_nil
    known := fun _ hoo => absurd hoo not_mem_nil
    fills_known := fun _ hf => absurd hf not_mem_nil
    tallied := ⟨carriesRemaining_nil _, fun _ hoo => absurd hoo not_mem_nil,
      fun _ hoo => absurd hoo not_mem_nil⟩ }
  intro s hs
  exact (invariant (fun _ op => step_consistent op) hinit hops s hs).tallied.carries

end Steps

end TradeTape

end TrueTest
