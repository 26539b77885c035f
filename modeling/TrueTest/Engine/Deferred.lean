import TrueTest.Engine.Protection
import TrueTest.Util.PriorityQueue

/-!
# Deferred orders

With a latency model, or with a delay of a bar, `route_order` parks an order in `pending_orders_`, a
priority queue of entries with a running number. The event loops take the entries out whose time has
come and pass them to `process_order`; the end of a run takes out the rest.

`Schedule` is the engine together with that queue as the source has it (`PendingEntry`,
`pendingCmp`), and with a record of what was deferred, of the ids passed to `process_order`, and of
the queue at each take. The queue's entries in order are the engine's list of deferred orders
(`Sound.order`), so that a schedule runs as the engine does (`map_engine_states`).

No part of `process_order` routes an order: handling a fill only talks to the exit manager and the
strategies, which return nothing. So a drain finds the queue as the previous take left it.
-/

namespace TrueTest

open Machine List Engine

namespace Engine

/-! ## What waits -/

/-- The orders that wait are the same. -/
structure Waits (e e' : Engine) : Prop where
  orders : e'.pendingOrders = e.pendingOrders
  stops : e'.pendingStops = e.pendingStops
  ids : e.nextOrderId ≤ e'.nextOrderId

theorem Waits.refl (e : Engine) : Waits e e := ⟨rfl, rfl, le_rfl⟩

variable {e e₁ e₂ : Engine}

theorem Waits.trans (h₁ : Waits e e₁) (h₂ : Waits e₁ e₂) : Waits e e₂ :=
  ⟨h₂.orders.trans h₁.orders, h₂.stops.trans h₁.stops, h₁.ids.trans h₂.ids⟩

theorem waits_framed : Framed (fun _ _ => True) Waits where
  refl := .refl
  trans := .trans
  frame _ _ _ _ hids horders hstops := ⟨horders, hstops, hids⟩
  act _ _ _ _ := ⟨rfl, rfl, le_rfl⟩
  halt _ := ⟨rfl, rfl, le_rfl⟩
  call _ _ _ := ⟨rfl, rfl, le_rfl⟩

theorem waits_closed : FramedClosed (fun _ _ => True) Waits :=
  waits_framed.closed (fun _ _ => ⟨rfl, rfl, le_rfl⟩) (fun _ _ _ => ⟨rfl, rfl, le_rfl⟩)
    fun _ _ _ _ _ => ⟨rfl, rfl, le_rfl⟩

theorem waits_processOrder (e : Engine) (o : OrderEvent) (r : Replies) :
    Waits e (e.processOrder o r).2 := waits_closed.processOrder e o r fun _ _ _ _ => trivial

/-! ## What an operation defers, and what it passes to `process_order` -/

/-- The order that `dispatch` defers, and the id it passes on. -/
def dispatchFate (e : Engine) (o : OrderEvent) (simTime : Int) (anchorImmediate : Bool)
    (r : Replies) :
    List OrderEvent × List Nat :=
  if o.orderType = .stop ∨ o.orderType = .stopLimit then ([], [])
  else if anchorImmediate then ([], [o.orderId])
  else if e.config.hasLatencyModel then ([{ o with earliestEligibleTs := simTime + r.latency }], [])
  else if 0 < e.config.executionBarDelay then ([{ o with earliestEligibleTs := simTime + 1 }], [])
  else ([], [o.orderId])

def routeFate (e : Engine) (order : OrderEvent) (simTime : Int) (anchorImmediate : Bool)
    (r : Replies) :
    List OrderEvent × List Nat :=
  if e.haltFlag ∨ e.pauseAll then ([], [])
  else
    let rounded := e.applySpec { order with orderId := e.nextOrderId }
    if rounded.1 then e.dispatchFate rounded.2 simTime anchorImmediate r else ([], [])

/-- The closes of a trigger are not deferred. -/
def closesPassed (ts : Int) : List OrderEvent → List Replies → Engine → List Nat
  | [], _, _ => []
  | c :: cs, rs, e =>
    let s := e.routeOrder c ts true (rs.headD .quiet)
    (e.routeFate c ts true (rs.headD .quiet)).2 ++
      if s.1 then closesPassed ts cs rs.tail s.2.2 else []

def stopsPassed (high low : ℚ) (simTime : Int) : List OrderEvent → List Replies → Engine → List Nat
  | [], _, _ => []
  | stop :: rest, rs, e =>
    if e.haltFlag then []
    else if stopTriggered high low stop then
      let r := rs.headD .quiet
      let s := (e.processAdapterFills r.anchorFills).2.processOrder (convertStop simTime stop) r
      stop.orderId :: if s.1 then stopsPassed high low simTime rest rs.tail s.2 else []
    else stopsPassed high low simTime rest rs e

/-- An operation other than a drain. -/
def fate (e : Engine) : Op → List OrderEvent × List Nat
  | .strategyOrder name order _ simTime _ _ r => (e.callback name).routeFate order simTime false r
  | .evaluateExits t symbol ts order rs =>
    let s := e.callExits (t.call symbol ts order)
    ([], closesPassed ts s.1 rs s.2)
  | .checkPendingStops high low simTime rs => ([], stopsPassed high low simTime e.pendingStops rs e)
  | _ => ([], [])

/-- The deferred orders stay, and the ids that are passed on are new or those of stops. -/
structure PassesOn (ids : List Nat) (e e' : Engine) : Prop where
  orders : e'.pendingOrders = e.pendingOrders
  next : e.nextOrderId ≤ e'.nextOrderId
  stops : ∀ o ∈ e'.pendingStops, o ∈ e.pendingStops ∨
    (e.nextOrderId ≤ o.orderId ∧ o.orderId < e'.nextOrderId)
  passed : ∀ id ∈ ids, (∃ o ∈ e.pendingStops, o.orderId = id) ∨
    (e.nextOrderId ≤ id ∧ id < e'.nextOrderId)

theorem Waits.passesOn (h : Waits e e₁) : PassesOn [] e e₁ :=
  ⟨h.orders, h.ids, fun o ho => .inl (h.stops ▸ ho), fun _ hid => by cases hid⟩

theorem PassesOn.trans {ids ids' : List Nat} (h₁ : PassesOn ids e e₁) (h₂ : PassesOn ids' e₁ e₂) :
    PassesOn (ids ++ ids') e e₂ where
  orders := h₂.orders.trans h₁.orders
  next := h₁.next.trans h₂.next
  stops := by
    intro o ho
    rcases h₂.stops o ho with ho | ⟨hge, hlt⟩
    · rcases h₁.stops o ho with ho | ⟨hge, hlt⟩
      · exact .inl ho
      · exact .inr ⟨hge, hlt.trans_le h₂.next⟩
    · exact .inr ⟨h₁.next.trans hge, hlt⟩
  passed := by
    intro id hid
    rcases mem_append.1 hid with hid | hid
    · rcases h₁.passed id hid with hstop | ⟨hge, hlt⟩
      · exact .inl hstop
      · exact .inr ⟨hge, hlt.trans_le h₂.next⟩
    · rcases h₂.passed id hid with ⟨o, ho, heq⟩ | ⟨hge, hlt⟩
      · rcases h₁.stops o ho with ho | ⟨hge, hlt⟩
        · exact .inl ⟨o, ho, heq⟩
        · exact .inr ⟨heq ▸ hge, heq ▸ hlt.trans_le h₂.next⟩
      · exact .inr ⟨h₁.next.trans hge, hlt⟩

/-- The order with the next id is parked. -/
structure Parks (o : OrderEvent) (e e' : Engine) : Prop where
  orders : e'.pendingOrders = (e.defer o).pendingOrders
  stops : e'.pendingStops = e.pendingStops
  id : o.orderId = e.nextOrderId
  next : e.nextOrderId < e'.nextOrderId

/-- An order is parked, or it becomes a stop, or is passed on, or is refused. -/
def Routed (fate : List OrderEvent × List Nat) (e e' : Engine) : Prop :=
  (fate.1 = [] ∧ PassesOn fate.2 e e') ∨ ∃ o, fate = ([o], []) ∧ Parks o e e'

theorem Routed.trans {fate : List OrderEvent × List Nat} (h : Routed fate e e₁) (hw : Waits e₁ e₂) :
    Routed fate e e₂ := by
  rcases h with ⟨hnone, hpasses⟩ | ⟨o, hone, hparks⟩
  · have hall := hpasses.trans hw.passesOn
    rw [append_nil] at hall
    exact .inl ⟨hnone, hall⟩
  · exact .inr ⟨o, hone, hw.orders.trans hparks.orders, hw.stops.trans hparks.stops, hparks.id,
      hparks.next.trans_le hw.ids⟩

section Routing

variable (o order : OrderEvent) (simTime : Int) (anchorImmediate : Bool) (r : Replies)

/-- The order at hand has been given its id. -/
theorem routed_dispatch {o : OrderEvent} (hw : Waits e e₁) (hid : o.orderId = e.nextOrderId)
    (hlt : e.nextOrderId < e₁.nextOrderId) (hconfig : e₁.config = e.config) :
    Routed (e.dispatchFate o simTime anchorImmediate r) e
      (e₁.dispatch o simTime anchorImmediate r).2 := by
  have hpassed : ∀ e₂, Waits e₁ e₂ → Routed ([], [o.orderId]) e e₂ := by
    intro e₂ hw₂
    have hall := hw.trans hw₂
    refine .inl ⟨rfl, hall.orders, hall.ids, fun o ho => .inl (hall.stops ▸ ho), ?_⟩
    intro id hmem
    rw [mem_singleton.1 hmem, hid]
    exact .inr ⟨le_rfl, hlt.trans_le hw₂.ids⟩
  have hparked : ∀ ts, Routed ([{ o with earliestEligibleTs := ts }], []) e
      (e₁.defer { o with earliestEligibleTs := ts }) := by
    intro ts
    refine .inr ⟨_, rfl, ?_, hw.stops, hid, hlt⟩
    simp only [defer, hw.orders]
  rw [dispatch, dispatchFate, hconfig]
  split
  · refine .inl ⟨rfl, hw.orders, hw.ids, ?_, fun _ hmem => by cases hmem⟩
    refine forall_mem_append.2 ⟨fun o' ho' => .inl (hw.stops ▸ ho'), forall_mem_singleton.2 ?_⟩
    rw [hid]
    exact .inr ⟨le_rfl, hlt⟩
  · split
    · exact hpassed _ ((waits_closed.fills e₁ r.anchorFills).trans (waits_processOrder _ _ r))
    · split
      · exact hparked _
      · split
        · exact hparked _
        · exact hpassed _ (waits_processOrder e₁ _ r)

theorem routed_routeOrder (e : Engine) : Routed (e.routeFate order simTime anchorImmediate r) e
    (e.routeOrder order simTime anchorImmediate r).2.2 := by
  cases hflag : e.haltFlag with
  | true =>
    rw [routeOrder, if_pos hflag, routeFate, if_pos (.inl hflag)]
    exact .inl ⟨rfl, (Waits.refl e).passesOn⟩
  | false =>
    cases hpause : e.pauseAll with
    | true =>
      rw [routeOrder, if_neg (by simp [hflag]), if_pos hpause, routeFate, if_pos (.inr hpause)]
      exact .inl ⟨rfl, (waits_framed.plain e rfl rfl).passesOn⟩
    | false =>
      set o := { order with orderId := e.nextOrderId }
      have haccept : Waits e (e.accept order anchorImmediate) := waits_closed.still.accept e order _
        fun _ _ _ _ => trivial
      rw [routeOrder_eq e order simTime anchorImmediate r hflag hpause, routeFate,
        if_neg (by simp [hflag, hpause])]
      dsimp only
      split
      · next hok =>
        refine routed_dispatch simTime anchorImmediate r ?_ (applySpec_orderId e o) ?_ rfl
        · exact haccept.trans (waits_framed.plain _ rfl rfl)
        · exact Nat.lt_succ_self _
      · exact .inl ⟨rfl, (haccept.trans (waits_framed.still.reject _ _ _ _ trivial)).passesOn⟩

end Routing

theorem passesOn_routeCloses (ts : Int) (cs : List OrderEvent) (rs : List Replies) (e : Engine) :
    PassesOn (closesPassed ts cs rs e) e (routeCloses ts cs rs e) := by
  induction cs generalizing rs e with
  | nil => exact (Waits.refl e).passesOn
  | cons c cs ih =>
    have hone : PassesOn (e.routeFate c ts true (rs.headD .quiet)).2 e
        (e.routeOrder c ts true (rs.headD .quiet)).2.2 := by
      rcases routed_routeOrder c ts true (rs.headD .quiet) e with ⟨-, hpasses⟩ | ⟨o, hfate, -⟩
      · exact hpasses
      · -- an order that is anchored is not parked
        have hnone : (e.routeFate c ts true (rs.headD .quiet)).1 = [] := by
          simp only [routeFate, dispatchFate, if_true, apply_ite Prod.fst, ite_self]
        rw [hfate] at hnone
        cases hnone
    rw [routeCloses, closesPassed]
    split
    · exact hone.trans (ih rs.tail _)
    · rwa [append_nil]

/-- No stop is added. -/
theorem passesOn_stops (e : Engine) {stops : List OrderEvent}
    (hsub : ∀ o ∈ stops, o ∈ e.pendingStops) :
    PassesOn [] e { e with pendingStops := stops } :=
  ⟨rfl, le_rfl, fun o ho => .inl (hsub o ho), fun _ hmem => by cases hmem⟩

theorem passesOn_checkPendingStops (high low : ℚ) (simTime : Int) (kept rest : List OrderEvent)
    (rs : List Replies) (e : Engine) (hsub : ∀ o ∈ kept ++ rest, o ∈ e.pendingStops) :
    PassesOn (stopsPassed high low simTime rest rs e) e
      (checkPendingStops high low simTime kept rest rs e) := by
  induction rest generalizing kept rs e with
  | nil =>
    rw [append_nil] at hsub
    exact passesOn_stops e hsub
  | cons stop rest ih =>
    rw [checkPendingStops, stopsPassed]
    split
    · exact passesOn_stops e hsub
    · split
      · set r := rs.headD .quiet
        have hw := (waits_closed.fills e r.anchorFills).trans
          (waits_processOrder (e.processAdapterFills r.anchorFills).2 (convertStop simTime stop) r)
        have hstop : PassesOn [stop.orderId] e
            ((e.processAdapterFills r.anchorFills).2.processOrder
              (convertStop simTime stop) r).2 := by
          refine ⟨hw.orders, hw.ids, fun o ho => .inl (hw.stops ▸ ho), fun id hid => .inl ?_⟩
          exact ⟨stop, hsub stop (by simp), (mem_singleton.1 hid).symm⟩
        dsimp only
        split
        · refine hstop.trans (ih kept rs.tail _ fun o ho => ?_)
          rw [hw.stops]
          exact hsub o (by simp only [mem_append, mem_cons] at ho ⊢; tauto)
        · refine hstop.trans (passesOn_stops _ fun o ho => ?_)
          rw [hw.stops]
          exact hsub o ho
      · exact ih (kept ++ [stop]) rs e (by simpa using hsub)

theorem passesOn_cancelOrder (e : Engine) (symbol : String) (id : Nat) (results : List SubmitResult)
    (adapterCancels dropped : Bool) :
    PassesOn [] e (e.cancelOrder symbol id results adapterCancels dropped) := by
  have hdrain :
      Waits e ((e.drainAsyncSubmitResults results).act (.cancel symbol id adapterCancels)) :=
    (waits_framed.still.drain e results).trans (waits_framed.plain _ rfl rfl)
  rw [cancelOrder]
  dsimp only
  split
  · exact hdrain.passesOn
  · split
    · exact ((hdrain.trans (waits_framed.still.setStatus _ _ _)).trans
        (waits_framed.still.publish _ _)).passesOn
    · split
      · refine (hdrain.passesOn.trans (passesOn_stops _ fun o ho => ?_)).trans
          ((waits_framed.still.setStatus _ id .cancelled).trans
            (waits_framed.still.publish _ dropped)).passesOn
        exact (mem_filter.1 ho).1
      · exact hdrain.passesOn

/-- **Only a strategy's order is parked, and what an operation other than a drain passes on is new
or a stop.** -/
theorem routed_perform (e : Engine) {op : Op} (hdrain : ∀ until_ rs, op ≠ .drainPending until_ rs)
    (hclear : op ≠ .clearPendingState) : Routed (e.fate op) e (e.perform op) := by
  have hkept : ∀ {e₁ : Engine}, Waits e e₁ → Routed ([], []) e e₁ :=
    fun hw => .inl ⟨rfl, hw.passesOn⟩
  cases op with
  | drainPending until_ rs => exact absurd rfl (hdrain until_ rs)
  | clearPendingState => exact absurd rfl hclear
  | beginEvent ps => exact hkept (waits_closed.beginEvent e ps)
  | adapterFills rs => exact hkept (waits_closed.fills e rs)
  | submitResults results => exact hkept (waits_framed.still.drain e results)
  | publish dropped => exact hkept (waits_framed.still.publish e dropped)
  | takeIds n => exact hkept ⟨rfl, rfl, Nat.le_add_right _ n⟩
  | callback name => exact hkept (waits_framed.still.callback e name trivial)
  | checkPendingStops high low simTime rs =>
    exact .inl ⟨rfl, passesOn_checkPendingStops high low simTime [] e.pendingStops rs e
      fun _ ho => ho⟩
  | evaluateExits t symbol ts order rs =>
    have hcall : Waits e (e.callExits (t.call symbol ts order)).2 := ⟨rfl, rfl, le_rfl⟩
    exact .inl ⟨rfl, hcall.passesOn.trans (passesOn_routeCloses ts _ rs _)⟩
  | strategyOrder name order intents simTime netQty positionOpen r =>
    have hcallback : Waits e (e.callback name) := waits_framed.still.callback e name trivial
    have hfinal := waits_closed.still.notice.finalizeStrategyRoute (fun _ _ => ⟨rfl, rfl, le_rfl⟩)
      ((e.callback name).routeOrder order simTime false r).2.2 name
      ((e.callback name).routeOrder order simTime false r).2.1 intents
      (!((e.callback name).routeOrder order simTime false r).1) netQty positionOpen
    have hroute := (routed_routeOrder order simTime false r (e.callback name)).trans hfinal
    have hnext : (e.callback name).nextOrderId = e.nextOrderId := by
      rw [callback]
      split <;> rfl
    rcases hroute with ⟨hnone, hpasses⟩ | ⟨o, hone, hparks⟩
    · exact .inl ⟨hnone, hcallback.passesOn.trans hpasses⟩
    · refine .inr ⟨o, hone, ?_, hparks.stops.trans hcallback.stops, hparks.id.trans hnext, ?_⟩
      · refine hparks.orders.trans ?_
        simp only [defer, hcallback.orders]
      · exact hnext ▸ hparks.next
  | cancelOrder symbol id results adapterCancels dropped =>
    exact .inl ⟨rfl, passesOn_cancelOrder e symbol id results adapterCancels dropped⟩
  | _ => exact hkept ⟨rfl, rfl, le_rfl⟩

end Engine

/-! ## The queue -/

structure PendingEntry where
  order : OrderEvent
  seq : Nat

variable (a : PendingEntry) (sorted : List PendingEntry)

namespace PendingEntry

def id (a : PendingEntry) : Nat := a.order.orderId

/-- `pending_cmp`: the first entry leaves the queue after the second. -/
def pendingCmp (a b : PendingEntry) : Bool :=
  if a.order.earliestEligibleTs ≠ b.order.earliestEligibleTs then
    b.order.earliestEligibleTs < a.order.earliestEligibleTs
  else b.seq < a.seq

/-- The first entry leaves the queue before the second. -/
def Precedes (a b : PendingEntry) : Prop := pendingCmp b a = true

instance : DecidableRel Precedes := fun a b => inferInstanceAs (Decidable (pendingCmp b a = true))

theorem precedes_iff {a b : PendingEntry} : Precedes a b ↔
    a.order.earliestEligibleTs < b.order.earliestEligibleTs ∨
      (a.order.earliestEligibleTs = b.order.earliestEligibleTs ∧ a.seq < b.seq) := by
  rw [Precedes, pendingCmp]
  split
  · next hne => simpa using fun heq => absurd heq.symm hne
  · next heq => simp [not_not.1 heq]

theorem Precedes.asymm {a b : PendingEntry} (h : Precedes a b) : ¬ Precedes b a := by
  rw [precedes_iff] at h ⊢
  omega

/-- Where an order with a new number belongs. -/
def insert (a : PendingEntry) (sorted : List PendingEntry) : List PendingEntry :=
  let before (b : PendingEntry) : Bool := b.order.earliestEligibleTs ≤ a.order.earliestEligibleTs
  sorted.takeWhile before ++ a :: sorted.dropWhile before

theorem insert_perm : (insert a sorted).Perm (sorted ++ [a]) := by
  rw [insert]
  refine perm_middle.trans ?_
  rw [takeWhile_append_dropWhile]
  exact (perm_append_singleton a sorted).symm

/-- The list of the engine is kept as the queue is. -/
theorem map_insert {e : Engine} (h : sorted.map order = e.pendingOrders) :
    (insert a sorted).map order = (e.defer a.order).pendingOrders := by
  simp only [insert, defer, ← h, takeWhile_map, dropWhile_map, map_append, map_cons]
  rfl

theorem insert_pairwise {a : PendingEntry} {sorted : List PendingEntry}
    (hsorted : sorted.Pairwise Precedes)
    (hseq : ∀ b ∈ sorted, b.seq < a.seq) : (insert a sorted).Pairwise Precedes := by
  induction sorted with
  | nil => exact pairwise_singleton _ _
  | cons b sorted ih =>
    obtain ⟨hfirst, hrest⟩ := pairwise_cons.1 hsorted
    have hb := hseq b mem_cons_self
    by_cases hle : b.order.earliestEligibleTs ≤ a.order.earliestEligibleTs
    · have hcons : insert a (b :: sorted) = b :: insert a sorted := by simp [insert, hle]
      rw [hcons, pairwise_cons]
      refine ⟨fun c hc => ?_, ih hrest fun c hc => hseq c (mem_cons_of_mem _ hc)⟩
      rcases mem_append.1 ((insert_perm a sorted).mem_iff.1 hc) with hc | hc
      · exact hfirst c hc
      · rw [mem_singleton.1 hc, precedes_iff]
        omega
    -- every entry from here on is eligible later
    · have hcons : insert a (b :: sorted) = a :: b :: sorted := by simp [insert, hle]
      rw [hcons, pairwise_cons]
      refine ⟨fun c hc => ?_, hsorted⟩
      rw [precedes_iff]
      rcases mem_cons.1 hc with rfl | hc
      · omega
      · have hbc := hfirst c hc
        rw [precedes_iff] at hbc
        omega

end PendingEntry

/-! ## The engine with its queue -/

open PendingEntry

/-- An entry is taken from the queue. -/
structure Take where
  entry : PendingEntry
  /-- What is left in the queue. -/
  waiting : List PendingEntry
  /-- The time of the event, unless it is the end of the run. -/
  until_ : Option Int

structure Schedule where
  engine : Engine
  queue : List PendingEntry
  orderSeq : Nat
  /-- Every entry that was ever pushed. -/
  routed : List PendingEntry
  /-- The ids of the orders passed to `process_order`. -/
  passed : List Nat
  takes : List Take

variable (s : Schedule)

namespace Schedule

def init (config : EngineConfig) : Schedule := ⟨.init config, [], 0, [], [], []⟩

def push (o : OrderEvent) : Schedule :=
  { s with
    queue := s.queue ++ [⟨o, s.orderSeq⟩]
    orderSeq := s.orderSeq + 1
    routed := s.routed ++ [⟨o, s.orderSeq⟩] }

/-- The top of the queue is passed to `process_order`. -/
def take (until_ : Option Int) (entry : PendingEntry) (waiting : List PendingEntry)
    (r : Replies) : Bool × Schedule :=
  let e := { s.engine with pendingOrders := s.engine.pendingOrders.tail }.processOrder entry.order r
  (e.1, { s with
    engine := e.2
    queue := waiting
    passed := s.passed ++ [entry.id]
    takes := s.takes ++ [⟨entry, waiting, until_⟩] })

/-- The loop that takes out the entries that are eligible, or all of them. -/
def drain (until_ : Option Int) : Nat → List Replies → Schedule → Schedule
  | 0, _, s => s
  | n + 1, rs, s =>
    match PriorityQueue.pop Precedes s.queue with
    | none => s
    | some (entry, waiting) =>
      if s.engine.haltFlag ∨ until_.any (· < entry.order.earliestEligibleTs) then s
      else
        let r := s.take until_ entry waiting (rs.headD .quiet)
        if r.1 then drain until_ n rs.tail r.2 else r.2

def perform : Op → Schedule
  | .drainPending until_ rs => drain until_ s.queue.length rs s
  | .clearPendingState =>
    { s with engine := s.engine.perform .clearPendingState, queue := [], orderSeq := 0 }
  | op =>
    let fate := s.engine.fate op
    fate.1.foldl push { s with engine := s.engine.perform op, passed := s.passed ++ fate.2 }

def step (op : Op) : List Act × Schedule :=
  ((s.perform op).engine.acts.drop s.engine.acts.length, s.perform op)

/-- Of the queue, its entries in order are the engine's list. An id is passed on once: while an
entry waits its id has not been passed on, and it is no stop's. -/
structure Sound (s : Schedule) : Prop where
  order : ∃ sorted : List PendingEntry, sorted.Perm s.queue ∧ sorted.Pairwise Precedes ∧
    sorted.map PendingEntry.order = s.engine.pendingOrders
  seqs : ∀ a ∈ s.queue, a.seq < s.orderSeq
  queued : ∀ a ∈ s.queue, a ∈ s.routed
  distinct : (s.queue.map PendingEntry.id).Nodup
  routed : ∀ a ∈ s.routed, a.id < s.engine.nextOrderId
  stops : ∀ o ∈ s.engine.pendingStops, o.orderId < s.engine.nextOrderId ∧
    ∀ a ∈ s.routed, a.id ≠ o.orderId
  passed : ∀ id ∈ s.passed, id < s.engine.nextOrderId
  waiting : ∀ a ∈ s.queue, a.id ∉ s.passed
  once : ∀ a ∈ s.routed, s.passed.count a.id ≤ 1
  takes : ∀ t ∈ s.takes, (∀ ts, t.until_ = some ts → t.entry.order.earliestEligibleTs ≤ ts) ∧
    ∀ b ∈ t.waiting, Precedes t.entry b
  submitted : (s.takes.map fun t => t.entry.id).Sublist s.passed

variable {s : Schedule} {e : Engine}

theorem sound_init (config : EngineConfig) : (init config).Sound where
  order := ⟨[], .refl _, .nil, rfl⟩
  seqs _ h := by cases h
  queued _ h := by cases h
  distinct := nodup_nil
  routed _ h := by cases h
  stops _ h := by cases h
  passed _ h := by cases h
  waiting _ h := by cases h
  once _ h := by cases h
  takes _ h := by cases h
  submitted := .refl _

section

variable (h : s.Sound)
include h

theorem Sound.pass {ids : List Nat} (hp : PassesOn ids s.engine e) :
    Sound { s with engine := e, passed := s.passed ++ ids } := by
  have hother : ∀ a ∈ s.routed, a.id ∉ ids := by
    intro a ha hid
    rcases hp.passed a.id hid with ⟨o, ho, heq⟩ | ⟨hge, -⟩
    · exact (h.stops o ho).2 a ha heq.symm
    · exact absurd (h.routed a ha) hge.not_gt
  refine { h with
    order := ?_, routed := fun a ha => (h.routed a ha).trans_le hp.next, stops := ?_, passed := ?_,
    waiting := ?_, once := ?_, submitted := h.submitted.trans (sublist_append_left _ _) }
  · obtain ⟨sorted, hperm, hpairs, hmap⟩ := h.order
    exact ⟨sorted, hperm, hpairs, hmap.trans hp.orders.symm⟩
  · intro o ho
    rcases hp.stops o ho with ho | ⟨hge, hlt⟩
    · exact ⟨(h.stops o ho).1.trans_le hp.next, (h.stops o ho).2⟩
    · exact ⟨hlt, fun a ha => ((h.routed a ha).trans_le hge).ne⟩
  · intro id hid
    rcases mem_append.1 hid with hid | hid
    · exact (h.passed id hid).trans_le hp.next
    · rcases hp.passed id hid with ⟨o, ho, rfl⟩ | ⟨-, hlt⟩
      · exact (h.stops o ho).1.trans_le hp.next
      · exact hlt
  · intro a ha
    rw [mem_append, not_or]
    exact ⟨h.waiting a ha, hother a (h.queued a ha)⟩
  · intro a ha
    rw [count_append, count_eq_zero_of_not_mem (hother a ha)]
    exact h.once a ha

theorem Sound.park {o : OrderEvent} (hp : Parks o s.engine e) :
    (push { s with engine := e } o).Sound := by
  have hnew : ∀ a ∈ s.routed, a.id < o.orderId := fun a ha => hp.id ▸ h.routed a ha
  have hfresh : o.orderId ∉ s.passed := fun hid => (h.passed _ hid).ne hp.id
  have hmem : ∀ {a : PendingEntry} {as : List PendingEntry}, a ∈ as ++ [⟨o, s.orderSeq⟩] →
      a ∈ as ∨ a = ⟨o, s.orderSeq⟩ := fun ha => (mem_append.1 ha).imp_right mem_singleton.1
  constructor
  case order =>
    obtain ⟨sorted, hperm, hpairs, hmap⟩ := h.order
    refine ⟨insert ⟨o, s.orderSeq⟩ sorted, ?_, ?_, ?_⟩
    · exact (insert_perm _ _).trans (hperm.append_right _)
    · exact insert_pairwise hpairs fun b hb => h.seqs b (hperm.mem_iff.1 hb)
    · exact (map_insert ⟨o, s.orderSeq⟩ sorted hmap).trans hp.orders.symm
  case seqs =>
    intro a ha
    rcases hmem ha with ha | rfl
    · exact (h.seqs a ha).trans (Nat.lt_succ_self _)
    · exact Nat.lt_succ_self _
  case queued =>
    intro a ha
    rcases hmem ha with ha | rfl
    · exact mem_append_left _ (h.queued a ha)
    · exact mem_append_right _ (mem_singleton_self _)
  case distinct =>
    rw [push, map_append, nodup_append]
    refine ⟨h.distinct, nodup_singleton _, ?_⟩
    rintro id hid id' hid' rfl
    obtain ⟨a, ha, rfl⟩ := mem_map.1 hid
    exact absurd (mem_singleton.1 hid') (hnew a (h.queued a ha)).ne
  case routed =>
    intro a ha
    rcases hmem ha with ha | rfl
    · exact (h.routed a ha).trans hp.next
    · exact hp.id.trans_lt hp.next
  case stops =>
    intro o' ho'
    obtain ⟨hlt, hne⟩ := h.stops o' (hp.stops ▸ ho')
    refine ⟨hlt.trans hp.next, fun a ha => ?_⟩
    rcases hmem ha with ha | rfl
    · exact hne a ha
    · exact (hp.id ▸ hlt : o'.orderId < o.orderId).ne'
  case passed => exact fun id hid => (h.passed id hid).trans hp.next
  case waiting =>
    intro a ha
    rcases hmem ha with ha | rfl
    · exact h.waiting a ha
    · exact hfresh
  case once =>
    intro a ha
    rcases hmem ha with ha | rfl
    · exact h.once a ha
    · exact (count_eq_zero_of_not_mem hfresh).le.trans (Nat.zero_le _)
  case takes => exact h.takes
  case submitted => exact h.submitted

theorem Sound.clear : (s.perform .clearPendingState).Sound where
  order := ⟨[], .refl _, .nil, rfl⟩
  seqs _ ha := by cases ha
  queued _ ha := by cases ha
  distinct := nodup_nil
  routed := h.routed
  stops _ ho := by cases ho
  passed := h.passed
  waiting _ ha := by cases ha
  once := h.once
  takes := h.takes
  submitted := h.submitted

/-- The first entry of the queue is eligible, and is taken. -/
theorem Sound.take {until_ : Option Int} {entry : PendingEntry} {sorted waiting : List PendingEntry}
    (hperm : (entry :: sorted).Perm s.queue) (hpairs : (entry :: sorted).Pairwise Precedes)
    (hmap : (entry :: sorted).map PendingEntry.order = s.engine.pendingOrders)
    (hwaiting : sorted.Perm waiting)
    (hdue : ∀ ts, until_ = some ts → entry.order.earliestEligibleTs ≤ ts)
    (r : Replies) : (s.take until_ entry waiting r).2.Sound := by
  have hw :=
    waits_processOrder { s.engine with pendingOrders := s.engine.pendingOrders.tail } entry.order r
  have hall : s.queue.Perm (entry :: waiting) := hperm.symm.trans (hwaiting.cons _)
  have hsub : ∀ a ∈ waiting, a ∈ s.queue := fun a ha => hall.mem_iff.2 (mem_cons_of_mem _ ha)
  have hentry : entry ∈ s.queue := hall.mem_iff.2 mem_cons_self
  have hdistinct : (entry.id :: waiting.map PendingEntry.id).Nodup :=
    (hall.map _).nodup_iff.1 h.distinct
  constructor
  case order =>
    refine ⟨sorted, hwaiting, (pairwise_cons.1 hpairs).2, ?_⟩
    refine Eq.trans ?_ hw.orders.symm
    rw [← hmap]
    rfl
  case seqs => exact fun a ha => h.seqs a (hsub a ha)
  case queued => exact fun a ha => h.queued a (hsub a ha)
  case distinct => exact (nodup_cons.1 hdistinct).2
  case routed => exact fun a ha => (h.routed a ha).trans_le hw.ids
  case stops =>
    intro o ho
    have hstop := h.stops o (hw.stops ▸ ho)
    exact ⟨hstop.1.trans_le hw.ids, hstop.2⟩
  case passed =>
    exact forall_mem_append.2 ⟨fun id hid => (h.passed id hid).trans_le hw.ids,
      forall_mem_singleton.2 ((h.routed entry (h.queued entry hentry)).trans_le hw.ids)⟩
  case waiting =>
    intro a ha hid
    rcases mem_append.1 hid with hid | hid
    · exact h.waiting a (hsub a ha) hid
    · exact (nodup_cons.1 hdistinct).1 (mem_singleton.1 hid ▸ mem_map_of_mem ha)
  case once =>
    intro a ha
    rw [Schedule.take, count_append]
    by_cases heq : a.id = entry.id
    · rw [heq, count_eq_zero_of_not_mem (h.waiting entry hentry), count_singleton_self]
    · have hzero : [entry.id].count a.id = 0 :=
        count_eq_zero_of_not_mem fun hid => heq (mem_singleton.1 hid)
      rw [hzero]
      exact h.once a ha
  case takes =>
    exact forall_mem_append.2 ⟨h.takes, forall_mem_singleton.2
      ⟨hdue, fun b hb => (pairwise_cons.1 hpairs).1 b (hwaiting.mem_iff.2 hb)⟩⟩
  case submitted =>
    rw [Schedule.take, map_append]
    exact h.submitted.append (.refl _)

/-- A drain of the queue is a drain of the engine's list. -/
theorem Sound.drain (until_ : Option Int) (n : Nat) (rs : List Replies) :
    (drain until_ n rs s).Sound ∧
      (drain until_ n rs s).engine = drainPending until_ n rs s.engine := by
  induction n generalizing rs s with
  | zero => exact ⟨h, rfl⟩
  | succ n ih =>
    obtain ⟨sorted, hperm, hpairs, hmap⟩ := h.order
    cases sorted with
    | nil =>
      rw [Schedule.drain, drainPending, ← hperm.nil_eq, ← hmap]
      exact ⟨h, rfl⟩
    | cons entry sorted =>
      set r := rs.headD .quiet with hr
      obtain ⟨waiting, hpop, hwaiting⟩ :=
        PriorityQueue.pop_of_sorted (fun _ _ => Precedes.asymm) hperm hpairs
      have hpending : s.engine.pendingOrders = entry.order :: sorted.map PendingEntry.order :=
        hmap.symm
      have hok : (s.take until_ entry waiting r).1 =
          ({ s.engine with pendingOrders := sorted.map PendingEntry.order }.processOrder
            entry.order r).1 := by
        rw [Schedule.take, hpending, tail_cons]
      have hengine : (s.take until_ entry waiting r).2.engine =
          ({ s.engine with pendingOrders := sorted.map PendingEntry.order }.processOrder
            entry.order r).2 := by
        rw [Schedule.take, hpending, tail_cons]
      rw [Schedule.drain, drainPending, hpop, hpending]
      dsimp only
      by_cases hstop : s.engine.haltFlag = true ∨
          until_.any (· < entry.order.earliestEligibleTs) = true
      · rw [if_pos hstop, if_pos hstop]
        exact ⟨h, rfl⟩
      · have hdue : ∀ ts, until_ = some ts → entry.order.earliestEligibleTs ≤ ts := by
          rintro ts rfl
          exact not_lt.1 fun hlt => hstop (.inr (by simpa using hlt))
        have hnext := h.take hperm hpairs hmap hwaiting hdue r
        rw [if_neg hstop, if_neg hstop, ← hr, ← hok, ← hengine]
        split
        · exact ih hnext rs.tail
        · exact ⟨hnext, rfl⟩

/-- **The schedule's engine is the engine**, and the queue stays sound. -/
theorem Sound.perform (op : Op) :
    (s.perform op).Sound ∧ (s.perform op).engine = s.engine.perform op := by
  have hother : (∀ until_ rs, op ≠ .drainPending until_ rs) → op ≠ .clearPendingState →
      let fate := s.engine.fate op
      let s' :=
        fate.1.foldl push { s with engine := s.engine.perform op, passed := s.passed ++ fate.2 }
      s'.Sound ∧ s'.engine = s.engine.perform op := by
    intro hdrain hclear
    rcases routed_perform s.engine hdrain hclear with ⟨hnone, hpasses⟩ | ⟨o, hone, hparks⟩
    · dsimp only
      rw [hnone]
      exact ⟨h.pass hpasses, rfl⟩
    · dsimp only
      rw [hone, append_nil]
      exact ⟨h.park hparks, rfl⟩
  cases op with
  | drainPending until_ rs =>
    obtain ⟨sorted, hperm, -, hmap⟩ := h.order
    have hlength : s.engine.pendingOrders.length = s.queue.length := by
      rw [← hmap, length_map, hperm.length_eq]
    have hengine : s.engine.perform (.drainPending until_ rs) =
        Engine.drainPending until_ s.queue.length rs s.engine := by rw [Engine.perform, hlength]
    rw [hengine]
    exact h.drain until_ s.queue.length rs
  | clearPendingState => exact ⟨h.clear, rfl⟩
  | _ => exact hother (fun _ _ => nofun) nofun

/-- The runs of the schedule are the runs of the engine. -/
theorem map_engine_states (ops : List Engine.Op) :
    (states step s ops).map engine = states Engine.step s.engine ops := by
  induction ops generalizing s with
  | nil => rfl
  | cons op ops ih =>
    obtain ⟨hsound, hengine⟩ := h.perform op
    rw [states, states, map_cons]
    refine congrArg _ ((ih hsound).trans ?_)
    rw [hengine]
    rfl

end

/-- **A deferred order is passed to `process_order` at most once, not at an event before its time,
and before every order that waits when it is taken.** -/
theorem deferred_in_order (config : EngineConfig) (ops : List Op) :
    ∀ s ∈ states step (init config) ops,
      (∀ a ∈ s.routed, s.passed.count a.order.orderId ≤ 1) ∧
      (s.takes.map fun t => t.entry.order.orderId).Sublist s.passed ∧
      ∀ t ∈ s.takes, (∀ ts, t.until_ = some ts → t.entry.order.earliestEligibleTs ≤ ts) ∧
        ∀ b ∈ t.waiting, t.entry.order.earliestEligibleTs < b.order.earliestEligibleTs ∨
          (t.entry.order.earliestEligibleTs = b.order.earliestEligibleTs ∧
            t.entry.seq < b.seq) := by
  intro s hs
  have hstep : ∀ s (op : Op), s.Sound → (step s op).2.Sound := fun s op h =>
    (h.perform op).1
  have hsound := invariant_of_step hstep (sound_init config) ops s hs
  refine ⟨hsound.once, hsound.submitted, fun t ht => ?_⟩
  obtain ⟨hdue, hfirst⟩ := hsound.takes t ht
  exact ⟨hdue, fun b hb => precedes_iff.1 (hfirst b hb)⟩

/-- The second of two orders has the shorter latency. -/
def overtakingRun : List Op :=
  [.startWorkers,
    .strategyOrder "s" entryOrder [] 0 0 false { Replies.quiet with latency := 5 },
    .strategyOrder "s" entryOrder [] 0 0 false { Replies.quiet with latency := 2 },
    .drainPending (some 10) []]

theorem deferred_in_order_of_overtakingRun :
    let s := final step (init { backtestConfig 0 with hasLatencyModel := true }) overtakingRun
    s.takes.map (fun t => t.entry.order.orderId) = [2, 1] ∧
      (s.takes.map fun t => t.entry.order.orderId).Sublist s.passed :=
  ⟨by decide +kernel, (deferred_in_order _ overtakingRun _ (final_mem_states _ _)).2.1⟩

end Schedule

end TrueTest
