import TrueTest.Engine.Fills

/-!
# The life of an order

An order is given an id, and then waits for its time or its trigger, is refused, or is submitted;
the order tracker follows, and so it does when a fill of the order is applied or the order is
cancelled. `Life` is this much of the engine, and `Life.Step` all that can happen in it. Whatever
the engine does is a run of such steps with the same acts (`reaches_perform`); a property of the
orders in every run of the engine is proved for the steps.

In the middle of an operation a life has a focus: the order at hand, the order that is being
submitted, a stop that is being triggered but still stands in its list, and the fills of a batch
that are yet to be applied. Between operations there is none. Cancels and starts of the worker
threads happen only between operations; the steps are indexed by whether they are of this kind.
-/

namespace TrueTest

open Machine List OrderTracker

/-- What an order keeps for its whole life. -/
def OrderEvent.key (o : OrderEvent) : Nat × String × OrderSide := (o.orderId, o.symbol, o.side)

theorem OrderEvent.orderId_eq_of_key {o o' : OrderEvent} (h : o'.key = o.key) :
    o'.orderId = o.orderId := congrArg Prod.fst h

/-- What a result of an asynchronous submit or cancel does. -/
def OrderTracker.answer (t : OrderTracker) (r : SubmitResult) : OrderTracker :=
  if r.isCancel then
    if r.ok ∧ t.isActive r.engineId then t.setStatus r.engineId .cancelled else t
  else if r.ok then
    if t.getOrderStatus r.engineId = .pending then t.setStatus r.engineId .open else t
  else if t.isActive r.engineId then t.setStatus r.engineId .rejected
  else t

/-- The status `process_order` gives to an order that has passed its checks. -/
def EngineConfig.placedStatus (config : EngineConfig) (symbol : String) : OrderStatus :=
  if config.asyncSubmit symbol then .pending else .open

/-- What the engine is in the middle of. -/
structure Focus where
  /-- The stops: in the loop over them, those passed that stay and those to come. -/
  stops : List OrderEvent
  /-- The order the engine is working on. -/
  hand : Option OrderEvent := none
  /-- The order that has passed its checks and is submitted now, in shadow mode twice. -/
  placing : Option OrderEvent := none
  /-- The id of the stop that is being triggered. -/
  loose : Option Nat := none
  /-- The fills of the last batch that are still to be applied. -/
  batch : List FillEvent := []

/-- An order is at hand, and all fills are applied. -/
def Focus.holding (g : Focus) (o : OrderEvent) : Focus :=
  { g with hand := some o, placing := none, batch := [] }

/-- An order is being submitted, and all fills are applied. -/
def Focus.sending (g : Focus) (o : OrderEvent) : Focus :=
  { g with hand := none, placing := some o, batch := [] }

/-- No order is at hand, and all fills are applied. -/
def Focus.idle (g : Focus) : Focus := { g with hand := none, placing := none, batch := [] }

structure Life extends Focus where
  config : EngineConfig
  nextOrderId : Nat
  tracker : OrderTracker
  orders : List OrderEvent
  halted : Bool

/-- Acts that no order's life depends on. -/
def Act.isIdle : Act → Bool
  | .callback _ | .pause _ | .shrink _ _ | .exits _ | .pollExchange _ | .notify _ _ => true
  | .apply sink _ => sink ≠ .orderTracker
  | _ => false

variable {a : Option Act}

namespace Life

def setStatus (s : Life) (id : Nat) (status : OrderStatus) : Life :=
  { s with tracker := s.tracker.setStatus id status }

/-- The verdict of the risk manager. An order that passes gets its status at once. -/
def judge (s : Life) (o : OrderEvent) : RiskAction → Life
  | .pass | .unwind =>
    { s.setStatus o.orderId (s.config.placedStatus o.symbol) with hand := none, placing := some o }
  | .reject | .halt => s

/-- `cancel_order`, after the adapter's answer. -/
def cancel (s : Life) (symbol : String) (id : Nat) (ok : Bool) : Life :=
  if ok ∧ s.config.asyncSubmit symbol then s
  else if ok then s.setStatus id .cancelled
  else if s.stops.any fun o => o.orderId = id then
    { s.setStatus id .cancelled with stops := s.stops.filter fun o => o.orderId ≠ id }
  else s

/-- One step, with its act; `inner` if it is of a kind that happens inside an operation. -/
inductive Step : (inner : Bool) → Life → Option Act → Life → Prop
  | idle {b : Bool} {s : Life} {a : Act} : a.isIdle = true → Step b s (some a) s
  | halt {b : Bool} {s : Life} : Step b s (some .triggerHalt) { s with halted := true }
  /-- The worker threads start, or one of them raises the flag. -/
  | workers {s : Life} (flag : Bool) : Step false s none { s with halted := flag }
  | takeIds {b : Bool} {s : Life} (n : Nat) :
      Step b s none { s with nextOrderId := s.nextOrderId + n }
  | accept {b : Bool} {s : Life} {o : OrderEvent} (close : Bool) : s.hand = none →
      s.placing = none → o.orderId = s.nextOrderId → Step b s (some (.accept o close))
        { s.setStatus o.orderId .pending with nextOrderId := s.nextOrderId + 1, hand := some o }
  /-- The order at hand is rounded or converted. -/
  | revise {b : Bool} {s : Life} {o o' : OrderEvent} : s.hand = some o → o'.key = o.key →
      Step b s none { s with hand := some o' }
  | check {b : Bool} {s : Life} {o : OrderEvent} (verdict : RiskAction) : s.hand = some o →
      Step b s (some (.check o verdict)) (s.judge o verdict)
  | reject {b : Bool} {s : Life} {o o' : OrderEvent} (why : Refusal) : s.hand = some o →
      o'.key = o.key → Step b s (some (.reject o' why))
        { s.setStatus o.orderId .rejected with hand := none }
  | submit {b : Bool} {s : Life} {o : OrderEvent} : s.placing = some o → s.batch = [] →
      Step b s (some (.submit o)) s
  | sent {b : Bool} {s : Life} : Step b s none { s with placing := none }
  /-- An order that closes a position is given an id and submitted at once. -/
  | unwind {b : Bool} {s : Life} {o : OrderEvent} : o.orderId = s.nextOrderId → s.batch = [] →
      Step b s (some (.submit o))
        { s.setStatus o.orderId .open with nextOrderId := s.nextOrderId + 1 }
  | defer {b : Bool} {s : Life} {o : OrderEvent} {before after : List OrderEvent} :
      s.hand = some o → s.loose = none → s.orders = before ++ after →
      Step b s none { s with orders := before ++ o :: after, hand := none }
  | holdStop {b : Bool} {s : Life} {o : OrderEvent} : s.hand = some o → s.loose = none →
      Step b s none { s with stops := s.stops ++ [o], hand := none }
  | takeOrder {b : Bool} {s : Life} {o : OrderEvent} {rest : List OrderEvent} : s.hand = none →
      s.placing = none → s.orders = o :: rest →
      Step b s none { s with orders := rest, hand := some o }
  | takeStop {b : Bool} {s : Life} {stop o : OrderEvent} : s.hand = none → s.placing = none →
      s.loose = none → s.halted = false → stop ∈ s.stops → o.key = stop.key →
      Step b s none { s with hand := some o, loose := some stop.orderId }
  | dropStop {b : Bool} {s : Life} {stop : OrderEvent} {before after : List OrderEvent} :
      s.hand = none →
      s.placing = none → s.loose = some stop.orderId → s.stops = before ++ stop :: after →
      Step b s none { s with stops := before ++ after, loose := none }
  /-- A halt leaves the stop in its list. -/
  | keepStop {b : Bool} {s : Life} : s.hand = none → s.placing = none → s.halted = true →
      Step b s none { s with loose := none }
  /-- An order whose turn comes after a halt is dropped. -/
  | lose {b : Bool} {s : Life} : s.halted = true → Step b s none { s with hand := none }
  | poll {b : Bool} {s : Life} (fills : List (FillEvent × Bool)) : s.batch = [] →
      Step b s (some (.poll fills)) { s with batch := due fills }
  | apply {b : Bool} {s : Life} {f g : FillEvent} {rest : List FillEvent} : s.batch = g :: rest →
      f.bare = g.bare → Step b s (some (.apply .orderTracker f))
        { s with batch := rest, tracker := handleEngineFill s.tracker f }
  | answer {b : Bool} {s : Life} (r : SubmitResult) :
      Step b s (some (.answer r)) { s with tracker := s.tracker.answer r }
  | cancel {s : Life} (symbol : String) (id : Nat) (ok : Bool) : s.batch = [] → s.hand = none →
      s.placing = none → s.loose = none →
      Step false s (some (.cancel symbol id ok)) (s.cancel symbol id ok)
  | clear {b : Bool} {s : Life} : s.hand = none → Step b s none { s with orders := [], stops := [] }

inductive Run (b : Bool) : Life → List Act → Life → Prop
  | nil (s : Life) : Run b s [] s
  | cons {s t u : Life} {a : Option Act} {as : List Act} : Step b s a t → Run b t as u →
      Run b s (a.toList ++ as) u

variable {b : Bool} {s t u : Life} {as bs : List Act}

theorem Run.append (h₁ : Run b s as t) (h₂ : Run b t bs u) : Run b s (as ++ bs) u := by
  induction h₁ with
  | nil => exact h₂
  | cons hstep _ ih =>
    rw [append_assoc]
    exact .cons hstep (ih h₂)

theorem Step.run (h : Step b s a t) : Run b s a.toList t := by
  have hone := Run.cons h (.nil t)
  rwa [append_nil] at hone

end Life

/-! ## The engine as a life -/

namespace Engine

variable {b : Bool} {e e₁ e₂ : Engine} {g g₁ g₂ : Focus}

def life (e : Engine) (g : Focus) : Life :=
  { g with
    config := e.config
    nextOrderId := e.nextOrderId
    tracker := e.orderTracker
    orders := e.pendingOrders
    halted := e.haltFlag }

/-- The focus between operations. -/
def rest (e : Engine) : Focus := { stops := e.pendingStops }

/-- The engine becomes another, and its focus another, by a run of steps with the engine's acts. -/
structure Reaches (b : Bool) (g : Focus) (e : Engine) (g' : Focus) (e' : Engine) : Prop where
  config : e'.config = e.config
  run : ∃ new, e'.acts = e.acts ++ new ∧ Life.Run b (e.life g) new (e'.life g')

/-- The same in a part that does not write the list of stops. -/
structure Lives (b : Bool) (g : Focus) (e : Engine) (g' : Focus) (e' : Engine) : Prop extends
    Reaches b g e g' e' where
  stops : e'.pendingStops = e.pendingStops

theorem Reaches.trans (h₁ : Reaches b g e g₁ e₁) (h₂ : Reaches b g₁ e₁ g₂ e₂) :
    Reaches b g e g₂ e₂ := by
  obtain ⟨as, hacts₁, hrun₁⟩ := h₁.run
  obtain ⟨bs, hacts₂, hrun₂⟩ := h₂.run
  exact ⟨h₂.config.trans h₁.config, as ++ bs, by rw [hacts₂, hacts₁, append_assoc],
    hrun₁.append hrun₂⟩

theorem Reaches.step (hconfig : e₁.config = e.config) (hacts : e₁.acts = e.acts ++ a.toList)
    (h : Life.Step b (e.life g) a (e₁.life g₁)) :
    Reaches b g e g₁ e₁ := ⟨hconfig, a.toList, hacts, h.run⟩

theorem Lives.refl (g : Focus) (e : Engine) : Lives b g e g e :=
  ⟨⟨rfl, [], (append_nil _).symm, .nil _⟩, rfl⟩

theorem Lives.trans (h₁ : Lives b g e g₁ e₁) (h₂ : Lives b g₁ e₁ g₂ e₂) : Lives b g e g₂ e₂ :=
  ⟨h₁.toReaches.trans h₂.toReaches, h₂.stops.trans h₁.stops⟩

theorem Lives.step (hconfig : e₁.config = e.config)
    (hstops : e₁.pendingStops = e.pendingStops) (hacts : e₁.acts = e.acts ++ a.toList)
    (h : Life.Step b (e.life g) a (e₁.life g₁)) :
    Lives b g e g₁ e₁ := ⟨.step hconfig hacts h, hstops⟩

/-- Nothing to be done at the end. -/
theorem Lives.atRest (h : Lives b g e e.rest e₁) : Reaches b g e e₁.rest e₁ := by
  have hrest : e₁.rest = e.rest := congrArg (fun stops => ({ stops := stops } : Focus)) h.stops
  exact hrest ▸ h.toReaches

/-! ### Parts in which no order moves -/

variable (g) (e : Engine)

theorem lives_idle {a : Act} (ha : a.isIdle = true) : Lives b g e g (e.act a) :=
  .step rfl rfl rfl (.idle ha)

theorem lives_halt : Lives b g e g e.triggerHalt :=
  .step rfl rfl rfl .halt

theorem lives_publish (dropped : Bool) : Lives b g e g (e.publish dropped) := by
  rw [publish]
  split
  · exact lives_halt g e
  · exact .refl g e

theorem lives_callExits (call : ExitManager.Op) :
    Lives b g e g (e.callExits call).2 := .step (a := some (.exits call)) rfl rfl rfl (.idle rfl)

theorem lives_notice : Notice (Lives b g · g) :=
  ⟨.refl g, .trans, fun e _ _ => lives_idle g e rfl, fun e _ _ => lives_callExits g e _⟩

theorem lives_callback (name : String) : Lives b g e g (e.callback name) := by
  rw [callback]
  split
  · exact .refl g e
  · exact lives_idle g e rfl

/-- The status may be set before or after an event is published. -/
theorem publish_setStatus (id : Nat) (status : OrderStatus) (dropped : Bool) :
    (e.publish dropped).setStatus id status = (e.setStatus id status).publish dropped := by
  have hconfig : (e.setStatus id status).config = e.config := rfl
  rw [publish, publish, hconfig]
  split <;> rfl

theorem lives_drainOne (r : SubmitResult) : Lives b g e g (e.drainOne r) := by
  have hanswer : Lives b g e g { e.act (.answer r) with orderTracker := e.orderTracker.answer r } :=
    .step rfl rfl rfl (.answer r)
  have hset : ∀ status, e.orderTracker.answer r = e.orderTracker.setStatus r.engineId status →
      Lives b g e g ((e.act (.answer r)).setStatus r.engineId status) := fun status h => by
    rw [h] at hanswer
    exact hanswer
  have hkeep : e.orderTracker.answer r = e.orderTracker → Lives b g e g (e.act (.answer r)) :=
    fun h => by
    rw [h] at hanswer
    exact hanswer
  have htracker : (e.act (.answer r)).orderTracker = e.orderTracker := rfl
  rw [drainOne]
  simp only [htracker]
  split_ifs with hcancel hactive hok hpending hlive
  · exact (hset .cancelled (by simp [answer, hcancel, hactive])).trans (lives_publish g _ _)
  · exact hkeep (by simp [answer, hcancel, hactive])
  · exact hset .open (by simp [answer, hcancel, hok, hpending])
  · exact hkeep (by simp [answer, hcancel, hok, hpending])
  · rw [publish_setStatus]
    exact (hset .rejected (by simp [answer, hcancel, hok, hlive])).trans (lives_publish g _ _)
  · exact hkeep (by simp [answer, hcancel, hok, hlive])

theorem lives_drain (results : List SubmitResult) :
    Lives b g e g (e.drainAsyncSubmitResults results) :=
  (lives_notice g).foldl (lives_drainOne g) results e

/-! ### Fills -/

theorem lives_applyFill (d : Delivery) (fills : List FillEvent) :
    Lives b { g with batch := d.fill :: fills } e { g with batch := fills } (e.applyFill d) := by
  set f := e.stampFillAttribution d.fill
  have htracker : Lives b { g with batch := d.fill :: fills } e { g with batch := fills }
      ({ e with orderTracker := TrueTest.handleEngineFill e.orderTracker f }.act
        (.apply .orderTracker f)) :=
    .step rfl rfl rfl (.apply rfl (stampFillAttribution_bare e d.fill))
  exact ((((htracker.trans (lives_idle _ _ rfl)).trans
    (lives_callExits _ _ _)).trans ((lives_notice _).notifyPositionChangeAll _ _ _)).trans
    (lives_publish _ _ d.dropped)).trans (lives_idle _ _ rfl)

theorem lives_applyFills (ds : List Delivery) :
    Lives b { g with batch := ds.map Delivery.fill } e { g with batch := [] }
      (ds.foldl applyFill e) := by
  induction ds generalizing e with
  | nil => exact .refl _ e
  | cons d ds ih => exact (lives_applyFill g e d _).trans (ih _)

theorem lives_poll (fills : List (FillEvent × Bool)) :
    Lives b { g with batch := [] } e { g with batch := due fills } (e.act (.poll fills)) :=
  .step rfl rfl rfl (.poll fills rfl)

theorem lives_unwindPosition (p : Flattening) :
    Lives b { g with batch := [] } e { g with batch := [] } (e.unwindPosition p) := by
  set o := closeOrder e.nextOrderId p
  set e₁ := (({ e with nextOrderId := e.nextOrderId + 1 }.setStatus o.orderId .open).publish
    p.dropped).submit o with he₁
  have hsubmit : Lives b { g with batch := [] } e { g with batch := [] } e₁ := by
    rw [he₁, publish]
    split
    · exact (lives_halt _ e).trans (.step (a := some (.submit o)) rfl rfl rfl (.unwind rfl rfl))
    · exact .step rfl rfl rfl (.unwind rfl rfl)
  have hpoll := lives_poll (b := b) g (e₁.drainAsyncSubmitResults p.results)
    (p.fills.map fun d => (d.fill, false))
  rw [due_deliveries] at hpoll
  exact ((hsubmit.trans (lives_drain _ _ p.results)).trans hpoll).trans
    (lives_applyFills g _ p.fills)

theorem lives_unwindPositions (ps : List Flattening) :
    Lives b { g with batch := [] } e { g with batch := [] } (e.unwindPositions ps) :=
  (lives_notice _).foldl (fun e p => lives_unwindPosition g e p) ps e

theorem lives_riskHalt (ps : List Flattening) :
    Lives b { g with batch := [] } e { g with batch := [] } (e.riskHalt ps) := by
  rw [riskHalt]
  split
  · exact (lives_unwindPositions g e ps).trans (lives_halt _ _)
  · exact lives_halt _ e

/-- The loop over a batch applies what is due of it, and stops only with the flag up. -/
theorem lives_handleFills (rs : List FillReply) :
    Lives b { g with batch := due (rs.map FillReply.polled) } e { g with batch := [] }
      (e.handleFills rs).2 ∧ ((e.handleFills rs).1 = false →
        (e.handleFills rs).2.haltFlag = true) := by
  induction rs generalizing e with
  | nil => exact ⟨.refl _ e, nofun⟩
  | cons r rs ih =>
    rw [handleFills, handleEngineFill, due_polled]
    by_cases hpost : r.postFill = .halt
    · rw [if_pos hpost, if_pos hpost]
      exact ⟨(lives_applyFill g e r.delivery []).trans (lives_riskHalt g _ r.unwind), fun _ => rfl⟩
    · rw [if_neg hpost, if_neg hpost]
      obtain ⟨hrest, hflag⟩ := ih (e.applyFill r.delivery)
      exact ⟨(lives_applyFill g e r.delivery _).trans hrest, hflag⟩

theorem lives_processAdapterFills (rs : List FillReply) :
    Lives b { g with batch := [] } e { g with batch := [] } (e.processAdapterFills rs).2 ∧
      ((e.processAdapterFills rs).1 = false → (e.processAdapterFills rs).2.haltFlag = true) := by
  obtain ⟨hfills, hflag⟩ := lives_handleFills g (e.act (.poll (rs.map FillReply.polled))) rs
  exact ⟨(lives_poll g e _).trans hfills, hflag⟩

variable {g e}

/-! ### Orders -/

/-- Adapters that answer at once, and no exchange beside them. -/
structure Synchronous (config : EngineConfig) : Prop where
  shadow : config.shadow = false
  latency : config.hasLatencyModel = false
  async : config.asyncSubmit = fun _ => false

section Orders

variable (g : Focus) (o : OrderEvent) (r : Replies)

theorem lives_reject {o o' : OrderEvent} (hkey : o'.key = o.key) (why : Refusal) (dropped : Bool) :
    Lives b (g.holding o) e g.idle (e.reject o' why dropped) := by
  rw [reject, publish_setStatus, OrderEvent.orderId_eq_of_key hkey]
  have hreject :
      Lives b (g.holding o) e g.idle ((e.act (.reject o' why)).setStatus o.orderId .rejected) :=
    .step rfl rfl rfl (.reject why rfl hkey)
  exact hreject.trans (lives_publish _ _ dropped)

/-- The status is set already. -/
theorem lives_place :
    Lives b (g.sending o) (e.setStatus o.orderId (e.config.placedStatus o.symbol)) g.idle
      (e.place o r) := by
  have hsubmit : ∀ e, Lives b (g.sending o) e (g.sending o) (e.submit o) := fun e =>
    .step rfl rfl rfl (.submit rfl rfl)
  have hsent : ∀ e, Lives b (g.sending o) e g.idle e := fun e =>
    .step rfl rfl (append_nil _).symm .sent
  set status := e.config.placedStatus o.symbol with hstatus
  have hfirst := ((lives_publish (g.sending o) (e.setStatus o.orderId status)
    r.orderDropped).trans (hsubmit _)).trans (lives_drain (g.sending o) _ r.results)
  rw [place, ← EngineConfig.placedStatus, ← hstatus]
  split
  · exact ((hfirst.trans (hsubmit _)).trans (lives_drain _ _ r.exchangeResults)).trans (hsent _)
  · exact hfirst.trans (hsent _)

theorem lives_execute :
    Lives b (g.sending o) (e.setStatus o.orderId (e.config.placedStatus o.symbol)) g.idle
      (e.execute o r).2 ∧
      ((e.execute o r).1 = false → (e.execute o r).2.haltFlag = true) := by
  have hplace := lives_place (b := b) (e := e) g o r
  obtain ⟨hfills, hflag⟩ := lives_processAdapterFills g.idle (e.place o r) r.fills
  have hall := hplace.trans hfills
  rw [execute]
  split
  · next hon =>
    exact ⟨(hall.trans (lives_drain _ _ r.lateResults)).trans
      (lives_idle _ _ rfl), fun hoff => by simp [hon.1] at hoff⟩
  · exact ⟨hall, hflag⟩

/-- The risk manager's verdict and what follows from it. -/
theorem lives_actOnVerdict :
    Lives b (g.holding o) e g.idle ((e.act (.check o r.risk)).actOnVerdict o r).2 ∧
      (((e.act (.check o r.risk)).actOnVerdict o r).1 = false →
        ((e.act (.check o r.risk)).actOnVerdict o r).2.haltFlag = true) := by
  set e₁ := e.act (.check o r.risk)
  have hstep : Life.Step b (e.life (g.holding o)) (some (.check o r.risk))
    ((e.life (g.holding o)).judge o r.risk) := .check r.risk rfl
  have hrefused : (e.life (g.holding o)).judge o r.risk = e₁.life (g.holding o) →
      Lives b (g.holding o) e (g.holding o) e₁ := fun hjudge => by
    rw [hjudge] at hstep
    exact .step rfl rfl rfl hstep
  have hpassed : (e.life (g.holding o)).judge o r.risk =
      (e₁.setStatus o.orderId (e₁.config.placedStatus o.symbol)).life (g.sending o) →
      Lives b (g.holding o) e g.idle (e₁.execute o r).2 ∧
        ((e₁.execute o r).1 = false → (e₁.execute o r).2.haltFlag = true) := fun hjudge => by
    rw [hjudge] at hstep
    have hcheck : Lives b (g.holding o) e (g.sending o)
        (e₁.setStatus o.orderId (e₁.config.placedStatus o.symbol)) :=
      .step rfl rfl rfl hstep
    obtain ⟨hexecute, hflag⟩ := lives_execute g o r
    exact ⟨hcheck.trans hexecute, hflag⟩
  rw [actOnVerdict]
  cases hrisk : r.risk with
  | halt =>
    rw [hrisk] at hrefused
    exact ⟨((hrefused rfl).trans (lives_reject g rfl _ _)).trans (lives_riskHalt g.idle _ _),
      fun _ => rfl⟩
  | reject =>
    rw [hrisk] at hrefused
    exact ⟨(hrefused rfl).trans (lives_reject g rfl _ _), nofun⟩
  | pass | unwind =>
    rw [hrisk] at hpassed
    exact hpassed rfl

/-- The order at hand is rejected or submitted, or dropped after a halt. -/
theorem lives_processOrder : Lives b (g.holding o) e g.idle (e.processOrder o r).2 ∧
    ((e.processOrder o r).1 = false → (e.processOrder o r).2.haltFlag = true) := by
  rw [processOrder]
  split
  · next hflag => exact ⟨.step rfl rfl (append_nil _).symm (.lose hflag), fun _ => hflag⟩
  · split
    · exact ⟨lives_reject g rfl _ _, nofun⟩
    · exact lives_actOnVerdict g o r

/-- The order at hand becomes another version of itself. -/
theorem lives_revise (g : Focus) (e : Engine) {o o' : OrderEvent} (hkey : o'.key = o.key) :
    Lives b (g.holding o) e (g.holding o') e :=
  .step rfl rfl (append_nil _).symm (.revise rfl hkey)

theorem lives_defer (hloose : g.loose = none) : Lives b (g.holding o) e g.idle (e.defer o) :=
  .step rfl rfl (append_nil _).symm (.defer rfl hloose (takeWhile_append_dropWhile).symm)

end Orders

/-! ### Routing -/

section Routing

theorem applySpec_key (e : Engine) (o : OrderEvent) : (e.applySpec o).2.key = o.key := by
  rw [applySpec]
  cases e.config.instrument o.symbol with
  | none => rfl
  | some spec =>
    simp [OrderEvent.key, applyInstrumentSpec_orderId, applyInstrumentSpec_symbol,
      applyInstrumentSpec_side]

theorem reaches_dispatch (o : OrderEvent) (simTime : Int) (anchorImmediate : Bool) (r : Replies) :
    Reaches b (e.rest.holding o) e (e.dispatch o simTime anchorImmediate r).2.rest
      (e.dispatch o simTime anchorImmediate r).2 := by
  set o' := { o with earliestEligibleTs := simTime }
  have hrevise : Lives b (e.rest.holding o) e (e.rest.holding o') e := lives_revise e.rest e rfl
  have hdefer : ∀ ts, Lives b (e.rest.holding o) e e.rest.idle
      (e.defer { o with earliestEligibleTs := ts }) := fun ts => by
    have hlater : Lives b (e.rest.holding o) e
        (e.rest.holding { o with earliestEligibleTs := ts }) e := lives_revise e.rest e rfl
    exact hlater.trans (lives_defer e.rest _ rfl)
  rw [dispatch]
  split
  · exact .step rfl (append_nil _).symm (.holdStop rfl rfl)
  · split
    · have hfills := (lives_processAdapterFills (b := b) (e.rest.holding o') e r.anchorFills).1
      have hprocess := (lives_processOrder (b := b) (e := (e.processAdapterFills r.anchorFills).2)
        e.rest o' r).1
      exact ((hrevise.trans hfills).trans hprocess).atRest
    · split
      · exact (hdefer _).atRest
      · split
        · exact (hdefer _).atRest
        · exact (hrevise.trans (lives_processOrder e.rest o' r).1).atRest

theorem reaches_routeOrder (order : OrderEvent) (simTime : Int) (anchorImmediate : Bool)
    (r : Replies) :
    Reaches b e.rest e (e.routeOrder order simTime anchorImmediate r).2.2.rest
      (e.routeOrder order simTime anchorImmediate r).2.2 := by
  cases hflag : e.haltFlag with
  | true =>
    rw [routeOrder, if_pos hflag]
    exact (Lives.refl e.rest e).toReaches
  | false =>
    cases hpause : e.pauseAll with
    | true =>
      rw [routeOrder, if_neg (by simp [hflag]), if_pos hpause]
      exact (lives_idle e.rest e rfl).atRest
    | false =>
      set o := { order with orderId := e.nextOrderId }
      have haccept : Lives b e.rest e (e.rest.holding o) (e.accept order anchorImmediate) :=
        .step rfl rfl rfl (.accept anchorImmediate rfl rfl rfl)
      rw [routeOrder_eq e order simTime anchorImmediate r hflag hpause]
      dsimp only
      split
      · have hshrink := (haccept.trans (lives_idle _ _ (a := .shrink o
          (o.quantity - (e.applySpec o).2.quantity)) rfl)).trans
          (lives_revise e.rest _ (applySpec_key e o))
        exact hshrink.toReaches.trans (reaches_dispatch (e := (e.accept order anchorImmediate).act
          (.shrink o (o.quantity - (e.applySpec o).2.quantity))) _ simTime anchorImmediate r)
      · exact (haccept.trans (lives_reject e.rest rfl _ _)).atRest

theorem reaches_routeCloses (ts : Int) (cs : List OrderEvent) (rs : List Replies) :
    Reaches b e.rest e (routeCloses ts cs rs e).rest (routeCloses ts cs rs e) := by
  induction cs generalizing rs e with
  | nil => exact (Lives.refl e.rest e).toReaches
  | cons c cs ih =>
    have hone := reaches_routeOrder (b := b) (e := e) c ts true (rs.headD .quiet)
    rw [routeCloses]
    split
    · exact hone.trans (ih rs.tail)
    · exact hone

theorem reaches_drainPending (until_ : Option Int) (n : Nat) (rs : List Replies) :
    Reaches b e.rest e (drainPending until_ n rs e).rest (drainPending until_ n rs e) := by
  induction n generalizing rs e with
  | zero => exact (Lives.refl e.rest e).toReaches
  | succ n ih =>
    rw [drainPending]
    split
    · exact (Lives.refl e.rest e).toReaches
    · next o rest hpending =>
      split
      · exact (Lives.refl e.rest e).toReaches
      · have htake : Lives b e.rest e (e.rest.holding o) { e with pendingOrders := rest } :=
          .step rfl rfl (append_nil _).symm (.takeOrder rfl rfl hpending)
        have hone := (htake.trans (lives_processOrder e.rest o (rs.headD .quiet)).1).atRest
        dsimp only
        split
        · exact hone.trans (ih rs.tail)
        · exact hone

theorem convertStop_key (simTime : Int) (stop : OrderEvent) :
    (convertStop simTime stop).key = stop.key := by
  simp only [convertStop]
  split <;> rfl

/-- The loop over the stops. The list is written at its end; in the meantime the focus has it. -/
theorem reaches_checkPendingStops (high low : ℚ) (simTime : Int) (kept rest : List OrderEvent)
    (rs : List Replies) :
    Reaches b { stops := kept ++ rest } e (checkPendingStops high low simTime kept rest rs e).rest
      (checkPendingStops high low simTime kept rest rs e) := by
  induction rest generalizing kept rs e with
  | nil =>
    rw [checkPendingStops, append_nil]
    exact ⟨rfl, [], (append_nil _).symm, .nil _⟩
  | cons stop rest ih =>
    rw [checkPendingStops]
    split
    · exact ⟨rfl, [], (append_nil _).symm, .nil _⟩
    · next hflag₀ =>
      split
      · set r := rs.headD .quiet
        set o := convertStop simTime stop
        set g : Focus := { stops := kept ++ stop :: rest, loose := some stop.orderId }
        have htake : Lives b { stops := kept ++ stop :: rest } e (g.holding o) e :=
          .step rfl rfl (append_nil _).symm
            (.takeStop rfl rfl rfl (Bool.eq_false_iff.2 hflag₀) (by simp [life])
              (convertStop_key simTime stop))
        have hfills := (lives_processAdapterFills (b := b) (g.holding o) e r.anchorFills).1
        obtain ⟨hprocess, hflag⟩ := lives_processOrder g o r
        have hone := (htake.trans hfills).trans hprocess
        dsimp only
        split
        · have hdrop : Reaches b g.idle ((e.processAdapterFills r.anchorFills).2.processOrder o r).2
              { stops := kept ++ rest }
              ((e.processAdapterFills r.anchorFills).2.processOrder o r).2 :=
            .step rfl (append_nil _).symm (.dropStop rfl rfl rfl rfl)
          exact (hone.toReaches.trans hdrop).trans (ih kept rs.tail)
        · next hstop =>
          have hkeep : Reaches b g.idle ((e.processAdapterFills r.anchorFills).2.processOrder o r).2
              { stops := kept ++ stop :: rest }
              { ((e.processAdapterFills r.anchorFills).2.processOrder o r).2 with
                pendingStops := kept ++ stop :: rest } :=
            .step rfl (append_nil _).symm (.keepStop rfl rfl (hflag (by simpa using hstop)))
          exact hone.toReaches.trans hkeep
      · have hkept := ih (e := e) (kept ++ [stop]) rs
        rwa [append_assoc] at hkept

/-- `cancel_order` behind the results that had arrived: one step, and an event if an order is
cancelled. -/
theorem cancelOrder_step (e : Engine) (symbol : String) (id : Nat) (results : List SubmitResult)
    (ok dropped : Bool) : ∃ e₂ : Engine, e₂.config = (e.drainAsyncSubmitResults results).config ∧
      e₂.acts = (e.drainAsyncSubmitResults results).acts ++ [.cancel symbol id ok] ∧
      e₂.life e₂.rest = ((e.drainAsyncSubmitResults results).life
        (e.drainAsyncSubmitResults results).rest).cancel symbol id ok ∧
      (e.cancelOrder symbol id results ok dropped = e₂ ∨
        e.cancelOrder symbol id results ok dropped = e₂.publish dropped) := by
  set e₁ := e.drainAsyncSubmitResults results with he₁
  set e₂ := e₁.act (.cancel symbol id ok) with he₂
  rw [cancelOrder, ← he₁, ← he₂]
  dsimp only
  split_ifs with hasync hok hheld
  · exact ⟨e₂, rfl, rfl, (if_pos hasync).symm, .inl rfl⟩
  · exact ⟨e₂.setStatus id .cancelled, rfl, rfl, ((if_neg hasync).trans (if_pos hok)).symm,
      .inr rfl⟩
  · exact ⟨{ e₂ with pendingStops := e₂.pendingStops.filter fun o => o.orderId ≠ id }.setStatus
      id .cancelled,
      rfl, rfl, ((if_neg hasync).trans ((if_neg hok).trans (if_pos hheld))).symm, .inr rfl⟩
  · exact ⟨e₂, rfl, rfl, ((if_neg hasync).trans ((if_neg hok).trans (if_neg hheld))).symm, .inl rfl⟩

theorem reaches_cancelOrder (e : Engine) (symbol : String) (id : Nat)
    (results : List SubmitResult) (ok dropped : Bool) :
    Reaches false e.rest e (e.cancelOrder symbol id results ok dropped).rest
      (e.cancelOrder symbol id results ok dropped) := by
  obtain ⟨e₂, hconfig, hacts, hlife, hend⟩ := cancelOrder_step e symbol id results ok dropped
  have hcancel :
      Reaches false (e.drainAsyncSubmitResults results).rest (e.drainAsyncSubmitResults results)
        e₂.rest e₂ :=
    .step (a := some (.cancel symbol id ok)) hconfig hacts
      (hlife ▸ Life.Step.cancel symbol id ok rfl rfl rfl rfl)
  have hall := (lives_drain e.rest e results).atRest.trans hcancel
  rcases hend with hend | hend
  · rw [hend]
    exact hall
  · rw [hend]
    exact hall.trans (lives_publish _ _ dropped).atRest

theorem reaches_beginEvent (e : Engine) (ps : List Flattening) :
    Reaches b e.rest e (e.beginEvent ps).rest (e.beginEvent ps) := by
  rw [beginEvent]
  split
  · exact (Lives.refl e.rest e).toReaches
  · split
    · have hdone : Lives b e.rest e e.rest { e with flattenRequest := false } :=
        ⟨⟨rfl, [], (append_nil _).symm, .nil _⟩, rfl⟩
      exact (hdone.trans (lives_unwindPositions e.rest _ ps)).atRest
    · exact (Lives.refl e.rest e).toReaches

end Routing

/-- An operation that cancels no order and leaves the flag to the engine. -/
def Op.isInner : Op → Bool
  | .workerHalt | .startWorkers | .cancelOrder .. => false
  | _ => true

/-- **The engine refines the life of its orders**: every operation is a run of steps with its acts,
and one that cancels nothing a run of inner steps. -/
theorem reaches_perform (op : Op) (hop : b = true → op.isInner = true) :
    Reaches b e.rest e (e.perform op).rest (e.perform op) := by
  have houter : op.isInner = false → b = false := fun h => by
    cases b with
    | false => rfl
    | true => rw [hop rfl] at h; cases h
  cases op with
  | triggerHalt => exact (lives_halt e.rest e).atRest
  | workerHalt =>
    rw [houter rfl]
    exact .step rfl (append_nil _).symm (.workers true)
  | startWorkers =>
    rw [houter rfl]
    exact .step rfl (append_nil _).symm (.workers false)
  | clearPendingState => exact .step rfl (append_nil _).symm (.clear rfl)
  | beginEvent ps => exact reaches_beginEvent e ps
  | adapterFills rs => exact (lives_processAdapterFills e.rest e rs).1.atRest
  | exchangeFills fills => exact (lives_idle e.rest e rfl).atRest
  | takeIds n => exact .step rfl (append_nil _).symm (.takeIds n)
  | submitResults results => exact (lives_drain e.rest e results).atRest
  | publish dropped => exact (lives_publish e.rest e dropped).atRest
  | drainPending until_ rs => exact reaches_drainPending until_ _ rs
  | checkPendingStops high low simTime rs =>
    exact reaches_checkPendingStops high low simTime [] e.pendingStops rs
  | evaluateExits t symbol ts order rs =>
    have hcall := lives_callExits (b := b) e.rest e (t.call symbol ts order)
    exact hcall.toReaches.trans (reaches_routeCloses (e := (e.callExits (t.call symbol ts order)).2)
      ts _ rs)
  | callback name => exact (lives_callback e.rest e name).atRest
  | strategyOrder name order intents simTime netQty positionOpen r =>
    have hcallback := lives_callback (b := b) e.rest e name
    have hroute := reaches_routeOrder (b := b) (e := e.callback name) order simTime false r
    exact (hcallback.atRest.trans hroute).trans ((lives_notice _).finalizeStrategyRoute
      (fun e _ => lives_callExits _ e _) _ name _ intents _ netQty positionOpen).atRest
  | cancelOrder symbol id results ok dropped =>
    rw [houter rfl]
    exact reaches_cancelOrder e symbol id results ok dropped
  | _ => exact ⟨rfl, [], (append_nil _).symm, .nil _⟩

theorem reaches_run (e : Engine) (ops : List Op) :
    ∀ e' ∈ states step e ops, Reaches false e.rest e e'.rest e' := by
  refine invariant_of_step (I := fun e' => Reaches false e.rest e e'.rest e') (fun e' op h => ?_)
    (Lives.refl e.rest e).toReaches ops
  exact h.trans (reaches_perform op nofun)

end Engine

end TrueTest
