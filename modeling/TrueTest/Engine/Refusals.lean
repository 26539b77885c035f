import TrueTest.Engine.Protection
import TrueTest.Exits.Evaluators

/-!
# Refused closes

`evaluate_exits` routes the closes of the exit manager like any other order, so the operator's
pause, the instrument's rules, the venue check or the risk manager may refuse a close or take a part
off it. By then the intent has been erased and its quantity taken from the opener's entry, and
nothing puts either back. What was refused can be closed later only as far as other intents of the
opener are still armed (`spare`). A fill of a close that comes in during the call drops those too,
if the closes that were fired have used up the opener's entry.
-/

namespace TrueTest

open List

/-- What of a close of the opener an act keeps from the adapters. -/
def Act.withheld (opener : Nat) : Act → ℚ
  | .pause o => if o.openerOrderId = opener then o.quantity else 0
  | .shrink o qty => if o.openerOrderId = opener then qty else 0
  | .reject _ .riskHalt => 0
  | .reject o _ => if o.openerOrderId = opener then o.quantity else 0
  | _ => 0

def withheldQty (acts : List Act) (opener : Nat) : ℚ := (acts.map (Act.withheld opener)).sum

theorem withheldQty_append (as bs : List Act) (opener : Nat) :
    withheldQty (as ++ bs) opener = withheldQty as opener + withheldQty bs opener := by
  simp [withheldQty]

namespace Engine

open Machine ExitManager

variable {e e₁ e₂ : Engine} {p : Prop} {o : Nat} {w w₁ w₂ : ℚ} {qtys qtys₁ qtys₂ : List ℚ}

/-! ## What a part of the routing does to an opener -/

/-- The engine becomes another without halting and withholds `w` of the opener's closes; if `p`, the
fills `qtys` of such closes are all that happens to the opener. -/
structure Passes (p : Prop) (o : Nat) (w : ℚ) (qtys : List ℚ) (e e' : Engine) : Prop where
  acts : ∃ new, e'.acts = e.acts ++ new ∧ withheldQty new o = w
  flag : e'.haltFlag = e.haltFlag
  pause : e'.pauseAll = e.pauseAll
  config : e'.config = e.config
  holding : p →
    e'.exitManager.holding o = qtys.foldl Holding.close (e.exitManager.holding o)

/-- No order is given an id in the meantime. -/
structure Serves (p : Prop) (o : Nat) (w : ℚ) (qtys : List ℚ) (e e' : Engine) : Prop
    extends Passes p o w qtys e e' where
  ids : e'.nextOrderId = e.nextOrderId
  attribution : e'.orderMeta = e.orderMeta

theorem Passes.trans (h₁ : Passes p o w₁ qtys₁ e e₁) (h₂ : Passes p o w₂ qtys₂ e₁ e₂) :
    Passes p o (w₁ + w₂) (qtys₁ ++ qtys₂) e e₂ := by
  obtain ⟨as, hacts₁, has⟩ := h₁.acts
  obtain ⟨bs, hacts₂, hbs⟩ := h₂.acts
  refine ⟨⟨as ++ bs, by rw [hacts₂, hacts₁, append_assoc], ?_⟩, h₂.flag.trans h₁.flag,
    h₂.pause.trans h₁.pause, h₂.config.trans h₁.config, fun hp => ?_⟩
  · rw [withheldQty_append, has, hbs]
  · rw [h₂.holding hp, h₁.holding hp, foldl_append]

theorem Serves.trans (h₁ : Serves p o w₁ qtys₁ e e₁) (h₂ : Serves p o w₂ qtys₂ e₁ e₂) :
    Serves p o (w₁ + w₂) (qtys₁ ++ qtys₂) e e₂ :=
  ⟨h₁.toPasses.trans h₂.toPasses, h₂.ids.trans h₁.ids, h₂.attribution.trans h₁.attribution⟩

/-- Two parts of which the first does nothing to the opener. -/
theorem Serves.then (h₁ : Serves p o 0 [] e e₁) (h₂ : Serves p o w qtys e₁ e₂) :
    Serves p o w qtys e e₂ := by
  have h := h₁.trans h₂
  rwa [zero_add, nil_append] at h

/-- Two parts of which the second does nothing to the opener. -/
theorem Serves.before (h₁ : Serves p o w qtys e e₁) (h₂ : Serves p o 0 [] e₁ e₂) :
    Serves p o w qtys e e₂ := by
  have h := h₁.trans h₂
  rwa [add_zero, append_nil] at h

variable (e)

theorem serves_tracker (t : OrderTracker) : Serves p o 0 [] e { e with orderTracker := t } :=
  ⟨⟨⟨[], (append_nil _).symm, rfl⟩, rfl, rfl, rfl, fun _ => rfl⟩, rfl, rfl⟩

theorem Serves.refl : Serves p o 0 [] e e := serves_tracker e e.orderTracker

theorem serves_act (a : Act) : Serves p o (a.withheld o) [] e (e.act a) :=
  ⟨⟨⟨[a], rfl, by simp [withheldQty]⟩, rfl, rfl, rfl, fun _ => rfl⟩, rfl, rfl⟩

theorem serves_setStatus (id : Nat) (status : OrderStatus) :
    Serves p o 0 [] e (e.setStatus id status) := serves_tracker e _

/-- An event is dropped in a way that halts the engine. -/
def haltsOnDrop (config : EngineConfig) (dropped : Bool) : Bool := config.haltOnDrop && dropped

theorem serves_publish {dropped : Bool} (h : haltsOnDrop e.config dropped = false) :
    Serves p o 0 [] e (e.publish dropped) := by
  unfold haltsOnDrop at h
  rw [publish, h]
  exact .refl e

theorem serves_reject (order : OrderEvent) (why : Refusal) (dropped : Bool)
    (h : haltsOnDrop e.config dropped = false) :
    Serves p o ((Act.reject order why).withheld o) [] e (e.reject order why dropped) :=
  (serves_act e (.reject order why)).before
    ((serves_publish (e.act (.reject order why)) h).then (serves_setStatus _ order.orderId
      .rejected))

theorem serves_foldl {α : Type} {f : Engine → α → Engine} {P : EngineConfig → α → Prop}
    (hf : ∀ e x, P e.config x → Serves p o 0 [] e (f e x)) (xs : List α) (e : Engine)
    (h : ∀ x ∈ xs, P e.config x) : Serves p o 0 [] e (xs.foldl f e) := by
  induction xs generalizing e with
  | nil => exact .refl e
  | cons x xs ih =>
    have hone := hf e x (h x mem_cons_self)
    refine hone.then (ih _ fun y hy => ?_)
    rw [hone.config]
    exact h y (mem_cons_of_mem _ hy)

theorem serves_drainOne (r : SubmitResult) (h : haltsOnDrop e.config r.dropped = false) :
    Serves p o 0 [] e (e.drainOne r) := by
  refine (serves_act e (.answer r)).then ?_
  unfold drainOne
  dsimp only
  split
  · split
    · exact (serves_setStatus _ _ _).then (serves_publish _ h)
    · exact .refl _
  · split
    · split
      · exact serves_setStatus _ _ _
      · exact .refl _
    · split
      · exact (serves_publish (e.act (.answer r)) h).then (serves_setStatus _ _ _)
      · exact .refl _

theorem serves_drain (results : List SubmitResult)
    (h : ∀ r ∈ results, haltsOnDrop e.config r.dropped = false) :
    Serves p o 0 [] e (e.drainAsyncSubmitResults results) :=
  serves_foldl (P := fun config r => haltsOnDrop config r.dropped = false)
    (fun e => serves_drainOne e) results e h

variable {e}

/-- Nothing that is answered halts the engine. -/
structure HaltFree (config : EngineConfig) (r : Replies) : Prop where
  risk : r.risk ≠ .halt
  fills : ∀ f ∈ r.anchorFills ++ r.fills,
    f.postFill ≠ .halt ∧ haltsOnDrop config f.delivery.dropped = false
  results : ∀ x ∈ r.results ++ r.exchangeResults ++ r.lateResults,
    haltsOnDrop config x.dropped = false
  order : haltsOnDrop config r.orderDropped = false
  rejection : haltsOnDrop config r.rejectionDropped = false

/-- The fill leaves a position open and is not one of the opener's own order. -/
structure Ordinary (o : Nat) (d : Delivery) : Prop where
  positionOpen : d.positionOpen = true
  orderId : o ≠ d.fill.orderId

/-- What a fill closes of the opener. -/
def closeFill (e : Engine) (o : Nat) (r : FillReply) : List ℚ :=
  if o ≠ 0 ∧ (e.stampFillAttribution r.delivery.fill).openerOrderId = o
  then [r.delivery.fill.filledQuantity] else []

theorem closeFill_congr (h : e₁.orderMeta = e.orderMeta) : e₁.closeFill = e.closeFill := by
  funext o r
  have hopener : (e₁.stampFillAttribution r.delivery.fill).openerOrderId =
      (e.stampFillAttribution r.delivery.fill).openerOrderId := by
    simp only [stampFillAttribution, lookupOpener, h]
  rw [closeFill, hopener, closeFill]

variable (e) (symbol : String) {f : FillEvent}

theorem serves_fill {opener : Nat} (placed : BracketHandles)
    (order : IterationOrder (Nat × ExitIntent)) (hp : p → o ≠ f.orderId) :
    Serves p o 0 (if o ≠ 0 ∧ opener = o then [f.filledQuantity] else []) e
      (e.callExits (.fill f opener placed order)).2 :=
  ⟨⟨⟨[.exits _], rfl, by simp [withheldQty, Act.withheld]⟩, rfl, rfl, rfl,
    fun h => e.exitManager.holding_onFill placed order (hp h)⟩, rfl, rfl⟩

theorem serves_notify {isOpen : Bool} (hp : p → isOpen = true) :
    Serves p o 0 [] e (e.notifyPositionChangeAll symbol isOpen) := by
  have hnotify (e : Engine) (symbol : String) (isOpen : Bool) :
      Serves p o 0 [] e (e.act (.notify symbol isOpen)) := serves_act e (.notify symbol isOpen)
  cases isOpen with
  | true => exact hnotify e symbol true
  | false =>
    -- A sweep, which only happens without `p`.
    have hnot : ¬ p := fun h => Bool.false_ne_true (hp h)
    refine Notice.notifyPositionChangeAll ⟨fun e => .refl e, .then, hnotify, fun e _ _ => ?_⟩ _ _ _
    exact ⟨⟨⟨[.exits _], rfl, by simp [withheldQty, Act.withheld]⟩, rfl, rfl, rfl,
      fun h => absurd h hnot⟩, rfl, rfl⟩

theorem serves_applyFill (r : FillReply) (hfill : p → Ordinary o r.delivery)
    (hdrop : haltsOnDrop e.config r.delivery.dropped = false) :
    Serves p o 0 (e.closeFill o r) e (e.applyFill r.delivery) := by
  have happly : ∀ e sink f, Serves p o 0 [] e (e.act (.apply sink f)) := fun e sink f =>
    serves_act e (.apply sink f)
  have hnotify : ∀ e symbol,
      Serves p o 0 [] e (e.notifyPositionChangeAll symbol r.delivery.positionOpen) :=
    fun e symbol => serves_notify e symbol fun h => (hfill h).positionOpen
  have hcall : ∀ e', Serves p o 0 (e.closeFill o r) e'
      (e'.callExits (.fill (e.stampFillAttribution r.delivery.fill)
        (e.stampFillAttribution r.delivery.fill).openerOrderId r.delivery.placed
        r.delivery.order)).2 := fun e' =>
    serves_fill (f := e.stampFillAttribution r.delivery.fill) e' _ _ fun h => (hfill h).orderId
  set d := r.delivery
  set f := e.stampFillAttribution d.fill
  set e₁ := (({ e with orderTracker := TrueTest.handleEngineFill e.orderTracker f }.act
    (.apply .orderTracker f)).act (.apply .portfolio f))
  have hbooked : Serves p o 0 [] e e₁ :=
    ((serves_tracker e _).then (happly _ _ _)).then (happly _ _ _)
  have hbefore : Serves p o 0 (e.closeFill o r) e
      ((e₁.callExits (.fill f f.openerOrderId d.placed d.order)).2.notifyPositionChangeAll
        f.symbol d.positionOpen) := (hbooked.then (hcall _)).before (hnotify _ _)
  exact (hbefore.before (serves_publish _ (by rw [hbefore.config]; exact hdrop))).before
    (happly _ _ _)

section

variable (rs : List FillReply) (h : ∀ r ∈ rs, (p → Ordinary o r.delivery) ∧ r.postFill ≠ .halt ∧
  haltsOnDrop e.config r.delivery.dropped = false)
include h

theorem serves_handleFills : (e.handleFills rs).1 = true ∧
    Serves p o 0 (rs.flatMap (e.closeFill o)) e (e.handleFills rs).2 := by
  induction rs generalizing e with
  | nil => exact ⟨rfl, .refl e⟩
  | cons r rs ih =>
    obtain ⟨hfill, hpost, hdrop⟩ := h r mem_cons_self
    have hone := serves_applyFill e r hfill hdrop
    have happly : e.handleEngineFill r = (true, e.applyFill r.delivery) := by
      rw [handleEngineFill, if_neg hpost]
    unfold handleFills
    rw [happly]
    obtain ⟨htrue, hrest⟩ := ih (e.applyFill r.delivery) fun r' hr' => by
      rw [hone.config]
      exact h r' (mem_cons_of_mem _ hr')
    have hboth := hone.trans hrest
    rw [zero_add, closeFill_congr hone.attribution] at hboth
    exact ⟨htrue, hboth⟩

theorem serves_processAdapterFills : (e.processAdapterFills rs).1 = true ∧
    Serves p o 0 (rs.flatMap (e.closeFill o)) e (e.processAdapterFills rs).2 := by
  have hpoll := serves_act (p := p) (o := o) e (.poll (rs.map FillReply.polled))
  obtain ⟨htrue, hfills⟩ := serves_handleFills (e.act (.poll (rs.map FillReply.polled))) rs h
  exact ⟨htrue, hpoll.then hfills⟩

end

variable {e} {cs : List OrderEvent} {c : OrderEvent} (ts : Int)

/-! ## Processing an order -/

section Order

variable {r : Replies} (hfree : HaltFree e.config r) (order : OrderEvent)
  (hfills : ∀ f ∈ r.fills, p → Ordinary o f.delivery)

include hfree

theorem serves_place : Serves p o 0 [] e (e.place order r) := by
  have hresults : ∀ x ∈ r.results, haltsOnDrop e.config x.dropped = false := fun x hx =>
    hfree.results x (by simp [hx])
  have hexchange : ∀ x ∈ r.exchangeResults, haltsOnDrop e.config x.dropped = false := fun x hx =>
    hfree.results x (by simp [hx])
  unfold place
  generalize (if e.config.asyncSubmit order.symbol then OrderStatus.pending else .open) = status
  have hstatus := serves_setStatus (p := p) (o := o) e order.orderId status
  have hpublish := hstatus.then (serves_publish _ hfree.order)
  have hsubmit : ∀ e, Serves p o 0 [] e (e.submit order) := fun e => serves_act e (.submit order)
  have hfirst := (hpublish.then (hsubmit _)).then (serves_drain _ r.results fun x hx =>
    (congrArg (haltsOnDrop · x.dropped) hpublish.config).trans (hresults x hx))
  dsimp only
  split
  · refine (hfirst.then (hsubmit _)).then (serves_drain _ r.exchangeResults ?_)
    intro x hx
    exact (congrArg (haltsOnDrop · x.dropped) hfirst.config).trans (hexchange x hx)
  · exact hfirst

include hfills

theorem serves_execute : (e.execute order r).1 = true ∧
    Serves p o 0 (r.fills.flatMap (e.closeFill o)) e (e.execute order r).2 := by
  have hplace := serves_place (p := p) (o := o) hfree order
  obtain ⟨htrue, hrest⟩ := serves_processAdapterFills (e.place order r) r.fills fun f hf => by
    rw [hplace.config]
    exact ⟨hfills f hf, hfree.fills f (by simp [hf])⟩
  have hboth := hplace.then hrest
  rw [closeFill_congr hplace.attribution] at hboth
  unfold execute
  dsimp only
  refine ⟨htrue, ?_⟩
  split
  · refine (hboth.before (serves_drain _ r.lateResults fun x hx => ?_)).before
      (serves_act _ (.pollExchange r.exchangeFills))
    rw [hboth.config]
    exact hfree.results x (by simp [hx])
  · exact hboth

omit hfree hfills in
/-- The venue check or the risk manager refuses the order. -/
def isRefused (r : Replies) : Bool := r.venueRefusal.isSome ∨ r.risk = .reject

theorem serves_actOnVerdict : (e.actOnVerdict order r).1 = true ∧
    Serves p o (if r.risk = .reject ∧ order.openerOrderId = o then order.quantity else 0)
      (if r.risk = .reject then [] else r.fills.flatMap (e.closeFill o)) e
      (e.actOnVerdict order r).2 := by
  unfold actOnVerdict
  cases hrisk : r.risk with
  | halt => exact absurd hrisk hfree.risk
  | reject =>
    have hreject := serves_reject (p := p) (o := o) e order .risk r.rejectionDropped hfree.rejection
    simpa [Act.withheld] using hreject
  | pass | unwind => simpa using serves_execute hfree order hfills

theorem serves_processOrder (hflag : e.haltFlag = false) : (e.processOrder order r).1 = true ∧
    Serves p o (if isRefused r ∧ order.openerOrderId = o then order.quantity else 0)
      (if isRefused r then [] else r.fills.flatMap (e.closeFill o)) e
      (e.processOrder order r).2 := by
  unfold processOrder
  rw [if_neg (by simp [hflag])]
  cases hvenue : r.venueRefusal with
  | some reason =>
    have hreject := serves_reject (p := p) (o := o) e order (.venueRisk reason) r.rejectionDropped
      hfree.rejection
    simpa [isRefused, hvenue, Act.withheld] using hreject
  | none =>
    have hcheck := serves_act (p := p) (o := o) e (.check order r.risk)
    obtain ⟨htrue, hserves⟩ :=
      serves_actOnVerdict (e := e.act (.check order r.risk)) hfree order hfills
    refine ⟨htrue, ?_⟩
    have hrefused : isRefused r = decide (r.risk = .reject) := by simp [isRefused, hvenue]
    rw [hrefused]
    simpa [closeFill_congr hcheck.attribution] using hcheck.then hserves

end Order

/-! ## Routing the closes -/

/-- What is not submitted of a close: all of it, or what the instrument's lot takes off. -/
def refusal (e : Engine) (c : OrderEvent) (r : Replies) : ℚ :=
  if e.haltFlag then 0
  else if e.pauseAll ∨ (e.applySpec c).1 = false ∨ isRefused r then c.quantity
  else c.quantity - (e.applySpec c).2.quantity

/-- What is not submitted of the closes of an opener. -/
def refusedQty (e : Engine) : List OrderEvent → List Replies → Nat → ℚ
  | [], _, _ => 0
  | c :: cs, rs, opener =>
    (if c.openerOrderId = opener then e.refusal c (rs.headD .quiet) else 0) +
      e.refusedQty cs rs.tail opener

/-- The fills of the opener's closes that come in while a close is routed. -/
def closeFillsOf (e : Engine) (c : OrderEvent) (r : Replies) (opener : Nat) : List ℚ :=
  if (e.applySpec c).1 then
    (r.anchorFills ++ if isRefused r then [] else r.fills).flatMap
      ((e.accept c true).closeFill opener)
  else []

def closeFills (e : Engine) : List OrderEvent → List Replies → Nat → List ℚ
  | [], _, _ => []
  | c :: cs, rs, opener =>
    if e.haltFlag ∨ e.pauseAll then []
    else e.closeFillsOf c (rs.headD .quiet) opener ++ (e.accept c true).closeFills cs rs.tail opener

theorem refusedQty_congr (e e₁ : Engine) (hflag : e₁.haltFlag = e.haltFlag)
    (hpause : e₁.pauseAll = e.pauseAll) (hconfig : e₁.config = e.config) (cs : List OrderEvent)
    (rs : List Replies) (o : Nat) : e₁.refusedQty cs rs o = e.refusedQty cs rs o := by
  induction cs generalizing rs with
  | nil => rfl
  | cons c cs ih =>
    have hspec : e₁.applySpec c = e.applySpec c := by simp only [applySpec, hconfig]
    simp only [refusedQty, refusal, hspec, hflag, hpause, ih]

theorem closeFills_congr (e e₁ : Engine) (hflag : e₁.haltFlag = e.haltFlag)
    (hpause : e₁.pauseAll = e.pauseAll) (hconfig : e₁.config = e.config)
    (hids : e₁.nextOrderId = e.nextOrderId) (hmeta : e₁.orderMeta = e.orderMeta)
    (cs : List OrderEvent) (rs : List Replies) (o : Nat) :
    e₁.closeFills cs rs o = e.closeFills cs rs o := by
  induction cs generalizing e e₁ rs with
  | nil => rfl
  | cons c cs ih =>
    have hspec : e₁.applySpec c = e.applySpec c := by simp only [applySpec, hconfig]
    have hmeta' : (e₁.accept c true).orderMeta = (e.accept c true).orderMeta := by
      simp only [accept, registerOrderMeta, act, setStatus, hids, hmeta]
    have hrest := ih (e.accept c true) (e₁.accept c true) hflag hpause hconfig
      (congrArg (· + 1) hids) hmeta' rs.tail
    simp only [closeFills, closeFillsOf, hspec, hflag, hpause, closeFill_congr hmeta', hrest]

theorem closeFills_stopped (h : e.haltFlag ∨ e.pauseAll) (cs : List OrderEvent) (rs : List Replies)
    (o : Nat) : e.closeFills cs rs o = [] := by
  cases cs with
  | nil => rfl
  | cons c cs => exact if_pos h

/-- The id changes nothing in how an order is rounded. -/
theorem applySpec_id (e : Engine) (c : OrderEvent) (id : Nat) :
    e.applySpec { c with orderId := id } =
      ((e.applySpec c).1, { (e.applySpec c).2 with orderId := id }) := by
  unfold applySpec
  cases e.config.instrument c.symbol with
  | none => rfl
  | some spec =>
    unfold applyInstrumentSpec
    dsimp only
    split <;> split <;> rfl

theorem applySpec_orderType (e : Engine) (c : OrderEvent) :
    (e.applySpec c).2.orderType = c.orderType := by
  unfold applySpec
  cases e.config.instrument c.symbol with
  | none => rfl
  | some spec => exact applyInstrumentSpec_orderType c spec

theorem applySpec_openerOrderId (e : Engine) (c : OrderEvent) :
    (e.applySpec c).2.openerOrderId = c.openerOrderId := by
  unfold applySpec
  cases e.config.instrument c.symbol with
  | none => rfl
  | some spec => exact applyInstrumentSpec_openerOrderId c spec

theorem passes_accept (e : Engine) (c : OrderEvent) (close : Bool) :
    Passes p o 0 [] e (e.accept c close) :=
  ⟨⟨[_], rfl, by simp [withheldQty, Act.withheld]⟩, rfl, rfl, rfl, fun _ => rfl⟩

/-- Routing a close withholds what is refused of it. -/
theorem routeOrder_serves {r : Replies} (hmarket : c.orderType = .market)
    (hflag : e.haltFlag = false) (hpause : e.pauseAll = false) (hfree : HaltFree e.config r)
    (hfills : ∀ f ∈ r.anchorFills ++ r.fills, p → Ordinary o f.delivery) :
    (e.routeOrder c ts true r).1 = true ∧
      Serves p o (if c.openerOrderId = o then e.refusal c r else 0) (e.closeFillsOf c r o)
        (e.accept c true) (e.routeOrder c ts true r).2.2 := by
  rw [routeOrder_eq e c ts true r hflag hpause]
  dsimp only
  rw [applySpec_id e c e.nextOrderId, closeFillsOf]
  cases hround : (e.applySpec c).1 with
  | false =>
    have hall : e.refusal c r = c.quantity := by simp [refusal, hflag, hround]
    have hreject :=
      serves_reject (p := p) (o := o) (e.accept c true) { c with orderId := e.nextOrderId }
        .venueFilter r.rejectionDropped hfree.rejection
    rw [hall]
    exact ⟨rfl, hreject⟩
  | true =>
    set o₁ := { (e.applySpec c).2 with orderId := e.nextOrderId } with ho₁
    have hopener : o₁.openerOrderId = c.openerOrderId := applySpec_openerOrderId e c
    have hmarket' : ¬ (o₁.orderType = .stop ∨ o₁.orderType = .stopLimit) := by
      have htype : o₁.orderType = .market := (applySpec_orderType e c).trans hmarket
      simp [htype]
    have hshrink := serves_act (p := p) (o := o) (e.accept c true)
      (.shrink { c with orderId := e.nextOrderId } (c.quantity - o₁.quantity))
    set e₁ :=
      (e.accept c true).act (.shrink { c with orderId := e.nextOrderId } (c.quantity - o₁.quantity))
    obtain ⟨-, hanchor⟩ := serves_processAdapterFills e₁ r.anchorFills fun f hf =>
      ⟨hfills f (mem_append_left _ hf), hfree.fills f (mem_append_left _ hf)⟩
    set e₂ := (e₁.processAdapterFills r.anchorFills).2
    have hconfig : e₂.config = e.config := hanchor.config
    obtain ⟨htrue, hprocess⟩ := serves_processOrder (hconfig ▸ hfree)
      { o₁ with earliestEligibleTs := ts } (fun f hf => hfills f (mem_append_right _ hf))
      (hanchor.flag.trans hflag)
    have hdispatch :
        e₁.dispatch o₁ ts true r = e₂.processOrder { o₁ with earliestEligibleTs := ts } r := by
      rw [dispatch, if_neg hmarket', if_pos rfl]
    rw [if_pos rfl, if_pos rfl, hdispatch]
    refine ⟨htrue, ?_⟩
    have hsum := hshrink.trans (hanchor.trans hprocess)
    have hw :
        (Act.shrink { c with orderId := e.nextOrderId } (c.quantity - o₁.quantity)).withheld o +
            (0 + if isRefused r ∧ o₁.openerOrderId = o then o₁.quantity else 0) =
          if c.openerOrderId = o then e.refusal c r else 0 := by
      rw [hopener, refusal, hflag, hpause, hround]
      by_cases ho : c.openerOrderId = o <;> by_cases hr : isRefused r <;>
        simp [Act.withheld, ho, hr, ho₁]
    have hqtys : (r.anchorFills ++ if isRefused r then [] else r.fills).flatMap
        ((e.accept c true).closeFill o) = [] ++ (r.anchorFills.flatMap (e₁.closeFill o) ++
          if isRefused r then [] else r.fills.flatMap (e₂.closeFill o)) := by
      rw [closeFill_congr hanchor.attribution, closeFill_congr hshrink.attribution, nil_append,
        flatMap_append]
      split <;> rfl
    rw [hqtys]
    exact hw ▸ hsum

theorem haltFree_quiet (config : EngineConfig) : HaltFree config .quiet where
  risk := by decide
  fills f hf := absurd hf not_mem_nil
  results x hx := absurd hx not_mem_nil
  order := Bool.and_false _
  rejection := Bool.and_false _

theorem Passes.refl (e : Engine) : Passes p o 0 [] e e := (Serves.refl e).toPasses

section

variable (ts : Int) (cs : List OrderEvent) (rs : List Replies) (e : Engine)

/-- While the operator's pause is on, every close is swallowed. -/
theorem routeCloses_paused (hflag : e.haltFlag = false) (hpause : e.pauseAll = true) :
    Passes p o (e.refusedQty cs rs o) [] e (routeCloses ts cs rs e) := by
  induction cs generalizing rs e with
  | nil => exact .refl e
  | cons c cs ih =>
    have hroute : e.routeOrder c ts true (rs.headD .quiet) = (true, c, e.act (.pause c)) := by
      rw [routeOrder, if_neg (by simp [hflag]), if_pos hpause]
    have hall : e.refusal c (rs.headD .quiet) = c.quantity := by simp [refusal, hflag, hpause]
    rw [routeCloses, hroute, refusedQty, hall]
    have hrest := ih rs.tail (e.act (.pause c)) hflag hpause
    rw [refusedQty_congr e (e.act (.pause c)) rfl rfl rfl] at hrest
    exact (serves_act e (.pause c)).toPasses.trans hrest

/-- Routing the closes withholds what is refused of them. -/
theorem routeCloses_passes (hmarket : ∀ c ∈ cs, c.orderType = .market) (hflag : e.haltFlag = false)
    (hpause : e.pauseAll = false) (hfree : ∀ r ∈ rs, HaltFree e.config r)
    (hfills : ∀ r ∈ rs, ∀ f ∈ r.anchorFills ++ r.fills, p → Ordinary o f.delivery) :
    Passes p o (e.refusedQty cs rs o) (e.closeFills cs rs o) e (routeCloses ts cs rs e) := by
  induction cs generalizing rs e with
  | nil => exact .refl e
  | cons c cs ih =>
    obtain ⟨htrue, hserves⟩ := routeOrder_serves ts (hmarket c mem_cons_self) hflag hpause
      (headD_quiet hfree (haltFree_quiet _)) (headD_quiet hfills fun f hf => absurd hf not_mem_nil)
    set s := e.routeOrder c ts true (rs.headD .quiet) with hs
    have hone := (passes_accept e c true).trans hserves.toPasses
    rw [zero_add, nil_append] at hone
    have hrest := ih rs.tail s.2.2 (fun c' hc' => hmarket c' (mem_cons_of_mem _ hc'))
      (hone.flag.trans hflag) (hone.pause.trans hpause)
      (fun r hr => by rw [hone.config]; exact hfree r (mem_of_mem_tail hr))
      (fun r hr => hfills r (mem_of_mem_tail hr))
    rw [refusedQty_congr e s.2.2 hone.flag hone.pause hone.config,
      closeFills_congr (e.accept c true) s.2.2 hserves.flag hserves.pause hserves.config hserves.ids
        hserves.attribution] at hrest
    have hopen : ¬ (e.haltFlag = true ∨ e.pauseAll = true) := by simp [hflag, hpause]
    rw [routeCloses, ← hs, if_pos htrue, refusedQty, closeFills, if_neg hopen]
    exact hone.trans hrest

end

/-! ## Triggers -/

def Trigger.probe (t : Trigger) (ts : Int) : ArmedIntent → ArmedIntent × Option ℚ :=
  match t with
  | .price px => ArmedIntent.probePrice px ts
  | .bar open_ low high close =>
    ArmedIntent.probeBar (if 0 < open_ then open_ else close) (min low high) (max low high) close ts

variable (t : Trigger)

theorem Trigger.probe_qty (ai : ArmedIntent) : (t.probe ts ai).1.intent.qty = ai.intent.qty := by
  cases t with
  | price px => exact probePrice_qty px ts ai
  | bar open_ low high close => exact probeBar_qty _ _ _ _ ts ai

def fired (e : Engine) (t : Trigger) (symbol : String) (ts : Int)
    (order : IterationOrder (Nat × ArmedIntent)) : List OrderEvent :=
  (e.exitManager.call (t.call symbol ts order)).1

/-- A trigger with a bad price does nothing. -/
theorem call_trigger (m : ExitManager) (order : IterationOrder (Nat × ArmedIntent)) :
    m.call (t.call symbol ts order) = ([], m) ∨
      m.call (t.call symbol ts order) =
        evaluate (t.probe ts) symbol ts [] (order.run m.armed) m := by
  cases t with
  | price px =>
    by_cases hskip : m.armed.isEmpty ∨ ¬ 0 < px
    · exact .inl (if_pos hskip)
    · exact .inr (if_neg hskip)
  | bar open_ low high close =>
    by_cases hskip : m.armed.isEmpty ∨ ¬ 0 < low ∨ ¬ 0 < high ∨ ¬ 0 < close
    · exact .inl (if_pos hskip)
    · exact .inr (if_neg hskip)

theorem fired_spec (e : Engine) (t : Trigger) (symbol : String) (ts : Int)
    (order : IterationOrder (Nat × ArmedIntent)) :
    ∀ c ∈ e.fired t symbol ts order, c.orderType = .market ∧ 0 < c.quantity := by
  rw [fired]
  rcases call_trigger symbol ts t e.exitManager order with h | h
  · rw [h]
    exact nofun
  · rw [h]
    intro c hc
    obtain ⟨x, price, qty, -, hpos, -, rfl⟩ := closes_of_mem_evaluate hc
    exact ⟨rfl, hpos⟩

theorem floorQtyToLot_nonneg {qty lot : ℚ} (h : 0 ≤ qty) : 0 ≤ floorQtyToLot qty lot := by
  rcases h.eq_or_lt with rfl | hpos
  · simp [floorQtyToLot]
  · exact (floorQtyToLot_spec hpos).2.2.1

theorem applySpec_quantity_nonneg (e : Engine) (h : 0 ≤ c.quantity) :
    0 ≤ (e.applySpec c).2.quantity := by
  unfold applySpec
  cases e.config.instrument c.symbol with
  | none => exact h
  | some spec =>
    unfold applyInstrumentSpec
    dsimp only
    by_cases hlot : 0 < spec.lotSize
    · rw [if_pos hlot]
      split <;> exact floorQtyToLot_nonneg h
    · rw [if_neg hlot]
      split <;> exact h

/-- No more is refused than was fired. -/
theorem refusedQty_le (e : Engine) (cs : List OrderEvent) (rs : List Replies) (o : Nat)
    (hcs : ∀ c ∈ cs, 0 < c.quantity) : e.refusedQty cs rs o ≤ closedQty cs o := by
  induction cs generalizing rs with
  | nil => exact le_rfl
  | cons c cs ih =>
    have hc := hcs c mem_cons_self
    have hround := applySpec_quantity_nonneg e hc.le
    have hone : e.refusal c (rs.headD .quiet) ≤ c.quantity := by
      unfold refusal
      split
      · exact hc.le
      · split
        · exact le_rfl
        · linarith
    have hrest := ih rs.tail fun c' hc' => hcs c' (mem_cons_of_mem _ hc')
    have hsplit : closedQty (c :: cs) o =
        (if c.openerOrderId = o then c.quantity else 0) + closedQty cs o := by
      by_cases ho : c.openerOrderId = o <;> simp [closedQty, ho]
    rw [refusedQty, hsplit]
    split <;> linarith

theorem refusedQty_halted (cs : List OrderEvent) (rs : List Replies) (o : Nat)
    (hflag : e.haltFlag = true) : e.refusedQty cs rs o = 0 := by
  induction cs generalizing rs with
  | nil => rfl
  | cons c cs ih => simp [refusedQty, refusal, hflag, ih]

/-- What `evaluate_exits` withholds, and what it does to what is kept for an opener. -/
theorem evaluateExits_passes (e : Engine) (t : Trigger) (symbol : String) (ts : Int)
    (order : IterationOrder (Nat × ArmedIntent)) (rs : List Replies)
    (hfree : ∀ r ∈ rs, HaltFree e.config r)
    (hfills : ∀ r ∈ rs, ∀ f ∈ r.anchorFills ++ r.fills, p → Ordinary o f.delivery) :
    Passes p o (e.refusedQty (e.fired t symbol ts order) rs o)
      (e.closeFills (e.fired t symbol ts order) rs o)
      (e.callExits (t.call symbol ts order)).2 (e.evaluateExits t symbol ts order rs) := by
  have hmarket := fun c hc => (fired_spec e t symbol ts order c hc).1
  set e₁ := (e.callExits (t.call symbol ts order)).2
  rw [← refusedQty_congr e e₁ rfl rfl rfl, ← closeFills_congr e e₁ rfl rfl rfl rfl rfl]
  show Passes p o _ _ e₁ (routeCloses ts (e.fired t symbol ts order) rs e₁)
  cases hflag : e.haltFlag with
  | true =>
    have hstop : routeCloses ts (e.fired t symbol ts order) rs e₁ = e₁ := by
      cases e.fired t symbol ts order with
      | nil => rfl
      | cons c cs => simp [routeCloses, routeOrder, show e₁.haltFlag = true from hflag]
    rw [hstop, refusedQty_halted (e := e₁) _ _ _ hflag, closeFills_stopped (e := e₁) (.inl hflag)]
    exact .refl e₁
  | false =>
    cases hpause : e.pauseAll with
    | true =>
      rw [closeFills_stopped (e := e₁) (.inr hpause)]
      exact routeCloses_paused ts _ rs e₁ hflag hpause
    | false => exact routeCloses_passes ts _ rs e₁ hmarket hflag hpause hfree hfills

theorem refusedQty_of_ne (h : ∀ c ∈ cs, c.openerOrderId ≠ o)
    (rs : List Replies) : e.refusedQty cs rs o = 0 := by
  induction cs generalizing rs with
  | nil => rfl
  | cons c cs ih =>
    rw [refusedQty, if_neg (h c mem_cons_self), ih fun c' hc' => h c' (mem_cons_of_mem _ hc'),
      add_zero]

/-- An entry of 10 with the given intents is filled on the next bar. -/
def filledRun (intents : List ExitIntent) : List Op :=
  [.startWorkers,
    .strategyOrder "s" entryOrder intents 0 0 false .quiet,
    .drainPending (some 1) [{ Replies.quiet with fills := [deliver 1 .buy 10 100 0] }]]

def lotConfig : EngineConfig :=
  { backtestConfig 1 with instrument := fun symbol => some { symbol, lotSize := 1 } }

end Engine

end TrueTest
