import TrueTest.Engine.Engine

/-!
# What the parts of the engine do

Every part of the engine appends to the record of its acts. `Steps` says that an engine becomes
another by given acts: the exit manager has taken exactly the calls among them, and the flag is up
if it was up or one of them raised it. The parts that submit nothing are `Silent`.

A relation that holds across each elementary part and composes (`Closed`) holds across every
operation; the walk through the control flow of `route_order`, `process_order` and the loops around
them is made once, in `Closed.perform`.
-/

namespace TrueTest

open List ExitManager

def Act.isSubmit : Act → Bool
  | .submit _ => true
  | _ => false

def Act.isHalt : Act → Bool
  | .triggerHalt => true
  | _ => false

def Act.call? : Act → Option Op
  | .exits call => some call
  | _ => none

def exitCalls (acts : List Act) : List Op := acts.filterMap Act.call?

def ExitManager.callAll (m : ExitManager) (calls : List Op) : ExitManager :=
  calls.foldl (fun m call => (m.call call).2) m

/-- An element of an append lies in one of the parts. -/
theorem append_eq_middle {α : Type} {as bs pre post : List α} {x : α}
    (h : as ++ bs = pre ++ x :: post) :
    (∃ mid, as = pre ++ x :: mid ∧ post = mid ++ bs) ∨ ∃ mid, pre = as ++ mid ∧
    bs = mid ++ x :: post := by
  rcases append_eq_append_iff.1 h with ⟨mid, hpre, hbs⟩ | ⟨mid, has, hpost⟩
  · exact .inr ⟨mid, hpre, hbs⟩
  · cases mid with
    | nil => exact .inr ⟨[], by rw [has, append_nil, append_nil], hpost.symm⟩
    | cons a mid =>
      rw [cons_append, cons.injEq] at hpost
      obtain ⟨rfl, rfl⟩ := hpost
      exact .inl ⟨mid, has, rfl⟩

variable {a : Act} {e' : Engine}

namespace Engine

variable {e e₁ e₂ : Engine} {as bs : List Act}

structure Steps (e e' : Engine) (new : List Act) : Prop where
  acts : e'.acts = e.acts ++ new
  exits : e'.exitManager = e.exitManager.callAll (exitCalls new)
  flag : e'.haltFlag = (e.haltFlag || new.any Act.isHalt)
  config : e'.config = e.config

theorem Steps.trans (h₁ : Steps e e₁ as) (h₂ : Steps e₁ e₂ bs) : Steps e e₂ (as ++ bs) where
  acts := by rw [h₂.acts, h₁.acts, append_assoc]
  exits := by
    rw [h₂.exits, h₁.exits, exitCalls, exitCalls, exitCalls, filterMap_append,
      callAll, callAll, callAll, foldl_append]
  flag := by rw [h₂.flag, h₁.flag, any_append, Bool.or_assoc]
  config := h₂.config.trans h₁.config

/-- Fields that no act speaks about may change. -/
theorem Steps.of_eq (hacts : e'.acts = e.acts) (hexits : e'.exitManager = e.exitManager)
    (hflag : e'.haltFlag = e.haltFlag) (hconfig : e'.config = e.config) : Steps e e' [] where
  acts := by rw [hacts, append_nil]
  exits := hexits
  flag := by rw [hflag, any_nil, Bool.or_false]
  config := hconfig

theorem steps_act (hcall : a.call? = none) (hhalt : a.isHalt = false) :
    Steps e (e.act a) [a] where
  acts := rfl
  exits := by simp [act, exitCalls, hcall, callAll]
  flag := by simp [act, hhalt]
  config := rfl

theorem steps_triggerHalt : Steps e e.triggerHalt [.triggerHalt] where
  acts := rfl
  exits := rfl
  flag := by simp [triggerHalt, act, Act.isHalt]
  config := rfl

theorem steps_callExits (call : ExitManager.Op) :
    Steps e (e.callExits call).2 [.exits call] where
  acts := rfl
  exits := rfl
  flag := by simp [callExits, act, Act.isHalt]
  config := rfl

end Engine

/-! ## Relations kept by all parts -/

/-- An act that goes with no change of the engine and is not part of handling a fill. -/
def Act.isPlain : Act → Bool
  | .triggerHalt | .exits _ | .poll _ | .apply _ _ => false
  | _ => true

/-- An act that marks a stage in the life of an order, or a callback. -/
def Act.isMark : Act → Bool
  | .callback _ | .accept _ _ | .reject _ _ => true
  | _ => false

/-- A call of the exit manager that neither registers an intent nor reports a fill. -/
def ExitManager.Op.isQuiet : Op → Bool
  | .register _ | .fill .. => false
  | _ => true

/-- The venue's check or the risk manager refuses the order. -/
def Replies.Refuses (r : Replies) : Prop :=
  r.venueRefusal ≠ none ∨ r.risk = .reject ∨ r.risk = .halt

instance (r : Replies) : Decidable r.Refuses := inferInstanceAs (Decidable (_ ∨ _ ∨ _))

namespace Engine

variable {p : Engine → Act → Prop} {R : Engine → Engine → Prop}

/-- `R` composes, and relates an engine to what a notice to the strategies and the sweep of a
strategy's brackets make of it. -/
structure Notice (R : Engine → Engine → Prop) : Prop where
  refl : ∀ e, R e e
  trans : ∀ {e e₁ e₂}, R e e₁ → R e₁ e₂ → R e e₂
  notify : ∀ e symbol isOpen, R e (e.act (.notify symbol isOpen))
  sweep : ∀ e name symbol, R e (e.callExits (.cancelStrategy name symbol)).2

namespace Notice

variable (h : Notice R) (e : Engine) (symbol : String) (isOpen : Bool)

include h

theorem foldl {α : Type} {f : Engine → α → Engine} (hf : ∀ e x, R e (f e x))
    (xs : List α) (e : Engine) : R e (xs.foldl f e) := by
  induction xs generalizing e with
  | nil => exact h.refl e
  | cons x xs ih => exact h.trans (hf e x) (ih (f e x))

/-- What `notify_position_change_all` does behind the strategies' callbacks. -/
theorem notified : R (e.act (.notify symbol isOpen)) (e.notifyPositionChangeAll symbol isOpen) := by
  unfold notifyPositionChangeAll
  split
  · exact h.refl _
  · refine h.foldl (fun e name => ?_) _ _
    unfold sweepStrategy
    split
    · exact h.refl e
    · split
      · exact h.sweep e _ _
      · exact h.refl e

theorem notifyPositionChangeAll : R e (e.notifyPositionChangeAll symbol isOpen) :=
  h.trans (h.notify e symbol isOpen) (h.notified e symbol isOpen)

theorem finalizeStrategyRoute (hregister : ∀ e intent, R e (e.callExits (.register intent)).2)
    (e : Engine) (name : String) (order : OrderEvent) (intents : List ExitIntent) (halted : Bool)
    (netQty : ℚ) (positionOpen : Bool) :
    R e (e.finalizeStrategyRoute name order intents halted netQty positionOpen) := by
  unfold Engine.finalizeStrategyRoute
  split
  · exact h.refl e
  · split
    · exact h.notifyPositionChangeAll e _ _
    · exact h.foldl (fun e _ => hregister e _) _ e

end Notice

/-- `R` relates an engine to what each elementary part makes of it that neither submits an order nor
evaluates the exits, handles no fill, marks only what `p` allows, registers no intent and leaves the
orders that wait alone. -/
structure Still (p : Engine → Act → Prop) (R : Engine → Engine → Prop) : Prop where
  refl : ∀ e, R e e
  trans : ∀ {e e₁ e₂}, R e e₁ → R e₁ e₂ → R e e₂
  frame : ∀ {e e' : Engine}, e'.acts = e.acts → e'.exitManager = e.exitManager →
    e'.haltFlag = e.haltFlag → e'.config = e.config → e.nextOrderId ≤ e'.nextOrderId →
    e'.pendingOrders = e.pendingOrders → e'.pendingStops = e.pendingStops → R e e'
  act : ∀ e a, a.isPlain = true → a.isSubmit = false → (a.isMark = true → p e a) → R e (e.act a)
  halt : ∀ e, R e e.triggerHalt
  call : ∀ e call, call.isQuiet = true → call.evaluates = false → R e (e.callExits call).2

/-- `R` relates an engine to what each elementary part makes of it that handles no fill, marks only
what `p` allows, registers no intent and leaves the orders that wait alone. -/
structure Framed (p : Engine → Act → Prop) (R : Engine → Engine → Prop) : Prop where
  refl : ∀ e, R e e
  trans : ∀ {e e₁ e₂}, R e e₁ → R e₁ e₂ → R e e₂
  frame : ∀ {e e' : Engine}, e'.acts = e.acts → e'.exitManager = e.exitManager →
    e'.haltFlag = e.haltFlag → e'.config = e.config → e.nextOrderId ≤ e'.nextOrderId →
    e'.pendingOrders = e.pendingOrders → e'.pendingStops = e.pendingStops → R e e'
  act : ∀ e a, a.isPlain = true → (a.isMark = true → p e a) → R e (e.act a)
  halt : ∀ e, R e e.triggerHalt
  call : ∀ e call, call.isQuiet = true → R e (e.callExits call).2

/-- The same whatever becomes of the orders that wait. -/
structure Basic (p : Engine → Act → Prop)
    (R : Engine → Engine → Prop) : Prop extends Framed p R where
  fields : ∀ {e e' : Engine}, e'.acts = e.acts → e'.exitManager = e.exitManager →
    e'.haltFlag = e.haltFlag → e'.config = e.config → e.nextOrderId ≤ e'.nextOrderId → R e e'
  frame := fun hacts hexits hflag hconfig hids _ _ => fields hacts hexits hflag hconfig hids

/-- A batch of fills and an unwind count as elementary too: what holds around them need not hold in
between. -/
structure FramedClosed (p : Engine → Act → Prop) (R : Engine → Engine → Prop) : Prop extends
    Framed p R where
  fills : ∀ e rs, R e (e.processAdapterFills rs).2
  unwind : ∀ e ps, R e (e.unwindPositions ps)

structure Closed (p : Engine → Act → Prop) (R : Engine → Engine → Prop) : Prop extends
    Basic p R, FramedClosed p R

theorem Framed.still (h : Framed p R) : Still p R :=
  ⟨h.refl, h.trans, h.frame, fun e a ha _ => h.act e a ha, h.halt, fun e c hc _ => h.call e c hc⟩

/-! ### Parts that submit nothing -/

/-- What `route_order` has done when it looks at the instrument's rules. -/
def accept (e : Engine) (order : OrderEvent) (close : Bool) : Engine :=
  (({ e with nextOrderId := e.nextOrderId + 1 }.setStatus e.nextOrderId .pending).registerOrderMeta
    { order with orderId := e.nextOrderId }).act
    (.accept { order with orderId := e.nextOrderId } close)

namespace Still

variable (h : Still p R) (e : Engine)

include h

/-- An act that is no mark. -/
theorem plain (hplain : a.isPlain = true) (hsubmit : a.isSubmit = false)
    (hmark : a.isMark = false) : R e (e.act a) :=
  h.act e a hplain hsubmit fun hm => by rw [hmark] at hm; cases hm

theorem notice : Notice R :=
  ⟨h.refl, h.trans, fun e _ _ => h.plain e rfl rfl rfl, fun e _ _ => h.call e _ rfl rfl⟩

section

variable (e : Engine)

theorem setStatus (id : Nat) (status : OrderStatus) : R e (e.setStatus id status) :=
  h.frame rfl rfl rfl rfl le_rfl rfl rfl

theorem publish (dropped : Bool) : R e (e.publish dropped) := by
  unfold Engine.publish
  split
  · exact h.halt e
  · exact h.refl e

theorem reject (o : OrderEvent) (why : Refusal) (dropped : Bool) (hp : p e (.reject o why)) :
    R e (e.reject o why dropped) :=
  h.trans (h.trans (h.act e _ rfl rfl fun _ => hp) (h.publish _ dropped)) (h.setStatus _ _ _)

theorem accept (order : OrderEvent) (close : Bool)
    (hp : ∀ e' o, o.orderId = e.nextOrderId → e.nextOrderId < e'.nextOrderId →
      p e' (.accept o close)) :
    R e (e.accept order close) := by
  have hopen : R e (({ e with nextOrderId := e.nextOrderId + 1 }.setStatus e.nextOrderId
      .pending).registerOrderMeta { order with orderId := e.nextOrderId }) :=
    h.frame rfl rfl rfl rfl (Nat.le_succ _) rfl rfl
  exact h.trans hopen (h.act _ _ rfl rfl fun _ => hp _ _ rfl (Nat.lt_succ_self _))

theorem drainOne (r : SubmitResult) : R e (e.drainOne r) := by
  refine h.trans (h.plain e (a := .answer r) rfl rfl rfl) ?_
  unfold Engine.drainOne
  dsimp only
  split
  · split
    · exact h.trans (h.setStatus _ _ _) (h.publish _ _)
    · exact h.refl _
  · split
    · split
      · exact h.setStatus _ _ _
      · exact h.refl _
    · split
      · exact h.trans (h.publish _ _) (h.setStatus _ _ _)
      · exact h.refl _

theorem drain (results : List SubmitResult) : R e (e.drainAsyncSubmitResults results) :=
  h.notice.foldl h.drainOne results e

theorem callback (name : String) (hp : p e (.callback name)) : R e (e.callback name) := by
  unfold Engine.callback
  split
  · exact h.refl e
  · exact h.act e _ rfl rfl fun _ => hp

end

theorem applyFill (happly : ∀ e sink f, R e (e.act (.apply sink f)))
    (hfill : ∀ e f opener placed order, R e (e.callExits (.fill f opener placed order)).2)
    (e : Engine) (d : Delivery) : R e (e.applyFill d) := by
  have htracker : ∀ t, R e { e with orderTracker := t } :=
    fun _ => h.frame rfl rfl rfl rfl le_rfl rfl rfl
  exact h.trans (h.trans (h.trans (h.trans (h.trans (h.trans (htracker _) (happly _ _ _))
    (happly _ _ _)) (hfill _ _ _ _ _)) (h.notice.notifyPositionChangeAll _ _ _)) (h.publish _ _))
    (happly _ _ _)

theorem cancelOrder (symbol : String) (id : Nat) (results : List SubmitResult)
    (adapterCancels dropped : Bool)
    (hheld : ∀ (e : Engine) stops, R e ({ e with pendingStops := stops }.setStatus id .cancelled)) :
    R e (e.cancelOrder symbol id results adapterCancels dropped) := by
  have hdrain := h.trans (h.drain e results)
    (h.plain (e.drainAsyncSubmitResults results) (a := .cancel symbol id adapterCancels)
      rfl rfl rfl)
  unfold Engine.cancelOrder
  dsimp only
  split
  · exact hdrain
  · split
    · exact h.trans (h.trans hdrain (h.setStatus _ _ _)) (h.publish _ _)
    · split
      · exact h.trans (h.trans hdrain (hheld _ _)) (h.publish _ _)
      · exact hdrain

end Still

variable {e e₁ e₂ : Engine}

/-- The engine becomes another without a submit. -/
def Silent (e e' : Engine) : Prop := ∃ new, Steps e e' new ∧ ∀ a ∈ new, a.isSubmit = false

theorem Silent.trans (h₁ : Silent e e₁) (h₂ : Silent e₁ e₂) : Silent e e₂ := by
  obtain ⟨as, hs₁, has⟩ := h₁
  obtain ⟨bs, hs₂, hbs⟩ := h₂
  exact ⟨as ++ bs, hs₁.trans hs₂, fun a ha => (mem_append.1 ha).elim (has a) (hbs a)⟩

theorem Silent.of_eq (hacts : e'.acts = e.acts) (hexits : e'.exitManager = e.exitManager)
    (hflag : e'.haltFlag = e.haltFlag) (hconfig : e'.config = e.config) : Silent e e' :=
  ⟨[], .of_eq hacts hexits hflag hconfig, fun _ ha => absurd ha not_mem_nil⟩

theorem Silent.refl (e : Engine) : Silent e e := .of_eq rfl rfl rfl rfl

theorem Silent.of_steps (h : Steps e e₁ [a]) (ha : a.isSubmit = false) : Silent e e₁ :=
  ⟨[a], h, fun _ hb => mem_singleton.1 hb ▸ ha⟩

theorem silent_act (e : Engine) (hcall : a.call? = none) (hhalt : a.isHalt = false)
    (hsubmit : a.isSubmit = false) : Silent e (e.act a) := .of_steps (steps_act hcall hhalt) hsubmit

theorem silent_callExits (e : Engine) (call : ExitManager.Op) : Silent e (e.callExits call).2 :=
  .of_steps (steps_callExits call) rfl

theorem silent_still : Still (fun _ _ => True) Silent where
  refl := .refl
  trans := .trans
  frame hacts hexits hflag hconfig _ _ _ := .of_eq hacts hexits hflag hconfig
  act e a ha hsubmit _ := by cases a <;> first | exact silent_act e rfl rfl hsubmit | cases ha
  halt _ := .of_steps steps_triggerHalt rfl
  call e call _ _ := silent_callExits e call

theorem silent_applyFill (e : Engine) (d : Delivery) : Silent e (e.applyFill d) :=
  silent_still.applyFill (fun e _ _ => silent_act e rfl rfl rfl)
    (fun e _ _ _ _ => silent_callExits e _) e d

/-! ### Parts that submit orders -/

namespace Framed

/-- An act that is no mark. -/
theorem plain (h : Framed p R) (e : Engine) (hplain : a.isPlain = true)
    (hmark : a.isMark = false) : R e (e.act a) :=
  h.act e a hplain fun hm => by rw [hmark] at hm; cases hm

theorem place (h : Framed p R) (e : Engine) (o : OrderEvent) (r : Replies) : R e (e.place o r) := by
  unfold Engine.place
  generalize (if e.config.asyncSubmit o.symbol then OrderStatus.pending else .open) = status
  have hsubmit : ∀ e, R e (e.submit o) := fun e => h.plain e rfl rfl
  have hfirst := h.trans (h.trans (h.trans (h.still.setStatus e o.orderId status)
    (h.still.publish _ r.orderDropped)) (hsubmit _)) (h.still.drain _ r.results)
  dsimp only
  split
  · exact h.trans (h.trans hfirst (hsubmit _)) (h.still.drain _ r.exchangeResults)
  · exact hfirst

section Fills

variable (h : Framed p R) (hpoll : ∀ e fills, R e (e.act (.poll fills)))
  (happly : ∀ e sink f, R e (e.act (.apply sink f)))
  (hfill : ∀ e f opener placed order, R e (e.callExits (.fill f opener placed order)).2)
  (e : Engine)

include h hpoll happly hfill

theorem unwindPositions (ps : List Flattening) : R e (e.unwindPositions ps) := by
  refine h.still.notice.foldl (fun e p => ?_) ps e
  have hopen : R e ({ e with nextOrderId := e.nextOrderId + 1 }.setStatus e.nextOrderId .open) :=
    h.frame rfl rfl rfl rfl (Nat.le_succ _) rfl rfl
  exact h.trans (h.trans (h.trans (h.trans (h.trans hopen (h.still.publish _ p.dropped))
    (h.plain _ rfl rfl)) (h.still.drain _ p.results)) (hpoll _ _))
    (h.still.notice.foldl (h.still.applyFill happly hfill) p.fills _)

theorem handleFills (rs : List FillReply) : R e (e.handleFills rs).2 := by
  induction rs generalizing e with
  | nil => exact h.refl e
  | cons r rs ih =>
    have hone := h.still.applyFill happly hfill e r.delivery
    unfold Engine.handleFills Engine.handleEngineFill
    by_cases hpost : r.postFill = .halt
    · rw [if_pos hpost]
      refine h.trans hone ?_
      unfold riskHalt
      split
      · exact h.trans (unwindPositions h hpoll happly hfill _ r.unwind) (h.halt _)
      · exact h.halt _
    · rw [if_neg hpost]
      exact h.trans hone (ih _)

/-- A relation that also holds across the steps of handling a fill is closed. -/
theorem closed : FramedClosed p R where
  toFramed := h
  fills e rs := h.trans (hpoll e _) (handleFills h hpoll happly hfill _ rs)
  unwind := unwindPositions h hpoll happly hfill

end Fills

end Framed

namespace Basic

theorem closed (h : Basic p R) (hpoll : ∀ e fills, R e (e.act (.poll fills)))
    (happly : ∀ e sink f, R e (e.act (.apply sink f)))
    (hfill : ∀ e f opener placed order, R e (e.callExits (.fill f opener placed order)).2) :
    Closed p R :=
  { h, h.toFramed.closed hpoll happly hfill with }

end Basic

theorem routeOrder_eq (e : Engine) (order : OrderEvent) (simTime : Int) (anchorImmediate : Bool)
    (r : Replies) (hflag : e.haltFlag = false) (hpause : e.pauseAll = false) :
    e.routeOrder order simTime anchorImmediate r =
      let o := { order with orderId := e.nextOrderId }
      let s := e.applySpec o
      if s.1 then
        let d := ((e.accept order anchorImmediate).act
          (.shrink o (o.quantity - s.2.quantity))).dispatch s.2 simTime anchorImmediate r
        (d.1, s.2, d.2)
      else (true, s.2, (e.accept order anchorImmediate).reject o .venueFilter
        r.rejectionDropped) := by
  unfold routeOrder
  rw [if_neg (by simp [hflag]), if_neg (by simp [hpause])]
  rfl

theorem applySpec_orderId (e : Engine) (o : OrderEvent) :
    (e.applySpec o).2.orderId = o.orderId := by
  unfold applySpec
  cases e.config.instrument o.symbol with
  | none => rfl
  | some spec => exact applyInstrumentSpec_orderId o spec

theorem applySpec_symbol (e : Engine) (o : OrderEvent) : (e.applySpec o).2.symbol = o.symbol := by
  unfold applySpec
  cases e.config.instrument o.symbol with
  | none => rfl
  | some spec => exact applyInstrumentSpec_symbol o spec

theorem headD_quiet {P : Replies → Prop} {rs : List Replies} (h : ∀ r ∈ rs, P r)
    (hquiet : P .quiet) : P (rs.headD .quiet) := by
  cases rs with
  | nil => exact hquiet
  | cons r rs => exact h r mem_cons_self

theorem not_refuses_quiet : ¬ Replies.quiet.Refuses := by decide

namespace FramedClosed

variable (h : FramedClosed p R) (e : Engine) (o : OrderEvent) (r : Replies) (ps : List Flattening)
include h

theorem riskHalt : R e (e.riskHalt ps) := by
  unfold Engine.riskHalt
  split
  · exact h.trans (h.unwind e ps) (h.halt _)
  · exact h.halt e

theorem execute : R e (e.execute o r).2 := by
  have hfills := h.trans (h.place e o r) (h.fills _ r.fills)
  unfold Engine.execute
  dsimp only
  split
  · exact h.trans (h.trans hfills (h.still.drain _ r.lateResults)) (h.plain _ rfl rfl)
  · exact hfills

theorem actOnVerdict (hp : r.Refuses → ∀ why, p e (.reject o why)) :
    R e (e.actOnVerdict o r).2 := by
  unfold Engine.actOnVerdict
  cases hr : r.risk with
  | halt =>
    have hrefuses : r.Refuses := .inr (.inr hr)
    exact h.trans (h.still.reject e o _ _ (hp hrefuses _)) (h.riskHalt _ _)
  | reject => exact h.still.reject e o _ _ (hp (.inr (.inl hr)) _)
  | pass | unwind => exact h.execute e o r

theorem processOrder
    (hp : r.Refuses → ∀ e' why, R e e' → p e' (.reject o why)) : R e (e.processOrder o r).2 := by
  have hcheck : R e (e.act (.check o r.risk)) := h.plain e rfl rfl
  unfold Engine.processOrder
  split
  · exact h.refl e
  · cases hv : r.venueRefusal with
    | some reason =>
      have hrefuses : r.Refuses := .inl (by simp [hv])
      exact h.still.reject e o _ _ (hp hrefuses _ _ (h.refl e))
    | none => exact h.trans hcheck (h.actOnVerdict _ o r fun hr why => hp hr _ why hcheck)

theorem beginEvent : R e (e.beginEvent ps) := by
  have hdone : R e { e with flattenRequest := false } := h.frame rfl rfl rfl rfl le_rfl rfl rfl
  unfold Engine.beginEvent
  split
  · exact h.refl e
  · split
    · exact h.trans hdone (h.unwind _ ps)
    · exact h.refl e

end FramedClosed

namespace Closed

/-- The marks of routing an order are allowed: its id, and a refusal. -/
structure Routes (p : Engine → Act → Prop) (R : Engine → Engine → Prop) (id : Nat) (close : Bool) :
    Prop where
  accept : ∀ e o, o.orderId = id → id < e.nextOrderId → p e (.accept o close)
  reject : ∀ e e' o why, id < e.nextOrderId → R e e' → o.orderId = id → p e' (.reject o why)

section

variable (h : Closed p R) (e : Engine)
include h

theorem dispatch (o : OrderEvent) (simTime : Int) (anchorImmediate : Bool) (r : Replies)
    (hp : ∀ e', R e e' → ∀ o' why, o'.orderId = o.orderId → p e' (.reject o' why)) :
    R e (e.dispatch o simTime anchorImmediate r).2 := by
  unfold Engine.dispatch
  split
  · exact h.fields rfl rfl rfl rfl le_rfl
  · split
    · have hfills := h.fills e r.anchorFills
      exact h.trans hfills (h.processOrder _ _ r fun _ e' why he' => hp e'
        (h.trans hfills he') _ why rfl)
    · split
      · exact h.fields rfl rfl rfl rfl le_rfl
      · split
        · exact h.fields rfl rfl rfl rfl le_rfl
        · exact h.processOrder e _ r fun _ e' why he' => hp e' he' _ why rfl

theorem routeOrder (order : OrderEvent) (simTime : Int) (anchorImmediate : Bool)
    (r : Replies) (hp : Routes p R e.nextOrderId anchorImmediate) :
    R e (e.routeOrder order simTime anchorImmediate r).2.2 := by
  cases hflag : e.haltFlag with
  | true =>
    rw [Engine.routeOrder, if_pos hflag]
    exact h.refl e
  | false =>
    cases hpause : e.pauseAll with
    | true =>
      rw [Engine.routeOrder, if_neg (by simp [hflag]), if_pos hpause]
      exact h.plain e rfl rfl
    | false =>
      have haccept := h.still.accept e order anchorImmediate hp.accept
      rw [routeOrder_eq e order simTime anchorImmediate r hflag hpause]
      dsimp only
      split
      · refine h.trans (h.trans haccept (h.plain _ rfl rfl))
          (h.dispatch _ _ simTime anchorImmediate r ?_)
        intro e' he' o' why ho'
        exact hp.reject _ e' o' why (Nat.lt_succ_self _) he' (ho'.trans (applySpec_orderId e _))
      · exact h.trans haccept
          (h.still.reject _ _ _ _ (hp.reject _ _ _ _ (Nat.lt_succ_self _) (h.refl _) rfl))

theorem routeCloses (ts : Int) (cs : List OrderEvent) (rs : List Replies) (e : Engine)
    (hp : ∀ e', R e e' → Routes p R e'.nextOrderId true) : R e (routeCloses ts cs rs e) := by
  induction cs generalizing rs e with
  | nil => exact h.refl e
  | cons c cs ih =>
    have hone := h.routeOrder e c ts true (rs.headD .quiet) (hp e (h.refl e))
    unfold Engine.routeCloses
    dsimp only
    split
    · exact h.trans hone (ih rs.tail _ fun e' he' => hp e' (h.trans hone he'))
    · exact hone

theorem drainPending (until_ : Option Int) (n : Nat) (rs : List Replies) (e : Engine)
    (hp : ∀ r ∈ rs, r.Refuses → ∀ e o why, p e (.reject o why)) :
    R e (drainPending until_ n rs e) := by
  induction n generalizing rs e with
  | zero => exact h.refl e
  | succ n ih =>
    unfold Engine.drainPending
    split
    · exact h.refl e
    · next o rest hpending =>
      split
      · exact h.refl e
      · have hpop : R e { e with pendingOrders := rest } := h.fields rfl rfl rfl rfl le_rfl
        have hone := h.trans hpop (h.processOrder _ o (rs.headD .quiet)
          fun hr _ why _ => headD_quiet hp (fun hq => absurd hq not_refuses_quiet) hr _ o why)
        dsimp only
        split
        · exact h.trans hone (ih rs.tail _ fun r hr => hp r (mem_of_mem_tail hr))
        · exact hone

theorem checkPendingStops (high low : ℚ) (simTime : Int) (kept rest : List OrderEvent)
    (rs : List Replies) (e : Engine) (hp : ∀ r ∈ rs, r.Refuses → ∀ e o why, p e (.reject o why)) :
    R e (checkPendingStops high low simTime kept rest rs e) := by
  have hstops : ∀ e stops, R e { e with pendingStops := stops } := fun _ _ =>
    h.fields rfl rfl rfl rfl le_rfl
  induction rest generalizing kept rs e with
  | nil => exact hstops _ _
  | cons stop rest ih =>
    unfold Engine.checkPendingStops
    split
    · exact hstops _ _
    · split
      · have hone := h.trans (h.fills e (rs.headD .quiet).anchorFills)
          (h.processOrder _ (convertStop simTime stop) (rs.headD .quiet)
            fun hr _ why _ => headD_quiet hp (fun hq => absurd hq not_refuses_quiet) hr _ _ why)
        dsimp only
        split
        · exact h.trans hone (ih kept rs.tail _ fun r hr => hp r (mem_of_mem_tail hr))
        · exact h.trans hone (hstops _ _)
      · exact ih _ rs e hp

theorem evaluateExits (t : Trigger) (symbol : String) (ts : Int)
    (order : Machine.IterationOrder (Nat × ArmedIntent)) (rs : List Replies)
    (hp : ∀ e', R e e' → Routes p R e'.nextOrderId true) :
    R e (e.evaluateExits t symbol ts order rs) := by
  have hcall := h.call e (t.call symbol ts order) (by cases t <;> rfl)
  exact h.trans hcall (h.routeCloses ts _ rs _ fun e' he' => hp e' (h.trans hcall he'))

end

/-- A closed relation that allows all marks and intents holds across every operation that does not
set the flag by itself. -/
theorem perform (h : Closed (fun _ _ => True) R)
    (hregister : ∀ e intent, R e (e.callExits (.register intent)).2) (e : Engine) (op : Op)
    (hstart : op ≠ .startWorkers) (hworker : op ≠ .workerHalt) : R e (e.perform op) := by
  have hall : ∀ id close, Routes (fun _ _ => True) R id close := fun _ _ =>
    ⟨fun _ _ _ _ => trivial, fun _ _ _ _ _ _ _ => trivial⟩
  cases op with
  | startWorkers => exact absurd rfl hstart
  | workerHalt => exact absurd rfl hworker
  | triggerHalt => exact h.halt e
  | beginEvent ps => exact h.beginEvent e ps
  | adapterFills rs => exact h.fills e rs
  | exchangeFills fills => exact h.plain e rfl rfl
  | takeIds n => exact h.fields rfl rfl rfl rfl (Nat.le_add_right _ n)
  | submitResults results => exact h.still.drain e results
  | publish dropped => exact h.still.publish e dropped
  | drainPending until_ rs => exact h.drainPending until_ _ rs e fun _ _ _ _ _ _ => trivial
  | checkPendingStops high low simTime rs =>
    exact h.checkPendingStops high low simTime [] e.pendingStops rs e fun _ _ _ _ _ _ => trivial
  | evaluateExits t symbol ts order rs =>
    exact h.evaluateExits e t symbol ts order rs fun _ _ => hall _ _
  | callback name => exact h.still.callback e name trivial
  | strategyOrder name order intents simTime netQty positionOpen r =>
    exact h.trans (h.trans (h.still.callback e name trivial)
      (h.routeOrder _ order simTime false r (hall _ _)))
      (h.still.notice.finalizeStrategyRoute hregister _ name _ intents _ netQty positionOpen)
  | cancelOrder symbol id results adapterCancels dropped =>
    exact h.still.cancelOrder e symbol id results adapterCancels dropped fun _ _ =>
      h.fields rfl rfl rfl rfl le_rfl
  | _ => exact h.fields rfl rfl rfl rfl le_rfl

end Closed

/-! ## The calls of the exit manager -/

/-- The engine has acted, and the exit manager has taken the calls among the acts. -/
def Traces (e e' : Engine) : Prop :=
  ∃ new, e'.acts = e.acts ++ new ∧ e'.exitManager = e.exitManager.callAll (exitCalls new) ∧
    e'.config = e.config

theorem Traces.of_eq (hacts : e'.acts = e.acts)
    (hexits : e'.exitManager = e.exitManager) (hconfig : e'.config = e.config) : Traces e e' :=
  ⟨[], by rw [hacts, append_nil], hexits, hconfig⟩

theorem callAll_append (m : ExitManager) (as bs : List Act) :
    m.callAll (exitCalls (as ++ bs)) = (m.callAll (exitCalls as)).callAll (exitCalls bs) := by
  rw [exitCalls, filterMap_append, callAll, foldl_append]
  rfl

theorem Traces.trans (h₁ : Traces e e₁) (h₂ : Traces e₁ e₂) : Traces e e₂ := by
  obtain ⟨as, hacts₁, hexits₁, hconfig₁⟩ := h₁
  obtain ⟨bs, hacts₂, hexits₂, hconfig₂⟩ := h₂
  refine ⟨as ++ bs, ?_, ?_, hconfig₂.trans hconfig₁⟩
  · rw [hacts₂, hacts₁, append_assoc]
  · rw [hexits₂, hexits₁, callAll_append]

theorem traces_act (e : Engine) (hcall : a.call? = none) : Traces e (e.act a) :=
  ⟨[a], rfl, by simp [act, exitCalls, hcall, callAll], rfl⟩

theorem traces_callExits (e : Engine) (call : ExitManager.Op) : Traces e (e.callExits call).2 :=
  ⟨[.exits call], rfl, rfl, rfl⟩

theorem traces_basic : Basic (fun _ _ => True) Traces where
  refl _ := .of_eq rfl rfl rfl
  trans := Traces.trans
  fields hacts hexits _ hconfig _ := .of_eq hacts hexits hconfig
  act e a ha _ := traces_act e (by cases a <;> first | rfl | cases ha)
  halt _ := ⟨[.triggerHalt], rfl, rfl, rfl⟩
  call e call _ := traces_callExits e call

theorem traces_closed : Closed (fun _ _ => True) Traces :=
  traces_basic.closed (fun e _ => traces_act e rfl) (fun e _ _ => traces_act e rfl)
    fun e _ _ _ _ => traces_callExits e _

/-- **Every operation acts on the exit manager only through its calls.** -/
theorem traces_perform (e : Engine) (op : Op) : Traces e (e.perform op) := by
  by_cases hstart : op = .startWorkers
  · subst hstart
    exact .of_eq rfl rfl rfl
  · by_cases hworker : op = .workerHalt
    · subst hworker
      exact .of_eq rfl rfl rfl
    · exact traces_closed.perform (fun e _ => traces_callExits e _) e op hstart hworker

end Engine

end TrueTest
