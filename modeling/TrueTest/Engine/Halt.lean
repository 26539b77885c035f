import TrueTest.Engine.Protection

/-!
# The halt flag

`trigger_halt` raises a flag that `route_order` and `process_order` read before they pass an order
on. Two things get past it. `start_workers` lowers the flag again, so that a halt raised before a
run is lost. And the flag is read once: what raises it later in the same call, a published event
that a safety ring drops, does not stop the order, nor the orders of `unwind_positions`, which reads
no flag at all. Without these (`Calm`) a halt is terminal.
-/

namespace TrueTest.Engine

open Machine List

variable {e e₁ e₂ : Engine} {as bs : List Act} (flag : Bool)

/-! ## Acts under a raised flag -/

/-- No act is a submit while the flag is up. -/
def SafeFrom : Bool → List Act → Prop
  | _, [] => True
  | flag, a :: as => (a.isSubmit = true → flag = false) ∧ SafeFrom (flag || a.isHalt) as

theorem safeFrom_append :
    SafeFrom flag (as ++ bs) ↔ SafeFrom flag as ∧ SafeFrom (flag || as.any Act.isHalt) bs := by
  induction as generalizing flag with
  | nil => simp [SafeFrom]
  | cons a as ih => simp [SafeFrom, ih, and_assoc, Bool.or_assoc]

theorem safeFrom_of_silent (h : ∀ a ∈ as, a.isSubmit = false) : SafeFrom flag as := by
  induction as generalizing flag with
  | nil => trivial
  | cons a as ih =>
    refine ⟨fun ha => ?_, ih _ fun b hb => h b (mem_cons_of_mem a hb)⟩
    rw [h a mem_cons_self] at ha
    cases ha

theorem not_submit_of_safeFrom (h : SafeFrom true as) (o : OrderEvent) : Act.submit o ∉ as := by
  induction as with
  | nil => exact not_mem_nil
  | cons a as ih =>
    intro hmem
    rcases mem_cons.1 hmem with rfl | hmem
    · exact absurd (h.1 rfl) (by simp)
    · exact ih h.2 hmem

/-- The engine becomes another, and submits nothing while its flag is up. -/
def Safe (e e' : Engine) : Prop := ∃ new, Steps e e' new ∧ SafeFrom e.haltFlag new

theorem Safe.trans (h₁ : Safe e e₁) (h₂ : Safe e₁ e₂) : Safe e e₂ := by
  obtain ⟨as, hs₁, has⟩ := h₁
  obtain ⟨bs, hs₂, hbs⟩ := h₂
  rw [hs₁.flag] at hbs
  exact ⟨as ++ bs, hs₁.trans hs₂, (safeFrom_append _).2 ⟨has, hbs⟩⟩

theorem Silent.safe (h : Silent e e₁) : Safe e e₁ := by
  obtain ⟨new, hs, hnew⟩ := h
  exact ⟨new, hs, safeFrom_of_silent _ hnew⟩

theorem Safe.of_eq {e' : Engine} (hacts : e'.acts = e.acts)
    (hexits : e'.exitManager = e.exitManager)
    (hflag : e'.haltFlag = e.haltFlag) (hconfig : e'.config = e.config) : Safe e e' :=
  (Silent.of_eq hacts hexits hflag hconfig).safe

theorem Safe.refl (e : Engine) : Safe e e := (Silent.refl e).safe

variable (o : OrderEvent)

theorem safe_submit (h : e.haltFlag = false) : Safe e (e.submit o) :=
  ⟨[.submit o], steps_act rfl rfl, fun _ => h, trivial⟩

theorem Silent.config (h : Silent e e₁) : e₁.config = e.config := by
  obtain ⟨new, hs, -⟩ := h
  exact hs.config

theorem Safe.config (h : Safe e e₁) : e₁.config = e.config := by
  obtain ⟨new, hs, -⟩ := h
  exact hs.config

/-! ## Who raises the flag -/

/-- A full safety ring halts the engine. -/
def dropHalts (config : EngineConfig) (dropped : Bool) : Bool := config.haltOnDrop && dropped

variable (e) (a : Act)

@[simp] theorem publish_haltFlag (dropped : Bool) :
    (e.publish dropped).haltFlag = (e.haltFlag || dropHalts e.config dropped) := by
  unfold publish dropHalts
  cases hdrop : (e.config.haltOnDrop && dropped) <;> simp [triggerHalt, act]

@[simp] theorem act_haltFlag : (e.act a).haltFlag = e.haltFlag := rfl

@[simp] theorem act_config : (e.act a).config = e.config := rfl

@[simp] theorem callExits_haltFlag (call : ExitManager.Op) :
    (e.callExits call).2.haltFlag = e.haltFlag := rfl

@[simp] theorem notifyPositionChangeAll_haltFlag (symbol : String) (isOpen : Bool) :
    (e.notifyPositionChangeAll symbol isOpen).haltFlag = e.haltFlag :=
  Notice.notifyPositionChangeAll (R := fun e e' => e'.haltFlag = e.haltFlag)
    ⟨fun _ => rfl, fun h h' => h'.trans h, fun _ _ _ => rfl, fun _ _ _ => rfl⟩ e symbol isOpen

@[simp] theorem applyFill_haltFlag (d : Delivery) :
    (e.applyFill d).haltFlag = (e.haltFlag || dropHalts e.config d.dropped) := by
  unfold applyFill
  rw [act_haltFlag, publish_haltFlag, notifyPositionChangeAll_haltFlag, callExits_haltFlag,
    (silent_still.notice.notifyPositionChangeAll _ _ _).config]
  rfl

variable {e} {r : Replies} {rs : List Replies} {p : Flattening} (config : EngineConfig) (op : Op)

def quietResults (config : EngineConfig) (results : List SubmitResult) : Bool :=
  results.all fun r => !dropHalts config r.dropped

def quietFills (config : EngineConfig) (ds : List Delivery) : Bool :=
  ds.all fun d => !dropHalts config d.dropped

theorem drainOne_haltFlag {r : SubmitResult} (h : dropHalts e.config r.dropped = false) :
    (e.drainOne r).haltFlag = e.haltFlag := by
  have hpublish : ∀ e' : Engine, e'.config = e.config → e'.haltFlag = e.haltFlag →
      (e'.publish r.dropped).haltFlag = e.haltFlag := fun e' hconfig hflag => by
    rw [publish_haltFlag, hconfig, hflag, h, Bool.or_false]
  unfold drainOne
  dsimp only
  split
  · split
    · exact hpublish _ rfl rfl
    · rfl
  · split
    · split <;> rfl
    · split
      · exact hpublish _ rfl rfl
      · rfl

/-- A loop whose steps keep the flag and the configuration keeps the flag. -/
theorem foldl_haltFlag {α : Type} {f : Engine → α → Engine} {quiet : α → Bool}
    {config : EngineConfig} (hf : ∀ e x, Silent e (f e x))
    (hquiet : ∀ e x, e.config = config → quiet x = true → (f e x).haltFlag = e.haltFlag)
    (xs : List α)
    (hconfig : e.config = config) (hxs : xs.all quiet = true) :
    (xs.foldl f e).haltFlag = e.haltFlag := by
  induction xs generalizing e with
  | nil => rfl
  | cons x xs ih =>
    rw [all_cons, Bool.and_eq_true] at hxs
    rw [foldl_cons, ih ((hf e x).config.trans hconfig) hxs.2]
    exact hquiet e x hconfig hxs.1

theorem drain_haltFlag {results : List SubmitResult} (h : quietResults e.config results = true) :
    (e.drainAsyncSubmitResults results).haltFlag = e.haltFlag := by
  refine foldl_haltFlag silent_still.drainOne (fun e' r hconfig hr => ?_) results rfl h
  rw [← hconfig] at hr
  exact drainOne_haltFlag (by simpa using hr)

theorem fills_haltFlag {ds : List Delivery} (h : quietFills e.config ds = true) :
    (ds.foldl applyFill e).haltFlag = e.haltFlag := by
  refine foldl_haltFlag silent_applyFill (fun e' d hconfig hd => ?_) ds rfl h
  rw [← hconfig] at hd
  rw [applyFill_haltFlag]
  simp only [Bool.not_eq_true'] at hd
  rw [hd, Bool.or_false]

/-! ## Unwinding -/

/-- No publish raises the flag before a submit of the unwind. -/
def unwindSafe (config : EngineConfig) : List Flattening → Bool
  | [] => true
  | p :: ps => !dropHalts config p.dropped &&
      (ps.isEmpty || (quietResults config p.results && quietFills config p.fills)) &&
      unwindSafe config ps

/-- The engine just before an unwinding order is submitted. -/
def unwindOpen (e : Engine) (p : Flattening) : Engine :=
  ({ e with nextOrderId := e.nextOrderId + 1 }.setStatus e.nextOrderId .open).publish p.dropped

theorem unwindPosition_eq (e : Engine) (p : Flattening) :
    e.unwindPosition p = p.fills.foldl applyFill
      ((((e.unwindOpen p).submit (closeOrder e.nextOrderId p)).drainAsyncSubmitResults
        p.results).act
        (.poll (p.fills.map fun d => (d.fill, false)))) := rfl

theorem unwindOpen_haltFlag (h : dropHalts e.config p.dropped = false) :
    (e.unwindOpen p).haltFlag = e.haltFlag := by
  rw [unwindOpen, publish_haltFlag]
  show (e.haltFlag || dropHalts e.config p.dropped) = _
  rw [h, Bool.or_false]

theorem silent_unwindOpen (e : Engine) (p : Flattening) : Silent e (e.unwindOpen p) := by
  have hopen :
      Silent e ({ e with nextOrderId := e.nextOrderId + 1 }.setStatus e.nextOrderId .open) :=
    .of_eq rfl rfl rfl rfl
  exact hopen.trans (silent_still.publish _ _)

theorem unwindPosition_safe (hflag : e.haltFlag = false)
    (hp : dropHalts e.config p.dropped = false) : Safe e (e.unwindPosition p) := by
  rw [unwindPosition_eq]
  have hsubmit := safe_submit (closeOrder e.nextOrderId p) ((unwindOpen_haltFlag hp).trans hflag)
  exact (((silent_unwindOpen e p).safe.trans hsubmit).trans (silent_still.drain _ _).safe).trans
    ((silent_act _ rfl rfl rfl).trans (silent_still.notice.foldl silent_applyFill _ _)).safe

theorem unwindPosition_haltFlag (hp : dropHalts e.config p.dropped = false)
    (hresults : quietResults e.config p.results = true)
    (hfills : quietFills e.config p.fills = true) :
    (e.unwindPosition p).haltFlag = e.haltFlag := by
  have hopen : ((e.unwindOpen p).submit (closeOrder e.nextOrderId p)).config = e.config :=
    (silent_unwindOpen e p).config
  have hdrain := (silent_still.drain ((e.unwindOpen p).submit (closeOrder e.nextOrderId p))
    p.results).config.trans hopen
  rw [unwindPosition_eq, fills_haltFlag (by rw [act_config, hdrain]; exact hfills), act_haltFlag,
    drain_haltFlag (hopen ▸ hresults)]
  exact unwindOpen_haltFlag hp

theorem unwindPositions_safe (ps : List Flattening) (hflag : e.haltFlag = false)
    (hps : unwindSafe e.config ps = true) : Safe e (e.unwindPositions ps) := by
  induction ps generalizing e with
  | nil => exact .refl e
  | cons p ps ih =>
    rw [unwindSafe, Bool.and_eq_true, Bool.and_eq_true, Bool.not_eq_true'] at hps
    obtain ⟨⟨hp, hmore⟩, hps⟩ := hps
    have hone := unwindPosition_safe hflag hp
    refine hone.trans ?_
    cases ps with
    | nil => exact .refl _
    | cons q qs =>
      rw [isEmpty_cons, Bool.false_or, Bool.and_eq_true] at hmore
      refine ih ?_ (hone.config ▸ hps)
      rw [unwindPosition_haltFlag hp hmore.1 hmore.2, hflag]

/-- An unwind that submits something starts with the flag down and is safe. -/
def riskHaltSafe (config : EngineConfig) (flag : Bool) (ps : List Flattening) : Bool :=
  !config.riskUnwind || ps.isEmpty || (!flag && unwindSafe config ps)

theorem riskHalt_safe {flag : Bool} {ps : List Flattening} (hflag : e.haltFlag = true → flag = true)
    (h : riskHaltSafe e.config flag ps = true) : Safe e (e.riskHalt ps) := by
  unfold riskHalt
  split
  · next hunwind =>
    have hsafe : Safe e (e.unwindPositions ps) := by
      simp only [riskHaltSafe, hunwind, Bool.not_true, Bool.false_or, Bool.or_eq_true,
        List.isEmpty_iff, Bool.and_eq_true, Bool.not_eq_true'] at h
      rcases h with rfl | ⟨hdown, hps⟩
      · exact .refl e
      · refine unwindPositions_safe ps ?_ hps
        rw [← Bool.not_eq_true]
        intro hup
        rw [hflag hup] at hdown
        cases hdown
    exact hsafe.trans (silent_still.halt _).safe
  · exact (silent_still.halt e).safe

/-! ## Fills and orders -/

/-- `flag` is an upper bound of the halt flag before the fills. -/
def fillsSafe (config : EngineConfig) : Bool → List FillReply → Bool
  | _, [] => true
  | flag, r :: rs =>
    let flag := flag || dropHalts config r.delivery.dropped
    if r.postFill = .halt then riskHaltSafe config flag r.unwind else fillsSafe config flag rs

section

variable (rs : List FillReply) {flag : Bool} (hflag : e.haltFlag = true → flag = true)
  (h : fillsSafe e.config flag rs = true)
include hflag h

theorem handleFills_safe : Safe e (e.handleFills rs).2 := by
  induction rs generalizing e flag with
  | nil => exact .refl e
  | cons r rs ih =>
    have happly := silent_applyFill e r.delivery
    have hup : (e.applyFill r.delivery).haltFlag = true →
        (flag || dropHalts e.config r.delivery.dropped) = true := by
      rw [applyFill_haltFlag, Bool.or_eq_true, Bool.or_eq_true]
      exact Or.imp_left hflag
    rw [fillsSafe] at h
    unfold handleFills handleEngineFill
    by_cases hpost : r.postFill = .halt
    · rw [if_pos hpost] at h
      rw [if_pos hpost]
      exact happly.safe.trans (riskHalt_safe hup (happly.config ▸ h))
    · rw [if_neg hpost] at h
      rw [if_neg hpost]
      exact happly.safe.trans (ih hup (happly.config ▸ h))

theorem processAdapterFills_safe : Safe e (e.processAdapterFills rs).2 := by
  have hpoll : Safe e (e.act (.poll (rs.map FillReply.polled))) := (silent_act e rfl rfl rfl).safe
  exact hpoll.trans (handleFills_safe rs hflag h)

end

/-- What `process_order` meets behind its checks, with the flag down, is safe. -/
def executeSafe (config : EngineConfig) (r : Replies) : Bool :=
  !dropHalts config r.orderDropped && (!config.shadow || quietResults config r.results) &&
    fillsSafe config (!quietResults config r.results ||
      (config.shadow && !quietResults config r.exchangeResults)) r.fills

/-- What `process_order` meets with the flag down is safe. -/
def orderSafe (config : EngineConfig) (r : Replies) : Bool :=
  match r.venueRefusal with
  | some _ => true
  | none => match r.risk with
    | .halt => riskHaltSafe config (dropHalts config r.rejectionDropped) r.unwind
    | .reject => true
    | .pass | .unwind => executeSafe config r

theorem place_safe (e : Engine) (o : OrderEvent) (r : Replies) (hflag : e.haltFlag = false)
    (horder : dropHalts e.config r.orderDropped = false)
    (hshadow : e.config.shadow = true → quietResults e.config r.results = true) :
    Safe e (e.place o r) ∧ ((e.place o r).haltFlag = true →
      (!quietResults e.config r.results ||
        (e.config.shadow && !quietResults e.config r.exchangeResults)) = true) := by
  unfold place
  generalize (if e.config.asyncSubmit o.symbol then OrderStatus.pending else .open) = status
  dsimp only
  set e₁ := ((e.setStatus o.orderId status).publish r.orderDropped).submit o
  have hsilent : Silent e ((e.setStatus o.orderId status).publish r.orderDropped) :=
    (silent_still.setStatus e o.orderId status).trans (silent_still.publish _ _)
  have hdown : ((e.setStatus o.orderId status).publish r.orderDropped).haltFlag = false := by
    rw [publish_haltFlag]
    show (e.haltFlag || dropHalts e.config r.orderDropped) = false
    rw [hflag, horder]
    rfl
  have hfirst : Safe e e₁ := hsilent.safe.trans (safe_submit o hdown)
  have hdrain := silent_still.drain e₁ r.results
  have hdrained : quietResults e.config r.results = true →
      (e₁.drainAsyncSubmitResults r.results).haltFlag = false := fun hq => by
    rw [drain_haltFlag (hfirst.config ▸ hq)]
    exact hdown
  have hconfig : (e₁.drainAsyncSubmitResults r.results).config = e.config :=
    hdrain.config.trans hfirst.config
  rw [hconfig]
  split
  · next hsh =>
    have hq := hshadow hsh
    have hsecond := (hfirst.trans hdrain.safe).trans (safe_submit o (hdrained hq))
    refine ⟨hsecond.trans (silent_still.drain _ _).safe, fun hup => ?_⟩
    rw [Bool.or_eq_true, Bool.and_eq_true]
    refine Or.inr ⟨hsh, ?_⟩
    by_contra hex
    rw [Bool.not_eq_true', Bool.not_eq_false] at hex
    rw [drain_haltFlag (hsecond.config ▸ hex)] at hup
    exact absurd (hdrained hq) (by
      rw [show (e₁.drainAsyncSubmitResults r.results).haltFlag = true from hup]
      simp)
  · refine ⟨hfirst.trans hdrain.safe, fun hup => ?_⟩
    rw [Bool.or_eq_true]
    refine Or.inl ?_
    by_contra hq
    rw [Bool.not_eq_true', Bool.not_eq_false] at hq
    rw [hdrained hq] at hup
    cases hup

theorem execute_safe (hflag : e.haltFlag = false) (h : executeSafe e.config r = true) :
    Safe e (e.execute o r).2 := by
  simp only [executeSafe, Bool.and_eq_true, Bool.not_eq_true', Bool.or_eq_true] at h
  obtain ⟨⟨horder, hshadow⟩, hfills⟩ := h
  obtain ⟨hplace, hup⟩ :=
    place_safe e o r hflag horder fun hsh => hshadow.resolve_left (by simp [hsh])
  have hall := hplace.trans (processAdapterFills_safe r.fills hup (hplace.config ▸ hfills))
  unfold execute
  dsimp only
  split
  · exact hall.trans ((silent_still.drain _ _).trans (silent_act _ rfl rfl rfl)).safe
  · exact hall

theorem actOnVerdict_safe (hflag : e.haltFlag = false) (hvenue : r.venueRefusal = none)
    (h : orderSafe e.config r = true) : Safe e (e.actOnVerdict o r).2 := by
  rw [orderSafe, hvenue] at h
  unfold actOnVerdict
  cases hr : r.risk with
  | halt =>
    rw [hr] at h
    have hreject := silent_still.reject e o .riskHalt r.rejectionDropped trivial
    have hup : (e.reject o .riskHalt r.rejectionDropped).haltFlag =
        dropHalts e.config r.rejectionDropped := by
      show (((e.act _).publish r.rejectionDropped).haltFlag) = _
      rw [publish_haltFlag]
      show (e.haltFlag || dropHalts e.config r.rejectionDropped) = _
      rw [hflag, Bool.false_or]
    have hsafe : riskHaltSafe (e.reject o .riskHalt r.rejectionDropped).config
        (dropHalts e.config r.rejectionDropped) r.unwind = true := by
      rw [hreject.config]
      exact h
    exact hreject.safe.trans (riskHalt_safe (fun hdown => hup ▸ hdown) hsafe)
  | reject => exact (silent_still.reject e o _ _ trivial).safe
  | pass | unwind =>
    rw [hr] at h
    exact execute_safe o hflag h

theorem processOrder_safe (h : e.haltFlag = false → orderSafe e.config r = true) :
    Safe e (e.processOrder o r).2 := by
  unfold processOrder
  cases hflag : e.haltFlag with
  | true => exact .refl e
  | false =>
    rw [if_neg (by simp)]
    cases hv : r.venueRefusal with
    | some reason => exact (silent_still.reject e o _ _ trivial).safe
    | none =>
      have hcheck : Silent e (e.act (.check o r.risk)) := silent_act e rfl rfl rfl
      exact hcheck.safe.trans (actOnVerdict_safe o hflag hv (h hflag))

/-- An order that is anchored at a trigger. -/
def anchoredSafe (config : EngineConfig) (r : Replies) : Bool :=
  fillsSafe config false r.anchorFills && orderSafe config r

theorem anchored_safe (hflag : e.haltFlag = false) (h : anchoredSafe e.config r = true) :
    Safe e ((e.processAdapterFills r.anchorFills).2.processOrder o r).2 := by
  rw [anchoredSafe, Bool.and_eq_true] at h
  have hfills :=
    processAdapterFills_safe r.anchorFills (fun hup => by rw [hflag] at hup; cases hup) h.1
  exact hfills.trans (processOrder_safe o fun _ => hfills.config ▸ h.2)

/-- What `route_order` meets with the flag down is safe; an order that is deferred meets nothing. -/
def routeSafe (config : EngineConfig) (anchorImmediate : Bool) (r : Replies) : Bool :=
  if anchorImmediate then anchoredSafe config r
  else config.hasLatencyModel || decide (0 < config.executionBarDelay) || orderSafe config r

theorem dispatch_safe (simTime : Int) (anchorImmediate : Bool)
    (hflag : e.haltFlag = false) (h : routeSafe e.config anchorImmediate r = true) :
    Safe e (e.dispatch o simTime anchorImmediate r).2 := by
  unfold dispatch
  split
  · exact .of_eq rfl rfl rfl rfl
  · cases anchorImmediate with
    | true => exact anchored_safe _ hflag h
    | false =>
      simp only [Bool.false_eq_true, if_false]
      split
      · exact .of_eq rfl rfl rfl rfl
      · next hlatency =>
        split
        · exact .of_eq rfl rfl rfl rfl
        · next hdelay =>
          refine processOrder_safe _ fun _ => ?_
          simpa [routeSafe, hlatency, hdelay] using h

theorem routeOrder_safe (order : OrderEvent) (simTime : Int) (anchorImmediate : Bool)
    (h : e.haltFlag = false → routeSafe e.config anchorImmediate r = true) :
    Safe e (e.routeOrder order simTime anchorImmediate r).2.2 := by
  cases hflag : e.haltFlag with
  | true =>
    rw [routeOrder, if_pos hflag]
    exact .refl e
  | false =>
    cases hpause : e.pauseAll with
    | true =>
      rw [routeOrder, if_neg (by simp [hflag]), if_pos hpause]
      exact (Silent.of_steps (steps_act rfl rfl) rfl).safe
    | false =>
      have haccept := silent_still.accept e order anchorImmediate fun _ _ _ _ => trivial
      rw [routeOrder_eq e order simTime anchorImmediate r hflag hpause]
      dsimp only
      split
      · have hshrink : ∀ qty, Silent e ((e.accept order anchorImmediate).act
            (.shrink { order with orderId := e.nextOrderId } qty)) := fun qty =>
          haccept.trans (.of_steps (steps_act rfl rfl) rfl)
        refine (hshrink _).safe.trans (dispatch_safe _ simTime anchorImmediate ?_ ?_)
        · exact hflag
        · exact h hflag
      · exact (haccept.trans (silent_still.reject _ _ _ _ trivial)).safe

theorem orderSafe_quiet : orderSafe config .quiet = true := by
  simp [orderSafe, executeSafe, Replies.quiet, dropHalts, quietResults, fillsSafe]

theorem anchoredSafe_quiet : anchoredSafe config .quiet = true := by
  rw [anchoredSafe, orderSafe_quiet]
  rfl

theorem routeCloses_safe (ts : Int) (cs : List OrderEvent)
    (h : ∀ r ∈ rs, anchoredSafe e.config r = true) : Safe e (routeCloses ts cs rs e) := by
  induction cs generalizing rs e with
  | nil => exact .refl e
  | cons c cs ih =>
    have hone := routeOrder_safe c ts true fun _ => headD_quiet h (anchoredSafe_quiet e.config)
    unfold routeCloses
    dsimp only
    split
    · refine hone.trans (ih fun r hr => ?_)
      rw [hone.config]
      exact h r (mem_of_mem_tail hr)
    · exact hone

theorem drainPending_safe (until_ : Option Int) (n : Nat)
    (h : ∀ r ∈ rs, orderSafe e.config r = true) : Safe e (drainPending until_ n rs e) := by
  induction n generalizing rs e with
  | zero => exact .refl e
  | succ n ih =>
    unfold drainPending
    split
    · exact .refl e
    · next o rest hpending =>
      split
      · exact .refl e
      · have hpop : Safe e { e with pendingOrders := rest } := .of_eq rfl rfl rfl rfl
        have hone :=
          hpop.trans (processOrder_safe o fun _ => headD_quiet h (orderSafe_quiet e.config))
        dsimp only
        split
        · refine hone.trans (ih fun r hr => ?_)
          rw [hone.config]
          exact h r (mem_of_mem_tail hr)
        · exact hone

theorem checkPendingStops_safe (high low : ℚ) (simTime : Int) (kept rest : List OrderEvent)
    (h : ∀ r ∈ rs, anchoredSafe e.config r = true) :
    Safe e (checkPendingStops high low simTime kept rest rs e) := by
  have hstops : ∀ e stops, Safe e { e with pendingStops := stops } := fun _ _ =>
    .of_eq rfl rfl rfl rfl
  induction rest generalizing kept rs e with
  | nil => exact hstops _ _
  | cons stop rest ih =>
    unfold checkPendingStops
    split
    · exact hstops _ _
    · next hflag =>
      split
      · have hone := anchored_safe (convertStop simTime stop) (by simpa using hflag)
          (headD_quiet h (anchoredSafe_quiet e.config))
        dsimp only
        split
        · refine hone.trans (ih kept fun r hr => ?_)
          rw [hone.config]
          exact h r (mem_of_mem_tail hr)
        · exact hone.trans (hstops _ _)
      · exact ih _ h

@[simp] theorem callback_haltFlag (e : Engine) (name : String) :
    (e.callback name).haltFlag = e.haltFlag := by
  unfold callback
  split <;> rfl

/-! ## Whole runs -/

/-- The workers are not started on a raised flag, and within an operation nothing raises the flag
before a submit. -/
def Calm (e : Engine) : Op → Prop
  | .startWorkers => e.haltFlag = false
  | .beginEvent ps => e.haltFlag = false → e.flattenRequest = true → unwindSafe e.config ps = true
  | .adapterFills rs => fillsSafe e.config e.haltFlag rs = true
  | .drainPending _ rs => ∀ r ∈ rs, orderSafe e.config r = true
  | .checkPendingStops _ _ _ rs => ∀ r ∈ rs, anchoredSafe e.config r = true
  | .evaluateExits _ _ _ _ rs => ∀ r ∈ rs, anchoredSafe e.config r = true
  | .strategyOrder _ _ _ _ _ _ r => e.haltFlag = false → routeSafe e.config false r = true
  | _ => True

instance (e : Engine) (op : Op) : Decidable (e.Calm op) := by
  cases op <;> unfold Calm <;> infer_instance

/-- A halt that was triggered keeps the flag up, and no submit follows it. -/
structure Terminal (e : Engine) : Prop where
  flag : Act.triggerHalt ∈ e.acts → e.haltFlag = true
  silent : ∀ pre post, e.acts = pre ++ .triggerHalt :: post → ∀ o, Act.submit o ∉ post

theorem Safe.terminal (h : Safe e e₁) (ht : e.Terminal) : e₁.Terminal := by
  obtain ⟨new, hs, hsafe⟩ := h
  refine ⟨fun hmem => ?_, fun pre post hacts o => ?_⟩
  · rw [hs.acts, mem_append] at hmem
    rw [hs.flag, Bool.or_eq_true]
    exact hmem.imp ht.flag fun hnew => any_eq_true.2 ⟨_, hnew, rfl⟩
  · rw [hs.acts] at hacts
    rcases append_eq_middle hacts with ⟨mid, hold, rfl⟩ | ⟨mid, -, hnew⟩
    · have hflag := ht.flag (hold ▸ mem_append_right pre mem_cons_self)
      rw [hflag] at hsafe
      rw [mem_append, not_or]
      exact ⟨ht.silent pre mid hold o, not_submit_of_safeFrom hsafe o⟩
    · -- The halt is one of the new acts.
      rw [hnew, safeFrom_append] at hsafe
      refine not_submit_of_safeFrom ?_ o
      simpa [Act.isHalt] using hsafe.2.2

theorem perform_safe (h : e.Calm op) (hstart : op ≠ .startWorkers)
    (hworker : op ≠ .workerHalt) : Safe e (e.perform op) := by
  cases op with
  | startWorkers => exact absurd rfl hstart
  | workerHalt => exact absurd rfl hworker
  | triggerHalt => exact (silent_still.halt e).safe
  | beginEvent ps =>
    show Safe e (e.beginEvent ps)
    unfold beginEvent
    split
    · exact .refl e
    · next hflag =>
      have hflag : e.haltFlag = false := by simpa using hflag
      split
      · next hflatten =>
        have hdone : Safe e { e with flattenRequest := false } := .of_eq rfl rfl rfl rfl
        exact hdone.trans (unwindPositions_safe ps hflag (h hflag hflatten))
      · exact .refl e
  | adapterFills rs => exact processAdapterFills_safe rs id h
  | submitResults results => exact (silent_still.drain e results).safe
  | publish dropped => exact (silent_still.publish e dropped).safe
  | drainPending until_ rs => exact drainPending_safe until_ _ h
  | checkPendingStops high low simTime rs =>
    exact checkPendingStops_safe high low simTime [] e.pendingStops h
  | evaluateExits t symbol ts order rs =>
    exact (silent_callExits e _).safe.trans (routeCloses_safe ts _ h)
  | strategyOrder name order intents simTime netQty positionOpen r =>
    have hcallback := silent_still.callback e name trivial
    have hsafe : (e.callback name).haltFlag = false →
        routeSafe (e.callback name).config false r = true := by
      rw [callback_haltFlag, hcallback.config]
      exact h
    exact (hcallback.safe.trans (routeOrder_safe order simTime false hsafe)).trans
      (silent_still.notice.finalizeStrategyRoute (fun e _ => silent_callExits e _) _ name _ intents
        _ netQty positionOpen).safe
  | cancelOrder symbol id results adapterCancels dropped =>
    exact (silent_still.cancelOrder e symbol id results adapterCancels dropped fun _ _ =>
      .of_eq rfl rfl rfl rfl).safe
  | exchangeFills fills => exact (silent_act e rfl rfl rfl).safe
  | callback name => exact (silent_still.callback e name trivial).safe
  | takeIds n => exact .of_eq rfl rfl rfl rfl
  | stopWorkers => exact .refl e
  | clearPendingState | setPauseAll paused | requestFlatten | venueBracketMeta id owner =>
    exact .of_eq rfl rfl rfl rfl

theorem perform_terminal (ht : e.Terminal) (h : e.Calm op) : (e.perform op).Terminal := by
  by_cases hstart : op = .startWorkers
  · subst hstart
    -- The flag is down, so no halt was triggered.
    have hnone : Act.triggerHalt ∉ e.acts := fun hmem => by
      have hup := ht.flag hmem
      rw [show e.haltFlag = false from h] at hup
      cases hup
    exact ⟨fun hmem => absurd hmem hnone, ht.silent⟩
  · by_cases hworker : op = .workerHalt
    · subst hworker
      exact ⟨fun _ => rfl, ht.silent⟩
    · exact (perform_safe op h hstart hworker).terminal ht

/-- **A halt is terminal** in every run of calm operations: once `trigger_halt` has been called the
flag stays up, and no order is submitted any more. -/
theorem halt_terminal (config : EngineConfig) (ops : List Op)
    (hops : Along step Calm (init config) ops) :
    ∀ e ∈ states step (init config) ops,
      (Act.triggerHalt ∈ e.acts → e.haltFlag = true) ∧
      ∀ pre post, e.acts = pre ++ .triggerHalt :: post → ∀ o, Act.submit o ∉ post := by
  intro e he
  have hinit : (init config).Terminal :=
    ⟨nofun, fun pre post hacts => by simp [init] at hacts⟩
  have hstep : ∀ (e : Engine) (op : Op), e.Terminal → e.Calm op → (e.step op).2.Terminal :=
    fun _ op => perform_terminal op
  have hterminal := invariant hstep hinit hops e he
  exact ⟨hterminal.flag, hterminal.silent⟩

/-- A position of 10 that the engine closes before it halts. -/
def flattenTen : Flattening where
  now := 1
  symbol := "BTC"
  qty := 10
  price := 100
  nonflat := by norm_num [dust]
  dropped := false
  results := []
  fills := [(deliver 2 .sell 10 100 0).delivery]

/-- The entry breaches a limit when it fills; the position is closed, and later orders are
refused. -/
def breachRun : List Op :=
  [.startWorkers,
    .strategyOrder "s" entryOrder [] 0 0 false { Replies.quiet with
      fills := [{ deliver 1 .buy 10 100 0 with postFill := .halt, unwind := [flattenTen] }] },
    .strategyOrder "s" entryOrder [] 1 0 false .quiet, .publish true, .triggerHalt]

theorem halt_terminal_of_breachRun :
    let e :=
      final step (init { backtestConfig 0 with riskUnwind := true, haltOnDrop := true }) breachRun
    e.acts.any Act.isHalt = true ∧
      ∀ pre post, e.acts = pre ++ .triggerHalt :: post → ∀ o, Act.submit o ∉ post :=
  ⟨by decide +kernel, (halt_terminal _ breachRun (by decide +kernel) _ (final_mem_states _ _)).2⟩

/-- A halt before the run. -/
def restartRun : List Op :=
  [.triggerHalt, .startWorkers, .strategyOrder "s" entryOrder [] 0 0 false .quiet]

/-- `start_workers` lowers the flag, and the next order is submitted. -/
theorem not_halt_terminal_of_restartRun :
    ¬ ∀ (config : EngineConfig) (ops : List Op), ∀ e ∈ states step (init config) ops,
      (Act.triggerHalt ∈ e.acts → e.haltFlag = true) ∧
      ∀ pre post, e.acts = pre ++ .triggerHalt :: post → ∀ o, Act.submit o ∉ post := by
  intro h
  have hlast := (h plainExits restartRun _ (final_mem_states _ _)).2 [] _ rfl
    { entryOrder with orderId := 1 }
  -- The order's submit comes after the callback, the new id, the rounding and the risk check.
  exact hlast (.tail _ (.tail _ (.tail _ (.tail _ (.head _)))))

end TrueTest.Engine
