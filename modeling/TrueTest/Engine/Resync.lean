import TrueTest.Engine.Desk
import TrueTest.Exits.Registered

/-!
# Resync after a rejection

A strategy that has sent an order may count on it and lock its position gate.
`finalize_strategy_route` unlocks the gate of an order that was rejected while it was routed: it
drops the order's exit intents and tells all strategies what the portfolio says: whether a position
is open. Nothing does this for an order that is rejected later, when it is drained from the deferred
orders or when its stop is triggered. Without such late rejections (`Prompt`) every rejection of a
strategy's order is followed by `set_position_open`, with the portfolio's answer at that call,
before the next callback, and no intent is kept for the order.
-/

namespace TrueTest.Engine

open Machine ExitManager List

variable {e e₁ e₂ : Engine} {q : Nat → Act → Prop}

/-! ## Parts and their marks -/

/-- The engine becomes another by acts whose marks `q` allows, given the next order id in the end;
the flag is not lowered, and no opener is new in the exit manager. -/
structure Keeps (q : Nat → Act → Prop) (e e' : Engine) : Prop where
  acts : ∃ new, e'.acts = e.acts ++ new ∧ ∀ a ∈ new, a.isMark = true → q e'.nextOrderId a
  flag : e.haltFlag = true → e'.haltFlag = true
  ids : e.nextOrderId ≤ e'.nextOrderId
  exits : NoNew e.exitManager e'.exitManager

section Keeps

variable (hq : ∀ m m' a, m ≤ m' → q m a → q m' a)

include hq

theorem Keeps.trans (h₁ : Keeps q e e₁) (h₂ : Keeps q e₁ e₂) : Keeps q e e₂ := by
  obtain ⟨as, hacts₁, has⟩ := h₁.acts
  obtain ⟨bs, hacts₂, hbs⟩ := h₂.acts
  refine ⟨⟨as ++ bs, by rw [hacts₂, hacts₁, append_assoc], fun a ha hmark => ?_⟩,
    fun hflag => h₂.flag (h₁.flag hflag), h₁.ids.trans h₂.ids, h₁.exits.trans h₂.exits⟩
  rcases mem_append.1 ha with ha | ha
  · exact hq _ _ a h₂.ids (has a ha hmark)
  · exact hbs a ha hmark

omit hq in
theorem Keeps.of_act {e' : Engine} {a : Act} (hacts : e'.acts = e.acts ++ [a])
    (hmark : a.isMark = true → q e'.nextOrderId a) (hflag : e.haltFlag = true → e'.haltFlag = true)
    (hids : e.nextOrderId ≤ e'.nextOrderId) (hexits : NoNew e.exitManager e'.exitManager) :
    Keeps q e e' :=
  ⟨⟨[a], hacts, fun b hb hm => by
    rw [mem_singleton.1 hb] at hm ⊢
    exact hmark hm⟩, hflag, hids, hexits⟩

theorem keeps_basic : Basic (fun e a => q e.nextOrderId a) (Keeps q) where
  refl e := ⟨⟨[], (append_nil _).symm, fun a ha => absurd ha not_mem_nil⟩, id, le_rfl,
    fun _ hid => hid⟩
  trans := Keeps.trans hq
  fields hacts hexits hflag _ hids :=
    ⟨⟨[], by rw [hacts, append_nil], fun a ha => absurd ha not_mem_nil⟩,
      fun hup => hflag ▸ hup, hids, hexits ▸ fun _ hid => hid⟩
  act _ _ _ hp := .of_act rfl hp id le_rfl fun _ hid => hid
  halt _ := .of_act rfl nofun (fun _ => rfl) le_rfl fun _ hid => hid
  call _ call hcall := .of_act rfl nofun id le_rfl
    (noNew_call fun intent heq => by rw [heq] at hcall; cases hcall)

theorem keeps_closed : Closed (fun e a => q e.nextOrderId a) (Keeps q) := by
  refine (keeps_basic hq).closed (fun e fills => ?_)
    (fun e sink f => ?_) fun e f opener placed order => ?_
  · exact .of_act rfl nofun id le_rfl fun _ hid => hid
  · exact .of_act rfl nofun id le_rfl fun _ hid => hid
  · exact .of_act rfl nofun id le_rfl (noNew_call (by simp))

end Keeps

/-! ## Unlocked gates -/

def NoCallback (acts : List Act) : Prop := ∀ name, Act.callback name ∉ acts

theorem NoCallback.append {as bs : List Act} (ha : NoCallback as) (hb : NoCallback bs) :
    NoCallback (as ++ bs) := fun name hmem =>
  (mem_append.1 hmem).elim (ha name) (hb name)

/-- `portfolio_.position_open`, once the fills among some acts are applied. -/
def isOpenAfter (balance : ℚ) (acts : List Act) (symbol : String) : Bool :=
  (Desk.portfolioAfter balance (deskCalls acts)).positionOpen symbol

/-- After the acts `before` the strategies are told what the portfolio says about the symbol before
they are called, or they are not called because the flag is up. -/
def Unlocked (balance : ℚ) (before : List Act) (flag : Bool) (symbol : String)
    (post : List Act) : Prop :=
  (∃ mid rest, post = mid ++ .notify symbol (isOpenAfter balance (before ++ mid) symbol) :: rest ∧
    NoCallback mid) ∨ (flag = true ∧ NoCallback post)

variable {flag flag' : Bool} {symbol : String} {before post new : List Act} {balance : ℚ}

theorem Unlocked.append (h : Unlocked balance before flag symbol post)
    (hnew : flag = true → NoCallback new ∧ flag' = true) :
    Unlocked balance before flag' symbol (post ++ new) := by
  rcases h with ⟨mid, rest, rfl, hmid⟩ | ⟨hflag, hpost⟩
  · exact .inl ⟨mid, rest ++ new, by rw [append_assoc]; rfl, hmid⟩
  · exact .inr ⟨(hnew hflag).2, hpost.append (hnew hflag).1⟩

/-- Among the acts `mid` after `before` the strategies are told what the portfolio says at that
point. -/
def Notifies (balance : ℚ) (before : List Act) (symbol : String) (mid : List Act) : Prop :=
  ∃ told rest, mid = told ++ .notify symbol (isOpenAfter balance (before ++ told) symbol) :: rest

theorem Unlocked.notified (h : Unlocked balance before flag symbol post) {mid rest : List Act}
    {name : String} (hpost : post = mid ++ .callback name :: rest) :
    Notifies balance before symbol mid := by
  subst hpost
  rcases h with ⟨pre, suf, heq, hpre⟩ | ⟨-, hnone⟩
  · rcases append_eq_middle heq with ⟨gap, rfl, -⟩ | ⟨gap, rfl, hgap⟩
    · exact ⟨pre, gap, rfl⟩
    · -- The callback would lie before the notification.
      cases gap with
      | nil => cases hgap
      | cons a gap =>
        rw [cons_append, cons.injEq] at hgap
        exact absurd (mem_append_right mid (hgap.1 ▸ mem_cons_self)) (hpre name)
  · exact absurd (mem_append_right mid mem_cons_self) (hnone name)

/-- Ids are given out in order; a rejected order of a strategy has its gate unlocked and no
intent. -/
structure Synced (balance : ℚ) (e : Engine) : Prop where
  accepted : ∀ o close, Act.accept o close ∈ e.acts → o.orderId < e.nextOrderId
  rejected : ∀ o why, Act.reject o why ∈ e.acts → o.orderId < e.nextOrderId
  registered : ∀ id ∈ e.exitManager.registered, id < e.nextOrderId
  resync : ∀ pre o why post, e.acts = pre ++ .reject o why :: post →
    ∀ o', Act.accept o' false ∈ e.acts → o'.orderId = o.orderId →
      Unlocked balance (pre ++ [.reject o why]) e.haltFlag o.symbol post ∧
        o.orderId ∉ e.exitManager.registered

/-- The marks of routing the closes of the exit manager, from the id `n` on. -/
def OfCloses (n m : Nat) : Act → Prop
  | .accept o close => close = true ∧ n ≤ o.orderId ∧ o.orderId < m
  | .reject o _ => n ≤ o.orderId ∧ o.orderId < m
  | .callback _ => False
  | _ => True

theorem ofCloses_mono (n : Nat) (m m' : Nat) (a : Act) (hm : m ≤ m') (h : OfCloses n m a) :
    OfCloses n m' a := by
  cases a with
  | accept o close => exact ⟨h.1, h.2.1, h.2.2.trans_le hm⟩
  | reject o why => exact ⟨h.1, h.2.trans_le hm⟩
  | callback name => exact h
  | _ => trivial

theorem Synced.keeps (h : e.Synced balance) (hk : Keeps (OfCloses e.nextOrderId) e e₁) :
    e₁.Synced balance := by
  obtain ⟨new, hacts, hnew⟩ := hk.acts
  have hquiet : NoCallback new := fun name hmem => hnew _ hmem rfl
  refine ⟨fun o close hmem => ?_, fun o why hmem => ?_, fun id hid => ?_, ?_⟩
  · rw [hacts, mem_append] at hmem
    exact hmem.elim (fun hold => (h.accepted o close hold).trans_le hk.ids)
      fun haccept => (hnew _ haccept rfl).2.2
  · rw [hacts, mem_append] at hmem
    exact hmem.elim (fun hold => (h.rejected o why hold).trans_le hk.ids)
      fun hreject => (hnew _ hreject rfl).2
  · exact (h.registered id (hk.exits id hid)).trans_le hk.ids
  · intro pre o why post heq o' ho' hid
    -- A new acceptance is one of a close.
    have hold : Act.accept o' false ∈ e.acts := by
      rw [hacts, mem_append] at ho'
      exact ho'.resolve_right fun hmem => Bool.false_ne_true (hnew _ hmem rfl).1
    rw [hacts] at heq
    rcases append_eq_middle heq with ⟨mid, hmid, rfl⟩ | ⟨mid, -, hmid⟩
    · obtain ⟨hunlocked, hnone⟩ := h.resync pre o why mid hmid o' hold hid
      exact ⟨hunlocked.append fun hflag => ⟨hquiet, hk.flag hflag⟩,
        fun hmem => hnone (hk.exits _ hmem)⟩
    · -- The rejection is a new one, of a younger order.
      have hmem : Act.reject o why ∈ new := hmid ▸ mem_append_right mid mem_cons_self
      have hlt := h.accepted o' false hold
      have hle : e.nextOrderId ≤ o.orderId := (hnew _ hmem rfl).1
      omega

/-! ## A strategy's order -/

/-- Parts that mark nothing. -/
def Unmarked : Engine → Engine → Prop := Keeps fun _ _ => False

theorem unmarked_closed : Closed (fun _ _ => False) Unmarked :=
  keeps_closed (q := fun _ _ => False) fun _ _ _ _ h => h

theorem Unmarked.acts (h : Unmarked e e₁) :
    ∃ new, e₁.acts = e.acts ++ new ∧ ∀ a ∈ new, a.isMark = false := by
  obtain ⟨new, hacts, hnew⟩ := Keeps.acts h
  exact ⟨new, hacts, fun a ha => Bool.eq_false_iff.2 (hnew a ha)⟩

/-- The engine has rejected `o`: it has gone on with the order marked as rejected, or it is
halted. -/
def Rejects (e : Engine) (o : OrderEvent) (s : Bool × Engine) : Prop :=
  ∃ why, Unmarked (e.act (.reject o why)) s.2 ∧
    (s.1 = true → s.2.orderTracker.getOrderStatus o.orderId = .rejected) ∧
    (s.1 = false → s.2.haltFlag = true)

variable (e) (o : OrderEvent)

section

variable (o : OrderEvent) (why : Refusal) (dropped : Bool)

theorem unmarked_reject : Unmarked (e.act (.reject o why)) (e.reject o why dropped) :=
  unmarked_closed.trans (unmarked_closed.still.publish _ dropped)
    (unmarked_closed.still.setStatus _ _ _)

theorem reject_status :
    (e.reject o why dropped).orderTracker.getOrderStatus o.orderId = .rejected := by
  simp [reject, setStatus]

theorem rejects_reject : e.Rejects o (true, e.reject o why dropped) :=
  ⟨why, unmarked_reject e o why dropped, fun _ => reject_status e o why dropped, nofun⟩

end

theorem actOnVerdict_outcome (r : Replies) :
    Unmarked e (e.actOnVerdict o r).2 ∨ e.Rejects o (e.actOnVerdict o r) := by
  unfold actOnVerdict
  cases r.risk with
  | halt =>
    refine .inr ⟨.riskHalt, ?_, fun h => (nomatch h), fun _ => rfl⟩
    exact unmarked_closed.trans (unmarked_reject e o _ _) (unmarked_closed.riskHalt _ _)
  | reject => exact .inr (rejects_reject e o _ _)
  | pass | unwind => exact .inl (unmarked_closed.execute e o r)

theorem processOrder_outcome (r : Replies) (hflag : e.haltFlag = false) :
    Unmarked e (e.processOrder o r).2 ∨ ∃ e₁, Unmarked e e₁ ∧
    e₁.Rejects o (e.processOrder o r) := by
  unfold processOrder
  rw [if_neg (by simp [hflag])]
  cases r.venueRefusal with
  | some reason => exact .inr ⟨e, unmarked_closed.refl e, rejects_reject e o _ _⟩
  | none =>
    have hcheck : Unmarked e (e.act (.check o r.risk)) := unmarked_closed.plain e rfl rfl
    exact (actOnVerdict_outcome _ o r).imp (unmarked_closed.trans hcheck) fun h => ⟨_, hcheck, h⟩

/-- A strategy's order that is given an id goes its way unmarked, or is rejected. -/
theorem routeOrder_outcome (order : OrderEvent) (simTime : Int) (r : Replies)
    (hflag : e.haltFlag = false)
    (hpause : e.pauseAll = false) : let s := e.routeOrder order simTime false r
    s.2.1.orderId = e.nextOrderId ∧ s.2.1.symbol = order.symbol ∧
      (Unmarked (e.accept order false) s.2.2 ∨ ∃ e₁ o, Unmarked (e.accept order false) e₁ ∧
        o.orderId = e.nextOrderId ∧ o.symbol = order.symbol ∧ e₁.Rejects o (s.1, s.2.2)) := by
  intro s
  set o := { order with orderId := e.nextOrderId }
  have hs : s = _ := routeOrder_eq e order simTime false r hflag hpause
  have hid : (e.applySpec o).2.orderId = e.nextOrderId := applySpec_orderId e o
  have hsymbol : (e.applySpec o).2.symbol = order.symbol := applySpec_symbol e o
  rw [hs]
  dsimp only
  split
  · refine ⟨hid, hsymbol, ?_⟩
    have hshrink : Unmarked (e.accept order false) ((e.accept order false).act
        (.shrink o (o.quantity - (e.applySpec o).2.quantity))) := unmarked_closed.plain _ rfl rfl
    set e₁ := (e.accept order false).act (.shrink o (o.quantity - (e.applySpec o).2.quantity))
    have hpark : ∀ e₂, Unmarked e₁ e₂ → Unmarked (e.accept order false) e₂ := fun _ h =>
      unmarked_closed.trans hshrink h
    unfold dispatch
    split
    · exact .inl (hpark _ (unmarked_closed.fields rfl rfl rfl rfl le_rfl))
    · simp only [Bool.false_eq_true, if_false]
      split
      · exact .inl (hpark _ (unmarked_closed.fields rfl rfl rfl rfl le_rfl))
      · split
        · exact .inl (hpark _ (unmarked_closed.fields rfl rfl rfl rfl le_rfl))
        · set o₁ := { (e.applySpec o).2 with earliestEligibleTs := simTime }
          rcases processOrder_outcome e₁ o₁ r hflag with h | ⟨e₂, he₂, h⟩
          · exact .inl (hpark _ h)
          · exact .inr ⟨e₂, o₁, hpark _ he₂, hid, hsymbol, h⟩
  · exact ⟨hid, hsymbol, .inr ⟨_, o, unmarked_closed.refl _, rfl, rfl, rejects_reject _ o _ _⟩⟩

variable {e}

/-- What a strategy's order does to the state: a callback, a new id, and at most rejections of this
order, each of which leaves the gate unlocked and no intent for it. -/
theorem Synced.ordered (h : e.Synced balance) (hflag : e.haltFlag = false) (name : String)
    (o₀ : OrderEvent) (new : List Act) (ho₀ : o₀.orderId = e.nextOrderId)
    (hacts : e₁.acts = e.acts ++ (.callback name :: .accept o₀ false :: new))
    (hids : e.nextOrderId < e₁.nextOrderId)
    (hexits : ∀ id ∈ e₁.exitManager.registered, id ∈ e.exitManager.registered ∨ id = e.nextOrderId)
    (hmarks : ∀ a ∈ new, a.isMark = true → ∃ o why, a = .reject o why ∧ o.orderId = e.nextOrderId)
    (hrejects : ∀ pre o why post, new = pre ++ .reject o why :: post →
      Unlocked balance (e.acts ++ .callback name :: .accept o₀ false :: pre ++ [.reject o why])
        e₁.haltFlag o.symbol post ∧ e.nextOrderId ∉ e₁.exitManager.registered) :
    e₁.Synced balance := by
  have hmem :
      ∀ a, a ∈ e₁.acts → a ∈ e.acts ∨ a = .callback name ∨ a = .accept o₀ false ∨ a ∈ new := by
    intro a ha
    simpa [hacts] using ha
  refine ⟨fun o close ha => ?_, fun o why ha => ?_, fun id hid => ?_, ?_⟩
  · rcases hmem _ ha with hold | hc | hc | hnew
    · exact (h.accepted o close hold).trans hids
    · cases hc
    · cases hc
      exact ho₀ ▸ hids
    · obtain ⟨_, _, hc, -⟩ := hmarks _ hnew rfl
      cases hc
  · rcases hmem _ ha with hold | hc | hc | hnew
    · exact (h.rejected o why hold).trans hids
    · cases hc
    · cases hc
    · obtain ⟨_, _, hc, hid⟩ := hmarks _ hnew rfl
      cases hc
      exact hid ▸ hids
  · rcases hexits id hid with hold | rfl
    · exact (h.registered id hold).trans hids
    · exact hids
  · intro pre o why post heq o' ho' hid
    rw [hacts] at heq
    rcases append_eq_middle heq with ⟨mid, hmid, rfl⟩ | ⟨mid, rfl, hmid⟩
    · -- An older rejection is one of an older order.
      have hlt : o.orderId < e.nextOrderId :=
        h.rejected o why (hmid ▸ mem_append_right pre mem_cons_self)
      have hold : Act.accept o' false ∈ e.acts := by
        rcases hmem _ ho' with hold | hc | hc | hnew
        · exact hold
        · cases hc
        · cases hc
          omega
        · obtain ⟨_, _, hc, -⟩ := hmarks _ hnew rfl
          cases hc
      obtain ⟨hunlocked, hnone⟩ := h.resync pre o why mid hmid o' hold hid
      refine ⟨hunlocked.append fun hup => ?_, fun hreg => ?_⟩
      · rw [hflag] at hup
        cases hup
      · exact (hexits _ hreg).elim hnone hlt.ne
    · -- The first two acts are no rejections.
      match mid, hmid with
      | [], hc => cases hc
      | [_], hc => cases hc
      | _ :: _ :: mid, hc =>
        simp only [cons_append, cons.injEq] at hc
        obtain ⟨rfl, rfl, hnew⟩ := hc
        obtain ⟨_, _, hc', hid'⟩ :=
          hmarks (.reject o why) (hnew ▸ mem_append_right mid mem_cons_self) rfl
        cases hc'
        obtain ⟨hunlocked, hnone⟩ := hrejects mid o why post hnew
        exact ⟨hunlocked, hid' ▸ hnone⟩

/-- Registering an order's intents marks nothing and adds its id at most. -/
theorem registerStrategyExitIntent_spec (e : Engine) (name : String) (order : OrderEvent)
    (intents : List ExitIntent) (netQty : ℚ) :
    let e' := e.registerStrategyExitIntent name order intents netQty
    (∃ new, e'.acts = e.acts ++ new ∧ ∀ a ∈ new, a.isMark = false) ∧
      e'.haltFlag = e.haltFlag ∧ e'.nextOrderId = e.nextOrderId ∧
      ∀ id ∈ e'.exitManager.registered, id ∈ e.exitManager.registered ∨ id = order.orderId := by
  unfold registerStrategyExitIntent
  induction applyDefaultExitPolicy e.config.exitDefaults order netQty intents generalizing e with
  | nil => exact ⟨⟨[], (append_nil _).symm, by simp⟩, rfl, rfl, fun _ hid => .inl hid⟩
  | cons intent rest ih =>
    set call : ExitManager.Op :=
      .register { intent with openerOrderId := order.orderId, strategyName := name }
    obtain ⟨⟨new, hacts, hnew⟩, hflag, hids, hreg⟩ := ih (e.callExits call).2
    refine ⟨⟨.exits call :: new, ?_, forall_mem_cons.2 ⟨rfl, hnew⟩⟩, hflag, hids, fun id hid => ?_⟩
    · rw [foldl_cons, hacts, callExits, act, append_assoc]
      rfl
    · rcases hreg id hid with hmem | heq
      · exact registered_registerPending _ id hmem
      · exact .inr heq

theorem noCallback_of_unmarked {acts : List Act} (h : ∀ a ∈ acts, a.isMark = false) :
    NoCallback acts := fun _ hmem => nomatch h _ hmem

/-- Among acts with one mark, the mark is found in one place only. -/
theorem mark_unique {as rest pre post : List Act} {a b : Act}
    (h : as ++ a :: rest = pre ++ b :: post) (has : ∀ x ∈ as, x.isMark = false)
    (hrest : ∀ x ∈ rest, x.isMark = false) (hb : b.isMark = true) :
    as = pre ∧ a = b ∧ rest = post := by
  rcases append_eq_middle h with ⟨mid, rfl, -⟩ | ⟨mid, rfl, hmid⟩
  · have hnot := has b (mem_append_right pre mem_cons_self)
    rw [hb] at hnot
    cases hnot
  · cases mid with
    | nil => exact ⟨(append_nil as).symm, cons.inj hmid⟩
    | cons x mid =>
      have hnot := hrest b ((cons.inj hmid).2 ▸ mem_append_right mid mem_cons_self)
      rw [hb] at hnot
      cases hnot

/-- `finalize_strategy_route` unlocks the gate of an order that was rejected on its way. -/
theorem Rejects.finalize {o order : OrderEvent} {s : Bool × Engine} (h : e.Rejects o s)
    (hid : order.orderId = o.orderId) (hsymbol : order.symbol = o.symbol) (name : String)
    (intents : List ExitIntent) (netQty : ℚ) (positionOpen : Bool)
    (hopen : positionOpen = isOpenAfter balance s.2.acts order.symbol) :
    let e' := s.2.finalizeStrategyRoute name order intents (!s.1) netQty positionOpen
    ∃ why, Unmarked (e.act (.reject o why)) e' ∧ ∃ post, e'.acts = e.acts ++ .reject o why :: post ∧
      (∀ a ∈ post, a.isMark = false) ∧
      Unlocked balance (e.acts ++ [.reject o why]) e'.haltFlag o.symbol post := by
  obtain ⟨why, hsteps, hstatus, hhalted⟩ := h
  obtain ⟨new, hacts, hnew⟩ := hsteps.acts
  cases hs : s.1 with
  | false =>
    refine ⟨why, hsteps, new, ?_, hnew, .inr ⟨hhalted hs, noCallback_of_unmarked hnew⟩⟩
    rw [finalizeStrategyRoute, Bool.not_false, if_pos rfl, hacts, act, append_assoc]
    rfl
  | true =>
    have hfinal : s.2.finalizeStrategyRoute name order intents false netQty positionOpen =
        s.2.notifyPositionChangeAll o.symbol positionOpen := by
      rw [finalizeStrategyRoute, if_neg Bool.false_ne_true, if_pos (.inr (hid ▸ hstatus hs)),
        hsymbol]
    have hnotify := unmarked_closed.still.notice.notified s.2 o.symbol positionOpen
    obtain ⟨rest, hrest, hunmarked⟩ := hnotify.acts
    refine ⟨why, ?_, new ++ .notify o.symbol positionOpen :: rest, ?_, ?_, ?_⟩
    · rw [Bool.not_true, hfinal]
      exact unmarked_closed.trans hsteps
        (unmarked_closed.still.notice.notifyPositionChangeAll _ _ _)
    · rw [Bool.not_true, hfinal, hrest, act, hacts, act]
      simp
    · exact forall_mem_append.2 ⟨hnew, forall_mem_cons.2 ⟨rfl, hunmarked⟩⟩
    · refine .inl ⟨new, rest, ?_, noCallback_of_unmarked hnew⟩
      rw [hopen, hacts, hsymbol, act]

/-- `finalize_strategy_route` marks nothing and adds the order's id at most. -/
theorem finalizeStrategyRoute_spec (e : Engine) (name : String) (order : OrderEvent)
    (intents : List ExitIntent) (halted : Bool) (netQty : ℚ) (positionOpen : Bool) :
    let e' := e.finalizeStrategyRoute name order intents halted netQty positionOpen
    (∃ new, e'.acts = e.acts ++ new ∧ ∀ a ∈ new, a.isMark = false) ∧
      e.nextOrderId ≤ e'.nextOrderId ∧
      ∀ id ∈ e'.exitManager.registered, id ∈ e.exitManager.registered ∨ id = order.orderId := by
  have hkeeps :
      ∀ e', Unmarked e e' → (∃ new, e'.acts = e.acts ++ new ∧ ∀ a ∈ new, a.isMark = false) ∧
      e.nextOrderId ≤ e'.nextOrderId ∧
      ∀ id ∈ e'.exitManager.registered, id ∈ e.exitManager.registered ∨ id = order.orderId :=
    fun e' h => ⟨h.acts, h.ids, fun id hid => .inl (h.exits id hid)⟩
  unfold finalizeStrategyRoute
  split
  · exact hkeeps _ (unmarked_closed.refl e)
  · split
    · exact hkeeps _ (unmarked_closed.still.notice.notifyPositionChangeAll e _ _)
    · obtain ⟨hacts, -, hids, hexits⟩ := registerStrategyExitIntent_spec e name order intents netQty
      exact ⟨hacts, hids.ge, hexits⟩

theorem Synced.callback (h : e.Synced balance) (name : String) :
    (e.callback name).Synced balance := by
  unfold Engine.callback
  split
  · exact h
  · next hflag =>
    refine ⟨fun o close hmem => ?_, fun o why hmem => ?_, h.registered, ?_⟩
    · exact h.accepted o close (by simpa [act] using hmem)
    · exact h.rejected o why (by simpa [act] using hmem)
    · intro pre o why post heq o' ho' hid
      rcases append_eq_middle heq with ⟨mid, hmid, rfl⟩ | ⟨mid, -, hmid⟩
      · obtain ⟨hunlocked, hnone⟩ := h.resync pre o why mid hmid o' (by simpa [act] using ho') hid
        exact ⟨hunlocked.append fun hup => absurd hup hflag, hnone⟩
      · rcases singleton_eq_append_iff.1 hmid with ⟨-, hc⟩ | ⟨-, hc⟩ <;> cases hc

section

variable (h : e.Synced balance) (name : String) (order : OrderEvent) (intents : List ExitIntent)
  (simTime : Int) (netQty : ℚ) (positionOpen : Bool) (r : Replies)
include h name order intents simTime netQty positionOpen r

/-- A strategy's order that is neither held back by the flag nor by the pause. -/
theorem Synced.routed (hflag : e.haltFlag = false) (hpause : e.pauseAll = false) :
    let s := (e.act (.callback name)).routeOrder order simTime false r
    positionOpen = isOpenAfter balance s.2.2.acts s.2.1.symbol →
      (s.2.2.finalizeStrategyRoute name s.2.1 intents (!s.1) netQty
        positionOpen).Synced balance := by
  intro s hopen
  obtain ⟨hid, hsymbol, hout⟩ :=
    routeOrder_outcome (e.act (.callback name)) order simTime r hflag hpause
  set o₀ := { order with orderId := e.nextOrderId } with ho₀
  set e₀ := (e.act (.callback name)).accept order false with he₀
  have haccept : e₀.acts = e.acts ++ [.callback name, .accept o₀ false] := by
    simp [he₀, accept, act, setStatus, registerOrderMeta, ho₀]
  have hids₀ : e.nextOrderId < e₀.nextOrderId := Nat.lt_succ_self _
  have hfresh : e.nextOrderId ∉ e.exitManager.registered := fun hmem =>
    (h.registered _ hmem).false
  rcases hout with hroute | ⟨e₁, o, hroute, ho, hosymbol, hrejects⟩
  · -- Nothing is marked but the acceptance.
    obtain ⟨as, hacts₁, has⟩ := hroute.acts
    obtain ⟨⟨bs, hacts₂, hbs⟩, hids, hexits⟩ :=
      finalizeStrategyRoute_spec s.2.2 name s.2.1 intents (!s.1) netQty positionOpen
    have hnone : ∀ a ∈ as ++ bs, a.isMark = false := fun a ha =>
      (mem_append.1 ha).elim (has a) (hbs a)
    refine h.ordered hflag name o₀ (as ++ bs) rfl ?_
      (hids₀.trans_le (hroute.ids.trans hids)) ?_ ?_ ?_
    · rw [hacts₂, hacts₁, haccept]
      simp
    · intro id hmem
      exact (hexits id hmem).imp (fun hold => hroute.exits id hold) fun heq => heq.trans hid
    · intro a ha hmark
      rw [hnone a ha] at hmark
      cases hmark
    · intro pre o why post heq
      have hmark := hnone (.reject o why) (heq ▸ mem_append_right pre mem_cons_self)
      cases hmark
  · -- The order is rejected once.
    obtain ⟨as, hacts₁, has⟩ := hroute.acts
    obtain ⟨why, hsteps, rest, hacts₂, hrest, hunlocked⟩ := hrejects.finalize (hid.trans ho.symm)
      (hsymbol.trans hosymbol.symm) name intents netQty positionOpen hopen
    have hexits := fun id hmem => hroute.exits id (hsteps.exits id hmem)
    refine h.ordered hflag name o₀ (as ++ .reject o why :: rest) rfl ?_
      (hids₀.trans_le (hroute.ids.trans hsteps.ids)) (fun id hmem => .inl (hexits id hmem)) ?_ ?_
    · rw [hacts₂, hacts₁, haccept]
      simp
    · intro a ha hmark
      rcases mem_append.1 ha with ha | ha
      · rw [has a ha] at hmark
        cases hmark
      · rcases mem_cons.1 ha with rfl | ha
        · exact ⟨o, why, rfl, ho⟩
        · rw [hrest a ha] at hmark
          cases hmark
    · intro pre o' why' post heq
      obtain ⟨rfl, hsame, rfl⟩ := mark_unique heq has hrest rfl
      cases hsame
      rw [hacts₁, haccept] at hunlocked
      exact ⟨by simpa using hunlocked, fun hmem => hfresh (hexits _ hmem)⟩

theorem Synced.strategyOrder (hpaused : e.pauseAll = true → order.orderId = 0)
    (hopen : let s := (e.callback name).routeOrder order simTime false r
      positionOpen = isOpenAfter balance s.2.2.acts s.2.1.symbol) :
    (e.strategyOrder name order intents simTime netQty positionOpen r).Synced balance := by
  cases hflag : e.haltFlag with
  | true =>
    have hsame : e.strategyOrder name order intents simTime netQty positionOpen r = e := by
      simp [Engine.strategyOrder, Engine.callback, routeOrder, finalizeStrategyRoute, hflag]
    rw [hsame]
    exact h
  | false =>
    have hcallback : e.callback name = e.act (.callback name) := by
      rw [Engine.callback, if_neg (by simp [hflag])]
    cases hpause : e.pauseAll with
    | true =>
      have hpause' : (e.callback name).pauseAll = true := by rw [hcallback]; exact hpause
      have hflag' : (e.callback name).haltFlag = false := by rw [hcallback]; exact hflag
      have hroute : (e.callback name).routeOrder order simTime false r =
          (true, order, (e.callback name).act (.pause order)) := by
        rw [routeOrder, if_neg (Bool.eq_false_iff.1 hflag'), if_pos hpause']
      have hfinal : e.strategyOrder name order intents simTime netQty positionOpen r =
          ((e.callback name).act (.pause order)).notifyPositionChangeAll
            order.symbol positionOpen := by
        rw [Engine.strategyOrder, hroute]
        rw [finalizeStrategyRoute, Bool.not_true, if_neg Bool.false_ne_true,
          if_pos (.inl (hpaused hpause))]
      rw [hfinal]
      have hclosed := keeps_closed (ofCloses_mono (e.callback name).nextOrderId)
      exact (h.callback name).keeps (hclosed.trans (hclosed.plain _ rfl rfl)
        (hclosed.still.notice.notifyPositionChangeAll _ _ _))
    | false =>
      rw [hcallback] at hopen
      rw [Engine.strategyOrder, hcallback]
      exact h.routed name order intents simTime netQty positionOpen r hflag hpause hopen

end

/-! ## Runs -/

/-- No order is refused when it is drained or triggered, the flag is not lowered once it is up, and
a strategy leaves the id of its order to the engine. What `finalize_strategy_route` reads of the
portfolio is the portfolio's own answer. -/
def Prompt (balance : ℚ) (e : Engine) : Op → Prop
  | .startWorkers => e.haltFlag = false
  | .drainPending _ rs => ∀ r ∈ rs, ¬ r.Refuses
  | .checkPendingStops _ _ _ rs => ∀ r ∈ rs, ¬ r.Refuses
  | .strategyOrder name order _ simTime _ positionOpen r =>
    (e.pauseAll = true → order.orderId = 0) ∧
      let s := (e.callback name).routeOrder order simTime false r
      positionOpen = isOpenAfter balance s.2.2.acts s.2.1.symbol
  | _ => True

instance (balance : ℚ) (e : Engine) : DecidablePred (e.Prompt balance) := fun op => by
  induction op using Op.casesOn <;> unfold Prompt <;> infer_instance

theorem Synced.perform (h : e.Synced balance) (op : Op) (hop : e.Prompt balance op) :
    (e.perform op).Synced balance := by
  have hclosed := keeps_closed (ofCloses_mono e.nextOrderId)
  have hnone : ∀ rs : List Replies, (∀ r ∈ rs, ¬ r.Refuses) → ∀ r ∈ rs, r.Refuses →
      ∀ (e' : Engine) o why, OfCloses e.nextOrderId e'.nextOrderId (.reject o why) :=
    fun rs hrs r hr hrefuses => absurd hrefuses (hrs r hr)
  cases op with
  | triggerHalt => exact h.keeps (hclosed.halt e)
  | workerHalt =>
    refine h.keeps ⟨⟨[], (append_nil _).symm, by simp⟩, fun _ => rfl, le_rfl, fun _ hid => hid⟩
  | startWorkers => exact h.keeps (hclosed.fields rfl rfl (Eq.symm hop) rfl le_rfl)
  | beginEvent ps => exact h.keeps (hclosed.beginEvent e ps)
  | adapterFills rs => exact h.keeps (hclosed.fills e rs)
  | exchangeFills fills => exact h.keeps (hclosed.plain e rfl rfl)
  | takeIds n => exact h.keeps (hclosed.fields rfl rfl rfl rfl (Nat.le_add_right _ n))
  | submitResults results => exact h.keeps (hclosed.still.drain e results)
  | publish dropped => exact h.keeps (hclosed.still.publish e dropped)
  | drainPending until_ rs => exact h.keeps (hclosed.drainPending until_ _ rs e (hnone rs hop))
  | checkPendingStops high low simTime rs =>
    exact h.keeps (hclosed.checkPendingStops high low simTime [] e.pendingStops rs e (hnone rs hop))
  | evaluateExits t symbol ts order rs =>
    refine h.keeps (hclosed.evaluateExits e t symbol ts order rs fun e' he' => ⟨?_, ?_⟩)
    · exact fun e₁ o ho hlt => ⟨rfl, ho ▸ he'.ids, ho ▸ hlt⟩
    · exact fun e₁ e₂ o why hlt hsteps ho => ⟨ho ▸ he'.ids, ho ▸ hlt.trans_le hsteps.ids⟩
  | callback name => exact h.callback name
  | strategyOrder name order intents simTime netQty positionOpen r =>
    exact h.strategyOrder name order intents simTime netQty positionOpen r hop.1 hop.2
  | cancelOrder symbol id results adapterCancels dropped =>
    exact h.keeps (hclosed.still.cancelOrder e symbol id results adapterCancels dropped fun _ _ =>
      hclosed.fields rfl rfl rfl rfl le_rfl)
  | _ => exact h.keeps (hclosed.fields rfl rfl rfl rfl le_rfl)

/-- Every rejection of an order that a strategy sent is followed by a notification with the
portfolio's answer before the next callback, and the exit manager has no intent of the order. -/
def Resynced (balance : ℚ) (e : Engine) : Prop :=
  ∀ pre o why post, e.acts = pre ++ .reject o why :: post →
    ∀ o', Act.accept o' false ∈ e.acts → o'.orderId = o.orderId →
      (∀ mid name rest, post = mid ++ .callback name :: rest →
        Notifies balance (pre ++ [.reject o why]) o.symbol mid) ∧
      o.orderId ∉ e.exitManager.registered

theorem synced_init (balance : ℚ) (config : EngineConfig) : (init config).Synced balance where
  accepted _ _ hmem := absurd hmem not_mem_nil
  rejected _ _ hmem := absurd hmem not_mem_nil
  registered id hid := by
    have hnone : (init config).exitManager.registered = [] := rfl
    rw [hnone] at hid
    cases hid
  resync pre _ _ _ heq := by
    have hnil : ([] : List Act) = _ := heq
    simp at hnil

/-- **No gate is left locked** in a run in which orders are refused only while they are routed. -/
theorem resynced_of_prompt (balance : ℚ) (config : EngineConfig) (ops : List Op)
    (hops : Along step (Prompt balance) (init config) ops) :
    ∀ e ∈ states step (init config) ops, e.Resynced balance := by
  intro e he pre o why post heq o' ho' hid
  have hstep : ∀ (e : Engine) (op : Op), e.Synced balance → e.Prompt balance op →
      (e.step op).2.Synced balance :=
    fun _ op h hop => h.perform op hop
  have hsynced := invariant hstep (synced_init balance config) hops e he
  obtain ⟨hunlocked, hnone⟩ := hsynced.resync pre o why post heq o' ho' hid
  exact ⟨fun _ _ _ hpost => hunlocked.notified hpost, hnone⟩

/-- The risk manager refuses an order while it is routed. -/
def refusedRun : List Op :=
  [.startWorkers,
    .strategyOrder "s" entryOrder [longIntent 1 (some 95) none] 0 0 false
      { Replies.quiet with risk := .reject },
    .callback "s"]

theorem resynced_of_refusedRun :
    let e := final step (init plainExits) refusedRun
    ∃ pre o mid, e.acts = pre ++ .reject o .risk :: (mid ++ [.callback "s"]) ∧
      Notifies 10000 (pre ++ [.reject o .risk]) "BTC" mid ∧ 1 ∉ e.exitManager.registered := by
  intro e
  have hops : Along step (Prompt 10000) (init plainExits) refusedRun := by decide +kernel
  obtain ⟨hnotify, hnone⟩ := resynced_of_prompt 10000 plainExits refusedRun hops e
    (final_mem_states _ _) _ _ _ _ (show e.acts = [_, _, _, _] ++ _ :: ([_, _] ++ [_]) from rfl) _
    (.tail _ (.head _)) rfl
  exact ⟨[_, _, _, _], _, [_, _], rfl, hnotify _ _ _ rfl, hnone⟩

/-- The same order is deferred, and refused when it is drained. -/
def lateRefusalRun : List Op :=
  [.startWorkers,
    .strategyOrder "s" entryOrder [longIntent 1 (some 95) none] 0 0 false .quiet,
    .drainPending (some 1) [{ Replies.quiet with risk := .reject }],
    .callback "s"]

/-- The strategy is called with its gate locked, and the intent of the rejected order stays. -/
theorem not_resynced_of_lateRefusalRun :
    let e := final step (init { plainExits with executionBarDelay := 1 }) lateRefusalRun
    (∃ pre o o', e.acts = pre ++ [.reject o .risk, .callback "s"] ∧ Act.accept o' false ∈ pre ∧
      o'.orderId = o.orderId ∧ o.orderId ∈ e.exitManager.registered) ∧ ¬ e.Resynced 10000 := by
  intro e
  have hacts : ∃ pre o o', e.acts = pre ++ [.reject o .risk, .callback "s"] ∧
      Act.accept o' false ∈ pre ∧ o'.orderId = o.orderId ∧ o.orderId ∈ e.exitManager.registered :=
    ⟨[_, _, _, _, _], _, _, rfl, .tail _ (.head _), rfl, mem_cons_self⟩
  refine ⟨hacts, fun h => ?_⟩
  obtain ⟨pre, o, o', heq, haccept, hid, hregistered⟩ := hacts
  exact (h pre o .risk _ heq o' (heq ▸ mem_append_left _ haccept) hid).2 hregistered

end TrueTest.Engine
