import TrueTest.Engine.Cancels

/-!
# Final statuses

An order that is filled, cancelled or rejected is done with. The order tracker itself takes every
status for every id; that a final status stays must come from the order in which the engine's acts
and the adapters' reports reach it. The results of asynchronous submits and cancels are checked
against the status that is there. Nothing else is: `cancel_order` overwrites the status of any id
that the adapter agrees to cancel, and the paper adapter agrees to all.

`Engine.write` is what an act writes to the tracker, and the tracker is what the acts have written.
In a run whose adapters report by the record (`Reported`), each write finds a status that is not
final (`settled_of_honest`).
-/

namespace TrueTest

open Machine List Engine OrderStatus

/-! ## Statuses -/

def OrderStatus.isFinal : OrderStatus → Bool
  | .filled | .cancelled | .rejected => true
  | .pending | .open | .partiallyFilled => false

namespace OrderTracker

variable (t : OrderTracker) (id x : Nat)

theorem getOrderStatus_setStatus (status : OrderStatus) :
    (t.setStatus id status).getOrderStatus x = if x = id then status else t.getOrderStatus x := by
  split_ifs with hx
  · rw [hx, getOrderStatus_setStatus_self]
  · rw [getOrderStatus, setStatus, AList.lookup_insert_ne hx]
    rfl

theorem isActive_iff : t.isActive id = true ↔ (t.getOrderStatus id).isFinal = false := by
  rw [isActive, decide_eq_true_iff]
  cases t.getOrderStatus id <;> simp [isFinal]

end OrderTracker

/-- The result says that its order is not or no longer at the venue. -/
def SubmitResult.ends (r : SubmitResult) : Bool := if r.isCancel then r.ok else !r.ok

/-- A result writes one status, over one that is not final; it writes a final one only if it ends
the order. -/
theorem OrderTracker.answer_cases (t : OrderTracker) (r : SubmitResult) :
    t.answer r = t ∨ ∃ status, t.answer r = t.setStatus r.engineId status ∧
      (t.getOrderStatus r.engineId).isFinal = false ∧ (status.isFinal = true → r.ends = true) := by
  have hactive := t.isActive_iff r.engineId
  rw [answer, SubmitResult.ends]
  split_ifs with hcancel hok hok hpending hlive
  · exact .inr ⟨_, rfl, hactive.1 hok.2, fun _ => hok.1⟩
  · exact .inl rfl
  · exact .inr ⟨_, rfl, by rw [hpending]; rfl, fun hfinal => absurd hfinal Bool.false_ne_true⟩
  · exact .inl rfl
  · exact .inr ⟨_, rfl, hactive.1 hlive, fun _ => by simpa using hok⟩
  · exact .inl rfl

/-! ## The record -/

/-- The act processes the order: it passes its checks, goes to an adapter or is rejected. -/
def Act.processes (id : Nat) : Act → Bool
  | .check o .pass | .check o .unwind | .submit o | .reject o _ => o.orderId = id
  | _ => false

def Act.submits (id : Nat) : Act → Bool
  | .submit o => o.orderId = id
  | _ => false

/-- The act says that the order is done with: a rejection, a fill that leaves nothing, a cancel that
was agreed to. -/
def Act.ends (config : EngineConfig) (id : Nat) : Act → Bool
  | .reject o _ => o.orderId = id
  | .apply .orderTracker f => f.orderId = id && !f.isPartial
  | .cancel symbol id' ok => id' = id && ok && !config.asyncSubmit symbol
  | .answer r => r.engineId = id && r.ends
  | _ => false

/-- The fill that the act applies to the tracker. -/
def Act.fill? : Act → Option FillEvent
  | .apply .orderTracker f => some f
  | _ => none

def Processed (record : List Act) (id : Nat) : Prop := record.any (Act.processes id) = true

def Submitted (record : List Act) (id : Nat) : Prop := record.any (Act.submits id) = true

/-- The order has been submitted, and nothing so far says that it is done with. -/
def InPlay (config : EngineConfig) (record : List Act) (id : Nat) : Prop :=
  Submitted record id ∧ record.any (Act.ends config id) = false

section Record

variable {config : EngineConfig} {record : List Act} {id : Nat} {a : Act}

instance : Decidable (Processed record id) := inferInstanceAs (Decidable (_ = _))

instance : Decidable (Submitted record id) := inferInstanceAs (Decidable (_ = _))

instance : Decidable (InPlay config record id) := inferInstanceAs (Decidable (_ ∧ _ = _))

theorem processed_snoc :
    Processed (record ++ [a]) id ↔ Processed record id ∨ a.processes id = true := by
  simp [Processed]

theorem submitted_snoc :
    Submitted (record ++ [a]) id ↔ Submitted record id ∨ a.submits id = true := by
  simp [Submitted]

theorem inPlay_snoc : InPlay config (record ++ [a]) id ↔
    (Submitted record id ∨ a.submits id = true) ∧ record.any (Act.ends config id) = false ∧
      a.ends config id = false := by
  rw [InPlay, submitted_snoc]
  simp

theorem Act.processes_of_submits (h : a.submits id = true) : a.processes id = true := by
  cases a with
  | submit o => exact h
  | _ => cases h

theorem Submitted.processed (h : Submitted record id) : Processed record id := by
  obtain ⟨a, ha, hsubmits⟩ := any_eq_true.1 h
  exact any_eq_true.2 ⟨a, ha, Act.processes_of_submits hsubmits⟩

end Record

/-- What the adapters report fits the record. A fill and an agreed cancel are for an order in play,
a result is for an order that was submitted. A cancel that is refused is not for a stop that has
been processed and was left in its list by a halt. -/
def Reported (config : EngineConfig) (stops : List OrderEvent) (record : List Act) : Act → Prop
  | .apply .orderTracker f => InPlay config record f.orderId
  | .answer r => Submitted record r.engineId
  | .cancel symbol id ok => (ok = true → config.asyncSubmit symbol = false →
      InPlay config record id) ∧
      (ok = false → ∀ o ∈ stops, o.orderId = id → ¬ Processed record id)
  | _ => True

instance (config : EngineConfig) (stops : List OrderEvent) (record : List Act) :
    DecidablePred (Reported config stops record) := fun a => by
  induction a using Act.casesOn with
  | apply sink f => induction sink using Sink.casesOn <;> unfold Reported <;> infer_instance
  | _ => unfold Reported; infer_instance

/-! ## What the acts write -/

namespace Engine

def status (e : Engine) (id : Nat) : OrderStatus := e.orderTracker.getOrderStatus id

/-- What an act writes to the tracker. A submit writes only for an order that closes a position,
which is given its id right there; the order of a strategy has its status from the check before. -/
def write (e : Engine) : Act → Engine
  | .accept o _ => { e.setStatus o.orderId .pending with nextOrderId := o.orderId + 1 }
  | .check o .pass | .check o .unwind => e.setStatus o.orderId (e.config.placedStatus o.symbol)
  | .reject o _ => e.setStatus o.orderId .rejected
  | .submit o =>
    if o.orderId < e.nextOrderId then e
    else { e.setStatus o.orderId .open with nextOrderId := o.orderId + 1 }
  | .answer r => { e with orderTracker := e.orderTracker.answer r }
  | .apply .orderTracker f => { e with orderTracker := TrueTest.handleEngineFill e.orderTracker f }
  | .cancel symbol id ok =>
    if ok ∧ e.config.asyncSubmit symbol then e
    else if ok ∨ e.pendingStops.any fun o => o.orderId = id then e.setStatus id .cancelled
    else e
  | _ => e

theorem write_of_isIdle (e : Engine) {a : Act} (h : a.isIdle = true) :
    e.write a = e ∧ a.fill? = none := by
  cases a with
  | apply sink f => cases sink <;> first | exact ⟨rfl, rfl⟩ | cases h
  | _ => first | exact ⟨rfl, rfl⟩ | cases h

/-- The acts write to the tracker. -/
def writing (e : Engine) (a : Act) : Unit × Engine := ((), e.write a)

def recording (record : List Act) (a : Act) : Unit × List Act := ((), record ++ [a])

/-- What the act writes leaves final statuses alone, and a fill that is applied finds its order in a
status that is not final. -/
def KeepsFinal (e : Engine) (a : Act) : Prop :=
  (∀ id, (e.status id).isFinal = true → (e.write a).status id = e.status id) ∧
    ∀ f, a = .apply .orderTracker f → (e.status f.orderId).isFinal = false

end Engine

/-! ## Where the orders are -/

variable {id : Nat} {st : OrderStatus} {stops : List OrderEvent} {o : OrderEvent}
  {hand : Option OrderEvent} {as : List Act}

namespace Life

variable {b : Bool} {s t : Life} {a : Option Act} {record : List Act}

/-- Every order that is held has an id of its own that was given to it. The order at hand may stand
in the list of stops too, as the one that is being triggered. -/
structure Tidy (s : Life) : Prop where
  nodup : ((s.orders ++ s.stops).map OrderEvent.orderId).Nodup
  given : ∀ o ∈ s.held, o.orderId < s.nextOrderId
  apart : ∀ o, s.hand = some o ∨ s.placing = some o → (∀ x ∈ s.orders, x.orderId ≠ o.orderId) ∧
    ∀ x ∈ s.stops, x.orderId = o.orderId → s.loose = some o.orderId
  single : s.hand = none ∨ s.placing = none

theorem Tidy.congr (h : s.Tidy) (horders : t.orders = s.orders) (hstops : t.stops = s.stops)
    (hhand : t.hand = s.hand) (hplacing : t.placing = s.placing) (hloose : t.loose = s.loose)
    (hnext : s.nextOrderId ≤ t.nextOrderId) : t.Tidy := by
  have hheld : t.held = s.held := by rw [held, held, horders, hstops, hhand, hplacing]
  refine ⟨by rw [horders, hstops]; exact h.nodup, fun o ho => ?_, ?_, ?_⟩
  · exact (h.given o (hheld ▸ ho)).trans_le hnext
  · rw [horders, hstops, hhand, hplacing, hloose]
    exact h.apart
  · rw [hhand, hplacing]
    exact h.single

theorem Step.tidy (h : Step b s a t) (hs : s.Tidy) : t.Tidy := by
  have hnodup := hs.nodup
  have hgiven := hs.given
  have hapart := hs.apart
  have hsingle := hs.single
  cases h with
  | takeIds n => exact hs.congr rfl rfl rfl rfl rfl (Nat.le_add_right _ n)
  | unwind hid _ => exact hs.congr rfl rfl rfl rfl rfl (Nat.le_succ _)
  | accept close hhand hplacing hid | reject why hhand hkey =>
    refine ⟨hnodup, ?_, ?_, ?_⟩ <;> grind [setStatus]
  | revise hhand hkey | takeStop hhand hplacing hloose hflag hstop hkey =>
    have hid := OrderEvent.orderId_eq_of_key hkey
    refine ⟨hnodup, ?_, ?_, ?_⟩ <;> grind
  | check verdict hhand =>
    cases verdict with
    | pass | unwind => refine ⟨hnodup, ?_, ?_, ?_⟩ <;> grind [judge, setStatus]
    | reject | halt => exact hs
  | sent | lose _ | keepStop hhand hplacing _ =>
    refine ⟨hnodup, ?_, ?_, ?_⟩ <;> grind
  | defer hhand hloose horders =>
    rename_i o before after
    refine ⟨?_, ?_, ?_, ?_⟩
    · have hnew : o.orderId ∉ (s.orders ++ s.stops).map OrderEvent.orderId := by grind
      have hperm : ((before ++ o :: after ++ s.stops).map OrderEvent.orderId).Perm
          (o.orderId :: (s.orders ++ s.stops).map OrderEvent.orderId) := by
        rw [horders, ← map_cons]
        refine Perm.map _ ?_
        simp [perm_middle]
      exact hperm.nodup_iff.2 (nodup_cons.2 ⟨hnew, hnodup⟩)
    all_goals grind
  | holdStop hhand hloose =>
    rename_i o
    refine ⟨?_, ?_, ?_, ?_⟩
    · have hnew : o.orderId ∉ (s.orders ++ s.stops).map OrderEvent.orderId := by grind
      rw [← append_assoc, map_append]
      exact Nodup.append hnodup (nodup_singleton _) (by simpa using hnew)
    all_goals grind
  | takeOrder hhand hplacing horders =>
    rw [horders, cons_append, map_cons, nodup_cons] at hnodup
    refine ⟨hnodup.2, ?_, ?_, ?_⟩ <;> grind
  | dropStop hhand hplacing hloose hstops =>
    rename_i stop before after
    have hsub : Sublist (s.orders ++ (before ++ after)) (s.orders ++ s.stops) := by
      rw [hstops]
      exact .append (.refl _) (.append (.refl _) (sublist_cons_self _ _))
    refine ⟨hnodup.sublist (hsub.map _), ?_, ?_, ?_⟩ <;> grind
  | cancel symbol id ok _ hhand hplacing hloose =>
    rw [Life.cancel]
    split_ifs
    · exact hs
    · exact hs.congr rfl rfl rfl rfl rfl le_rfl
    · have hsub : Sublist (s.orders ++ s.stops.filter fun o => o.orderId ≠ id)
          (s.orders ++ s.stops) := .append (.refl _) filter_sublist
      refine ⟨hnodup.sublist (hsub.map _), ?_, ?_, ?_⟩ <;> grind [setStatus]
    · exact hs
  | clear hhand => refine ⟨nodup_nil, ?_, ?_, ?_⟩ <;> grind
  | _ => exact hs.congr rfl rfl rfl rfl rfl le_rfl

theorem Run.tidy (h : Run b s as t) (hs : s.Tidy) : t.Tidy := by
  induction h with
  | nil => exact hs
  | cons hstep _ ih => exact ih (hstep.tidy hs)

/-- **No order waits twice**, in any run. -/
theorem waiting_nodup (config : EngineConfig) (ops : List Op) :
    (final step (init config) ops).waiting.Nodup := by
  obtain ⟨new, -, hrun⟩ := (reaches_run (init config) ops _ (final_mem_states _ _)).run
  exact (hrun.tidy ⟨nodup_nil, nofun, nofun, .inl rfl⟩).nodup

/-! ## What the record says of the statuses -/

def status (s : Life) (id : Nat) : OrderStatus := s.tracker.getOrderStatus id

theorem status_setStatus (s : Life) (id x : Nat) (st : OrderStatus) :
    (s.setStatus id st).status x = if x = id then st else s.status x :=
  s.tracker.getOrderStatus_setStatus id x st

/-- The order is as new: pending, and not processed. -/
def Untouched (record : List Act) (s : Life) (id : Nat) : Prop :=
  ¬ Processed record id ∧ s.status id = .pending

/-- Ids to be given and orders that wait are untouched, apart from a stop that a halt left in its
list after it had been triggered. No order with a final status is in play. -/
structure Truthful (record : List Act) (s : Life) : Prop where
  later : ∀ id, s.nextOrderId ≤ id → s.Untouched record id
  orders : ∀ o ∈ s.orders, s.Untouched record o.orderId
  hand : ∀ o, s.hand = some o → s.Untouched record o.orderId
  stops : ∀ o ∈ s.stops, s.halted = false → s.loose ≠ some o.orderId → ¬ Processed record o.orderId
  pending : ∀ o ∈ s.stops, ¬ Processed record o.orderId → s.status o.orderId = .pending
  placing : ∀ o, s.placing = some o →
    Submitted record o.orderId ∨ (s.status o.orderId).isFinal = false
  final : ∀ id, (s.status id).isFinal = true → ¬ InPlay s.config record id

section

variable (h : Truthful record s) {act c : Act}
include h

/-- An act for the orders `K`: of the others the record and the tracker say what they said. -/
theorem Truthful.frame {K : Nat → Prop} (hact : ∀ id, act.processes id = true → K id)
    (hconfig : t.config = s.config) (hhalted : t.halted = s.halted) (hloose : t.loose = s.loose)
    (hlater : ∀ id, t.nextOrderId ≤ id → s.nextOrderId ≤ id ∧ ¬ K id)
    (hstatus : ∀ id, ¬ K id → t.status id = s.status id)
    (horders : ∀ o ∈ t.orders, o ∈ s.orders ∧ ¬ K o.orderId)
    (hhand : ∀ o, t.hand = some o → s.hand = some o ∧ ¬ K o.orderId ∨
      t.Untouched (record ++ [act]) o.orderId)
    (hstops : ∀ o ∈ t.stops, o ∈ s.stops ∧ (K o.orderId → Processed (record ++ [act]) o.orderId ∧
      (act.processes o.orderId = true → s.loose = some o.orderId)))
    (hplacing : ∀ o, t.placing = some o → s.placing = some o ∧ ¬ K o.orderId ∨
      Submitted (record ++ [act]) o.orderId ∨ (t.status o.orderId).isFinal = false)
    (hfinal : ∀ id, K id → (t.status id).isFinal = true → ¬ InPlay s.config (record ++ [act]) id) :
    Truthful (record ++ [act]) t := by
  have hother : ∀ id, ¬ K id → s.Untouched record id → t.Untouched (record ++ [act]) id :=
    fun id hid hold => ⟨fun hp => (processed_snoc.1 hp).elim hold.1 fun hnew => hid (hact id hnew),
      (hstatus id hid).trans hold.2⟩
  refine ⟨fun id hid => ?_, fun o ho => ?_, fun o ho => ?_, fun o ho hflag hne hp => ?_,
    fun o ho hnew => ?_, fun o ho => ?_, fun id hid hplay => ?_⟩
  · exact hother id (hlater id hid).2 (h.later id (hlater id hid).1)
  · exact hother _ (horders o ho).2 (h.orders o (horders o ho).1)
  · rcases hhand o ho with hold | hnew
    · exact hother _ hold.2 (h.hand o hold.1)
    · exact hnew
  · obtain ⟨hmem, hown⟩ := hstops o ho
    rw [hhalted] at hflag
    rw [hloose] at hne
    rcases processed_snoc.1 hp with hold | hnew
    · exact h.stops o hmem hflag hne hold
    · exact hne ((hown (hact _ hnew)).2 hnew)
  · obtain ⟨hmem, hown⟩ := hstops o ho
    rw [hstatus _ fun hk => hnew (hown hk).1]
    exact h.pending o hmem fun hold => hnew (processed_snoc.2 (.inl hold))
  · rcases hplacing o ho with ⟨hold, hid⟩ | hnew
    · rw [hstatus _ hid]
      exact (h.placing o hold).imp_left fun hsub => submitted_snoc.2 (.inl hsub)
    · exact hnew
  · rw [hconfig] at hplay
    by_cases hk : K id
    · exact hfinal id hk hid hplay
    · obtain ⟨hsub, hends, -⟩ := inPlay_snoc.1 hplay
      rw [hstatus id hk] at hid
      exact h.final id hid ⟨hsub.resolve_right fun hnew => hk (hact id
        (Act.processes_of_submits hnew)), hends⟩

/-- An act that processes nothing. -/
theorem Truthful.quiet (hact : ∀ id, c.processes id = false) : Truthful (record ++ [c]) s :=
  h.frame (fun id hid => Bool.false_ne_true ((hact id).symm.trans hid)) rfl rfl rfl
    (fun _ hid => ⟨hid, not_false⟩) (fun _ _ => rfl) (fun _ ho => ⟨ho, not_false⟩)
    (fun _ ho => .inl ⟨ho, not_false⟩) (fun _ ho => ⟨ho, False.elim⟩)
    (fun _ ho => .inl ⟨ho, not_false⟩) fun _ => False.elim

/-- A write for an order that was submitted. -/
theorem Truthful.mark (hact : ∀ id, c.processes id = false) (hid : Submitted record id)
    (hst : st.isFinal = true → ¬ InPlay s.config (record ++ [c]) id) :
    Truthful (record ++ [c]) (s.setStatus id st) := by
  have hnone : ∀ x, c.processes x = true → False :=
    fun x hx => Bool.false_ne_true ((hact x).symm.trans hx)
  refine h.frame (K := (· = id)) (fun x hx => (hnone x hx).elim) rfl rfl rfl (fun x hx => ⟨hx, ?_⟩)
    (fun x hx => ?_) (fun o ho => ⟨ho, ?_⟩) (fun o ho => .inl ⟨ho, ?_⟩)
    (fun o ho => ⟨ho, fun heq => ⟨?_, fun hp => (hnone _ hp).elim⟩⟩) (fun o ho => ?_)
    fun x hx hfinal => ?_
  · rintro rfl
    exact (h.later x hx).1 hid.processed
  · rw [status_setStatus, if_neg hx]
  · rintro rfl
    exact (h.orders o ho).1 hid.processed
  · rintro rfl
    exact (h.hand o ho).1 hid.processed
  · exact heq ▸ processed_snoc.2 (.inl hid.processed)
  · by_cases heq : o.orderId = id
    · exact .inr (.inl (submitted_snoc.2 (.inl (heq ▸ hid))))
    · exact .inl ⟨ho, heq⟩
  · rw [status_setStatus, if_pos hx] at hfinal
    exact hx ▸ hst hfinal

/-- The order at hand is processed: it is rejected, or gets the status it is submitted with. -/
theorem Truthful.process (htidy : s.Tidy) (hhand : s.hand = some o)
    (hact : ∀ id, act.processes id = true ↔ id = o.orderId) {placing : Option OrderEvent}
    (hplacing : ∀ x, placing = some x → x = o)
    (hst : st.isFinal = true → placing = none ∧ act.ends s.config o.orderId = true) :
    Truthful (record ++ [act]) { s.setStatus o.orderId st with
      hand := none, placing := placing } := by
  obtain ⟨hthere, hloose⟩ := htidy.apart o (.inl hhand)
  have hgiven := htidy.given o (mem_held.2 (.inr (.inr (.inl hhand))))
  have hset : (s.setStatus o.orderId st).status o.orderId = st :=
    by rw [status_setStatus, if_pos rfl]
  refine h.frame (fun id => (hact id).1) rfl rfl rfl
    (fun id hid => ⟨hid, (hgiven.trans_le hid).ne'⟩) (fun id hid => ?_)
    (fun x hx => ⟨hx, hthere x hx⟩)
    (fun x hx => absurd hx.symm (Option.some_ne_none x))
    (fun x hx => ⟨hx, fun heq => ⟨?_, fun _ => ?_⟩⟩) (fun x hx => .inr (.inr ?_)) ?_
  · exact (status_setStatus s _ id st).trans (if_neg hid)
  · exact processed_snoc.2 (.inr ((hact _).2 heq))
  · exact heq ▸ hloose x hx heq
  · obtain rfl := hplacing x hx
    refine Bool.eq_false_iff.2 fun hfinal => Option.some_ne_none x (hx.symm.trans (hst ?_).1)
    exact hset ▸ hfinal
  · rintro _ rfl hfinal hplay
    have hends := (inPlay_snoc.1 hplay).2.2
    rw [(hst (hset ▸ hfinal)).2] at hends
    cases hends

/-- An id is given away. -/
theorem Truthful.give (htidy : s.Tidy) (hst : st.isFinal = false)
    (hact : ∀ id, act.processes id = true → id = s.nextOrderId)
    (hhand : ∀ o, hand = some o → s.hand = some o ∨
      o.orderId = s.nextOrderId ∧ st = .pending ∧ act.processes o.orderId = false) :
    Truthful (record ++ [act])
      { s.setStatus s.nextOrderId st with nextOrderId := s.nextOrderId + 1, hand := hand } := by
  have hgiven : ∀ o ∈ s.held, o.orderId ≠ s.nextOrderId := fun o ho => (htidy.given o ho).ne
  simp only [mem_held] at hgiven
  have hset : (s.setStatus s.nextOrderId st).status s.nextOrderId = st := by
    rw [status_setStatus, if_pos rfl]
  refine h.frame hact rfl rfl rfl
    (fun id hid => ⟨(Nat.le_succ _).trans hid, (Nat.lt_of_succ_le hid).ne'⟩) (fun id hid => ?_)
    (fun x hx => ⟨hx, hgiven x (.inl hx)⟩) (fun x hx => ?_)
    (fun x hx => ⟨hx, fun heq => absurd heq (hgiven x (.inr (.inl hx)))⟩)
    (fun x hx => .inl ⟨hx, hgiven x (.inr (.inr (.inr hx)))⟩) ?_
  · exact (status_setStatus s _ id st).trans (if_neg hid)
  · rcases hhand x hx with hold | ⟨hid, hpending, hnew⟩
    · exact .inl ⟨hold, hgiven x (.inr (.inr (.inl hold)))⟩
    · refine .inr ⟨fun hp => ?_, ?_⟩
      · rw [processed_snoc, hnew, hid] at hp
        exact hp.elim (h.later _ le_rfl).1 Bool.false_ne_true
      · rw [hid]
        exact hset.trans hpending
  · rintro _ rfl hfinal
    exact absurd ((congrArg isFinal hset).symm.trans hfinal) (by rw [hst]; nofun)

/-- The order that has passed its checks goes to an adapter. -/
theorem Truthful.submit (htidy : s.Tidy) (hplacing : s.placing = some o) :
    Truthful (record ++ [.submit o]) s := by
  obtain ⟨hthere, hloose⟩ := htidy.apart o (.inr hplacing)
  have hgiven := htidy.given o (mem_held.2 (.inr (.inr (.inr hplacing))))
  have hnone : s.hand = none := htidy.single.resolve_right (by rw [hplacing]; nofun)
  refine h.frame (fun id hid => (of_decide_eq_true hid).symm) rfl rfl rfl
    (fun id hid => ⟨hid, (hgiven.trans_le hid).ne'⟩) (fun _ _ => rfl)
    (fun x hx => ⟨hx, hthere x hx⟩)
    (fun x hx => ?_) (fun x hx => ⟨hx, fun heq => ⟨?_, fun _ => ?_⟩⟩) (fun x hx => ?_) ?_
  · rw [hnone] at hx
    cases hx
  · exact processed_snoc.2 (.inr (decide_eq_true heq.symm))
  · exact heq ▸ hloose x hx heq
  · rw [hplacing] at hx
    cases hx
    exact .inr (.inl (submitted_snoc.2 (.inr (decide_eq_true rfl))))
  · rintro _ rfl hfinal hplay
    -- A status that is final by now was not written before the order went out.
    have hsub := (h.placing o hplacing).resolve_right (by rw [hfinal]; nofun)
    exact h.final _ hfinal ⟨hsub, (inPlay_snoc.1 hplay).2.1⟩

/-- A stop that was not processed is cancelled in its list. -/
theorem Truthful.withdraw (htidy : s.Tidy) (hact : ∀ id, c.processes id = false)
    (hhand : s.hand = none)
    (hplacing : s.placing = none) {stop : OrderEvent} (hstop : stop ∈ s.stops)
    (hid : stop.orderId = id) (hnew : ¬ Processed record id) :
    Truthful (record ++ [c])
      { s.setStatus id .cancelled with stops := s.stops.filter fun o => o.orderId ≠ id } := by
  have hgiven := htidy.given stop (mem_held.2 (.inr (.inl hstop)))
  have hdisjoint := (nodup_append.1 (map_append ▸ htidy.nodup)).2.2
  have hnone : ∀ {x : Option OrderEvent} {o}, x = none → x = some o → False := fun hx ho => by
    rw [ho] at hx
    cases hx
  refine h.frame (fun x hx => absurd hx (by simp [hact])) rfl rfl rfl
    (fun x hx => ⟨hx, ((hid ▸ hgiven).trans_le hx).ne'⟩) (fun x hx => ?_) (fun o ho => ⟨ho, ?_⟩)
    (fun o ho => (hnone hhand ho).elim) (fun o ho => ?_) (fun o ho => (hnone hplacing ho).elim) ?_
  · exact (status_setStatus s id x .cancelled).trans (if_neg hx)
  · exact hid ▸ hdisjoint _ (mem_map_of_mem ho) _ (mem_map_of_mem hstop)
  · obtain ⟨ho, hne⟩ := mem_filter.1 ho
    exact ⟨ho, fun heq => absurd heq (of_decide_eq_true hne)⟩
  · rintro _ rfl - hplay
    exact hnew ((processed_snoc.1 hplay.1.processed).resolve_right (by simp [hact]))

/-- Fills that wait to be applied do not matter. -/
theorem Truthful.rebatch (fills : List FillEvent) : Truthful record { s with batch := fills } :=
  ⟨h.later, h.orders, h.hand, h.stops, h.pending, h.placing, h.final⟩

end

/-- A step without an act moves orders. -/
theorem Step.truthful_move (h : Step true s none t) (htidy : s.Tidy) (hs : Truthful record s) :
    Truthful record t := by
  cases h with
  | takeIds n =>
    exact { hs with later := fun id hid => hs.later id ((Nat.le_add_right _ n).trans hid) }
  | revise hhand hkey =>
    refine { hs with hand := fun x hx => ?_ }
    cases hx
    rw [OrderEvent.orderId_eq_of_key hkey]
    exact hs.hand _ hhand
  | sent => exact { hs with placing := fun _ ho => nomatch ho }
  | defer hhand hloose horders =>
    have hown := hs.hand _ hhand
    refine { hs with orders := fun x hx => ?_, hand := fun _ ho => nomatch ho }
    rcases mem_cons.1 (perm_middle.mem_iff.1 hx) with rfl | hx
    · exact hown
    · exact hs.orders x (horders ▸ hx)
  | holdStop hhand hloose =>
    have hown := hs.hand _ hhand
    exact { hs with
      stops := forall_mem_append.2 ⟨hs.stops, forall_mem_singleton.2 fun _ _ => hown.1⟩
      pending := forall_mem_append.2 ⟨hs.pending, forall_mem_singleton.2 fun _ => hown.2⟩
      hand := fun _ ho => nomatch ho }
  | takeOrder hhand hplacing horders =>
    have horder := hs.orders
    rw [horders] at horder
    refine { hs with orders := fun x hx => horder x (mem_cons_of_mem _ hx), hand := fun x hx => ?_ }
    cases hx
    exact horder _ mem_cons_self
  | takeStop hhand hplacing hloose hflag hstop hkey =>
    refine { hs with hand := fun x hx => ?_, stops := fun x hx hflag _ => ?_ }
    · cases hx
      rw [OrderEvent.orderId_eq_of_key hkey]
      have hnew := hs.stops _ hstop hflag (by rw [hloose]; nofun)
      exact ⟨hnew, hs.pending _ hstop hnew⟩
    · exact hs.stops x hx hflag (by rw [hloose]; nofun)
  | dropStop hhand hplacing hloose hstops =>
    rename_i stop before after
    have hmem : ∀ x ∈ before ++ after, x ∈ s.stops := fun x hx => by
      rw [hstops]
      exact perm_middle.mem_iff.2 (mem_cons_of_mem _ hx)
    have hnodup := (nodup_append.1 (map_append ▸ htidy.nodup)).2.1
    rw [hstops, map_append, map_cons, nodup_middle, ← map_append] at hnodup
    refine { hs with
      stops := fun x hx hflag _ => hs.stops x (hmem x hx) hflag fun heq => ?_
      pending := fun x hx => hs.pending x (hmem x hx) }
    rw [hloose] at heq
    exact (nodup_cons.1 hnodup).1 (Option.some.inj heq ▸ mem_map_of_mem hx)
  | keepStop hhand hplacing hflag =>
    refine { hs with stops := fun x _ hoff => ?_ }
    rw [show s.halted = false from hoff] at hflag
    cases hflag
  | lose _ => exact { hs with hand := fun _ ho => nomatch ho }
  | clear hhand =>
    exact { hs with
      orders := fun _ ho => absurd ho not_mem_nil
      stops := fun _ ho => absurd ho not_mem_nil
      pending := fun _ ho => absurd ho not_mem_nil }

/-- An order is checked or rejected, or an id is given away. -/
theorem Step.truthful_check {verdict : RiskAction} (htidy : s.Tidy) (hs : Truthful record s)
    (hhand : s.hand = some o) : Truthful (record ++ [.check o verdict]) (s.judge o verdict) := by
  have hplaced : (s.config.placedStatus o.symbol).isFinal = false := by
    rw [EngineConfig.placedStatus]
    split <;> rfl
  cases verdict with
  | reject | halt => exact hs.quiet fun _ => rfl
  | pass | unwind =>
    refine hs.process htidy hhand (fun id => ?_) (fun x hx => ?_) fun hfinal => ?_
    · rw [Act.processes, decide_eq_true_iff, eq_comm]
    · exact (Option.some.inj hx).symm
    · rw [hplaced] at hfinal
      cases hfinal

theorem Step.truthful_act {act : Act} (h : Step true s (some act) t)
    (htidy : s.Tidy) (hs : Truthful record s) (hact : Reported s.config stops record act) :
    Truthful (record ++ [act]) t := by
  cases h with
  | idle hidle => exact hs.quiet fun id => by cases act <;> first | rfl | cases hidle
  | halt =>
    have hquiet := hs.quiet (c := .triggerHalt) fun _ => rfl
    exact { hquiet with stops := fun _ _ hoff => by cases hoff }
  | accept close hhand hplacing hid =>
    rw [hid]
    refine hs.give htidy rfl (fun _ hp => by cases hp) fun x hx => .inr ?_
    cases hx
    exact ⟨hid, rfl, rfl⟩
  | check verdict hhand => exact Step.truthful_check htidy hs hhand
  | reject why hhand hkey =>
    have hid := OrderEvent.orderId_eq_of_key hkey
    have hnone : s.placing = none := htidy.single.resolve_left (by rw [hhand]; nofun)
    refine hs.process htidy hhand (fun id => ?_) (fun x hx => ?_) fun _ => ⟨hnone, ?_⟩
    · rw [Act.processes, decide_eq_true_iff, eq_comm, hid]
    · rw [show s.placing = some x from hx] at hnone
      cases hnone
    · rw [Act.ends, decide_eq_true_iff, hid]
  | submit hplacing _ => exact hs.submit htidy hplacing
  | unwind hid _ =>
    rw [hid]
    refine hs.give htidy rfl (fun id hp => ?_) fun x hx => .inl hx
    rw [Act.processes, decide_eq_true_iff, hid] at hp
    exact hp.symm
  | poll fills _ => exact (hs.quiet fun _ => rfl).rebatch _
  | apply hbatch hbare =>
    rename_i f g rest
    have hplay : InPlay s.config record f.orderId := hact
    refine (hs.mark (fun _ => rfl) hplay.1 fun hfinal hstill => ?_).rebatch rest
    have hends := (inPlay_snoc.1 hstill).2.2
    simp only [Act.ends, decide_true, Bool.true_and, Bool.not_eq_false'] at hends
    rw [if_pos hends] at hfinal
    cases hfinal
  | answer r =>
    have hsub : Submitted record r.engineId := hact
    rcases s.tracker.answer_cases r with hsame | ⟨st, hset, -, hst⟩
    · rw [hsame]
      exact hs.quiet fun _ => rfl
    · rw [hset]
      refine hs.mark (fun _ => rfl) hsub fun hfinal hstill => ?_
      have hends := (inPlay_snoc.1 hstill).2.2
      simp [Act.ends, hst hfinal] at hends

/-! ## The tracker is what the acts have written -/

/-- An engine to which the acts have been written has the tracker of the life. -/
structure Tracks (x : Engine) (s : Life) : Prop where
  config : x.config = s.config
  tracker : x.orderTracker = s.tracker
  next : x.nextOrderId ≤ s.nextOrderId
  given : ∀ o ∈ s.held, o.orderId < x.nextOrderId

variable {x : Engine}

theorem Tracks.move (h : Tracks x s) (hstep : Step true s none t) : Tracks x t := by
  have hgiven := h.given
  have hnext := h.next
  cases hstep with
  | takeIds n => exact ⟨h.config, h.tracker, hnext.trans (Nat.le_add_right _ n), h.given⟩
  | revise hhand hkey | takeStop hhand _ _ _ hstop hkey =>
    have hid := OrderEvent.orderId_eq_of_key hkey
    exact ⟨h.config, h.tracker, hnext, by grind⟩
  | _ =>
    exact ⟨h.config, h.tracker, hnext, by grind⟩

/-- The same tracker, and no order that was not held. -/
theorem Tracks.same (h : Tracks x s) (hconfig : t.config = s.config)
    (htracker : t.tracker = s.tracker)
    (hnext : t.nextOrderId = s.nextOrderId) (hheld : t.held ⊆ s.held) : Tracks x t :=
  ⟨hconfig ▸ h.config, htracker ▸ h.tracker, hnext ▸ h.next, fun o ho => h.given o (hheld ho)⟩

/-- A status that the acts write and the life sets. -/
theorem Tracks.setStatus (h : Tracks x s) (id : Nat) (st : OrderStatus) :
    Tracks (x.setStatus id st) (s.setStatus id st) :=
  ⟨h.config, congrArg (fun tr => tr.setStatus id st) h.tracker, h.next, h.given⟩

theorem Tracks.give (h : Tracks x s) (hid : id = s.nextOrderId) (st : OrderStatus)
    (hhand : ∀ o, hand = some o → s.hand = some o ∨ o.orderId = id) :
    Tracks { x.setStatus id st with nextOrderId := id + 1 }
      { s.setStatus id st with nextOrderId := s.nextOrderId + 1, hand := hand } := by
  have hgiven := h.given
  have hnext := h.next
  exact ⟨h.config, (h.setStatus id st).tracker, by rw [hid], by grind [Life.setStatus]⟩

theorem Tracks.act (h : Tracks x s) {act : Act} (hstep : Step true s (some act) t) :
    Tracks (x.write act) t := by
  cases hstep with
  | idle hidle =>
    rw [(x.write_of_isIdle hidle).1]
    exact h
  | halt | poll fills _ => exact h.same rfl rfl rfl (Subset.refl _)
  | accept close hhand hplacing hid =>
    exact h.give hid .pending fun o ho => .inr (by cases ho; rfl)
  | check verdict hhand =>
    rename_i o
    cases verdict with
    | reject | halt => exact h
    | pass | unwind =>
      have hset := h.setStatus o.orderId (s.config.placedStatus o.symbol)
      rw [← h.config] at hset
      refine hset.same (by rw [judge, h.config]) (by rw [judge, h.config]) rfl fun x hx => ?_
      grind [judge, Life.setStatus]
  | reject why hhand hkey =>
    rw [write, OrderEvent.orderId_eq_of_key hkey]
    refine (h.setStatus _ .rejected).same rfl rfl rfl fun x hx => ?_
    grind
  | submit hplacing _ =>
    rw [write, if_pos (h.given _ (mem_held.2 (.inr (.inr (.inr hplacing)))))]
    exact h
  | unwind hid _ =>
    rw [write, if_neg (not_lt.2 (hid ▸ h.next))]
    exact h.give hid .open fun o ho => .inl ho
  | apply hbatch hbare =>
    rename_i f g rest
    exact (h.setStatus f.orderId (if f.isPartial then .partiallyFilled else .filled)).same
      rfl rfl rfl (Subset.refl _)
  | answer r =>
    exact ⟨h.config, congrArg (fun tr => tr.answer r) h.tracker, h.next, h.given⟩

/-- A write over a status that is not final. -/
theorem keepsFinal_setStatus {act : Act} {n : Nat}
    (hwrite : x.write act = { x.setStatus id st with nextOrderId := n })
    (hid : (x.status id).isFinal = false)
    (hfill : act.fill?.all (fun f => f.orderId = id) = true) : x.KeepsFinal act := by
  refine ⟨fun y hy => ?_, fun f hf => ?_⟩
  · have hne : y ≠ id := by
      rintro rfl
      rw [hid] at hy
      cases hy
    rw [hwrite]
    exact (x.orderTracker.getOrderStatus_setStatus id y st).trans (if_neg hne)
  · rw [hf] at hfill
    rwa [show f.orderId = id from of_decide_eq_true hfill]

theorem keepsFinal_of_write_eq {act : Act} (hwrite : x.write act = x)
    (hfill : act.fill? = none) : x.KeepsFinal act := by
  refine ⟨fun _ _ => by rw [hwrite], fun f hf => ?_⟩
  rw [hf] at hfill
  cases hfill

theorem Untouched.not_final (htracks : Tracks x s) (h : s.Untouched record id) :
    (x.status id).isFinal = false := by
  rw [Engine.status, htracks.tracker]
  exact congrArg isFinal h.2

/-- **An act writes only over statuses that are not final.** -/
theorem Tracks.keepsFinal (h : Tracks x s) {act : Act} (hstep : Step true s (some act) t)
    (hs : Truthful record s) (hact : Reported s.config stops record act) : x.KeepsFinal act := by
  cases hstep with
  | idle hidle =>
    exact keepsFinal_of_write_eq (x.write_of_isIdle hidle).1 (x.write_of_isIdle hidle).2
  | halt | poll fills _ => exact keepsFinal_of_write_eq rfl rfl
  | accept close hhand hplacing hid =>
    refine keepsFinal_setStatus rfl ?_ rfl
    exact (hs.later _ hid.ge).not_final h
  | check verdict hhand =>
    cases verdict with
    | reject | halt => exact keepsFinal_of_write_eq rfl rfl
    | pass | unwind => exact keepsFinal_setStatus rfl ((hs.hand _ hhand).not_final h) rfl
  | reject why hhand hkey =>
    refine keepsFinal_setStatus rfl ?_ rfl
    rw [OrderEvent.orderId_eq_of_key hkey]
    exact (hs.hand _ hhand).not_final h
  | submit hplacing _ =>
    refine keepsFinal_of_write_eq ?_ rfl
    rw [write, if_pos (h.given _ (mem_held.2 (.inr (.inr (.inr hplacing)))))]
  | unwind hid _ =>
    refine keepsFinal_setStatus (if_neg (not_lt.2 (hid ▸ h.next))) ?_ rfl
    exact (hs.later _ hid.ge).not_final h
  | apply hbatch hbare =>
    rename_i f g rest
    have hplay : InPlay s.config record f.orderId := hact
    refine keepsFinal_setStatus rfl (Bool.eq_false_iff.2 fun hfinal => ?_) (decide_eq_true rfl)
    rw [Engine.status, h.tracker] at hfinal
    exact hs.final _ hfinal hplay
  | answer r =>
    rcases x.orderTracker.answer_cases r with hsame | ⟨st, hset, hopen, -⟩
    · refine keepsFinal_of_write_eq ?_ rfl
      rw [write, hsame]
    · have hwrite : x.write (.answer r) =
          { x.setStatus r.engineId st with nextOrderId := x.nextOrderId } := by
        rw [write, hset]
        rfl
      exact keepsFinal_setStatus hwrite hopen rfl

/-! ## Runs -/

structure Sound (record : List Act) (x : Engine) (s : Life) : Prop where
  tidy : s.Tidy
  truthful : Truthful record s
  tracks : Tracks x s

theorem Step.config (h : Step b s a t) : t.config = s.config := by
  cases h with
  | check verdict _ => cases verdict <;> rfl
  | cancel symbol id ok _ _ _ _ =>
    rw [Life.cancel]
    split_ifs <;> rfl
  | _ => rfl

/-- A run of inner steps on reports that fit the record. -/
theorem Run.sound (hrun : Run true s as t) (h : Sound record x s)
    (has : Along recording (Reported s.config stops) record as) :
    Sound (record ++ as) (Machine.final writing x as) t ∧
      Along writing KeepsFinal x as := by
  induction hrun generalizing record x with
  | nil => exact ⟨by rw [append_nil]; exact h, trivial⟩
  | @cons s t u a as hstep _ ih =>
    have htidy := hstep.tidy h.tidy
    rw [hstep.config] at ih
    cases a with
    | none => exact ih ⟨htidy, hstep.truthful_move h.tidy h.truthful, h.tracks.move hstep⟩ has
    | some act =>
      have hnext : Sound (record ++ [act]) (x.write act) t :=
        ⟨htidy, hstep.truthful_act h.tidy h.truthful has.1, h.tracks.act hstep⟩
      obtain ⟨hsound, halong⟩ := ih hnext has.2
      rw [append_assoc] at hsound
      exact ⟨hsound, h.tracks.keepsFinal hstep h.truthful has.1, halong⟩

theorem Sound.cancel (h : Sound record x s) (symbol : String) (id : Nat) (ok : Bool)
    (hstops : x.pendingStops = s.stops) (hhand : s.hand = none) (hplacing : s.placing = none)
    (hstep : Step false s (some (.cancel symbol id ok)) (s.cancel symbol id ok))
    (hact : Reported s.config s.stops record (.cancel symbol id ok)) :
    Sound (record ++ [.cancel symbol id ok]) (x.write (.cancel symbol id ok))
      (s.cancel symbol id ok) ∧
      x.KeepsFinal (.cancel symbol id ok) := by
  have hquiet := h.truthful.quiet (c := .cancel symbol id ok) fun _ => rfl
  have htidy := hstep.tidy h.tidy
  by_cases hasync : ok = true ∧ s.config.asyncSubmit symbol = true
  · have hwrite : x.write (.cancel symbol id ok) = x := if_pos (h.tracks.config ▸ hasync)
    rw [Life.cancel, if_pos hasync] at htidy ⊢
    rw [hwrite]
    exact ⟨⟨htidy, hquiet, h.tracks⟩, keepsFinal_of_write_eq hwrite rfl⟩
  · have hwrite : x.write (.cancel symbol id ok) =
        if ok = true ∨ x.pendingStops.any (fun o => o.orderId = id) = true then
          x.setStatus id .cancelled
        else x := if_neg (h.tracks.config ▸ hasync)
    rw [Life.cancel, if_neg hasync] at htidy ⊢
    cases ok with
    | true =>
      have hplay : InPlay s.config record id := hact.1 rfl (by simpa using hasync)
      rw [if_pos (.inl rfl)] at hwrite
      rw [if_pos rfl] at htidy ⊢
      rw [hwrite]
      refine ⟨⟨htidy, h.truthful.mark (fun _ => rfl) hplay.1 fun _ hstill => ?_,
        h.tracks.setStatus id .cancelled⟩, keepsFinal_setStatus hwrite ?_ rfl⟩
      · have hends := (inPlay_snoc.1 hstill).2.2
        simp only [Act.ends, decide_true, Bool.true_and, Bool.not_eq_false'] at hends
        exact hasync ⟨rfl, hends⟩
      · refine Bool.eq_false_iff.2 fun hfinal => ?_
        rw [Engine.status, h.tracks.tracker] at hfinal
        exact h.truthful.final id hfinal hplay
    | false =>
      rw [if_neg Bool.false_ne_true] at htidy ⊢
      rw [hstops] at hwrite
      by_cases hheld : s.stops.any (fun o => o.orderId = id) = true
      · obtain ⟨stop, hstop, hid⟩ := any_eq_true.1 hheld
        have hid : stop.orderId = id := of_decide_eq_true hid
        have hnew : ¬ Processed record id := hact.2 rfl stop hstop hid
        have hpending : s.status id = .pending := hid ▸ h.truthful.pending stop hstop (hid ▸ hnew)
        rw [if_pos (.inr hheld)] at hwrite
        rw [if_pos hheld] at htidy ⊢
        rw [hwrite]
        refine ⟨⟨htidy, ?_, ?_⟩, keepsFinal_setStatus hwrite ?_ rfl⟩
        · exact h.truthful.withdraw h.tidy (fun _ => rfl) hhand hplacing hstop hid hnew
        · refine (h.tracks.setStatus id .cancelled).same rfl rfl rfl fun o ho => ?_
          simp only [mem_held, setStatus, mem_filter] at ho ⊢
          exact ho.imp_right (Or.imp_left And.left)
        · rw [Engine.status, h.tracks.tracker]
          exact congrArg isFinal hpending
      · rw [if_neg (by simpa using hheld)] at hwrite
        rw [if_neg hheld] at htidy ⊢
        rw [hwrite]
        exact ⟨⟨htidy, hquiet, h.tracks⟩, keepsFinal_of_write_eq hwrite rfl⟩

end Life

namespace Engine

variable {e : Engine} {op : Op}

/-- The worker threads start, with the halt flag down from then on. -/
def Op.restarts : Op → Bool
  | .startWorkers => true
  | _ => false

/-- What the adapters report in the operation fits the record. The engine does not start again with
a stop that has been processed before a halt. -/
def Honest (e : Engine) (op : Op) : Prop :=
  Along recording (Reported e.config e.pendingStops) e.acts (step e op).1 ∧
    (op.restarts = true → ∀ o ∈ e.pendingStops, ¬ Processed e.acts o.orderId)

instance (e : Engine) (op : Op) : Decidable (Honest e op) :=
  inferInstanceAs (Decidable (Along recording (Reported e.config e.pendingStops) e.acts
    (step e op).1 ∧ (op.restarts = true → ∀ o ∈ e.pendingStops, ¬ Processed e.acts o.orderId)))

/-- The acts of the operation leave final statuses alone, and what they write is the tracker. -/
def Settled (e : Engine) (op : Op) : Prop :=
  Along writing KeepsFinal e (step e op).1 ∧
    (e.perform op).orderTracker = (final writing e (step e op).1).orderTracker

/-- Between operations. -/
def Sound (e : Engine) : Prop := Life.Sound e.acts e (e.life e.rest)

theorem sound_init (config : EngineConfig) : (init config).Sound := by
  have hheld :
      ∀ o ∈ ((init config).life (init config).rest).held, o.orderId < (init config).nextOrderId :=
    fun o ho => absurd ho not_mem_nil
  have hpending : ∀ id, ((init config).life (init config).rest).status id = .pending := fun id => by
    show (OrderTracker.init).getOrderStatus id = .pending
    simp [OrderTracker.init, OrderTracker.getOrderStatus]
  have huntouched : ∀ id, ((init config).life (init config).rest).Untouched [] id := fun id =>
    ⟨Bool.false_ne_true, hpending id⟩
  refine ⟨⟨nodup_nil, hheld, ?_, .inl rfl⟩, ⟨fun id _ => huntouched id, fun o _ => huntouched _,
    fun o _ => huntouched _, ?_, ?_, ?_, ?_⟩, rfl, rfl, le_rfl, hheld⟩
  · rintro o (ho | ho) <;> cases ho
  · exact fun o ho => absurd ho not_mem_nil
  · exact fun o ho => absurd ho not_mem_nil
  · exact fun o ho => absurd ho.symm (Option.some_ne_none o)
  · intro id hid
    rw [hpending] at hid
    cases hid

/-- An engine that has written its acts is sound with its own tracker. -/
theorem sound_of_life {x : Engine} (h : Life.Sound e.acts x (e.life e.rest)) : e.Sound :=
  ⟨h.tidy, h.truthful, rfl, rfl, le_rfl, h.tidy.given⟩

theorem step_fst {new : List Act} (h : (e.perform op).acts = e.acts ++ new) :
    (step e op).1 = new := by
  rw [step, h, drop_left]

theorem final_recording (record as : List Act) : final recording record as = record ++ as := by
  induction as generalizing record with
  | nil => exact (append_nil record).symm
  | cons a as ih => exact (ih (record ++ [a])).trans (append_cons record a as).symm

theorem final_writing_pendingStops (e : Engine) (as : List Act) :
    (final writing e as).pendingStops = e.pendingStops := by
  induction as generalizing e with
  | nil => rfl
  | cons a as ih =>
    refine (ih (e.write a)).trans ?_
    cases a with
    | check o verdict => cases verdict <;> rfl
    | apply sink f => cases sink <;> rfl
    | submit o =>
      rw [write]
      split <;> rfl
    | cancel symbol id ok =>
      rw [write]
      split_ifs <;> rfl
    | _ => rfl

theorem Sound.inner (h : e.Sound) (hop : op.isInner = true) (hhonest : Honest e op) :
    (e.perform op).Sound ∧ Settled e op := by
  obtain ⟨new, hacts, hrun⟩ := (reaches_perform (b := true) (e := e) op fun _ => hop).run
  have hnew := step_fst hacts
  obtain ⟨hreported, -⟩ := hhonest
  rw [hnew] at hreported
  obtain ⟨hsound, hkeeps⟩ := hrun.sound h hreported
  rw [← hacts] at hsound
  refine ⟨sound_of_life hsound, ?_⟩
  rw [Settled, hnew]
  exact ⟨hkeeps, hsound.tracks.tracker.symm⟩

/-- The worker threads raise or lower the flag. -/
theorem Sound.setFlag (h : e.Sound) (flag : Bool)
    (hstops : flag = false → ∀ o ∈ e.pendingStops, ¬ Processed e.acts o.orderId) :
    ({ e with haltFlag := flag } : Engine).Sound :=
  ⟨h.tidy.congr rfl rfl rfl rfl rfl le_rfl,
    { h.truthful with stops := fun o ho hflag _ => hstops hflag o ho }, rfl, rfl, le_rfl,
    h.tidy.given⟩

theorem Sound.cancelOrder (h : e.Sound) (symbol : String) (id : Nat) (results : List SubmitResult)
    (ok dropped : Bool) (hhonest : Honest e (.cancelOrder symbol id results ok dropped)) :
    (e.cancelOrder symbol id results ok dropped).Sound ∧
      Settled e (.cancelOrder symbol id results ok dropped) := by
  set op : Op := .cancelOrder symbol id results ok dropped
  have hdrain := lives_drain (b := true) e.rest e results
  obtain ⟨e₂, hconfig, hacts₂, hlife, hend⟩ := cancelOrder_step e symbol id results ok dropped
  set e₁ := e.drainAsyncSubmitResults results
  obtain ⟨as, hacts₁, hrun₁⟩ := hdrain.atRest.run
  -- The event that is published last.
  have hlast : Reaches true e₂.rest e₂ (e.perform op).rest (e.perform op) := by
    rcases hend with hend | hend
    · rw [show e.perform op = e₂ from hend]
      exact (Lives.refl _ _).toReaches
    · rw [show e.perform op = e₂.publish dropped from hend]
      exact (lives_publish _ _ dropped).atRest
  obtain ⟨bs, hacts₃, hrun₃⟩ := hlast.run
  have hacts : (e.perform op).acts = e.acts ++ (as ++ .cancel symbol id ok :: bs) := by
    rw [hacts₃, hacts₂, hacts₁]
    simp
  have hnew := step_fst hacts
  obtain ⟨hreported, -⟩ := hhonest
  rw [hnew, along_append] at hreported
  obtain ⟨hreported₁, hreported₂, hreported₃⟩ := hreported
  have hrecord : final recording e.acts as = e₁.acts := by
    rw [hacts₁]
    exact final_recording e.acts as
  rw [hrecord] at hreported₂ hreported₃
  obtain ⟨hsound₁, hkeeps₁⟩ := hrun₁.sound h hreported₁
  rw [← hacts₁] at hsound₁
  have hstops : (final writing e as).pendingStops = e₁.pendingStops :=
    (final_writing_pendingStops e as).trans hdrain.stops.symm
  rw [← hdrain.config, ← hdrain.stops] at hreported₂ hreported₃
  obtain ⟨hsound₂, hkeeps₂⟩ :=
    hsound₁.cancel symbol id ok hstops rfl rfl (.cancel symbol id ok rfl rfl rfl rfl)
      hreported₂
  rw [← hlife, ← hacts₂] at hsound₂
  have hreported₃ : Along recording (Reported e₂.config e₁.pendingStops) e₂.acts bs := by
    rw [hconfig, hacts₂]
    exact hreported₃
  obtain ⟨hsound₃, hkeeps₃⟩ := hrun₃.sound hsound₂ hreported₃
  rw [← hacts₃] at hsound₃
  refine ⟨sound_of_life hsound₃, ?_⟩
  rw [Settled, hnew, along_append, final_append]
  exact ⟨⟨hkeeps₁, hkeeps₂, hkeeps₃⟩, hsound₃.tracks.tracker.symm⟩

theorem Sound.perform (h : e.Sound) (op : Op) (hhonest : Honest e op) :
    (e.perform op).Sound ∧ Settled e op := by
  have hsilent : ∀ op, (e.perform op).acts = e.acts → (e.perform op).orderTracker = e.orderTracker →
      Settled e op := fun op hacts htracker => by
    have hnew : (step e op).1 = [] := step_fst (by rw [hacts, append_nil])
    rw [Settled, hnew]
    exact ⟨trivial, htracker⟩
  cases hinner : op.isInner with
  | true => exact h.inner hinner hhonest
  | false =>
    cases op with
    | workerHalt => exact ⟨h.setFlag true nofun, hsilent .workerHalt rfl rfl⟩
    | startWorkers => exact ⟨h.setFlag false fun _ => hhonest.2 rfl, hsilent .startWorkers rfl rfl⟩
    | cancelOrder symbol id results ok dropped =>
      exact h.cancelOrder symbol id results ok dropped hhonest
    | _ => cases hinner

/-- What some acts write leaves a final status as it is. -/
theorem status_final_writing (h : Along writing KeepsFinal e as)
    (hid : (e.status id).isFinal = true) : (final writing e as).status id = e.status id := by
  induction as generalizing e with
  | nil => rfl
  | cons a as ih =>
    have hone := h.1.1 id hid
    exact (ih h.2 (hone ▸ hid)).trans hone

theorem Settled.status_eq (h : Settled e op) (hid : (e.status id).isFinal = true) :
    (e.perform op).status id = e.status id := by
  rw [status, h.2]
  exact status_final_writing h.1 hid

/-- **A final status stays**, and a fill is applied only to an order whose status is not final, in
every run in which the adapters report by the record. -/
theorem settled_of_honest (config : EngineConfig) (ops : List Op)
    (h : Along step Honest (init config) ops) :
    Along step Settled (init config) ops ∧
      ∀ before after, ops = before ++ after → ∀ id,
        ((final step (init config) before).status id).isFinal = true →
        (final step (init config) ops).status id = (final step (init config) before).status id := by
  refine ⟨along_of_invariant (I := Sound) (fun e op he hop => he.perform op hop)
    (sound_init config) h, ?_⟩
  rintro before after rfl id hid
  obtain ⟨hbefore, hafter⟩ := (along_append _ _ _).1 h
  set e := final step (init config) before with he
  have hsound : e.Sound := invariant (fun e op he hop => (he.perform op hop).1)
    (sound_init config) hbefore e (final_mem_states _ _)
  -- From there on the engine stays sound and the status what it is.
  have hrun :=
    invariant (I := fun e' => e'.Sound ∧ e'.status id = e.status id) (fun e' op he' hop => by
    obtain ⟨hnext, hsettled⟩ := he'.1.perform op hop
    exact ⟨hnext, (hsettled.status_eq (he'.2 ▸ hid)).trans he'.2⟩) ⟨hsound, rfl⟩ hafter
  rw [final_append]
  exact (hrun _ (final_mem_states _ _)).2

/-- The first half of order 1. -/
def halfFill : FillEvent := { quoteFill 0 with filledQuantity := 5, remainingQty := 5 }

/-- An order is filled by half, cancelled and asked for again. -/
def halfFilledRun : List Op :=
  [.startWorkers, .strategyOrder "s" { entryOrder with price := 102 } [] 0 0 false
      { Replies.quiet with fills := [handed halfFill] },
    .cancelOrder "BTC" 1 [] true false, .adapterFills [], .cancelOrder "BTC" 1 [] false false]

theorem settled_of_halfFilledRun :
    (final step (init plainExits) (halfFilledRun.take 2)).status 1 = .partiallyFilled ∧
      (final step (init plainExits) (halfFilledRun.take 3)).status 1 = .cancelled ∧
      Along step Honest (init plainExits) halfFilledRun ∧
      Along step Settled (init plainExits) halfFilledRun ∧
      (final step (init plainExits) halfFilledRun).status 1 =
        (final step (init plainExits) (halfFilledRun.take 3)).status 1 := by
  have hhonest : Along step Honest (init plainExits) halfFilledRun := by decide +kernel
  obtain ⟨hsettled, hstays⟩ := settled_of_honest plainExits halfFilledRun hhonest
  refine ⟨by decide +kernel, by decide +kernel, hhonest, hsettled, ?_⟩
  exact hstays (halfFilledRun.take 3) (halfFilledRun.drop 3) rfl 1 (by decide +kernel)

/-- An order that a quote fills at once is cancelled. -/
def filledCancelRun : List Op :=
  [.startWorkers, .strategyOrder "s" { entryOrder with price := 102 } [] 0 0 false
      { Replies.quiet with fills := [handed (quoteFill 0)] },
    .cancelOrder "BTC" 1 [] true false]

def filledCancelMoves : List (String × Venue.Move) :=
  [("BTC", .adapter (.replenish [] [sellQuote] 1)),
    ("BTC", .adapter (.submit { entryOrder with orderId := 1, price := 102 } 0)),
    ("BTC", .adapter .poll), ("BTC", .adapter (.cancel 1 0))]

/-- With paper adapters a filled order becomes a cancelled one, and an order that was cancelled
while it waited becomes a filled one. -/
theorem not_settled_of_cancel :
    let deferring := { plainExits with executionBarDelay := 1 }
    (Paper LocalBook.plainConfig plainExits filledCancelRun filledCancelMoves ∧
      (final step (init plainExits) (filledCancelRun.take 2)).status 1 = .filled ∧
      (final step (init plainExits) filledCancelRun).status 1 = .cancelled) ∧
    (Paper LocalBook.plainConfig deferring deferredCancelRun deferredCancelMoves ∧
      (final step (init deferring) (deferredCancelRun.take 3)).status 1 = .cancelled ∧
      (final step (init deferring) deferredCancelRun).status 1 = .filled) := by
  refine ⟨⟨⟨⟨rfl, rfl, rfl⟩, rfl, ?_, ?_⟩, ?_, ?_⟩, ⟨⟨rfl, rfl, rfl⟩, rfl, ?_, ?_⟩, ?_, ?_⟩ <;>
    decide +kernel

end Engine

end TrueTest
