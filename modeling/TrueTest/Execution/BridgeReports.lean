import TrueTest.Execution.ExecutionBridge

/-!
# Execution reports

A report of a fill reaches the engine if the bridge still follows the order when the report is
looked up and again when it is applied. The bridge stops following an order when its submit request
fails, when a cancel of it is acknowledged, and when a message says that it is filled, cancelled,
rejected or expired; a report that comes later is dropped, or is left to the engine's handler for
unknown fills.

So in every run whose reports are handled before their orders end, each report gives one fill, with
the id of its order (`reports_surface_once`).
-/

namespace TrueTest.ExecutionBridge

open List AList Machine

variable (enc : Encoder) {req : SubmitRequest} {c : String} {e i : Nat} {msg : ParsedExec}
  {t : TrackedOrder} (b : ExecutionBridge)

/-! ## The tables -/

/-- What the bridge knows of its orders, with the requests that are under way. -/
structure Tables where
  byEngineId : AList fun _ : Nat => TrackedOrder
  byClientId : AList fun _ : String => Nat
  queue : List SubmitRequest
  thread : Phase
  submitted : List (String × Nat)
  ended : List String

def tables : Tables :=
  ⟨b.byEngineId, b.byClientId, b.submitQueue, b.thread, b.history.submitted, b.history.ended⟩

/-- The tables name submitted orders only, and every submitted order that has not ended is in
both. -/
structure Tables.Valid (v : Tables) : Prop where
  clients_nodup : (v.submitted.map Prod.fst).Nodup
  engines_nodup : (v.submitted.map Prod.snd).Nodup
  client_mem : ∀ c e, v.byClientId.lookup c = some e → (c, e) ∈ v.submitted
  engine_mem : ∀ e t, v.byEngineId.lookup e = some t → (t.clientId, e) ∈ v.submitted
  tracked : ∀ c e, (c, e) ∈ v.submitted → c ∉ v.ended →
    v.byClientId.lookup c = some e ∧ ∃ t, v.byEngineId.lookup e = some t
  queued : ∀ req ∈ v.queue, (req.clientId, req.engineId) ∈ v.submitted
  held : ∀ req, v.thread = .call req → (req.clientId, req.engineId) ∈ v.submitted
  sent : ∀ req symbol c, v.thread = .waiting req symbol c → (c, req.engineId) ∈ v.submitted

namespace Tables.Valid

variable {v : Tables} (h : v.Valid)

include h

theorem engine_unique {e' : Nat} (he : (c, e) ∈ v.submitted) (he' : (c, e') ∈ v.submitted) :
    e = e' :=
  congrArg Prod.snd (inj_on_of_nodup_map h.clients_nodup he he' rfl)

theorem client_unique {c' : String} (hc : (c, e) ∈ v.submitted) (hc' : (c', e) ∈ v.submitted) :
    c = c' :=
  congrArg Prod.fst (inj_on_of_nodup_map h.engines_nodup hc hc' rfl)

/-- A new order, with its request. -/
theorem track (hclient : t.clientId ∉ v.submitted.map Prod.fst)
    (hengine : t.engineId ∉ v.submitted.map Prod.snd) (hreq : req.clientId = t.clientId)
    (hreq' : req.engineId = t.engineId) :
    Valid { v with
      byEngineId := v.byEngineId.insert t.engineId t
      byClientId := v.byClientId.insert t.clientId t.engineId
      queue := v.queue ++ [req]
      submitted := v.submitted ++ [(t.clientId, t.engineId)] } := by
  have hold : ∀ {p}, p ∈ v.submitted → p ∈ v.submitted ++ [(t.clientId, t.engineId)] :=
    fun hp => mem_append_left _ hp
  have hnew : (t.clientId, t.engineId) ∈ v.submitted ++ [(t.clientId, t.engineId)] :=
    mem_append_right _ (mem_singleton.2 rfl)
  constructor
  case clients_nodup =>
    rw [map_append]
    exact h.clients_nodup.append (nodup_singleton _) (disjoint_singleton.2 hclient)
  case engines_nodup =>
    rw [map_append]
    exact h.engines_nodup.append (nodup_singleton _) (disjoint_singleton.2 hengine)
  case client_mem => exact forall_lookup_insert hnew fun c e hlook => hold (h.client_mem c e hlook)
  case engine_mem =>
    exact forall_lookup_insert hnew fun e t' hlook => hold (h.engine_mem e t' hlook)
  case tracked =>
    intro c e hmem hended
    rcases mem_append.1 hmem with hmem | hmem
    · have hc : c ≠ t.clientId := fun hc => hclient (hc ▸ mem_map_of_mem hmem)
      have he : e ≠ t.engineId := fun he => hengine (he ▸ mem_map_of_mem hmem)
      rw [lookup_insert_ne hc, lookup_insert_ne he]
      exact h.tracked c e hmem hended
    · obtain ⟨rfl, rfl⟩ := Prod.mk.inj (mem_singleton.1 hmem)
      exact ⟨lookup_insert _, t, lookup_insert _⟩
  case queued =>
    refine forall_mem_append.2 ⟨fun r hr => hold (h.queued r hr), forall_mem_singleton.2 ?_⟩
    rw [hreq, hreq']
    exact hnew
  case held => exact fun r hr => hold (h.held r hr)
  case sent => exact fun r s c hr => hold (h.sent r s c hr)

/-- An order is taken out of the table of the engine's ids, and may be taken out of the other. -/
theorem untrack (hmem : (c, e) ∈ v.submitted) (byClientId : AList fun _ : String => Nat)
    (hclient : byClientId = v.byClientId ∨ byClientId = v.byClientId.erase c) :
    Valid { v with
      byEngineId := v.byEngineId.erase e, byClientId := byClientId, ended := v.ended ++ [c] } := by
  have hsub : ∀ c' e', byClientId.lookup c' = some e' → v.byClientId.lookup c' = some e' := by
    intro c' e' hlook
    rcases hclient with rfl | rfl
    · exact hlook
    · exact (lookup_of_lookup_erase hlook).2
  have hother : ∀ c', c' ≠ c → byClientId.lookup c' = v.byClientId.lookup c' := by
    intro c' hc
    rcases hclient with rfl | rfl
    · rfl
    · exact lookup_erase_ne hc
  refine ⟨h.clients_nodup, h.engines_nodup,
    fun c' e' hlook => h.client_mem c' e' (hsub c' e' hlook),
    fun e' t hlook => h.engine_mem e' t (lookup_of_lookup_erase hlook).2, ?_,
    h.queued, h.held, h.sent⟩
  intro c' e' hmem' hended
  rw [mem_append, mem_singleton, not_or] at hended
  have he : e' ≠ e := fun he => hended.2 (h.client_unique (he ▸ hmem') hmem)
  rw [hother c' hended.2, lookup_erase_ne he]
  exact h.tracked c' e' hmem' hended.1

/-- What is known of an order changes. -/
theorem update (hmem : (t.clientId, e) ∈ v.submitted) :
    Valid { v with byEngineId := v.byEngineId.insert e t } := by
  refine ⟨h.clients_nodup, h.engines_nodup, h.client_mem, forall_lookup_insert hmem h.engine_mem,
    ?_, h.queued, h.held, h.sent⟩
  intro c e' hmem' hended
  obtain ⟨hclient, t', ht'⟩ := h.tracked c e' hmem' hended
  refine ⟨hclient, ?_⟩
  by_cases he : e' = e
  · exact ⟨t, by rw [he, lookup_insert]⟩
  · exact ⟨t', by rw [lookup_insert_ne he]; exact ht'⟩

/-- Another request of a submitted order. -/
theorem enqueue (hmem : (req.clientId, req.engineId) ∈ v.submitted) :
    Valid { v with queue := v.queue ++ [req] } := by
  refine ⟨h.clients_nodup, h.engines_nodup, h.client_mem, h.engine_mem, h.tracked, ?_, h.held,
    h.sent⟩
  exact forall_mem_append.2 ⟨h.queued, forall_mem_singleton.2 hmem⟩

/-- The thread moves on, with a request of a submitted order or with none. -/
theorem move {queue : List SubmitRequest} {thread : Phase} (hqueue : ∀ req ∈ queue, req ∈ v.queue)
    (hheld : ∀ req, thread = .call req → (req.clientId, req.engineId) ∈ v.submitted)
    (hsent : ∀ req symbol c, thread = .waiting req symbol c → (c, req.engineId) ∈ v.submitted) :
    Valid { v with queue := queue, thread := thread } :=
  ⟨h.clients_nodup, h.engines_nodup, h.client_mem, h.engine_mem, h.tracked,
    fun req hreq => h.queued req (hqueue req hreq), hheld, hsent⟩

end Tables.Valid

/-! ## The reports -/

/-- A report of a fill. -/
def ParsedExec.Positive (msg : ParsedExec) : Prop := msg.kind.isFill = true ∧ 0 < msg.lastFillQty

instance (msg : ParsedExec) : Decidable msg.Positive := inferInstanceAs (Decidable (_ ∧ _))

/-- What has become of the messages. -/
structure Flow where
  submitted : List (String × Nat)
  reports : List ParsedExec
  handling : List ParsedExec
  surfaced : List (ParsedExec × FillEvent)
  polled : List FillEvent
  pending : List FillEvent

def flow : Flow :=
  ⟨b.history.submitted, b.history.reports, b.handling, b.history.surfaced, b.history.polled,
   b.pendingFills⟩

/-- Every report of a fill of a submitted order is in hand or has given one fill, which has the id
of the order and the quantity of the report. -/
structure Flow.Exact (f : Flow) : Prop where
  fills_eq : f.polled ++ f.pending = f.surfaced.map Prod.snd
  once : ∀ msg : ParsedExec, msg.Positive → msg.clientOrderId ∈ f.submitted.map Prod.fst →
    f.reports.count msg = f.handling.count msg + (f.surfaced.map Prod.fst).count msg
  fill : ∀ p ∈ f.surfaced, p.1.Positive → ∀ e, (p.1.clientOrderId, e) ∈ f.submitted →
    p.2.orderId = e ∧ p.2.filledQuantity = p.1.lastFillQty
  handling_mem : ∀ msg ∈ f.handling, msg ∈ f.reports
  surfaced_mem : ∀ p ∈ f.surfaced, p.1 ∈ f.reports

namespace Flow.Exact

variable {f : Flow} (h : f.Exact)

include h

/-- An order that no message has named is submitted. -/
theorem submit (hnew : ∀ msg ∈ f.reports, msg.clientOrderId ≠ c) :
    Exact { f with submitted := f.submitted ++ [(c, e)] } := by
  refine ⟨h.fills_eq, ?_, ?_, h.handling_mem, h.surfaced_mem⟩
  · intro msg hpos hsub
    rw [map_append, mem_append, map_singleton, mem_singleton] at hsub
    rcases hsub with hsub | hsub
    · exact h.once msg hpos hsub
    · have hreports : msg ∉ f.reports := fun hmsg => hnew msg hmsg hsub
      have hsurfaced : msg ∉ f.surfaced.map Prod.fst := by
        intro hmsg
        obtain ⟨p, hp, rfl⟩ := mem_map.1 hmsg
        exact hreports (h.surfaced_mem p hp)
      rw [count_eq_zero_of_not_mem hreports, count_eq_zero_of_not_mem hsurfaced,
        count_eq_zero_of_not_mem fun hmsg => hreports (h.handling_mem msg hmsg)]
  · intro p hp hpos e' hmem
    rw [mem_append, mem_singleton, Prod.mk.injEq] at hmem
    exact h.fill p hp hpos e' (hmem.resolve_right fun hc => hnew _ (h.surfaced_mem p hp) hc.1)

theorem poll : Exact { f with polled := f.polled ++ f.pending, pending := [] } :=
  ⟨by rw [append_nil]; exact h.fills_eq, h.once, h.fill, h.handling_mem, h.surfaced_mem⟩

/-- A message about a known order arrives. -/
theorem arrive (msg : ParsedExec) :
    Exact { f with reports := f.reports ++ [msg], handling := f.handling ++ [msg] } := by
  refine ⟨h.fills_eq, ?_, h.fill, ?_, fun p hp => mem_append_left _ (h.surfaced_mem p hp)⟩
  · intro m hpos hsub
    have honce := h.once m hpos hsub
    simp only [count_append]
    omega
  · intro m hm
    exact (mem_append.1 hm).elim (fun hm => mem_append_left _ (h.handling_mem m hm))
      (mem_append_right _)

section

variable {msg : ParsedExec} (hmsg : msg.Positive → msg.clientOrderId ∉ f.submitted.map Prod.fst)
include hmsg

/-- Another message arrives, which is no report of a fill of a submitted order. -/
theorem unknown : Exact { f with reports := f.reports ++ [msg] } := by
  refine ⟨h.fills_eq, ?_, h.fill, fun m hm => mem_append_left _ (h.handling_mem m hm),
    fun p hp => mem_append_left _ (h.surfaced_mem p hp)⟩
  intro m hpos hsub
  have hne : ¬ msg = m := fun heq => hmsg (heq ▸ hpos) (heq ▸ hsub)
  rw [count_append, count_singleton, if_neg (by simpa using hne)]
  exact h.once m hpos hsub

/-- The engine makes a fill of a message that is no report of a fill of a submitted order. -/
theorem synth (hmem : msg ∈ f.reports) (fill : FillEvent) :
    Exact { f with surfaced := f.surfaced ++ [(msg, fill)], pending := f.pending ++ [fill] } := by
  refine ⟨?_, ?_, ?_, h.handling_mem, ?_⟩
  · rw [map_append, ← h.fills_eq, append_assoc]
    rfl
  · intro m hpos hsub
    have hne : ¬ msg = m := fun heq => hmsg (heq ▸ hpos) (heq ▸ hsub)
    rw [map_append, count_append, map_singleton, count_singleton, if_neg (by simpa using hne)]
    exact h.once m hpos hsub
  · refine forall_mem_append.2 ⟨h.fill, forall_mem_singleton.2 fun hpos e he => ?_⟩
    exact absurd (mem_map_of_mem he) (hmsg hpos)
  · exact forall_mem_append.2 ⟨h.surfaced_mem, forall_mem_singleton.2 hmem⟩

end

omit h in
theorem count_eraseIdx (hi : f.handling[i]? = some msg) (m : ParsedExec) :
    f.handling.count m = (f.handling.eraseIdx i).count m + [msg].count m := by
  obtain ⟨hlt, rfl⟩ := List.getElem?_eq_some_iff.1 hi
  rw [← (getElem_cons_eraseIdx_perm hlt).count_eq m, count_cons, count_singleton]

variable {i : Nat} {msg : ParsedExec} (hi : f.handling[i]? = some msg)
include hi

/-- A message in hand is dropped, which is no report of a fill of a submitted order. -/
theorem drop (hmsg : msg.Positive → msg.clientOrderId ∉ f.submitted.map Prod.fst) :
    Exact { f with handling := f.handling.eraseIdx i } := by
  refine ⟨h.fills_eq, ?_, h.fill, fun m hm => h.handling_mem m (mem_of_mem_eraseIdx hm),
    h.surfaced_mem⟩
  intro m hpos hsub
  have honce := h.once m hpos hsub
  have hcount := count_eraseIdx hi m
  have hne : ¬ msg = m := fun heq => hmsg (heq ▸ hpos) (heq ▸ hsub)
  rw [count_singleton, if_neg (by simpa using hne)] at hcount
  dsimp only
  omega

/-- A message in hand gives a fill. -/
theorem surface {fill : FillEvent}
    (hfill : ∀ e, (msg.clientOrderId, e) ∈ f.submitted →
      fill.orderId = e ∧ fill.filledQuantity = msg.lastFillQty) :
    Exact { f with
      handling := f.handling.eraseIdx i
      surfaced := f.surfaced ++ [(msg, fill)]
      pending := f.pending ++ [fill] } := by
  refine ⟨?_, ?_, ?_, fun m hm => h.handling_mem m (mem_of_mem_eraseIdx hm), ?_⟩
  · rw [map_append, ← h.fills_eq, append_assoc]
    rfl
  · intro m hpos hsub
    have honce := h.once m hpos hsub
    have hcount := count_eraseIdx hi m
    simp only [map_append, count_append, map_singleton]
    omega
  · exact forall_mem_append.2 ⟨h.fill, forall_mem_singleton.2 fun _ => hfill⟩
  · exact forall_mem_append.2
      ⟨h.surfaced_mem, forall_mem_singleton.2 (h.handling_mem msg (mem_of_getElem? hi))⟩

end Flow.Exact

/-! ## Steps -/

/-- The state is in order. -/
structure Good (b : ExecutionBridge) : Prop where
  tables : b.tables.Valid
  flow : b.flow.Exact

/-- A report is handled in time if its order has not ended. -/
def InTime (msg : ParsedExec) : Prop :=
  msg.Positive → msg.clientOrderId ∈ b.history.submitted.map Prod.fst →
    msg.clientOrderId ∉ b.history.ended

/-- New orders have new ids, which no message has named, and reports are handled in time. -/
def Timely : Op → Prop
  | .submitOrder o minted =>
    clientIdFor o minted ∉ b.history.submitted.map Prod.fst ∧
    o.orderId ∉ b.history.submitted.map Prod.snd ∧
      ∀ msg ∈ b.history.reports, msg.clientOrderId ≠ clientIdFor o minted
  | .lookupMessage msg _ => b.InTime msg
  | .handle i _ => ∀ msg ∈ b.handling[i]?, b.InTime msg
  | _ => True

theorem good_opened (hasHandler : Bool) : Good (opened hasHandler) := by
  constructor
  · constructor <;> simp [tables, opened]
  · constructor <;> simp [flow, opened]

variable {enc} {b : ExecutionBridge}

theorem Good.submitOrder (h : Good b) {o : OrderEvent} {minted : Option String}
    (ht : Timely b (.submitOrder o minted)) : Good (b.submitOrder enc o minted) :=
  ⟨h.tables.track ht.1 ht.2.1 rfl rfl, h.flow.submit ht.2.2⟩

theorem Good.cancelOrder (h : Good b) (id : Nat) : Good (b.cancelOrder id).2 := by
  rw [ExecutionBridge.cancelOrder]
  split
  · exact h
  · rename_i t ht
    exact ⟨h.tables.enqueue (h.tables.engine_mem id t ht), h.flow⟩

theorem latest_eq_or (old : String) (now : Option String) :
    latest old now = old ∨ now = some (latest old now) := by
  cases now with
  | none => exact .inl rfl
  | some s =>
    by_cases hs : s = ""
    · exact .inl (if_pos hs)
    · exact .inr (congrArg some (if_neg hs).symm)

section

variable (h : Good b)
include h

theorem Good.handOver (hreq : (req.clientId, req.engineId) ∈ b.history.submitted) :
    Good (b.handOver enc req) := by
  rw [ExecutionBridge.handOver]
  split
  · refine ⟨h.tables.move (fun _ hr => hr) (fun _ hr => by cases hr) ?_, h.flow⟩
    rintro _ _ _ ⟨⟩
    rcases latest_eq_or req.clientId ((b.byEngineId.lookup req.engineId).map TrackedOrder.clientId)
      with hold | hnow
    · rw [hold]
      exact hreq
    · obtain ⟨t, ht, hclient⟩ := Option.map_eq_some_iff.1 hnow
      rw [← hclient]
      exact h.tables.engine_mem _ t ht
  · refine ⟨h.tables.move (fun _ hr => hr) (fun _ hr => by cases hr) ?_, h.flow⟩
    rintro _ _ _ ⟨⟩
    exact hreq

theorem Good.turn : Good (b.turn enc) := by
  rw [ExecutionBridge.turn]
  split
  · refine ⟨h.tables.move (fun _ hr => hr) ?_ ?_, h.flow⟩
    · intro req hr
      cases hrun : b.transportRunning <;> simp [hrun] at hr
    · intro req _ _ hr
      cases hrun : b.transportRunning <;> simp [hrun] at hr
  · split
    · exact ⟨h.tables.move (fun _ hr => hr) (fun _ hr => by cases hr) (fun _ _ _ hr => by cases hr),
        h.flow⟩
    · rename_i req rest hqueue
      have hmem : ∀ r ∈ req :: rest, r ∈ b.submitQueue := fun r hr => hqueue ▸ hr
      refine ⟨h.tables.move (fun r hr => hmem r (mem_cons_of_mem _ hr)) ?_
        (fun _ _ _ hr => by cases hr), h.flow⟩
      rintro _ ⟨⟩
      exact h.tables.queued req (hmem req mem_cons_self)
  · rename_i req hthread
    exact h.handOver (h.tables.held req hthread)
  · exact h
  · exact h

theorem Good.untrack (hmem : (c, e) ∈ b.history.submitted) : Good (b.untrack e c) := by
  refine ⟨h.tables.untrack hmem _ ?_, h.flow⟩
  by_cases hc : c = ""
  · exact .inl (if_pos hc)
  · exact .inr (if_neg hc)

theorem Good.setExchangeId (e : Nat) (exchangeId : String) :
    Good (b.setExchangeId e exchangeId) := by
  rw [ExecutionBridge.setExchangeId]
  split
  · exact h
  · rename_i t ht
    split
    · exact ⟨h.tables.update (h.tables.engine_mem e t ht), h.flow⟩
    · exact h

theorem Good.applyResponse (hmem : (c, req.engineId) ∈ b.history.submitted) (res : Response) :
    Good (b.applyResponse req c res) := by
  rw [ExecutionBridge.applyResponse]
  split <;> split
  · exact h.untrack hmem
  · exact ⟨h.tables, h.flow⟩
  · exact h.setExchangeId _ _
  · have huntrack := h.untrack hmem
    exact ⟨huntrack.tables, huntrack.flow⟩

theorem Good.answer (res : Except String Response) : Good (b.answer res) := by
  rw [ExecutionBridge.answer]
  split
  · rename_i req symbol c hthread
    have hcheck : Good { b with thread := .check } :=
      ⟨h.tables.move (fun _ hr => hr) (fun _ hr => by cases hr) (fun _ _ _ hr => by cases hr),
       h.flow⟩
    cases res with
    | ok res =>
      have happly := hcheck.applyResponse (h.tables.sent req symbol c hthread) res
      exact ⟨happly.tables, happly.flow⟩
    | error what => exact ⟨hcheck.tables, hcheck.flow⟩
  · exact h

/-- An order in time is in both tables. -/
theorem Good.not_submitted (ht : b.InTime msg)
    (hnone : b.byClientId.lookup msg.clientOrderId = none ∨ ∃ e,
      b.byClientId.lookup msg.clientOrderId = some e ∧ b.byEngineId.lookup e = none) :
    msg.Positive → msg.clientOrderId ∉ b.history.submitted.map Prod.fst := by
  intro hpos hsub
  obtain ⟨⟨c, e⟩, hmem, hc⟩ := mem_map.1 hsub
  obtain rfl : c = msg.clientOrderId := hc
  obtain ⟨hclient, t, ht⟩ := h.tables.tracked _ e hmem (ht hpos hsub)
  rcases hnone with hnone | ⟨e', he', hnone⟩
  · exact Option.some_ne_none e (hclient.symm.trans hnone)
  · obtain rfl : e = e' := Option.some.inj (hclient.symm.trans he')
    exact Option.some_ne_none t (ht.symm.trans hnone)

theorem Good.lookupMessage {synth : Option SynthResult}
    (ht : Timely b (.lookupMessage msg synth)) : Good (b.lookupMessage msg synth) := by
  rw [ExecutionBridge.lookupMessage]
  split
  · rename_i hnone
    have hmsg := h.not_submitted ht (.inl hnone)
    rw [dispatchUnknownFill]
    split
    · cases synth with
      | none => exact ⟨h.tables, h.flow.unknown hmsg⟩
      | some sr =>
        exact ⟨h.tables, (h.flow.unknown hmsg).synth hmsg
          (mem_append_right _ (mem_singleton.2 rfl)) sr.fill⟩
    · exact ⟨h.tables, h.flow.unknown hmsg⟩
  · exact ⟨h.tables, h.flow.arrive msg⟩

theorem Good.handle {now : Int} (ht : Timely b (.handle i now)) : Good (b.handle i now) := by
  rw [ExecutionBridge.handle]
  split
  · exact h
  · rename_i msg hi
    have hmsg := ht msg hi
    rw [applyMessage]
    split
    · rename_i hnone
      exact ⟨h.tables, h.flow.drop hi (h.not_submitted hmsg (.inl hnone))⟩
    · rename_i e he
      split
      · rename_i hnone
        exact ⟨h.tables, h.flow.drop hi (h.not_submitted hmsg (.inr ⟨e, he, hnone⟩))⟩
      · rename_i t ht
        have hmem := h.tables.client_mem _ e he
        have hfinal := h.tables.untrack hmem _ (.inr rfl)
        have hlive :
            Tables.Valid { b.tables with byEngineId := b.byEngineId.insert e (t.update msg) } :=
          h.tables.update (h.tables.engine_mem e t ht)
        have hfill :
            ∀ {fillId : Nat} {t : TrackedOrder} e', (msg.clientOrderId, e') ∈ b.history.submitted →
            (fillFor t e fillId msg now).orderId = e' ∧
              (fillFor t e fillId msg now).filledQuantity = msg.lastFillQty :=
          fun e' he' => ⟨h.tables.engine_unique hmem he', rfl⟩
        cases hkind : msg.kind.isFill with
        | true =>
          cases msg.kind.isFinal with
          | true => exact ⟨hfinal, h.flow.surface hi hfill⟩
          | false => exact ⟨hlive, h.flow.surface hi hfill⟩
        | false =>
          have hdrop := h.flow.drop hi fun hpos => absurd hpos.1 (by rw [hkind]; decide)
          cases msg.kind.isFinal with
          | true => exact ⟨hfinal, hdrop⟩
          | false => exact ⟨hlive, hdrop⟩

theorem Good.step {op : Op} (ht : Timely b op) : Good (step enc b op).2 := by
  cases op with
  | submitOrder o minted => exact h.submitOrder ht
  | cancelOrder id => exact h.cancelOrder id
  | pollFills => exact ⟨h.tables, h.flow.poll⟩
  | turn => exact h.turn
  | answer res => exact h.answer res
  | lookupMessage msg synth => exact h.lookupMessage ht
  | handle i now => exact h.handle ht
  | _ => exact ⟨h.tables, h.flow⟩

end

/-- **In a run whose reports are handled before their orders end, every report of a fill gives one
fill, with the id of its order.** It is in hand for a while; what the engine has polled and what it
is yet to poll are the fills that the reports gave. -/
theorem reports_surface_once (enc : Encoder) (hasHandler : Bool) (ops : List Op)
    (htimely : Along (step enc) Timely (opened hasHandler) ops) :
    ∀ b ∈ states (step enc) (opened hasHandler) ops,
      b.history.polled ++ b.pendingFills = b.history.surfaced.map Prod.snd ∧
      ∀ c e, (c, e) ∈ b.history.submitted →
        ∀ msg : ParsedExec, msg.clientOrderId = c → msg.kind.isFill = true → 0 < msg.lastFillQty →
          b.history.reports.count msg =
              b.handling.count msg + (b.history.surfaced.map Prod.fst).count msg ∧
            ∀ p ∈ b.history.surfaced, p.1 = msg →
              p.2.orderId = e ∧ p.2.filledQuantity = msg.lastFillQty := by
  intro b hb
  have hgood := invariant (fun _ _ hgood ht => hgood.step ht) (good_opened hasHandler) htimely b hb
  refine ⟨hgood.flow.fills_eq, ?_⟩
  rintro c e hmem msg rfl hkind hqty
  refine ⟨hgood.flow.once msg ⟨hkind, hqty⟩ (mem_map_of_mem hmem), ?_⟩
  rintro p hp rfl
  exact hgood.flow.fill p hp ⟨hkind, hqty⟩ e hmem

instance (b : ExecutionBridge) (msg : ParsedExec) : Decidable (b.InTime msg) :=
  inferInstanceAs (Decidable (_ → _ → _))

instance (b : ExecutionBridge) : (op : Op) → Decidable (Timely b op)
  | .submitOrder _ _ => inferInstanceAs (Decidable (_ ∧ _ ∧ _))
  | .lookupMessage msg _ => inferInstanceAs (Decidable (b.InTime msg))
  | .handle i _ => decidable_of_iff (b.handling[i]?.all fun msg => decide (b.InTime msg)) (by
      simp [Timely, Option.all_eq_true])
  | .cancelOrder _ | .pollFills | .pollSubmitResults | .pollSynthMeta | .setUnknownFillHandler
  | .clearUnknownFillHandler | .turn | .answer _ | .close => isTrue trivial

/-- A message about order 1. -/
def message (kind : ExecKind) (qty : ℚ) : ParsedExec :=
  ⟨kind, "tt-1", "EX-1", "BTC", .buy, qty, 100, 0, 0, 1⟩

/-- An order is submitted; a part of it is filled before the answer to the request comes. -/
def filledRun : List Op :=
  [.submitOrder (.new 0 1 "BTC" .limit .buy 10 100 .gtc 0) none, .turn, .turn, .turn,
    .lookupMessage (message .partialFill 4) none, .answer (.ok ⟨true, "EX-1", ""⟩), .handle 0 0]

theorem reports_surface_of_filledRun :
    let b := final (step noEncoder) (opened false) filledRun
    b.history.reports.count (message .partialFill 4) =
        b.handling.count (message .partialFill 4) +
          (b.history.surfaced.map Prod.fst).count (message .partialFill 4) ∧
      ∀ p ∈ b.history.surfaced, p.1 = message .partialFill 4 →
        p.2.orderId = 1 ∧ p.2.filledQuantity = 4 :=
  (reports_surface_once noEncoder false filledRun (by decide +kernel) _
    (final_mem_states _ _)).2 "tt-1" 1 (by decide +kernel) (message .partialFill 4) rfl rfl
    (by decide +kernel)

/-- A fill that is reported after a cancel of the order, or after the request was taken for failed,
is lost. -/
theorem report_lost :
    let cancelled := final (step noEncoder) (opened false)
      [.submitOrder (.new 0 1 "BTC" .limit .buy 10 100 .gtc 0) none,
        .lookupMessage (message .canceled 0) none, .handle 0 0,
        .lookupMessage (message .fullFill 10) none]
    let timedOut := final (step noEncoder) (opened false)
      [.submitOrder (.new 0 1 "BTC" .limit .buy 10 100 .gtc 0) none, .turn, .turn, .turn,
        .answer (.ok ⟨false, "", "timeout"⟩), .lookupMessage (message .fullFill 10) none]
    (("tt-1", 1) ∈ cancelled.history.submitted ∧ message .fullFill 10 ∈ cancelled.history.reports ∧
      cancelled.handling = [] ∧ cancelled.history.surfaced = []) ∧
    ("tt-1", 1) ∈ timedOut.history.submitted ∧ message .fullFill 10 ∈ timedOut.history.reports ∧
      timedOut.handling = [] ∧ timedOut.history.surfaced = [] := by
  decide +kernel

end TrueTest.ExecutionBridge
