import TrueTest.Engine.Protection

/-!
# Polled fills

`poll_fills` hands a batch over for good: a fill that the engine does not apply is lost. The loops
over a batch apply each fill to the order tracker, the portfolio, the exit manager and analytics, in
this order, and stop at a fill after which the risk check halts the engine. So of every batch
exactly the fills up to such a one (`due`) are applied, each once, in the order in which they were
polled. In shadow mode the venue's fills are polled too; they are compared with the simulated ones
and applied to nothing here.
-/

namespace TrueTest

open List

/-- A fill without its attribution, which the engine may complete before it applies the fill. -/
def FillEvent.bare (f : FillEvent) : FillEvent := { f with openerOrderId := 0, strategyName := "" }

/-- The fills of a batch up to the first one that halts the engine. -/
def due : List (FillEvent × Bool) → List FillEvent
  | [] => []
  | (f, halts) :: fills => f :: if halts then [] else due fills

/-- The fills that the acts have polled and that are due. -/
def polledFills (acts : List Act) : List FillEvent :=
  acts.flatMap fun
    | .poll fills => (due fills).map FillEvent.bare
    | _ => []

inductive Receiver
  | sink (s : Sink)
  | exitManager
deriving DecidableEq, Repr

def appliedFills (receiver : Receiver) (acts : List Act) : List FillEvent :=
  acts.flatMap fun
    | .apply s f => if receiver = .sink s then [f.bare] else []
    | .exits (.fill f _ _ _) => if receiver = .exitManager then [f.bare] else []
    | _ => []

theorem polledFills_append (as bs : List Act) :
    polledFills (as ++ bs) = polledFills as ++ polledFills bs := flatMap_append

theorem appliedFills_append (receiver : Receiver) (as bs : List Act) :
    appliedFills receiver (as ++ bs) = appliedFills receiver as ++ appliedFills receiver bs :=
  flatMap_append

theorem due_deliveries (ds : List Delivery) :
    due (ds.map fun d => (d.fill, false)) = ds.map Delivery.fill := by
  induction ds with
  | nil => rfl
  | cons d ds ih => simpa [due] using ih

theorem due_polled (r : FillReply) (rs : List FillReply) : due ((r :: rs).map FillReply.polled) =
    r.delivery.fill :: if r.postFill = .halt then [] else due (rs.map FillReply.polled) := by
  simp [due, FillReply.polled]

namespace Engine

open Machine

variable {e e₁ e₂ : Engine} {fs gs : List FillEvent}

/-- The engine becomes another by applying `fs` to every receiver, without a poll. -/
def Applies (fs : List FillEvent) (e e' : Engine) : Prop :=
  ∃ new, e'.acts = e.acts ++ new ∧ polledFills new = [] ∧
    ∀ receiver, appliedFills receiver new = fs.map FillEvent.bare

/-- The engine becomes another by applying `fs`, and then what it polls. -/
def Settles (fs : List FillEvent) (e e' : Engine) : Prop :=
  ∃ new, e'.acts = e.acts ++ new ∧
    ∀ receiver, appliedFills receiver new = fs.map FillEvent.bare ++ polledFills new

theorem Applies.settles (h₁ : Applies fs e e₁) (h₂ : Settles gs e₁ e₂) :
    Settles (fs ++ gs) e e₂ := by
  obtain ⟨as, hacts₁, hpolled, happlied₁⟩ := h₁
  obtain ⟨bs, hacts₂, happlied₂⟩ := h₂
  refine ⟨as ++ bs, by rw [hacts₂, hacts₁, append_assoc], fun receiver => ?_⟩
  rw [appliedFills_append, happlied₁, happlied₂, polledFills_append, hpolled, map_append,
    nil_append, append_assoc]

theorem Applies.trans (h₁ : Applies fs e e₁) (h₂ : Applies gs e₁ e₂) : Applies (fs ++ gs) e e₂ := by
  obtain ⟨as, hacts₁, hpolled₁, happlied₁⟩ := h₁
  obtain ⟨bs, hacts₂, hpolled₂, happlied₂⟩ := h₂
  refine ⟨as ++ bs, by rw [hacts₂, hacts₁, append_assoc], ?_, fun receiver => ?_⟩
  · rw [polledFills_append, hpolled₁, hpolled₂, append_nil]
  · rw [appliedFills_append, happlied₁, happlied₂, map_append]

/-- What applies nothing and polls nothing may be left out. -/
theorem Settles.trans (h₁ : Settles fs e e₁) (h₂ : Settles [] e₁ e₂) : Settles fs e e₂ := by
  obtain ⟨as, hacts₁, happlied₁⟩ := h₁
  obtain ⟨bs, hacts₂, happlied₂⟩ := h₂
  refine ⟨as ++ bs, by rw [hacts₂, hacts₁, append_assoc], fun receiver => ?_⟩
  rw [appliedFills_append, happlied₁, happlied₂, polledFills_append, map_nil, nil_append,
    append_assoc]

theorem Applies.of_eq {e' : Engine} (hacts : e'.acts = e.acts) : Applies [] e e' :=
  ⟨[], by rw [hacts, append_nil], rfl, fun _ => rfl⟩

theorem Settles.refl (e : Engine) : Settles [] e e := ⟨[], (append_nil _).symm, fun _ => rfl⟩

theorem Applies.done (h : Applies fs e e₁) : Settles fs e e₁ := by
  have hsettles := h.settles (Settles.refl e₁)
  rwa [append_nil] at hsettles

/-- Once what is due of a batch has been applied, the batch is settled. -/
theorem Settles.of_poll {fills : List (FillEvent × Bool)}
    (h : Settles (due fills) (e.act (.poll fills)) e₁) : Settles [] e e₁ := by
  obtain ⟨new, hacts, happlied⟩ := h
  refine ⟨.poll fills :: new, by rw [hacts, act, append_assoc]; rfl, fun receiver => ?_⟩
  have hpoll : appliedFills receiver (.poll fills :: new) = appliedFills receiver new := rfl
  rw [hpoll, happlied]
  rfl

/-! ## The parts of the engine -/

variable (e) (ps : List Flattening)

theorem applies_callExits {call : ExitManager.Op} (hcall : ∀ f o b i, call ≠ .fill f o b i) :
    Applies [] e (e.callExits call).2 := by
  refine ⟨[.exits call], rfl, rfl, fun receiver => ?_⟩
  cases call <;> first | rfl | exact absurd rfl (hcall _ _ _ _)

theorem applies_basic : Basic (fun _ _ => True) (Applies []) where
  refl _ := .of_eq rfl
  trans := Applies.trans
  fields hacts _ _ _ _ := .of_eq hacts
  act e a ha _ := by
    refine ⟨[a], rfl, ?_, fun receiver => ?_⟩ <;> cases a <;> first | rfl | cases ha
  halt e := ⟨[.triggerHalt], rfl, rfl, fun _ => rfl⟩
  call e call hcall := applies_callExits e (by rintro f o b i rfl; cases hcall)

theorem stampFillAttribution_bare (f : FillEvent) : (e.stampFillAttribution f).bare = f.bare := rfl

theorem Applies.foldl {α : Type} {f : Engine → α → Engine} {g : α → FillEvent}
    (hf : ∀ e x, Applies [g x] e (f e x)) (xs : List α) (e : Engine) :
    Applies (xs.map g) e (xs.foldl f e) := by
  induction xs generalizing e with
  | nil => exact .of_eq rfl
  | cons x xs ih => exact (hf e x).trans (ih (f e x))

theorem applies_applyFill (d : Delivery) : Applies [d.fill] e (e.applyFill d) := by
  set f := e.stampFillAttribution d.fill
  set e₁ := { e with orderTracker := TrueTest.handleEngineFill e.orderTracker f } with he₁
  set e₂ := (((e₁.act (.apply .orderTracker f)).act (.apply .portfolio f)).callExits
    (.fill f f.openerOrderId d.placed d.order)).2 with he₂
  obtain ⟨new, hacts, hpolled, happlied⟩ :=
    applies_basic.trans (applies_basic.still.notice.notifyPositionChangeAll e₂ f.symbol
      d.positionOpen) (applies_basic.still.publish _ d.dropped)
  have happly : (e.applyFill d).acts = e.acts ++ ([.apply .orderTracker f, .apply .portfolio f,
      .exits (.fill f f.openerOrderId d.placed d.order)] ++ new ++ [.apply .analytics f]) := by
    show ((e₂.notifyPositionChangeAll f.symbol d.positionOpen).publish d.dropped).acts ++
      [Act.apply .analytics f] = _
    rw [hacts]
    simp [he₂, he₁, callExits, act]
  refine ⟨_, happly, ?_, fun receiver => ?_⟩
  · rw [polledFills_append, polledFills_append, hpolled]
    rfl
  · have hbare : f.bare = d.fill.bare := stampFillAttribution_bare e d.fill
    rw [appliedFills_append, appliedFills_append, happlied]
    rcases receiver with ⟨_ | _ | _⟩ | _ <;> simp [appliedFills, hbare]

theorem settles_unwindPosition (p : Flattening) : Settles [] e (e.unwindPosition p) := by
  set e₁ := ({ e with nextOrderId := e.nextOrderId + 1 }.setStatus e.nextOrderId .open)
  have hopen : Applies [] e e₁ := .of_eq rfl
  have hsubmit := ((hopen.trans (applies_basic.still.publish e₁ p.dropped)).trans
    (applies_basic.act _ (.submit (closeOrder e.nextOrderId p)) rfl fun _ => trivial)).trans
    (applies_basic.still.drain _ p.results)
  have hbatch : ∀ e, Settles (due (p.fills.map fun d => (d.fill, false))) e
      (p.fills.foldl applyFill e) := by
    rw [due_deliveries]
    exact fun e => (Applies.foldl applies_applyFill p.fills e).done
  exact hsubmit.settles (.of_poll (hbatch _))

theorem settles_unwindPositions : Settles [] e (e.unwindPositions ps) := by
  induction ps generalizing e with
  | nil => exact .refl e
  | cons p ps ih => exact (settles_unwindPosition e p).trans (ih _)

theorem settles_riskHalt : Settles [] e (e.riskHalt ps) := by
  have hhalt := fun e => (applies_basic.halt e).done
  unfold riskHalt
  split
  · exact (settles_unwindPositions e ps).trans (hhalt _)
  · exact hhalt e

/-- The loop over a batch applies what is due of it. -/
theorem settles_handleFills (rs : List FillReply) :
    Settles (due (rs.map FillReply.polled)) e (e.handleFills rs).2 := by
  induction rs generalizing e with
  | nil => exact .refl e
  | cons r rs ih =>
    have happly := applies_applyFill e r.delivery
    unfold handleFills handleEngineFill
    rw [due_polled]
    split_ifs with hpost
    · exact happly.settles (settles_riskHalt _ r.unwind)
    · exact happly.settles (ih _)

theorem settles_closed : Closed (fun _ _ => True) (Settles []) where
  refl := Settles.refl
  trans := Settles.trans
  fields hacts hexits hflag hconfig hids :=
    (applies_basic.fields hacts hexits hflag hconfig hids).done
  act e a ha hp := (applies_basic.act e a ha hp).done
  halt e := (applies_basic.halt e).done
  call e call hcall := (applies_basic.call e call hcall).done
  fills _ rs := .of_poll (settles_handleFills _ rs)
  unwind := settles_unwindPositions

theorem settles_perform (op : Op) : Settles [] e (e.perform op) := by
  by_cases hstart : op = .startWorkers
  · subst hstart
    exact (Applies.of_eq rfl).done
  · by_cases hworker : op = .workerHalt
    · subst hworker
      exact (Applies.of_eq rfl).done
    · exact settles_closed.perform (fun e _ => (applies_callExits e (by simp)).done)
        e op hstart hworker

variable {e}

/-! ## Whole runs -/

/-- **Polled fills are applied exactly once**, in the order in which they were polled, to the order
tracker, the portfolio, the exit manager and analytics: all fills of every batch, or those up to the
first one after which the risk check halts the engine. -/
theorem applied_eq_polled (config : EngineConfig) (ops : List Op) :
    ∀ e ∈ states step (init config) ops, ∀ receiver,
      appliedFills receiver e.acts = polledFills e.acts := by
  intro e he receiver
  have hstep : ∀ e (op : Op), Settles [] (init config) e →
      Settles [] (init config) (e.step op).2 := fun e op h => h.trans (settles_perform e op)
  obtain ⟨new, hacts, happlied⟩ := invariant_of_step hstep (Settles.refl _) ops e he
  have hnew : e.acts = new := hacts
  rw [hnew, happlied]
  rfl

/-- Two partial fills of the entry, and the fill of its close. -/
theorem applied_eq_polled_of_deferredRun :
    appliedFills (.sink .portfolio) (final step (init (backtestConfig 1)) deferredRun).acts =
      [(deliver 1 .buy 4 100 6).delivery.fill.bare, (deliver 1 .buy 6 100 0).delivery.fill.bare,
        (deliver 2 .sell 10 94 0).delivery.fill.bare] := by
  rw [applied_eq_polled (backtestConfig 1) deferredRun _ (final_mem_states _ _)]
  decide +kernel

/-- A batch of two fills of one order, after the first of which the risk check halts the engine. -/
def lostFillRun : List Op :=
  [.startWorkers,
    .strategyOrder "s" entryOrder [] 0 0 false { Replies.quiet with
      fills := [{ deliver 1 .buy 4 100 6 with postFill := .halt }, deliver 1 .buy 6 100 0] }]

/-- The venue's fill for the same order in shadow mode. -/
def shadowRun : List Op :=
  [.startWorkers,
    .strategyOrder "s" entryOrder [] 0 0 false { Replies.quiet with
      exchangeFills := [(deliver 1 .buy 10 100 0).delivery.fill] }]

/-- The venue's fill is polled and applied to nothing; nor is the second fill of a batch whose first
fill halts the engine. -/
theorem fills_not_applied :
    let shadow := final step (init { plainExits with shadow := true }) shadowRun
    let halted := final step (init plainExits) lostFillRun
    let venue := (deliver 1 .buy 10 100 0).delivery.fill
    let first := (deliver 1 .buy 4 100 6).delivery.fill
    let second := (deliver 1 .buy 6 100 0).delivery.fill
    (Act.pollExchange [venue] ∈ shadow.acts ∧
      ∀ receiver, appliedFills receiver shadow.acts = []) ∧
    (Act.poll [(first, true), (second, false)] ∈ halted.acts ∧
      ∀ receiver, appliedFills receiver halted.acts = [first.bare]) := by
  refine ⟨⟨?_, ?_⟩, ?_, ?_⟩
  · exact .tail _ (.tail _ (.tail _ (.tail _ (.tail _ (.tail _ (.tail _ (.head _)))))))
  · rintro (_ | _) <;> rfl
  · exact .tail _ (.tail _ (.tail _ (.tail _ (.tail _ (.head _)))))
  · rintro ((_ | _ | _) | _) <;> rfl

end Engine

end TrueTest
