import TrueTest.Exits.Spare

/-!
# Brackets after a restart

`ExitManager::rehydrate`: at start the engine asks the bracket adapter for the brackets that still
rest at the venue and arms each of them again. A bracket comes back with what the adapter could
recover (`recovered_bracket` of `exits/bracket_adapter.h`). The manager closes no more than the
recovered quantity, which it takes both as the intent's quantity and as what remains of the opener.

`onPrice_rehydrated` says when such a bracket does its work: a price through the stop closes the
recovered quantity if that is positive.
-/

namespace TrueTest

open Machine List ArmedIntent

structure RecoveredBracket where
  openerOrderId : Nat
  strategyName : String
  symbol : String
  closeSide : OrderSide
  qty : ℚ
  entryPrice : ℚ
  stopLoss : Option ℚ
  takeProfit : Option ℚ
  handles : BracketHandles

namespace RecoveredBracket

/-- A value no field of which is set. -/
def blank : RecoveredBracket := ⟨0, "", "", .sell, 0, 0, none, none, ⟨none, none, none, ""⟩⟩

/-- The intent that is armed again; fields it does not name have their defaults. -/
def intent (rb : RecoveredBracket) : ExitIntent where
  symbol := rb.symbol
  closeSide := rb.closeSide
  qty := rb.qty
  qtyFraction := 1
  stopLoss := rb.stopLoss
  takeProfit := rb.takeProfit
  referenceEntry := none
  trailingPct := none
  deadline := none
  openerOrderId := rb.openerOrderId
  strategyName := rb.strategyName

def armed (rb : RecoveredBracket) (now : Int) : ArmedIntent :=
  ⟨rb.intent, rb.entryPrice, rb.entryPrice, now⟩

end RecoveredBracket

namespace ExitManager

/-- A recovered bracket is armed, and its venue orders are recorded. -/
def recover (m : ExitManager) (now : Int) (rb : RecoveredBracket) : ExitManager :=
  let leg : ExchangeLeg := ⟨rb.openerOrderId, rb.strategyName⟩
  { m with
    armed := m.armed ++ [(rb.openerOrderId, rb.armed now)]
    openerRemainingQty := m.openerRemainingQty.insert rb.openerOrderId rb.qty
    strategySymbolToOpeners := if rb.strategyName ≠ "" ∨ rb.symbol ≠ "" then
        m.strategySymbolToOpeners ++ [((rb.strategyName, rb.symbol), rb.openerOrderId)]
      else m.strategySymbolToOpeners
    exchangeToLeg :=
      emplaceLeg (emplaceLeg m.exchangeToLeg rb.handles.slExchangeId leg)
        rb.handles.tpExchangeId leg
    handles := if (m.handles.lookup rb.openerOrderId).isSome then m.handles
      else m.handles.insert rb.openerOrderId rb.handles }

/-- `rehydrate`. A bracket without an opener or without venue orders is not taken. -/
def rehydrate (now : Int) (m : ExitManager) (rb : RecoveredBracket) : ExitManager :=
  if rb.openerOrderId = 0 then m else if rb.handles.empty then m else m.recover now rb

/-- The engine's loop at start, on a fresh manager. -/
def restart (now : Int) (rbs : List RecoveredBracket) : ExitManager :=
  rbs.foldl (rehydrate now) (init true)

variable {now ts : Int} {m : ExitManager} {rb : RecoveredBracket} {rbs : List RecoveredBracket}
  {e : Nat × ArmedIntent} {opener : Nat} {ai : ArmedIntent} {price : ℚ}

/-! ## What is armed -/

theorem mem_armed_rehydrate (he : e ∈ (rehydrate now m rb).armed) :
    e ∈ m.armed ∨ e = (rb.openerOrderId, rb.armed now) := by
  rw [rehydrate] at he
  split_ifs at he
  · exact .inl he
  · exact .inl he
  · simpa [recover] using he

/-- Only recovered brackets are armed. -/
theorem mem_armed_restart (he : e ∈ (restart now rbs).armed) :
    ∃ rb ∈ rbs, e = (rb.openerOrderId, rb.armed now) := by
  refine foldlRecOn (motive := fun m : ExitManager => e ∈ m.armed → _) _ _
    (fun he => absurd he not_mem_nil) (fun m ih rb hrb he => ?_) he
  rcases mem_armed_rehydrate he with he | heq
  · exact ih he
  · exact ⟨rb, hrb, heq⟩

/-- The bracket is armed once, with all its quantity to close, and its venue orders are known. -/
structure Holds (now : Int) (m : ExitManager) (rb : RecoveredBracket) : Prop where
  armed : (rb.openerOrderId, rb.armed now) ∈ m.armed
  remaining : m.openerRemainingQty.lookup rb.openerOrderId = some rb.qty
  handles : m.handles.lookup rb.openerOrderId = some rb.handles

/-- A bracket the manager does not know is taken. -/
theorem holds_rehydrate (hopener : rb.openerOrderId ≠ 0) (hhandles : rb.handles.empty = false)
    (hnew : m.handles.lookup rb.openerOrderId = none) : Holds now (rehydrate now m rb) rb := by
  rw [rehydrate, if_neg hopener, if_neg (by simp [hhandles])]
  constructor <;> simp [recover, hnew]

theorem handles_rehydrate_of_ne {id : Nat} (h : id ≠ rb.openerOrderId) :
    (rehydrate now m rb).handles.lookup id = m.handles.lookup id := by
  rw [rehydrate]
  split_ifs
  · rfl
  · rfl
  · rw [recover]
    dsimp only
    split_ifs
    · rfl
    · exact AList.lookup_insert_ne h

/-- A bracket of another opener changes nothing for the ones that are held. -/
theorem Holds.rehydrate {other : RecoveredBracket} (h : Holds now m rb)
    (hne : rb.openerOrderId ≠ other.openerOrderId) : Holds now (rehydrate now m other) rb where
  armed := by
    rw [ExitManager.rehydrate]
    split_ifs
    · exact h.armed
    · exact h.armed
    · exact mem_append_left _ h.armed
  remaining := by
    rw [ExitManager.rehydrate]
    split_ifs
    · exact h.remaining
    · exact h.remaining
    · exact (AList.lookup_insert_ne hne).trans h.remaining
  handles := (handles_rehydrate_of_ne hne).trans h.handles

theorem Holds.foldl (h : Holds now m rb)
    (hne : ∀ other ∈ rbs, rb.openerOrderId ≠ other.openerOrderId) :
    Holds now (rbs.foldl (ExitManager.rehydrate now) m) rb := by
  induction rbs generalizing m with
  | nil => exact h
  | cons other rbs ih =>
    obtain ⟨hother, hne⟩ := forall_mem_cons.1 hne
    exact ih (h.rehydrate hother) hne

/-- After the loop every recovered bracket is held, if no two of them are of one opener. -/
theorem holds_foldl (hopeners : (rbs.map RecoveredBracket.openerOrderId).Nodup)
    (hvalid : ∀ rb ∈ rbs, rb.openerOrderId ≠ 0 ∧ rb.handles.empty = false)
    (hnew : ∀ rb ∈ rbs, m.handles.lookup rb.openerOrderId = none) :
    ∀ rb ∈ rbs, Holds now (rbs.foldl (rehydrate now) m) rb := by
  induction rbs generalizing m with
  | nil => exact fun _ hrb => absurd hrb not_mem_nil
  | cons first rbs ih =>
    rw [map_cons, nodup_cons] at hopeners
    obtain ⟨hfirst, hvalid⟩ := forall_mem_cons.1 hvalid
    obtain ⟨hunknown, hnew⟩ := forall_mem_cons.1 hnew
    have hne : ∀ other ∈ rbs, first.openerOrderId ≠ other.openerOrderId := fun other hother heq =>
      hopeners.1 (heq ▸ mem_map_of_mem hother)
    refine forall_mem_cons.2 ⟨(holds_rehydrate hfirst.1 hfirst.2 hunknown).foldl hne, ?_⟩
    refine ih hopeners.2 hvalid fun x hx => ?_
    rw [handles_rehydrate_of_ne (hne x hx).symm]
    exact hnew x hx

theorem holds_restart (hopeners : (rbs.map RecoveredBracket.openerOrderId).Nodup)
    (hvalid : ∀ rb ∈ rbs, rb.openerOrderId ≠ 0 ∧ rb.handles.empty = false) :
    ∀ rb ∈ rbs, Holds now (restart now rbs) rb := holds_foldl hopeners hvalid fun _ _ => rfl

/-! ## Firing -/

/-- A triggered intent closes all it asks for while that much remains. -/
theorem fire_of_remaining {others : List (Nat × ArmedIntent)} (hqty : 0 < ai.intent.qty)
    (hrem : m.openerRemainingQty.lookup opener = some ai.intent.qty) :
    (m.fire ts price opener ai others).1 = some (closeOrder ts opener ai ai.intent.qty price) := by
  rw [fire, consumeOpenerQty_of_some hqty hrem, min_self]
  simp only [if_pos hqty]

/-- In the loop, an intent that is triggered closes all it asks for, if that much remains of its
opener and no other intent of the loop is of that opener. -/
theorem evaluate_closes {probe : ArmedIntent → ArmedIntent × Option ℚ} {symbol : String}
    (hsymbol : ai.intent.symbol = symbol) (hprice : (probe ai).2 = some price)
    (hprobe : (probe ai).1.intent = ai.intent) (hqty : 0 < ai.intent.qty)
    (kept rest : List (Nat × ArmedIntent)) (m : ExitManager) (hmem : (opener, ai) ∈ rest)
    (honly : ∀ e ∈ rest, e.1 = opener → e = (opener, ai))
    (hrem : m.openerRemainingQty.lookup opener = some ai.intent.qty) :
    closeOrder ts opener (probe ai).1 ai.intent.qty price ∈
      (evaluate probe symbol ts kept rest m).1 := by
  refine evaluate_induction probe symbol ts
    (motive := fun _ rest m r => (opener, ai) ∈ rest →
      (∀ e ∈ rest, e.1 = opener → e = (opener, ai)) →
      m.openerRemainingQty.lookup opener = some ai.intent.qty →
      closeOrder ts opener (probe ai).1 ai.intent.qty price ∈ r.1)
    ?_ ?_ ?_ kept rest m hmem honly hrem
  · intro _ _ hmem
    cases hmem
  · -- The intent itself is not passed over.
    intro _ rest m r opener' ai' _ hidle _ ih hmem honly hrem
    rcases mem_cons.1 hmem with heq | hmem
    · obtain ⟨rfl, rfl⟩ := Prod.mk.inj heq
      simp [triggers, hsymbol, hprice] at hidle
    · exact ih hmem (fun e he => honly e (mem_cons_of_mem _ he)) hrem
  · intro kept rest m r opener' ai' price' _ hprice' ih hmem honly hrem
    by_cases heq : opener' = opener
    · have hself := honly (opener', ai') mem_cons_self heq
      obtain ⟨rfl, rfl⟩ := Prod.mk.inj hself
      obtain rfl : price' = price := Option.some.inj (hprice'.symm.trans hprice)
      rw [← hprobe] at hqty hrem
      rw [fire_of_remaining hqty hrem, hprobe]
      simp
    · rcases mem_cons.1 hmem with hself | hmem
      · exact absurd (Prod.mk.inj hself).1.symm heq
      · refine mem_append_right _ (ih hmem (fun e he => honly e (mem_cons_of_mem _ he)) ?_)
        rw [(fire_of_ne (Ne.symm heq)).1]
        exact hrem

end ExitManager

/-! ## A price through the stop -/

/-- The price has reached a stop. -/
def OrderSide.through (closeSide : OrderSide) (stop px : ℚ) : Prop :=
  match closeSide with
  | .sell => px ≤ stop
  | .buy => stop ≤ px

namespace RecoveredBracket

variable {rb : RecoveredBracket} {now ts : Int} {px stop : ℚ}

/-- A price that is seen does not change the intent, which has no trailing stop. -/
theorem probePrice_armed : ((rb.armed now).probePrice px ts).1.intent = rb.intent := by
  have hseen : ((rb.armed now).seen px).intent = rb.intent := by
    rw [seen]
    split <;> rfl
  have htrail : ((rb.armed now).seen px).trail = (rb.armed now).seen px := by
    rw [trail, hseen]
    rfl
  rw [probePrice]
  rw [htrail, hseen]

theorem probePrice_armed_price (hstop : rb.stopLoss = some stop)
    (hthrough : rb.closeSide.through stop px) :
    ((rb.armed now).probePrice px ts).2 = some px := by
  have hintent : ((rb.armed now).probePrice px ts).1.intent = rb.intent := probePrice_armed
  rw [probePrice] at hintent ⊢
  refine if_pos (.inl ?_)
  rw [stopHit, isLong, hintent]
  cases hside : rb.closeSide <;> simpa [intent, hstop, hside, OrderSide.through] using hthrough

end RecoveredBracket

namespace ExitManager

/-- **A price through the stop of a bracket that came back closes the quantity it came back with**,
in whatever order the armed intents are looked at. -/
theorem onPrice_rehydrated (now ts : Int) {rbs : List RecoveredBracket} {rb : RecoveredBracket}
    {px stop : ℚ} (hopeners : (rbs.map RecoveredBracket.openerOrderId).Nodup)
    (hvalid : ∀ rb ∈ rbs, rb.openerOrderId ≠ 0 ∧ rb.handles.empty = false) (hrb : rb ∈ rbs)
    (hqty : 0 < rb.qty) (hstop : rb.stopLoss = some stop) (hpx : 0 < px)
    (hthrough : rb.closeSide.through stop px) (order : IterationOrder (Nat × ArmedIntent)) :
    closeOrder ts rb.openerOrderId ((rb.armed now).probePrice px ts).1 rb.qty px ∈
      ((restart now rbs).onPrice rb.symbol px ts order).1 := by
  have hheld : Holds now _ rb := holds_restart hopeners hvalid rb hrb
  have hsome : (restart now rbs).armed.isEmpty = false :=
    isEmpty_eq_false_iff_exists_mem.2 ⟨_, hheld.armed⟩
  rw [onPrice, if_neg (by simp [hsome, hpx])]
  refine evaluate_closes rfl (RecoveredBracket.probePrice_armed_price hstop hthrough)
    RecoveredBracket.probePrice_armed hqty _ _ _ ((order.perm _).mem_iff.2 hheld.armed)
      ?_ hheld.remaining
  intro e he heq
  obtain ⟨rb', hrb', rfl⟩ := mem_armed_restart ((order.perm _).mem_iff.1 he)
  rw [inj_on_of_nodup_map hopeners hrb' hrb heq]

end ExitManager

end TrueTest
