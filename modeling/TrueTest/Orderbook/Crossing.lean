import TrueTest.Orderbook.Reference

/-!
# Crossed books

`add_order` and `match_order` leave the best bid below the best ask and nothing aggressive
resting. `modify_order` puts the changed order back on its level without matching it, so a new
price that reaches the other side leaves a crossed book. `execute_sound_iff` says that this is the
only way.
-/

namespace TrueTest.Orderbook

open Arrival Reference List Machine

variable {ob : Orderbook} {os : List Order}

/-- The best bid is below the best ask, and no fill-or-kill or immediate-or-cancel rests. -/
structure Sound (ob : Orderbook) : Prop where
  uncrossed : ∀ bid ask, ob.bidLevels.head? = some bid → ob.askLevels.head? = some ask →
    bid.price < ask.price
  gtc : ∀ n ∈ ob.queuedNodes, (ob.orderOf n).orderType = .goodTillCancel

theorem sound_iff_all : Sound ob ↔
    (ob.bidLevels.head?.all fun bid => ob.askLevels.head?.all fun ask => bid.price < ask.price) ∧
      ∀ n ∈ ob.queuedNodes, (ob.orderOf n).orderType = .goodTillCancel := by
  constructor
  · intro h
    refine ⟨?_, h.gtc⟩
    cases hbid : ob.bidLevels.head? with
    | none => rfl
    | some bid =>
      cases hask : ob.askLevels.head? with
      | none => rfl
      | some ask => exact decide_eq_true (h.uncrossed bid ask hbid hask)
  · intro ⟨hall, hgtc⟩
    refine ⟨fun bid ask hbid hask => ?_, hgtc⟩
    rw [hbid, hask] at hall
    exact of_decide_eq_true hall

instance : Decidable (Sound ob) := decidable_of_iff _ sound_iff_all.symm

/-- A modified order that is live does not reach the other side at its new price. -/
def StaysBehind (ob : Orderbook) : Command → Prop
  | .modify id price _ => ∀ n, ob.orderMap.lookup id = some n →
      ob.canMatch (ob.orderOf n).side price = false
  | .request _ => True

instance (ob : Orderbook) : (c : Command) → Decidable (StaysBehind ob c)
  | .modify id price _ =>
    match h : ob.orderMap.lookup id with
    | none => isTrue fun n hn => by rw [h] at hn; cases hn
    | some n => decidable_of_iff (ob.canMatch (ob.orderOf n).side price = false)
        ⟨fun hc m hm => by rw [h] at hm; cases hm; exact hc, fun hc => hc n h⟩
  | .request _ => isTrue trivial

/-! ## Soundness on the arrival list -/

theorem Rep.uncrossed_iff {L F : List Nat} (h : Rep ob L F) :
    (∀ bid ask, ob.bidLevels.head? = some bid → ob.askLevels.head? = some ask →
      bid.price < ask.price) ↔ Uncrossed (L.map ob.orderOf) := by
  have hbuy : ob.bidLevels = ob.levels .buy := rfl
  have hsell : ob.askLevels = ob.levels .sell := rfl
  rw [← matchStep_eq_none_iff, Arrival.matchStep, hbuy, hsell]
  cases hbl : ob.levels .buy with
  | nil => rw [h.best_eq_none hbl]; simp
  | cons bid bidRest =>
    cases hal : ob.levels .sell with
    | nil => rw [h.best_eq_none hal]; cases best .buy (L.map ob.orderOf) <;> simp
    | cons ask askRest =>
      obtain ⟨b, -, hb, hbbest⟩ := h.front hbl
      obtain ⟨a, -, ha, habest⟩ := h.front hal
      rw [hbbest, habest]
      dsimp only
      rw [(mem_queueAt.1 hb).2.2, (mem_queueAt.1 ha).2.2]
      by_cases hlt : bid.price < ask.price <;> simp [hlt]

theorem Models.sound_iff (h : Models ob os) : Sound ob ↔ Quiet os := by
  obtain ⟨P, ⟨L, F, hrep, rfl⟩, rfl⟩ := h
  rw [map_orders_ptrOf]
  have hgtc : (∀ n ∈ ob.queuedNodes, (ob.orderOf n).orderType = .goodTillCancel) ↔
      ∀ o ∈ L.map ob.orderOf, o.orderType = .goodTillCancel := by
    rw [forall_mem_map]
    exact forall_congr' fun n => by rw [hrep.perm_queuedNodes.mem_iff]
  constructor
  · intro hs
    exact ⟨hrep.uncrossed_iff.1 hs.uncrossed, hgtc.1 hs.gtc⟩
  · intro hq
    exact ⟨hrep.uncrossed_iff.2 hq.uncrossed, hgtc.2 hq.gtc⟩

/-! ## Modifying -/

/-- The order with a given id is the only one. -/
theorem eq_of_orderId_eq (hids : IdsNodup os) {x y : Order} (hx : x ∈ os) (hy : y ∈ os)
    (he : x.orderId = y.orderId) : x = y :=
  inj_on_of_nodup_map hids hx hy he

/-- A modified order is quiet at its new price exactly when it does not reach the other side. -/
theorem quiet_modifyOrder_iff (hids : IdsNodup os) (hquiet : Quiet os) {id qty : Nat}
    {price : Int} {o : Order} (ho : lookup id os = some o) :
    Quiet (Arrival.modifyOrder id price qty os) ↔ Arrival.canMatch o.side price os = false := by
  obtain ⟨homem, hoid⟩ := lookup_mem ho
  rw [Arrival.modifyOrder, ho]
  set new := Order.new o.orderType id o.side price qty
  -- The other side does not hold the cancelled order.
  have hcontra : ∀ x ∈ os, x.side = o.side.contra → x ∈ cancel id os := by
    intro x hx hxs
    refine mem_filter.2 ⟨hx, decide_eq_true fun he => ?_⟩
    have hxo := eq_of_orderId_eq hids hx homem (he.trans hoid.symm)
    rw [hxo] at hxs
    exact Side.contra_ne _ hxs.symm
  have hcan : Arrival.canMatch o.side price (cancel id os) = false ↔
      Arrival.canMatch o.side price os = false := by
    rw [canMatch_eq_false_iff, canMatch_eq_false_iff]
    constructor
    · exact fun h x hx hxs => h x (hcontra x hx hxs) hxs
    · exact fun h x hx hxs => h x (mem_filter.1 hx).1 hxs
  rw [← hcan]
  constructor
  · intro hq
    refine canMatch_eq_false_iff.2 fun x hx hxs hc => ?_
    have hx' : x ∈ cancel id os ++ [new] := mem_append_left _ hx
    have hnew : new ∈ cancel id os ++ [new] := by simp
    cases hs : o.side with
    | buy =>
      rw [hs] at hxs hc
      have hlt := hq.uncrossed new hnew x hx' hs hxs
      exact absurd hc (Int.not_le.2 hlt)
    | sell =>
      rw [hs] at hxs hc
      have hlt := hq.uncrossed x hx' new hnew hxs hs
      exact absurd hc (Int.not_le.2 hlt)
  · intro hc
    exact ⟨Uncrossed.append hquiet.cancel.uncrossed hc,
      forall_mem_append.2 ⟨hquiet.cancel.gtc, forall_mem_singleton.2 (hquiet.gtc o homem)⟩⟩

/-- From a sound book, a command leads to a sound book exactly when it stays behind the other
side. -/
theorem Agrees.sound_execute_iff (h : Agrees ob os) (c : Command) :
    Sound (ob.execute c).2 ↔ StaysBehind ob c := by
  obtain ⟨hm, hq⟩ := h
  rw [(hm.execute c).2.sound_iff]
  cases c with
  | request r => exact iff_of_true (quiet_handle hq r) trivial
  | modify id price qty =>
    obtain ⟨P, ⟨L, F, hrep, rfl⟩, rfl⟩ := hm
    have hholds : Holds ob (L.map ob.ptrOf) := ⟨L, F, hrep, rfl⟩
    show Quiet (Arrival.modifyOrder id price qty _) ↔ ∀ n, _ → _
    cases hn : ob.orderMap.lookup id with
    | none =>
      rw [Arrival.modifyOrder, lookup_eq_none_iff.2 (hholds.lookup_eq_none.1 hn)]
      exact iff_of_true hq fun n hc => by cases hc
    | some n =>
      rw [quiet_modifyOrder_iff hholds.idsNodup hq (hholds.lookup_eq_some hn), map_orders_ptrOf,
        ← hrep.canMatch]
      constructor
      · rintro hc m hm
        cases hm
        exact hc
      · exact fun hc => hc n rfl

/-- **A run of commands passes through sound books only, exactly when every modified order stays
behind the other side.** -/
theorem execute_sound_iff (cs : List Command) :
    (∀ ob ∈ states execute init cs, Sound ob) ↔
      Along execute StaysBehind init cs := by
  have hinit : Agrees init [] := ⟨models_init, quiet_nil⟩
  generalize init = ob at hinit ⊢
  generalize ([] : List Order) = os at hinit
  induction cs generalizing ob os with
  | nil =>
    refine iff_of_true (fun ob' hob' => ?_) trivial
    rw [mem_singleton.1 hob']
    exact hinit.1.sound_iff.2 hinit.2
  | cons c cs ih =>
    have hstep := hinit.sound_execute_iff c
    have hnext := (hinit.1.execute c).2
    rw [states, Along, forall_mem_cons, ← hstep]
    constructor
    · rintro ⟨-, hall⟩
      have hsound : Sound (ob.execute c).2 := hall _ (start_mem_states _ _)
      exact ⟨hsound, (ih _ _ ⟨hnext, hnext.sound_iff.1 hsound⟩).1 hall⟩
    · rintro ⟨hsound, hal⟩
      exact ⟨hinit.1.sound_iff.2 hinit.2, (ih _ _ ⟨hnext, hnext.sound_iff.1 hsound⟩).2 hal⟩

/-- A bid, an ask above it, and the bid moved past the ask. -/
def crossingRun : List Command :=
  [.request (.add .goodTillCancel 1 .buy 10 5), .request (.add .goodTillCancel 2 .sell 20 5),
    .modify 1 25 5]

/-- The bid at 25 rests above the ask at 20. -/
theorem not_sound_of_crossingRun :
    ¬ ∀ ob ∈ states execute init crossingRun, Sound ob := by
  intro h
  have hlast := h _ (final_mem_states init crossingRun)
  have hlt := hlast.uncrossed ((final execute init crossingRun).bidLevels.headD (.new 0))
    ((final execute init crossingRun).askLevels.headD (.new 0)) (by decide +kernel)
    (by decide +kernel)
  exact absurd hlt (by decide +kernel)

end TrueTest.Orderbook
