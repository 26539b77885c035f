import TrueTest.Exits.Registered
import TrueTest.Exits.Rehydrate

/-!
# Brackets at the venue

What the exit manager keeps of the orders that its bracket adapter placed: their handles per opener,
a reverse map from the venue's order ids to openers, and the cancels it sent. This part of the
manager (`VenueBook`) moves in two ways only. A placement, or a bracket found after a restart, is
stored (`place`), and `release_venue_bracket` drops one and has the adapter cancel it (`release`).
The lemmas `venue_*` say which of the two an operation of the manager makes.

`Tidy` relates the venue's part to the placements made so far and to the openers with an armed
intent. An intent leaves the armed ones together with its opener's handles or leaves another intent
behind, so that the handles are always covered.

A run (`VenueRun`) remembers the placements and the openers that were filled. Its steps are those
that register an opener's intents before its first fill and in which the venue never uses an order
id twice.
-/

namespace TrueTest

open Machine List

/-- The ids under which the venue reports fills of a bracket. -/
def BracketHandles.ids (h : BracketHandles) : List String :=
  h.slExchangeId.toList ++ h.tpExchangeId.toList

/-- An opener and what the adapter returned for it. -/
abbrev Placement := Nat × BracketHandles

/-! ## The venue's part of the manager -/

structure VenueBook where
  hasAdapter : Bool
  handles : AList fun _ : Nat => BracketHandles
  legs : AList fun _ : String => ExchangeLeg
  cancels : List Placement

variable (v : VenueBook) (f : FillEvent) {opener : Nat} {h : BracketHandles}

namespace VenueBook

open ExitManager

/-- Drop an opener's orders and cancel them. -/
def release (v : VenueBook) (opener : Nat) : VenueBook :=
  match v.handles.lookup opener with
  | none => v
  | some h =>
    { v with
      handles := v.handles.erase opener
      legs := eraseLeg (eraseLeg v.legs h.slExchangeId) h.tpExchangeId
      cancels := if v.hasAdapter then v.cancels ++ [(opener, h)] else v.cancels }

def place (v : VenueBook) (opener : Nat) (strategyName : String) (h : BracketHandles) : VenueBook :=
  let leg : ExchangeLeg := ⟨opener, strategyName⟩
  { v with
    legs := emplaceLeg (emplaceLeg v.legs h.slExchangeId leg) h.tpExchangeId leg
    handles := if (v.handles.lookup opener).isSome then v.handles else v.handles.insert opener h }

section

variable (legs : AList fun _ : String => ExchangeLeg) (key : Option String)

theorem lookup_eraseLeg (id : String) :
    (eraseLeg legs key).lookup id = if id ∈ key.toList then none else legs.lookup id := by
  cases key with
  | none => rfl
  | some k => simp [eraseLeg, AList.lookup_erase_eq]

theorem lookup_emplaceLeg (leg : ExchangeLeg) (id : String) : (emplaceLeg legs key leg).lookup id =
      if id ∈ key.toList then some ((legs.lookup id).getD leg) else legs.lookup id := by
  cases key with
  | none => rfl
  | some k =>
    rw [emplaceLeg]
    by_cases h : id = k
    · subst h
      cases hl : legs.lookup id <;> simp [hl]
    · have hmem : id ∉ (some k).toList := by simpa using h
      rw [if_neg hmem]
      split
      · rfl
      · rw [AList.lookup_insert_ne h]

end

theorem lookup_legs_release (hlook : v.handles.lookup opener = some h) (id : String) :
    (v.release opener).legs.lookup id = if id ∈ h.ids then none else v.legs.lookup id := by
  rw [release, hlook]
  simp only [lookup_eraseLeg, BracketHandles.ids, mem_append]
  split_ifs <;> tauto

/-- New ids get the leg. -/
theorem lookup_legs_place (hnew : ∀ id ∈ h.ids, v.legs.lookup id = none)
    (opener : Nat) (strategyName : String) (id : String) :
    (v.place opener strategyName h).legs.lookup id =
      if id ∈ h.ids then some ⟨opener, strategyName⟩ else v.legs.lookup id := by
  simp only [place, lookup_emplaceLeg]
  by_cases hid : id ∈ h.ids
  · rw [if_pos hid, hnew id hid]
    rcases mem_append.1 hid with hsl | htp
    · rw [if_pos hsl]
      split <;> rfl
    · rw [if_pos htp]
      split <;> rfl
  · have hsl : id ∉ h.slExchangeId.toList := fun hsl => hid (mem_append_left _ hsl)
    have htp : id ∉ h.tpExchangeId.toList := fun htp => hid (mem_append_right _ htp)
    rw [if_neg hid, if_neg htp, if_neg hsl]

theorem lookup_handles_release (opener o : Nat) :
    (v.release opener).handles.lookup o = if o = opener then none else v.handles.lookup o := by
  rw [release]
  cases hlook : v.handles.lookup opener with
  | none =>
    dsimp only
    split_ifs with ho
    · rw [ho, hlook]
    · rfl
  | some h => exact AList.lookup_erase_eq

theorem lookup_handles_place (hnew : v.handles.lookup opener = none)
    (strategyName : String) (h : BracketHandles) (o : Nat) :
    (v.place opener strategyName h).handles.lookup o =
      if o = opener then some h else v.handles.lookup o := by
  rw [place, hnew]
  exact AList.lookup_insert_eq

theorem release_of_none {v : VenueBook} (h : v.handles.lookup opener = none) :
    v.release opener = v := by
  rw [release, h]

@[simp] theorem release_release (opener : Nat) :
    (v.release opener).release opener = v.release opener :=
  release_of_none (by rw [lookup_handles_release, if_pos rfl])

/-! ## What is kept of the placements -/

/-- The venue's part after some placements, while some openers have an armed intent. -/
structure Tidy (placed : List Placement) (live : List Nat) (v : VenueBook) : Prop where
  adapter : v.hasAdapter = true ∨ placed = []
  openers : (placed.map Prod.fst).Nodup
  ids : (placed.flatMap fun p => p.2.ids).Nodup
  stored : ∀ o h, v.handles.lookup o = some h → (o, h) ∈ placed
  covered : ∀ o h, v.handles.lookup o = some h → o ∈ live
  legs : ∀ id o, (v.legs.lookup id).map ExchangeLeg.openerOrderId = some o ↔
    ∃ h, v.handles.lookup o = some h ∧ id ∈ h.ids
  once : v.cancels.Nodup
  cancels : ∀ p, p ∈ v.cancels ↔ p ∈ placed ∧ v.handles.lookup p.1 = none

namespace Tidy

variable {placed : List Placement} {live live' : List Nat} {v : VenueBook} {opener : Nat}
  {h : BracketHandles}

variable (ht : Tidy placed live v)
include ht

theorem mono (hsub : ∀ o ∈ live, o ∈ live') : Tidy placed live' v :=
  { ht with covered := fun o h hlook => hsub o (ht.covered o h hlook) }

/-- A venue id belongs to one placement. -/
theorem eq_of_id {p q : Placement} {id : String} (hp : p ∈ placed) (hq : q ∈ placed)
    (hidp : id ∈ p.2.ids) (hidq : id ∈ q.2.ids) : p = q := by
  by_contra hne
  have hsymm : Std.Symm (Function.onFun Disjoint fun p : Placement => p.2.ids) :=
    ⟨fun _ _ hd => hd.symm⟩
  have hdisjoint := (nodup_flatMap.1 ht.ids).2.forall hp hq hne
  exact hdisjoint hidp hidq

theorem release (hsub : ∀ o ∈ live, o ≠ opener → o ∈ live') :
    Tidy placed live' (v.release opener) := by
  cases hlook : v.handles.lookup opener with
  | none =>
    rw [release_of_none hlook]
    refine { ht with covered := fun o h ho => hsub o (ht.covered o h ho) ?_ }
    rintro rfl
    rw [hlook] at ho
    cases ho
  | some h =>
    have hmem := ht.stored opener h hlook
    have hadapter : v.hasAdapter = true :=
      ht.adapter.resolve_right (ne_nil_of_mem hmem)
    have hcancels : (v.release opener).cancels = v.cancels ++ [(opener, h)] := by
      rw [VenueBook.release, hlook]
      exact if_pos hadapter
    have hkept : ∀ o h', (v.release opener).handles.lookup o = some h' →
        o ≠ opener ∧ v.handles.lookup o = some h' := by
      intro o h' ho
      rw [lookup_handles_release] at ho
      split at ho
      · cases ho
      · next hne => exact ⟨hne, ho⟩
    refine ⟨.inl ?_, ht.openers, ht.ids, ?_, ?_, ?_, ?_, ?_⟩
    · rw [VenueBook.release, hlook]
      exact hadapter
    · exact fun o h' ho => ht.stored o h' (hkept o h' ho).2
    · exact fun o h' ho => hsub o (ht.covered o h' (hkept o h' ho).2) (hkept o h' ho).1
    · intro id o
      rw [lookup_legs_release v hlook]
      split
      -- the ids of what is dropped belong to no other placement
      · next hid =>
        refine ⟨fun hnone => (by cases hnone), ?_⟩
        rintro ⟨h', ho, hid'⟩
        obtain ⟨hne, ho⟩ := hkept o h' ho
        have heq := ht.eq_of_id (ht.stored o h' ho) hmem hid' hid
        exact absurd (congrArg Prod.fst heq) hne
      · next hid =>
        rw [ht.legs]
        constructor
        · rintro ⟨h', ho, hid'⟩
          have hne : o ≠ opener := by
            rintro rfl
            rw [hlook] at ho
            cases ho
            exact hid hid'
          exact ⟨h', by rwa [lookup_handles_release, if_neg hne], hid'⟩
        · rintro ⟨h', ho, hid'⟩
          exact ⟨h', (hkept o h' ho).2, hid'⟩
    · rw [hcancels]
      refine nodup_append.2 ⟨ht.once, nodup_singleton _, ?_⟩
      rintro p hp q hq rfl
      rw [mem_singleton.1 hq] at hp
      rw [((ht.cancels _).1 hp).2] at hlook
      cases hlook
    · intro p
      rw [hcancels, mem_append, ht.cancels, mem_singleton, lookup_handles_release]
      constructor
      · rintro (⟨hp, hnone⟩ | rfl)
        · exact ⟨hp, by rw [hnone, ite_self]⟩
        · exact ⟨hmem, if_pos rfl⟩
      · rintro ⟨hp, hnone⟩
        by_cases heq : p.1 = opener
        · exact .inr (inj_on_of_nodup_map ht.openers hp hmem heq)
        · rw [if_neg heq] at hnone
          exact .inl ⟨hp, hnone⟩

/-- A placement for a new opener under new ids. -/
theorem place (hadapter : v.hasAdapter = true) (hopener : opener ∉ placed.map Prod.fst)
    (hlive : opener ∈ live) (hnodup : h.ids.Nodup)
    (hids : ∀ id ∈ h.ids, id ∉ placed.flatMap fun p => p.2.ids) (strategyName : String) :
    Tidy (placed ++ [(opener, h)]) live (v.place opener strategyName h) := by
  have hnone : v.handles.lookup opener = none := by
    cases hlook : v.handles.lookup opener with
    | none => rfl
    | some h' => exact absurd (mem_map_of_mem (ht.stored opener h' hlook)) hopener
  have hnew : ∀ id ∈ h.ids, v.legs.lookup id = none := by
    intro id hid
    by_contra hsome
    obtain ⟨leg, hleg⟩ := Option.ne_none_iff_exists'.1 hsome
    obtain ⟨h', ho, hid'⟩ := (ht.legs id leg.openerOrderId).1 (by rw [hleg]; rfl)
    exact hids id hid (mem_flatMap.2 ⟨_, ht.stored _ h' ho, hid'⟩)
  have hkept : ∀ o h', (v.place opener strategyName h).handles.lookup o = some h' →
      (o = opener ∧ h' = h) ∨ (o ≠ opener ∧ v.handles.lookup o = some h') := by
    intro o h' ho
    rw [lookup_handles_place v hnone] at ho
    split at ho
    · next heq => exact .inl ⟨heq, (Option.some.inj ho).symm⟩
    · next hne => exact .inr ⟨hne, ho⟩
  refine ⟨.inl hadapter, ?_, ?_, ?_, ?_, ?_, ht.once, ?_⟩
  · rw [map_append, nodup_append]
    refine ⟨ht.openers, nodup_singleton _, ?_⟩
    rintro o ho o' ho' rfl
    rw [mem_singleton.1 ho'] at ho
    exact hopener ho
  · rw [flatMap_append, nodup_append]
    refine ⟨ht.ids, by simpa using hnodup, ?_⟩
    rintro id hid id' hid' rfl
    exact hids id (by simpa using hid') hid
  · intro o h' ho
    rcases hkept o h' ho with ⟨rfl, rfl⟩ | ⟨-, ho⟩
    · exact mem_append_right _ (mem_singleton_self _)
    · exact mem_append_left _ (ht.stored o h' ho)
  · intro o h' ho
    rcases hkept o h' ho with ⟨rfl, -⟩ | ⟨-, ho⟩
    · exact hlive
    · exact ht.covered o h' ho
  · intro id o
    rw [lookup_legs_place v hnew]
    constructor
    · intro hleg
      split at hleg
      · next hid =>
        cases hleg
        exact ⟨h, by rw [lookup_handles_place v hnone, if_pos rfl], hid⟩
      · obtain ⟨h', ho, hid'⟩ := (ht.legs id o).1 hleg
        have hne : o ≠ opener := by
          rintro rfl
          rw [hnone] at ho
          cases ho
        exact ⟨h', by rwa [lookup_handles_place v hnone, if_neg hne], hid'⟩
    · rintro ⟨h', ho, hid'⟩
      rcases hkept o h' ho with ⟨rfl, rfl⟩ | ⟨-, ho⟩
      · rw [if_pos hid']
        rfl
      · have hold : id ∉ h.ids := fun hid =>
          hids id hid (mem_flatMap.2 ⟨_, ht.stored o h' ho, hid'⟩)
        rw [if_neg hold]
        exact (ht.legs id o).2 ⟨h', ho, hid'⟩
  · intro p
    have hcancels : (v.place opener strategyName h).cancels = v.cancels := rfl
    rw [hcancels, ht.cancels, lookup_handles_place v hnone, mem_append, mem_singleton]
    constructor
    · rintro ⟨hp, hgone⟩
      have hne : p.1 ≠ opener := fun heq => hopener (heq ▸ mem_map_of_mem hp)
      exact ⟨.inl hp, by rwa [if_neg hne]⟩
    · rintro ⟨hp | rfl, hgone⟩
      · have hne : p.1 ≠ opener := fun heq => hopener (heq ▸ mem_map_of_mem hp)
        rw [if_neg hne] at hgone
        exact ⟨hp, hgone⟩
      · rw [if_pos rfl] at hgone
        cases hgone

end Tidy

end VenueBook

/-! ## The operations of the manager -/

namespace ExitManager

open VenueBook

variable {m : ExitManager}

def venue (m : ExitManager) : VenueBook where
  hasAdapter := m.hasBracketAdapter
  handles := m.handles
  legs := m.exchangeToLeg
  cancels := m.venueCancels

/-- The openers with an armed intent. -/
def live (m : ExitManager) : List Nat := m.armed.map Prod.fst

variable (m) (opener : Nat)

@[simp] theorem venue_releaseVenueBracket :
    (m.releaseVenueBracket opener).venue = m.venue.release opener := by
  have hhandles : m.venue.handles = m.handles := rfl
  rw [releaseVenueBracket, release, hhandles]
  cases m.handles.lookup opener <;> rfl

theorem venue_recordPlaced (first : ExitIntent) (h : BracketHandles) :
    (m.recordPlaced opener first h).venue =
      if h.empty then m.venue else m.venue.place opener first.strategyName h := by
  rw [recordPlaced]
  split <;> rfl

theorem venue_recover (now : Int) (rb : RecoveredBracket) :
    (m.recover now rb).venue = m.venue.place rb.openerOrderId rb.strategyName rb.handles := rfl

@[simp] theorem venue_forget : (m.forget opener).venue = m.venue := rfl

@[simp] theorem venue_registerPending (intent : ExitIntent) :
    (m.registerPending intent).venue = m.venue := by
  rw [registerPending]
  split <;> rfl

@[simp] theorem venue_cancel : (m.cancel opener).venue = m.venue.release opener := by
  rw [cancel, venue_releaseVenueBracket]
  split <;> rfl

@[simp] theorem venue_untrackOpener (strategyName symbol : String) :
    (m.untrackOpener opener strategyName symbol).venue = m.venue := rfl

theorem venue_consumeOpenerQty (requested : ℚ) :
    (m.consumeOpenerQty opener requested).2.venue = m.venue := by
  rw [consumeOpenerQty]
  split
  · cases m.openerRemainingQty.lookup opener <;> rfl
  · rfl

/-- An intent that fires takes its opener's venue orders along, or leaves another intent armed. -/
theorem venue_fire (ts : Int) (price : ℚ) (opener : Nat) (ai : ArmedIntent)
    (others : List (Nat × ArmedIntent)) :
    (m.fire ts price opener ai others).2.venue = m.venue.release opener ∨
      ((m.fire ts price opener ai others).2.venue = m.venue ∧ opener ∈ others.map Prod.fst) := by
  have hconsume := venue_consumeOpenerQty m opener ai.intent.qty
  rw [fire]
  generalize m.consumeOpenerQty opener ai.intent.qty = c at hconsume ⊢
  obtain ⟨qty, m₁⟩ := c
  dsimp only at hconsume ⊢
  have hother : ¬ (entriesOf others opener).isEmpty = true → opener ∈ others.map Prod.fst := by
    intro hne
    obtain ⟨e, he⟩ := exists_mem_of_ne_nil _ (fun hnil => hne (isEmpty_iff.2 hnil))
    obtain ⟨hmem, hkey⟩ := mem_filter.1 he
    exact mem_map.2 ⟨e, hmem, of_decide_eq_true hkey⟩
  have hflight : ∀ inFlight, { m₁ with openerCloseInFlightQty := inFlight }.venue = m.venue :=
    fun _ => hconsume
  have hleft : ∀ (m₂ : ExitManager) left, { m₂ with openerRemainingQty := left }.venue = m₂.venue :=
    fun _ _ => rfl
  split
  · left
    split
    · simp only [venue_releaseVenueBracket, venue_untrackOpener, hleft, hflight, release_release]
    · simp only [venue_releaseVenueBracket, hflight]
  · split
    · left
      simp only [venue_releaseVenueBracket, venue_untrackOpener, hconsume]
    · next hne => exact .inr ⟨hconsume, hother hne⟩

variable {m}

variable {placed : List Placement}

theorem tidy_evaluate (probe : ArmedIntent → ArmedIntent × Option ℚ) (symbol : String) (ts : Int)
    (kept rest : List (Nat × ArmedIntent)) (m : ExitManager)
    (h : Tidy placed ((kept ++ rest).map Prod.fst) m.venue) :
    Tidy placed (evaluate probe symbol ts kept rest m).2.live
      (evaluate probe symbol ts kept rest m).2.venue := by
  revert h
  refine evaluate_induction probe symbol ts
    (motive := fun kept rest m r => Tidy placed ((kept ++ rest).map Prod.fst) m.venue →
      Tidy placed r.2.live r.2.venue) ?_ ?_ ?_ kept rest m
  · intro kept m h
    rwa [append_nil] at h
  · intro kept rest m r opener ai ai' _ _ ih h
    refine ih (h.mono fun o ho => ?_)
    simpa using ho
  · intro kept rest m r opener ai price _ _ ih h
    refine ih ?_
    have hsplit : ∀ o ∈ (kept ++ (opener, ai) :: rest).map Prod.fst, o ≠ opener →
        o ∈ (kept ++ rest).map Prod.fst := by
      intro o ho hne
      simp only [map_append, map_cons, mem_append, mem_cons] at ho ⊢
      tauto
    rcases venue_fire m ts price opener (probe ai).1 (kept ++ rest) with hfire | ⟨hfire, hother⟩
    · rw [hfire]
      exact h.release hsplit
    · rw [hfire]
      refine h.mono fun o ho => ?_
      by_cases heq : o = opener
      · exact heq ▸ hother
      · exact hsplit o ho heq

variable (m)

theorem live_dropOpener {opener o : Nat} (ho : o ∈ m.live) (hne : o ≠ opener) :
    o ∈ (dropOpener m.armed opener).map Prod.fst := by
  obtain ⟨e, he, rfl⟩ := mem_map.1 ho
  exact mem_map_of_mem (mem_filter.2 ⟨he, by simpa using hne⟩)

@[simp] theorem armed_releaseVenueBracket : (m.releaseVenueBracket opener).armed = m.armed := by
  rw [releaseVenueBracket]
  cases m.handles.lookup opener <;> rfl

theorem live_cancel : (m.cancel opener).live = (dropOpener m.armed opener).map Prod.fst := by
  rw [live, cancel, armed_releaseVenueBracket]
  split <;> rfl

variable {m}

theorem tidy_cancel (h : Tidy placed m.live m.venue) :
    Tidy placed (m.cancel opener).live (m.cancel opener).venue := by
  rw [venue_cancel, live_cancel]
  exact h.release fun o ho hne => live_dropOpener m ho hne

theorem tidy_cancelStrategy (strategyName symbol : String) (h : Tidy placed m.live m.venue) :
    Tidy placed (m.cancelStrategy strategyName symbol).live
      (m.cancelStrategy strategyName symbol).venue := by
  refine foldlRecOn (motive := fun m : ExitManager => Tidy placed m.live m.venue) _ _ h
    fun m h id _ => ?_
  rw [venue_releaseVenueBracket, venue_forget, live, armed_releaseVenueBracket]
  exact h.release fun o ho hne => live_dropOpener m ho hne

theorem tidy_closerFill (opener : Nat) (h : Tidy placed m.live m.venue) :
    Tidy placed (m.closerFill f opener).live (m.closerFill f opener).venue := by
  obtain ⟨inFlight, -, heq⟩ := m.closerFill_eq f opener
  have hflight : Tidy placed { m with openerCloseInFlightQty := inFlight }.live
    { m with openerCloseInFlightQty := inFlight }.venue := h
  rw [heq]
  split
  · exact tidy_cancel opener hflight
  · exact hflight

/-- What a fill makes the adapter place. -/
def placedBy (m : ExitManager) (f : FillEvent) (placed : BracketHandles) : List Placement :=
  if m.hasBracketAdapter ∧ (entriesOf m.pending f.orderId).isEmpty = false ∧
      placed.empty = false then
    [(f.orderId, placed)]
  else []

variable (h : BracketHandles) (order : IterationOrder (Nat × ExitIntent))

theorem live_openerFill : ∀ o ∈ m.live, o ∈ (m.openerFill f h order).live := by
  intro o ho
  obtain ⟨e, he, rfl⟩ := mem_map.1 ho
  rw [live, openerFill_armed]
  split
  · refine mem_map.2 ⟨_, mem_map_of_mem he, ?_⟩
    split <;> rfl
  · exact mem_map_of_mem (mem_append_left _ he)

theorem mem_live_openerFill {f : FillEvent}
    (hpending : (entriesOf m.pending f.orderId).isEmpty = false) :
    f.orderId ∈ (m.openerFill f h order).live := by
  rw [live, openerFill_armed, hpending, if_neg Bool.false_ne_true]
  obtain ⟨e, he⟩ := exists_mem_of_ne_nil _ (isEmpty_eq_false_iff.1 hpending)
  have hkey : e.1 = f.orderId := of_decide_eq_true (mem_filter.1 he).2
  have hrun : e ∈ order.run (entriesOf m.pending f.orderId) := (order.perm _).mem_iff.2 he
  rw [map_append]
  refine mem_append_right _ (mem_map.2 ⟨_, mem_map_of_mem hrun, ?_⟩)
  exact hkey

theorem venue_openerFill :
    (m.placedBy f h = [] ∧ (m.openerFill f h order).venue = m.venue) ∨
      (m.placedBy f h = [(f.orderId, h)] ∧
        ∃ name, (m.openerFill f h order).venue = m.venue.place f.orderId name h) := by
  have hperm := order.perm (entriesOf m.pending f.orderId)
  rw [openerFill]
  cases hrun : order.run (entriesOf m.pending f.orderId) with
  | nil =>
    rw [hrun] at hperm
    refine .inl ⟨if_neg ?_, rfl⟩
    rw [← hperm.nil_eq]
    simp
  | cons first rest =>
    rw [hrun] at hperm
    have hpending : (entriesOf m.pending f.orderId).isEmpty = false := by
      rw [isEmpty_eq_false_iff]
      intro hnil
      rw [hnil] at hperm
      exact cons_ne_nil _ _ hperm.eq_nil
    dsimp only
    split
    · next hadapter =>
      have hadapter : m.hasBracketAdapter = true := hadapter
      rw [venue_recordPlaced]
      split
      · next hempty => exact .inl ⟨if_neg (by simp [hempty]), rfl⟩
      · next hempty => exact .inr ⟨if_pos ⟨hadapter, hpending, by simpa using hempty⟩, _, rfl⟩
    · next hadapter =>
      have hadapter : ¬ m.hasBracketAdapter = true := hadapter
      exact .inl ⟨if_neg fun hand => hadapter hand.1, rfl⟩

end ExitManager

/-! ## Runs -/

open ExitManager VenueBook

/-- Only a bracket with an opener and venue orders is taken. -/
def RecoveredBracket.placements (rb : RecoveredBracket) : List Placement :=
  if rb.openerOrderId = 0 then [] else if rb.handles.empty then []
  else [(rb.openerOrderId, rb.handles)]

/-- The manager, with the placements made so far and the openers filled so far. -/
structure VenueRun where
  manager : ExitManager
  placements : List Placement
  filled : List Nat

variable (r : VenueRun)

/-- An operation, or a bracket that is found at the venue after a restart. `reset` begins a new
run. -/
inductive VenueOp
  | op (op : Op)
  | rehydrate (now : Int) (rb : RecoveredBracket)

namespace VenueRun

def init (hasBracketAdapter : Bool) : VenueRun := ⟨ExitManager.init hasBracketAdapter, [], []⟩

/-- What an operation places, and whose opener it fills. -/
def effects (m : ExitManager) : VenueOp → List Placement × List Nat
  | .op (.fill f opener placed _) =>
    if isOpenerFill f opener then (m.placedBy f placed, [f.orderId]) else ([], [])
  | .op _ => ([], [])
  | .rehydrate _ rb => (rb.placements, rb.placements.map Prod.fst)

def call (m : ExitManager) : VenueOp → List OrderEvent × ExitManager
  | .op op => m.call op
  | .rehydrate now rb => ([], m.rehydrate now rb)

def step (op : VenueOp) : List OrderEvent × VenueRun :=
  ((call r.manager op).1,
    { manager := (call r.manager op).2
      placements := r.placements ++ (effects r.manager op).1
      filled := r.filled ++ (effects r.manager op).2 })

/-- The ids of a placement are distinct and were not used before. -/
def NewIds (p : Placement) : Prop :=
  p.2.ids.Nodup ∧ ∀ id ∈ p.2.ids, id ∉ r.placements.flatMap fun p => p.2.ids

/-- Intents are registered before the opener's first fill, and the venue's ids are distinct. A
bracket found at the venue has an adapter that found it, and an opener this run does not know. -/
def Allowed : VenueOp → Prop
  | .op (.register intent) => intent.openerOrderId ∉ r.filled
  | .op op => ∀ p ∈ (effects r.manager (.op op)).1, r.NewIds p
  | .rehydrate _ rb => ∀ p ∈ rb.placements, r.NewIds p ∧ r.manager.hasBracketAdapter = true ∧
      p.1 ∉ r.filled ∧ p.1 ∉ r.manager.pending.map Prod.fst

instance (p : Placement) : Decidable (r.NewIds p) :=
  inferInstanceAs (Decidable (p.2.ids.Nodup ∧ ∀ id ∈ p.2.ids,
    id ∉ r.placements.flatMap fun p => p.2.ids))

instance : (op : VenueOp) → Decidable (r.Allowed op)
  | .op (.register intent) => inferInstanceAs (Decidable (intent.openerOrderId ∉ r.filled))
  | .op (.fill f opener placed order) => inferInstanceAs
      (Decidable (∀ p ∈ (effects r.manager (.op (.fill f opener placed order))).1, r.NewIds p))
  | .op (.price ..) | .op (.bar ..) | .op (.cancel _) | .op (.cancelStrategy ..) =>
    isTrue fun _ hp => by cases hp
  | .rehydrate _ rb => inferInstanceAs (Decidable (∀ p ∈ rb.placements, r.NewIds p ∧
      r.manager.hasBracketAdapter = true ∧ p.1 ∉ r.filled ∧ p.1 ∉ r.manager.pending.map Prod.fst))

structure Sound (r : VenueRun) : Prop where
  tidy : Tidy r.placements r.manager.live r.manager.venue
  pending : ∀ e ∈ r.manager.pending, e.1 ∉ r.filled
  filled : ∀ p ∈ r.placements, p.1 ∈ r.filled

variable {r : VenueRun}

theorem sound_init (hasBracketAdapter : Bool) : (init hasBracketAdapter).Sound where
  tidy := {
    adapter := .inr rfl
    openers := nodup_nil
    ids := nodup_nil
    stored := fun _ _ h => by cases h
    covered := fun _ _ h => by cases h
    legs := fun id o => ⟨fun h => (by cases h), fun ⟨h, hh, _⟩ => by cases hh⟩
    once := nodup_nil
    cancels := fun p => ⟨fun h => (by cases h), fun h => by cases h.1⟩ }
  pending := fun _ he => by cases he
  filled := fun _ hp => by cases hp

/-- An operation that places nothing and fills no opener. -/
theorem Sound.quiet (h : r.Sound) {m : ExitManager} (htidy : Tidy r.placements m.live m.venue)
    (hpending : ∀ e ∈ m.pending, e ∈ r.manager.pending) :
    Sound ⟨m, r.placements ++ [], r.filled ++ []⟩ := by
  rw [append_nil, append_nil]
  exact ⟨htidy, fun e he => h.pending e (hpending e he), h.filled⟩

/-- A placement for an opener that was not filled before. -/
theorem Sound.place (h : r.Sound) {p : Placement} (hnew : r.NewIds p) (hfresh : p.1 ∉ r.filled)
    (hadapter : r.manager.hasBracketAdapter = true) {live : List Nat}
    (hlive : ∀ o ∈ r.manager.live, o ∈ live) (hmem : p.1 ∈ live) (name : String) :
    Tidy (r.placements ++ [p]) live (r.manager.venue.place p.1 name p.2) := by
  refine (h.tidy.mono hlive).place hadapter ?_ hmem hnew.1 hnew.2 name
  intro hold
  obtain ⟨q, hq, heq⟩ := mem_map.1 hold
  exact hfresh (heq ▸ h.filled q hq)

theorem Sound.register (h : r.Sound) {intent : ExitIntent}
    (hfresh : intent.openerOrderId ∉ r.filled) :
    (r.step (.op (.register intent))).2.Sound := by
  have hlive : (r.manager.registerPending intent).live = r.manager.live := by
    rw [registerPending]
    split <;> rfl
  have hpending : ∀ e ∈ (r.manager.registerPending intent).pending,
      e ∈ r.manager.pending ∨ e.1 = intent.openerOrderId := by
    intro e he
    rw [registerPending] at he
    split at he
    · exact .inl he
    · rcases mem_append.1 he with he | he
      · exact .inl he
      · exact .inr (congrArg Prod.fst (mem_singleton.1 he))
  simp only [step, call, effects, ExitManager.call, append_nil]
  refine ⟨?_, fun e he => ?_, h.filled⟩
  · rw [hlive, venue_registerPending]
    exact h.tidy
  · rcases hpending e he with he | heq
    · exact h.pending e he
    · rw [heq]
      exact hfresh

theorem Sound.openerFill (h : r.Sound) (f : FillEvent) (placed : BracketHandles)
    (order : IterationOrder (Nat × ExitIntent))
    (hids : ∀ p ∈ r.manager.placedBy f placed, r.NewIds p) :
    Sound ⟨r.manager.openerFill f placed order, r.placements ++ r.manager.placedBy f placed,
      r.filled ++ [f.orderId]⟩ := by
  refine ⟨?_, fun e he => ?_,
    forall_mem_append.2 ⟨fun p hp => mem_append_left _ (h.filled p hp), ?_⟩⟩
  · rcases venue_openerFill f placed order with ⟨hnone, hvenue⟩ | ⟨hone, name, hvenue⟩
    · rw [hnone, hvenue, append_nil]
      exact h.tidy.mono (live_openerFill f placed order)
    · rw [hone] at hids ⊢
      rw [hvenue]
      have hcond : r.manager.hasBracketAdapter ∧
          (entriesOf r.manager.pending f.orderId).isEmpty = false ∧ placed.empty = false := by
        by_contra hno
        rw [placedBy, if_neg hno] at hone
        cases hone
      obtain ⟨hadapter, hpending, -⟩ := hcond
      obtain ⟨e, he⟩ := exists_mem_of_ne_nil _ (isEmpty_eq_false_iff.1 hpending)
      obtain ⟨hmem, hkey⟩ := mem_filter.1 he
      have hfresh : f.orderId ∉ r.filled := of_decide_eq_true hkey ▸ h.pending e hmem
      exact h.place (hids _ (mem_singleton_self _)) hfresh hadapter
        (live_openerFill f placed order) (mem_live_openerFill placed order hpending) name
  · rw [openerFill_pending] at he
    obtain ⟨he, hne⟩ := mem_filter.1 he
    rw [mem_append, mem_singleton]
    rintro (hold | heq)
    · exact h.pending e he hold
    · exact of_decide_eq_true hne heq
  · rw [placedBy]
    split
    · exact forall_mem_singleton.2 (mem_append_right _ (mem_singleton_self _))
    · exact forall_mem_nil _

theorem Sound.evaluate (h : r.Sound) (probe : ArmedIntent → ArmedIntent × Option ℚ)
    (symbol : String) (ts : Int) (order : IterationOrder (Nat × ArmedIntent)) :
    Sound ⟨(evaluate probe symbol ts [] (order.run r.manager.armed) r.manager).2,
      r.placements ++ [], r.filled ++ []⟩ := by
  refine h.quiet ?_ fun e he => ?_
  · refine tidy_evaluate probe symbol ts [] _ _ (h.tidy.mono fun o ho => ?_)
    exact ((order.perm r.manager.armed).map Prod.fst).mem_iff.2 ho
  · rwa [evaluate_pending] at he

theorem Sound.rehydrate (h : r.Sound) (now : Int) {rb : RecoveredBracket}
    (hallowed : r.Allowed (.rehydrate now rb)) : (r.step (.rehydrate now rb)).2.Sound := by
  have hidle : rb.placements = [] → r.manager.rehydrate now rb = r.manager →
      (r.step (.rehydrate now rb)).2.Sound := by
    intro hnone hsame
    simp only [step, call, effects, hnone, hsame]
    exact h.quiet h.tidy fun e he => he
  by_cases hopener : rb.openerOrderId = 0
  · exact hidle (if_pos hopener) (if_pos hopener)
  by_cases hempty : rb.handles.empty = true
  · exact hidle (by rw [RecoveredBracket.placements, if_neg hopener, if_pos hempty])
      (by rw [ExitManager.rehydrate, if_neg hopener, if_pos hempty])
  have hplaced : rb.placements = [(rb.openerOrderId, rb.handles)] := by
    rw [RecoveredBracket.placements, if_neg hopener, if_neg hempty]
  have hrecover : r.manager.rehydrate now rb = r.manager.recover now rb := by
    rw [ExitManager.rehydrate, if_neg hopener, if_neg hempty]
  rw [Allowed, hplaced] at hallowed
  obtain ⟨hnew, hadapter, hfresh, hpending⟩ := hallowed _ (mem_singleton_self _)
  simp only [step, call, effects, hplaced, hrecover]
  refine ⟨?_, fun e he => ?_, forall_mem_append.2 ⟨fun p hp => mem_append_left _ (h.filled p hp),
    fun p hp => mem_append_right _ (mem_map_of_mem hp)⟩⟩
  · rw [venue_recover]
    refine h.place hnew hfresh hadapter (fun o ho => ?_) ?_ rb.strategyName
    · rw [live, recover, map_append]
      exact mem_append_left _ ho
    · rw [live, recover, map_append]
      exact mem_append_right _ (mem_singleton_self _)
  · rw [mem_append, map_singleton, mem_singleton]
    rintro (hold | heq)
    · exact h.pending e he hold
    · exact hpending (heq ▸ mem_map_of_mem he)

theorem step_sound (op : VenueOp) (h : r.Sound) (hallowed : r.Allowed op) :
    (r.step op).2.Sound := by
  have hidle : Sound ⟨r.manager, r.placements ++ [], r.filled ++ []⟩ :=
    h.quiet h.tidy fun e he => he
  cases op with
  | rehydrate now rb => exact h.rehydrate now hallowed
  | op op =>
    cases op with
    | register intent => exact h.register hallowed
    | fill f opener placed order =>
      simp only [Allowed, effects] at hallowed
      simp only [step, call, effects, ExitManager.call, onFill]
      by_cases hcloser : opener ≠ 0 ∧ opener ≠ f.orderId
      · have hopener : ¬ isOpenerFill f opener = true :=
          fun hopener => of_decide_eq_true hopener hcloser
        rw [if_pos hcloser, if_neg hopener]
        exact h.quiet (tidy_closerFill f opener h.tidy)
          (drops_closerFill r.manager f opener).pending
      · have hopener : isOpenerFill f opener = true := decide_eq_true hcloser
        rw [if_pos hopener] at hallowed
        rw [if_neg hcloser, if_pos hopener]
        exact h.openerFill f placed order hallowed
    | price symbol px ts order =>
      simp only [step, call, effects, ExitManager.call, onPrice]
      split
      · exact hidle
      · exact h.evaluate _ symbol ts order
    | bar symbol open_ low high close ts order =>
      simp only [step, call, effects, ExitManager.call, onBar]
      split
      · exact hidle
      · exact h.evaluate _ symbol ts order
    | cancel opener =>
      exact h.quiet (tidy_cancel opener h.tidy) (drops_cancel r.manager opener).pending
    | cancelStrategy strategyName symbol =>
      exact h.quiet (tidy_cancelStrategy strategyName symbol h.tidy)
        (drops_cancelStrategy r.manager strategyName symbol).pending

/-- **What the manager holds at the venue has an armed intent, its ids are the keys of the reverse
map, and the adapter cancels each placement once, when its opener is no longer held.** -/
theorem venue_consistent (hasBracketAdapter : Bool) (ops : List VenueOp)
    (hops : Along step Allowed (init hasBracketAdapter) ops) :
    ∀ r ∈ states step (init hasBracketAdapter) ops,
      (∀ o h, r.manager.handles.lookup o = some h → ∃ ai, (o, ai) ∈ r.manager.armed) ∧
      (∀ id o, (r.manager.exchangeToLeg.lookup id).map ExchangeLeg.openerOrderId = some o ↔
        ∃ h, r.manager.handles.lookup o = some h ∧ id ∈ h.ids) ∧
      (r.placements.map Prod.fst).Nodup ∧ r.manager.venueCancels.Nodup ∧
      ∀ p, p ∈ r.manager.venueCancels ↔ p ∈ r.placements ∧ r.manager.handles.lookup p.1 = none := by
  intro r hr
  obtain ⟨tidy, -, -⟩ :=
    invariant (fun _ op => step_sound op) (sound_init hasBracketAdapter) hops r hr
  refine ⟨fun o h hlook => ?_, tidy.legs, tidy.openers, tidy.once, tidy.cancels⟩
  obtain ⟨⟨_, ai⟩, he, rfl⟩ := mem_map.1 (tidy.covered o h hlook)
  exact ⟨ai, he⟩

/-- Two exits of opener 1, one of which is placed; another bracket is found at the venue. The stop
is reached, and with the first close the placement is cancelled. -/
def scaleOutAtVenue : List VenueOp :=
  [.rehydrate 0 { RecoveredBracket.blank with
      openerOrderId := 7, handles := ⟨some "a", none, none, ""⟩ },
    .op (.register (longIntent (1 / 2) (some 95) none)),
    .op (.register (longIntent 1 (some 90) none)),
    .op (.fill (openerFillEvent 10 100) 1 ⟨some "b", some "c", none, "BTC"⟩ .id),
    .op (.price "BTC" 94 1 .id)]

theorem venue_consistent_of_scaleOut :
    let r := final step (init true) scaleOutAtVenue
    r.manager.handles.keys = [7] ∧ r.manager.venueCancels.map Prod.fst = [1] ∧
      r.manager.armed.map Prod.fst = [7, 1] ∧ r.manager.venueCancels.Nodup := by
  have hops : Along step Allowed (init true) scaleOutAtVenue := by decide +kernel
  exact ⟨by decide +kernel, by decide +kernel, by decide +kernel,
    (venue_consistent true scaleOutAtVenue hops _ (final_mem_states _ _)).2.2.2.1⟩

end VenueRun

end TrueTest
