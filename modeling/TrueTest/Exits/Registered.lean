import TrueTest.Exits.Armed

/-!
# Registered openers

The openers for which the manager holds an intent, pending or armed. Only `register_pending` adds
one; a fill moves the opener's intents from pending to armed, and everything else drops intents.
-/

namespace TrueTest.ExitManager

open Machine List

/-- The openers with a pending or an armed intent. -/
def registered (m : ExitManager) : List Nat := m.pending.map Prod.fst ++ m.armed.map Prod.fst

variable {m m₁ m₂ : ExitManager}

def NoNew (m m' : ExitManager) : Prop := ∀ id ∈ m'.registered, id ∈ m.registered

theorem NoNew.trans (h₁ : NoNew m m₁) (h₂ : NoNew m₁ m₂) : NoNew m m₂ :=
  fun id hid => h₁ id (h₂ id hid)

theorem noNew_of_keys (hpending : ∀ id ∈ m₁.pending.map Prod.fst, id ∈ m.registered)
    (harmed : ∀ id ∈ m₁.armed.map Prod.fst, id ∈ m.registered) : NoNew m m₁ :=
  fun id hid => (mem_append.1 hid).elim (hpending id) (harmed id)

theorem mem_registered_of_pending {e : Nat × ExitIntent} (he : e ∈ m.pending) :
    e.1 ∈ m.registered :=
  mem_append_left _ (mem_map_of_mem he)

theorem mem_registered_of_armed {e : Nat × ArmedIntent} (he : e ∈ m.armed) : e.1 ∈ m.registered :=
  mem_append_right _ (mem_map_of_mem he)

theorem Drops.noNew {ids : List Nat} (h : Drops ids m m₁) : NoNew m m₁ := by
  refine noNew_of_keys (fun id hid => ?_) fun id hid => ?_
  · obtain ⟨e, he, rfl⟩ := mem_map.1 hid
    exact mem_registered_of_pending (h.pending e he)
  · obtain ⟨e, he, rfl⟩ := mem_map.1 hid
    exact mem_registered_of_armed (h.armed e he)

section

variable (f : FillEvent) (placed : BracketHandles) (order : IterationOrder (Nat × ExitIntent))

/-- A fill of an opener leaves none of its intents pending. -/
theorem openerFill_pending :
    (m.openerFill f placed order).pending = dropOpener m.pending f.orderId := by
  have hperm := order.perm (entriesOf m.pending f.orderId)
  rw [openerFill]
  cases hrun : order.run (entriesOf m.pending f.orderId) with
  | nil =>
    rw [hrun] at hperm
    have hnone : ∀ e ∈ m.pending, e.1 ≠ f.orderId := by
      intro e he hkey
      have hmem : e ∈ entriesOf m.pending f.orderId := mem_filter.2 ⟨he, by simpa using hkey⟩
      rw [← hperm.nil_eq] at hmem
      cases hmem
    have hdrop : dropOpener m.pending f.orderId = m.pending :=
      filter_eq_self.2 fun e he => by simpa using hnone e he
    rw [hdrop]
    rfl
  | cons first rest =>
    dsimp only
    split
    · rw [recordPlaced]
      split <;> rfl
    · rfl

theorem noNew_openerFill : NoNew m (m.openerFill f placed order) := by
  refine noNew_of_keys (fun id hid => ?_) fun id hid => ?_
  · obtain ⟨e, he, rfl⟩ := mem_map.1 hid
    rw [openerFill_pending] at he
    exact mem_registered_of_pending (mem_filter.1 he).1
  · obtain ⟨e, he, rfl⟩ := mem_map.1 hid
    rw [openerFill_armed] at he
    split at he
    · obtain ⟨x, hx, rfl⟩ := mem_map.1 he
      have hkey : (if x.1 = f.orderId then (x.1, x.2.grow f) else x).1 = x.1 := by split <;> rfl
      rw [hkey]
      exact mem_registered_of_armed hx
    · rcases mem_append.1 he with he | he
      · exact mem_registered_of_armed he
      · obtain ⟨x, hx, rfl⟩ := mem_map.1 he
        exact mem_registered_of_pending (mem_filter.1 ((order.perm _).mem_iff.1 hx)).1

end

theorem fire_pending (m : ExitManager) (ts : Int) (price : ℚ) (opener : Nat) (ai : ArmedIntent)
    (others : List (Nat × ArmedIntent)) :
    (m.fire ts price opener ai others).2.pending = m.pending := by
  have hrelease :
      ∀ (m₁ : ExitManager) (id : Nat), (m₁.releaseVenueBracket id).pending = m₁.pending := by
    intro m₁ id
    unfold releaseVenueBracket
    cases m₁.handles.lookup id <;> rfl
  have hconsume : (m.consumeOpenerQty opener ai.intent.qty).2.pending = m.pending := by
    unfold consumeOpenerQty
    split
    · cases m.openerRemainingQty.lookup opener <;> rfl
    · rfl
  unfold fire
  dsimp only
  split
  · split
    · simp only [hrelease, untrackOpener, hconsume]
    · simp only [hrelease, hconsume]
  · split
    · simp only [hrelease, untrackOpener, hconsume]
    · exact hconsume

section

variable (probe : ArmedIntent → ArmedIntent × Option ℚ) (symbol : String) (ts : Int)

theorem evaluate_pending (kept rest : List (Nat × ArmedIntent)) (m : ExitManager) :
    (evaluate probe symbol ts kept rest m).2.pending = m.pending :=
  evaluate_induction probe symbol ts (motive := fun _ _ m r => r.2.pending = m.pending)
    (fun _ _ => rfl) (fun _ _ _ _ _ _ _ _ _ ih => ih)
    (fun _ _ _ _ _ _ _ _ _ ih => ih.trans (fire_pending _ _ _ _ _ _)) kept rest m

theorem noNew_evaluate (order : IterationOrder (Nat × ArmedIntent)) :
    NoNew m (evaluate probe symbol ts [] (order.run m.armed) m).2 := by
  refine noNew_of_keys (fun id hid => ?_) fun id hid => ?_
  · rw [evaluate_pending] at hid
    exact mem_append_left _ hid
  · obtain ⟨e, he, rfl⟩ := mem_map.1 hid
    rw [evaluate_armed, nil_append] at he
    obtain ⟨e, hkept, rfl⟩ := mem_map.1 he
    have hmem := (order.perm m.armed).mem_iff.1 (mem_filter.1 hkept).1
    exact mem_append_right _ (mem_map.2 ⟨e, hmem, rfl⟩)

end

/-- Only `register_pending` adds an opener. -/
theorem noNew_call {op : Op} (h : ∀ intent, op ≠ .register intent) : NoNew m (m.call op).2 := by
  have hself : NoNew m m := fun _ hid => hid
  cases op with
  | register intent => exact absurd rfl (h intent)
  | fill f opener placed order =>
    show NoNew m (m.onFill f opener placed order)
    unfold onFill
    split
    · exact (drops_closerFill m f opener).noNew
    · exact noNew_openerFill f placed order
  | price symbol px ts order =>
    show NoNew m (m.onPrice symbol px ts order).2
    unfold onPrice
    split
    · exact hself
    · exact noNew_evaluate _ symbol ts order
  | bar symbol open_ low high close ts order =>
    show NoNew m (m.onBar symbol open_ low high close ts order).2
    unfold onBar
    split
    · exact hself
    · exact noNew_evaluate _ symbol ts order
  | cancel opener => exact (drops_cancel m opener).noNew
  | cancelStrategy strategyName symbol => exact (drops_cancelStrategy m strategyName symbol).noNew

theorem registered_registerPending (intent : ExitIntent) :
    ∀ id ∈ (m.registerPending intent).registered, id ∈ m.registered ∨
      id = intent.openerOrderId := by
  intro id hid
  unfold registerPending at hid
  split at hid
  · exact .inl hid
  · simp only [registered, map_append, map_cons, map_nil, mem_append, mem_singleton] at hid ⊢
    tauto

end TrueTest.ExitManager
