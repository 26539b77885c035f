import TrueTest.Exits.ExitManager

/-!
# Closing no more than was filled

`consume_opener_qty` caps the closes of an opener by what remains of its fills. The cap is an entry
of a map, and it works while the entry is there: an opener that is flat loses its entry, and an
intent of that opener that is still armed then closes all it asks for. So a run stays within the
fills as long as every triggered intent finds the entry (`Reserved`).
-/

namespace TrueTest.ExitManager

open Machine List

variable {m m₁ m₂ m' : ExitManager} {opener id o : Nat} {ids : List Nat} {ai : ArmedIntent}
  {others : List (Nat × ArmedIntent)}

/-! ## Ending a bracket -/

def armedQty (entries : List (Nat × ArmedIntent)) (opener : Nat) : ℚ :=
  ((entriesOf entries opener).map fun e => e.2.intent.qty).sum

theorem entriesOf_dropOpener_of_ne {α : Type} (xs : List (Nat × α)) (h : id ≠ o) :
    entriesOf (dropOpener xs o) id = entriesOf xs id := by
  rw [entriesOf, dropOpener, filter_filter, entriesOf]
  refine filter_congr fun e _ => ?_
  by_cases he : e.1 = id
  · simp [he, h]
  · simp [he]

theorem armedQty_dropOpener_of_ne {entries : List (Nat × ArmedIntent)} (h : id ≠ o) :
    armedQty (dropOpener entries o) id = armedQty entries id := by
  rw [armedQty, entriesOf_dropOpener_of_ne entries h, armedQty]

@[simp] theorem releaseVenueBracket_remaining :
    (m.releaseVenueBracket opener).openerRemainingQty = m.openerRemainingQty := by
  unfold releaseVenueBracket
  cases m.handles.lookup opener <;> rfl

@[simp] theorem untrackOpener_remaining (name symbol : String) :
    (m.untrackOpener opener name symbol).openerRemainingQty = m.openerRemainingQty := rfl

/-- An entry that is there afterwards was there before. -/
def Shrinks (m m' : ExitManager) : Prop :=
  ∀ id rem, m'.openerRemainingQty.lookup id = some rem → m.openerRemainingQty.lookup id = some rem

theorem shrinks_of_eq (h : m'.openerRemainingQty = m.openerRemainingQty) : Shrinks m m' := by
  intro id rem hrem
  rwa [h] at hrem

theorem Shrinks.trans {m₁ m₂ m₃ : ExitManager} (h₁ : Shrinks m₁ m₂) (h₂ : Shrinks m₂ m₃) :
    Shrinks m₁ m₃ :=
  fun id rem h => h₁ id rem (h₂ id rem h)

theorem shrinks_forget (m : ExitManager) (opener : Nat) : Shrinks m (m.forget opener) := by
  intro id rem h
  by_cases hid : id = opener
  · subst hid
    simp [forget] at h
  · simpa [forget, hid] using h

/-- Nothing is kept that was not there, and all openers outside `ids` keep what they had. -/
structure Drops (ids : List Nat) (m m' : ExitManager) : Prop where
  pending : ∀ e ∈ m'.pending, e ∈ m.pending
  armed : ∀ e ∈ m'.armed, e ∈ m.armed
  remaining : Shrinks m m'
  owners : ∀ x ∈ m'.strategySymbolToOpeners, x ∈ m.strategySymbolToOpeners
  spared : ∀ id ∉ ids, armedQty m'.armed id = armedQty m.armed id ∧
    m'.openerRemainingQty.lookup id = m.openerRemainingQty.lookup id

theorem drops_of_eq (hpending : m'.pending = m.pending) (harmed : m'.armed = m.armed)
    (hrem : m'.openerRemainingQty = m.openerRemainingQty)
    (howners : ∀ x ∈ m'.strategySymbolToOpeners, x ∈ m.strategySymbolToOpeners) :
    Drops [] m m' where
  pending e he := hpending ▸ he
  armed e he := harmed ▸ he
  remaining := shrinks_of_eq hrem
  owners := howners
  spared id _ := by rw [harmed, hrem]; exact ⟨rfl, rfl⟩

theorem Drops.trans {ids' : List Nat} (h₁ : Drops ids m m₁) (h₂ : Drops ids' m₁ m₂) :
    Drops (ids ++ ids') m m₂ where
  pending e he := h₁.pending e (h₂.pending e he)
  armed e he := h₁.armed e (h₂.armed e he)
  remaining := h₁.remaining.trans h₂.remaining
  owners x hx := h₁.owners x (h₂.owners x hx)
  spared id hid := by
    rw [mem_append, not_or] at hid
    obtain ⟨ha₁, hr₁⟩ := h₁.spared id hid.1
    obtain ⟨ha₂, hr₂⟩ := h₂.spared id hid.2
    exact ⟨ha₂.trans ha₁, hr₂.trans hr₁⟩

variable (m) (f : FillEvent)

theorem drops_forget (opener : Nat) : Drops [opener] m (m.forget opener) where
  pending e he := (mem_filter.1 he).1
  armed e he := (mem_filter.1 he).1
  remaining := shrinks_forget m opener
  owners _ hx := hx
  spared id hid := by
    have hne : id ≠ opener := fun h => hid (mem_singleton.2 h)
    exact ⟨armedQty_dropOpener_of_ne hne, AList.lookup_erase_ne hne⟩

theorem drops_releaseVenueBracket (opener : Nat) : Drops [] m (m.releaseVenueBracket opener) := by
  unfold releaseVenueBracket
  cases m.handles.lookup opener with
  | none | some h => exact drops_of_eq rfl rfl rfl fun _ hx => hx

theorem drops_cancel (opener : Nat) : Drops [opener] m (m.cancel opener) := by
  have huntrack : ∀ m₁ (name symbol : String),
      Drops [] m₁ (m₁.untrackOpener opener name symbol) := fun m₁ name symbol =>
    drops_of_eq rfl rfl rfl fun _ hx => (mem_filter.1 hx).1
  unfold cancel
  dsimp only
  split
  · exact ((drops_forget m opener).trans (huntrack _ _ _)).trans
      (drops_releaseVenueBracket _ opener)
  · exact (drops_forget m opener).trans (drops_releaseVenueBracket _ opener)

/-- The openers that `cancel(strategy_name, symbol)` ends. -/
def openersOf (m : ExitManager) (strategyName symbol : String) : List Nat :=
  (m.strategySymbolToOpeners.filter fun e => e.1 = (strategyName, symbol)).map Prod.snd

theorem drops_cancelStrategy (strategyName symbol : String) :
    Drops (m.openersOf strategyName symbol) m (m.cancelStrategy strategyName symbol) := by
  have hloop : ∀ ids (m₁ : ExitManager),
      Drops ids m₁ (ids.foldl (fun m id => (m.forget id).releaseVenueBracket id) m₁) := by
    intro ids
    induction ids with
    | nil => exact fun m₁ => drops_of_eq rfl rfl rfl fun _ hx => hx
    | cons id ids ih =>
      intro m₁
      exact ((drops_forget m₁ id).trans (drops_releaseVenueBracket _ id)).trans (ih _)
  have howners : Drops [] m { m with strategySymbolToOpeners :=
      m.strategySymbolToOpeners.filter fun e => e.1 ≠ (strategyName, symbol) } :=
    drops_of_eq rfl rfl rfl fun x hx => (mem_filter.1 hx).1
  exact howners.trans (hloop (m.openersOf strategyName symbol) _)

/-- Whether a closer fill ends the bracket: it is more than the closes in flight account for, or
nothing is left of the opener. -/
def endsBracket (m : ExitManager) (f : FillEvent) (opener : Nat) : Bool :=
  let matched := match m.openerCloseInFlightQty.lookup opener with
    | some q => min f.filledQuantity q
    | none => 0
  dust < f.filledQuantity - matched ∨ m.isFlat opener

/-- What a closer fill leaves in flight. -/
def landed (inFlight : Option ℚ) (qty : ℚ) : Option ℚ :=
  inFlight.bind fun q => if q - min qty q ≤ dust then none else some (q - min qty q)

/-- A closer fill changes the quantity in flight, and cancels the bracket or leaves the rest. -/
theorem closerFill_eq (opener : Nat) : ∃ inFlight,
    (∀ id, inFlight.lookup id = if id = opener
      then landed (m.openerCloseInFlightQty.lookup opener) f.filledQuantity
      else m.openerCloseInFlightQty.lookup id) ∧
    m.closerFill f opener =
      if m.endsBracket f opener then { m with openerCloseInFlightQty := inFlight }.cancel opener
      else { m with openerCloseInFlightQty := inFlight } := by
  have hend (m₁ : ExitManager) (excess : ℚ) (hrem : m₁.openerRemainingQty = m.openerRemainingQty) :
      (if dust < excess then m₁.cancel opener
        else match m₁.openerRemainingQty.lookup opener with
          | some rem => if rem ≤ 0 then m₁.cancel opener else m₁
          | none => m₁.cancel opener) =
        if dust < excess ∨ m.isFlat opener then m₁.cancel opener else m₁ := by
    rw [hrem, isFlat]
    by_cases hexcess : dust < excess
    · simp [hexcess]
    · cases m.openerRemainingQty.lookup opener <;> simp [hexcess]
  simp only [closerFill, endsBracket, decide_eq_true_eq]
  cases hq : m.openerCloseInFlightQty.lookup opener with
  | none =>
    refine ⟨m.openerCloseInFlightQty, fun id => ?_, hend m _ rfl⟩
    split
    · next hid => rw [hid, hq, landed, Option.bind_none]
    · rfl
  | some q =>
    refine ⟨_, fun id => ?_, hend { m with openerCloseInFlightQty := _ } _ rfl⟩
    rw [landed, Option.bind_some]
    dsimp only
    by_cases hid : id = opener
    · subst hid
      split <;> simp
    · rw [if_neg hid]
      split
      · exact AList.lookup_erase_ne hid
      · exact AList.lookup_insert_ne hid

theorem drops_closerFill (opener : Nat) :
    Drops (if m.endsBracket f opener then [opener] else []) m (m.closerFill f opener) := by
  obtain ⟨inFlight, -, heq⟩ := m.closerFill_eq f opener
  have hflight : Drops [] m { m with openerCloseInFlightQty := inFlight } :=
    drops_of_eq rfl rfl rfl fun _ hx => hx
  rw [heq]
  split
  · exact hflight.trans (drops_cancel _ opener)
  · exact hflight

/-! ## Fills -/

theorem openerFill_remaining (placed : BracketHandles) (order : IterationOrder (Nat × ExitIntent)) :
    (m.openerFill f placed order).openerRemainingQty = m.openerRemainingQty.insert f.orderId
      ((m.openerRemainingQty.lookup f.orderId).getD 0 + f.filledQuantity) := by
  unfold openerFill
  cases order.run (entriesOf m.pending f.orderId) with
  | nil => rfl
  | cons first rest =>
    dsimp only
    split
    · unfold recordPlaced
      split <;> rfl
    · rfl

variable {m} {rest : List (Nat × ArmedIntent)} {ts : Int} {qty price rem : ℚ}

/-! ## Firing -/

/-- What is left of an entry from which `qty` was taken. -/
def leftover (rem qty : ℚ) : ℚ := if |rem - qty| < dust then 0 else rem - qty

theorem dust_pos : 0 < dust := by norm_num [dust]

theorem leftover_of_dust_le (h : dust ≤ rem - qty) : leftover rem qty = rem - qty :=
  if_neg (not_lt.2 (h.trans (le_abs_self _)))

/-- A triggered intent that asks for nothing changes no entry. -/
theorem fire_of_nonpos (hqty : ¬ 0 < ai.intent.qty) : (m.fire ts price opener ai others).1 = none ∧
      (m.fire ts price opener ai others).2.openerRemainingQty = m.openerRemainingQty := by
  unfold fire consumeOpenerQty
  rw [if_neg hqty]
  simp only [lt_self_iff_false, if_false, true_and]
  split <;> simp

theorem consumeOpenerQty_of_some (hqty : 0 < qty)
    (hrem : m.openerRemainingQty.lookup opener = some rem) :
    m.consumeOpenerQty opener qty = (min qty rem,
      { m with
        openerRemainingQty :=
          m.openerRemainingQty.insert opener (leftover rem (min qty rem)) }) := by
  rw [consumeOpenerQty, if_pos hqty, hrem]
  rfl

/-- A triggered intent changes no entry but its opener's, and closes nothing of another opener. -/
theorem fire_of_ne (hid : id ≠ opener) :
    (m.fire ts price opener ai others).2.openerRemainingQty.lookup id =
      m.openerRemainingQty.lookup id ∧
      closedQty (m.fire ts price opener ai others).1.toList id = 0 := by
  have hconsume : (m.consumeOpenerQty opener ai.intent.qty).2.openerRemainingQty.lookup id =
      m.openerRemainingQty.lookup id := by
    rw [consumeOpenerQty]
    split_ifs
    · cases m.openerRemainingQty.lookup opener <;> simp [hid]
    · rfl
  rw [fire]
  dsimp only
  split_ifs <;> simp [hconsume, hid, closedQty, closeOrder, OrderEvent.new, hid.symm]

/-- A triggered intent whose opener has an entry closes at most what the entry has. The entry stays
while something is left and another intent is armed. -/
theorem fire_of_some (hqty : 0 < ai.intent.qty)
    (hrem : m.openerRemainingQty.lookup opener = some rem) :
    closedQty (m.fire ts price opener ai others).1.toList opener = max 0 (min ai.intent.qty rem) ∧
    ((m.fire ts price opener ai others).2.openerRemainingQty.lookup opener = none ∨
      (m.fire ts price opener ai others).2.openerRemainingQty.lookup opener =
        some (leftover rem (min ai.intent.qty rem))) ∧
    (0 < leftover rem (min ai.intent.qty rem) → entriesOf others opener ≠ [] →
      (m.fire ts price opener ai others).2.openerRemainingQty.lookup opener =
        some (leftover rem (min ai.intent.qty rem))) := by
  set qty := min ai.intent.qty rem with hq
  unfold fire
  rw [consumeOpenerQty_of_some hqty hrem, ← hq]
  dsimp only
  by_cases hpos : 0 < qty
  · rw [if_pos hpos]
    refine ⟨?_, ?_, fun hleft hothers => ?_⟩
    · rw [max_eq_right hpos.le]
      simp [closedQty, closeOrder, OrderEvent.new]
    · split <;> simp
    · rw [if_neg]
      · simp
      · rintro (hflat | hlast)
        · simp [isFlat] at hflat
          exact absurd hflat (not_le.2 hleft)
        · exact hothers (isEmpty_iff.1 hlast)
  · rw [if_neg hpos]
    refine ⟨?_, ?_, fun _ _ => ?_⟩
    · rw [max_eq_left (not_lt.1 hpos)]
      simp [closedQty]
    · split <;> simp
    · split <;> simp

/-! ## Requests and reservations -/

section Loop

variable {probe : ArmedIntent → ArmedIntent × Option ℚ} {symbol : String} {ts : Int}
  {remaining : AList fun _ : Nat => ℚ} {B : Nat → ℚ} {ai : ArmedIntent} {opener : Nat}
  {rem price : ℚ}

/-- Whether the loop fires an armed intent. -/
def triggers (probe : ArmedIntent → ArmedIntent × Option ℚ) (symbol : String)
    (e : Nat × ArmedIntent) : Bool :=
  e.2.intent.symbol = symbol ∧ (probe e.2).2.isSome

/-- An armed intent after an iteration that does not fire it. -/
def passed (probe : ArmedIntent → ArmedIntent × Option ℚ) (symbol : String) (ai : ArmedIntent) :
    ArmedIntent :=
  if ai.intent.symbol = symbol then (probe ai).1 else ai

theorem passed_qty (hprobe : ∀ ai, (probe ai).1.intent.qty = ai.intent.qty) (ai : ArmedIntent) :
    (passed probe symbol ai).intent.qty = ai.intent.qty := by
  rw [passed]
  split
  · exact hprobe ai
  · rfl

/-- Induction along the loop: an intent is kept, as it was or as the probe left it, or it is
fired. -/
theorem evaluate_induction (probe : ArmedIntent → ArmedIntent × Option ℚ) (symbol : String)
    (ts : Int) {motive : List (Nat × ArmedIntent) → List (Nat × ArmedIntent) → ExitManager →
      List OrderEvent × ExitManager → Prop}
    (nil : ∀ kept m, motive kept [] m ([], { m with armed := kept }))
    (keep : ∀ kept rest m r opener ai ai', triggers probe symbol (opener, ai) = false →
      ai' = passed probe symbol ai → motive (kept ++ [(opener, ai')]) rest m r →
      motive kept ((opener, ai) :: rest) m r)
    (fire : ∀ kept rest m r opener ai price, triggers probe symbol (opener, ai) = true →
      (probe ai).2 = some price →
      motive kept rest (m.fire ts price opener (probe ai).1 (kept ++ rest)).2 r →
      motive kept ((opener, ai) :: rest) m
        ((m.fire ts price opener (probe ai).1 (kept ++ rest)).1.toList ++ r.1, r.2))
    (kept rest : List (Nat × ArmedIntent)) (m : ExitManager) :
    motive kept rest m (evaluate probe symbol ts kept rest m) := by
  induction rest generalizing kept m with
  | nil => exact nil kept m
  | cons e rest ih =>
    obtain ⟨opener, ai⟩ := e
    rw [evaluate]
    by_cases hsym : ai.intent.symbol = symbol
    · rw [if_neg (not_not.2 hsym)]
      cases hp : probe ai with
      | mk ai' price =>
        cases price with
        | none =>
          exact keep kept rest m _ opener ai ai' (by simp [triggers, hp])
            (by rw [passed, if_pos hsym, hp]) (ih _ m)
        | some price =>
          have hfire :=
            fire kept rest m _ opener ai price (by simp [triggers, hsym, hp]) (by rw [hp])
              (ih kept _)
          rw [hp] at hfire
          exact hfire
    · rw [if_pos hsym]
      exact keep kept rest m _ opener ai ai (by simp [triggers, hsym])
        (by rw [passed, if_neg hsym]) (ih _ m)

/-- The intents that the loop does not fire stay, each as its iteration leaves it. -/
theorem evaluate_armed (kept rest : List (Nat × ArmedIntent)) (m : ExitManager) :
    (evaluate probe symbol ts kept rest m).2.armed = kept ++
      (rest.filter fun e => !triggers probe symbol e).map fun e =>
        (e.1, passed probe symbol e.2) := by
  refine evaluate_induction probe symbol ts (motive := fun kept rest _ r => r.2.armed = kept ++
    (rest.filter fun e => !triggers probe symbol e).map fun e => (e.1, passed probe symbol e.2))
    (fun kept m => ?_) (fun kept rest m r opener ai ai' hskip hai ih => ?_)
    (fun kept rest m r opener ai price htriggers _ ih => ?_) kept rest m
  · rw [filter_nil, map_nil, append_nil]
  · rw [ih, filter_cons_of_pos (by rw [hskip]; rfl), map_cons, hai, append_assoc]
    rfl
  · rw [ih, filter_cons_of_neg (by rw [htriggers]; exact Bool.false_ne_true)]

/-- What the triggered intents of a list ask for, in order. -/
def requests (probe : ArmedIntent → ArmedIntent × Option ℚ) (symbol : String)
    (entries : List (Nat × ArmedIntent)) : List (Nat × ℚ) :=
  entries.filterMap fun e =>
    if e.2.intent.symbol = symbol ∧ (probe e.2).2.isSome ∧ 0 < (probe e.2).1.intent.qty then
      some (e.1, (probe e.2).1.intent.qty)
    else none

theorem requests_cons_of_triggers
    (h : triggers probe symbol (opener, ai) = true) (hqty : 0 < (probe ai).1.intent.qty) :
    requests probe symbol ((opener, ai) :: rest) =
      (opener, (probe ai).1.intent.qty) :: requests probe symbol rest := by
  have hboth : ai.intent.symbol = symbol ∧ (probe ai).2.isSome := of_decide_eq_true h
  rw [requests, filterMap_cons, if_pos ⟨hboth.1, hboth.2, hqty⟩]
  rfl

theorem requests_cons_of_not
    (h : triggers probe symbol (opener, ai) = false ∨ ¬ 0 < (probe ai).1.intent.qty) :
    requests probe symbol ((opener, ai) :: rest) = requests probe symbol rest := by
  have hnot : ¬ (ai.intent.symbol = symbol ∧ (probe ai).2.isSome ∧ 0 < (probe ai).1.intent.qty) :=
    fun hall => h.elim (fun hskip => of_decide_eq_false hskip ⟨hall.1, hall.2.1⟩) fun hle =>
      hle hall.2.2
  rw [requests, filterMap_cons, if_neg hnot]
  rfl

/-- What some requests ask of one opener. -/
def requested (rs : List (Nat × ℚ)) (opener : Nat) : ℚ :=
  ((rs.filter fun r => r.1 = opener).map Prod.snd).sum

/-- Every request finds an entry for its opener from which the earlier requests leave something. -/
def Reserved (remaining : AList fun _ : Nat => ℚ) : List (Nat × ℚ) → List (Nat × ℚ) → Prop
  | _, [] => True
  | before, r :: rs =>
    (remaining.lookup r.1).any (fun rem =>
      r.1 ∉ before.map Prod.fst ∨ requested before r.1 + dust ≤ rem) ∧
    Reserved remaining (before ++ [r]) rs

instance decidableReserved (remaining : AList fun _ : Nat => ℚ) :
    ∀ before rs, Decidable (Reserved remaining before rs)
  | _, [] => isTrue trivial
  | before, r :: rs =>
    have := decidableReserved remaining (before ++ [r]) rs
    inferInstanceAs (Decidable (_ ∧ _))

/-- While an opener's reservation lasts, its entry is what the earlier requests left. -/
def Tracks (remaining : AList fun _ : Nat => ℚ) (before rs : List (Nat × ℚ)) (m : ExitManager) :
    Prop :=
  ∀ r ∈ rs, ∀ rem, remaining.lookup r.1 = some rem →
    (r.1 ∉ before.map Prod.fst ∨ requested before r.1 + dust ≤ rem) →
    m.openerRemainingQty.lookup r.1 = some (rem - requested before r.1)

theorem requested_snoc (rs : List (Nat × ℚ)) (r : Nat × ℚ) (opener : Nat) :
    requested (rs ++ [r]) opener = requested rs opener + if r.1 = opener then r.2 else 0 := by
  by_cases hr : r.1 = opener <;> simp [requested, filter_append, hr]

theorem requested_of_not_mem {rs : List (Nat × ℚ)} (h : opener ∉ rs.map Prod.fst) :
    requested rs opener = 0 := by
  have hnone : rs.filter (fun r => r.1 = opener) = [] :=
    filter_eq_nil_iff.2 fun r hr he => h (mem_map.2 ⟨r, hr, of_decide_eq_true he⟩)
  rw [requested, hnone]
  rfl

theorem closedQty_append (xs ys : List OrderEvent) (opener : Nat) :
    closedQty (xs ++ ys) opener = closedQty xs opener + closedQty ys opener := by
  simp [closedQty]

theorem closedQty_nil (opener : Nat) : closedQty [] opener = 0 := rfl

/-- Each opener may still be closed for `B`, and the entries say no more. -/
structure Within (B : Nat → ℚ) (m : ExitManager) : Prop where
  nonneg : ∀ id, 0 ≤ B id
  entry : ∀ id rem, m.openerRemainingQty.lookup id = some rem → 0 ≤ rem ∧ rem ≤ B id

theorem Within.of_shrinks (h : Within B m) (hs : Shrinks m m') : Within B m' :=
  ⟨h.nonneg, fun id rem hrem => h.entry id rem (hs id rem hrem)⟩

theorem leftover_bounds (h : qty ≤ rem) : 0 ≤ leftover rem qty ∧ leftover rem qty ≤ rem - qty := by
  unfold leftover
  split
  · exact ⟨le_rfl, sub_nonneg.2 h⟩
  · exact ⟨sub_nonneg.2 h, le_rfl⟩

/-- Firing an intent whose opener has an entry stays within. -/
theorem Within.fire (h : Within B m) (hqty : 0 < ai.intent.qty)
    (hrem : m.openerRemainingQty.lookup opener = some rem) :
    Within (fun id => B id - closedQty (m.fire ts price opener ai others).1.toList id)
      (m.fire ts price opener ai others).2 := by
  obtain ⟨hclosed, hself, -⟩ := @fire_of_some m opener ai others ts price rem hqty hrem
  obtain ⟨hrem0, hremB⟩ := h.entry opener rem hrem
  have hmax : max 0 (min ai.intent.qty rem) = min ai.intent.qty rem :=
    max_eq_right (le_min hqty.le hrem0)
  have hle : min ai.intent.qty rem ≤ rem := min_le_right _ _
  obtain ⟨hleft0, hleft⟩ := leftover_bounds hle
  rw [hmax] at hclosed
  refine ⟨fun id => ?_, fun id r hr => ?_⟩ <;> by_cases hid : id = opener
  · rw [hid, hclosed]
    linarith
  · rw [(fire_of_ne hid).2, sub_zero]
    exact h.nonneg id
  · rw [hid] at hr ⊢
    rw [hclosed]
    rcases hself with hnone | hsome
    · rw [hnone] at hr
      cases hr
    · rw [hsome] at hr
      cases hr
      exact ⟨hleft0, by linarith⟩
  · rw [(fire_of_ne hid).1] at hr
    rw [(fire_of_ne hid).2, sub_zero]
    exact h.entry id r hr

theorem tracks_self (remaining : AList fun _ : Nat => ℚ) (rs : List (Nat × ℚ))
    (h : m.openerRemainingQty = remaining) : Tracks remaining [] rs m := by
  intro r _ rem hrem _
  rw [h, hrem, requested_of_not_mem (by simp), sub_zero]

/-- The reservations of the later requests outlast the firing of the first one. -/
theorem Tracks.fire {before : List (Nat × ℚ)} {kept : List (Nat × ArmedIntent)}
    (hqty : 0 < ai.intent.qty)
    (h : Tracks remaining before ((opener, ai.intent.qty) :: requests probe symbol rest) m)
    (hlook : remaining.lookup opener = some rem)
    (hres : opener ∉ before.map Prod.fst ∨ requested before opener + dust ≤ rem) :
    Tracks remaining (before ++ [(opener, ai.intent.qty)]) (requests probe symbol rest)
      (m.fire ts price opener ai (kept ++ rest)).2 := by
  have hcur := h _ mem_cons_self rem hlook hres
  obtain ⟨-, -, hkeep⟩ := @fire_of_some m opener ai (kept ++ rest) ts price _ hqty hcur
  intro r hr rem' hrem' hcond
  rw [requested_snoc] at hcond ⊢
  by_cases hid : r.1 = opener
  · -- A sibling: something is left for it, and it keeps the opener armed.
    rw [hid] at hrem' hcond ⊢
    rw [hlook] at hrem'
    cases hrem'
    rw [if_pos rfl] at hcond ⊢
    have hsum : requested before opener + ai.intent.qty + dust ≤ rem := by
      refine hcond.resolve_left fun hnot => hnot ?_
      simp
    have hdust := dust_pos
    have hmin : min ai.intent.qty (rem - requested before opener) = ai.intent.qty :=
      min_eq_left (by linarith)
    rw [hmin, leftover_of_dust_le (by linarith)] at hkeep
    rw [hkeep (by linarith) ?_, sub_sub]
    obtain ⟨e, he, hreq⟩ := mem_filterMap.1 hr
    have heid : e.1 = opener := by
      split at hreq
      · cases hreq
        exact hid
      · cases hreq
    exact ne_nil_of_mem (mem_filter.2 ⟨mem_append_right kept he, decide_eq_true heid⟩)
  · rw [if_neg (Ne.symm hid), add_zero] at hcond ⊢
    rw [(fire_of_ne hid).1]
    refine h r (mem_cons_of_mem _ hr) rem' hrem' (hcond.imp_left fun hnot hmem => hnot ?_)
    rw [map_append]
    exact mem_append_left _ hmem

/-- The loop stays within if all requests are reserved. -/
theorem evaluate_within (rest kept : List (Nat × ArmedIntent)) (before : List (Nat × ℚ))
    (h : Within B m) (hres : Reserved remaining before (requests probe symbol rest))
    (htracks : Tracks remaining before (requests probe symbol rest) m) :
    Within (fun id => B id - closedQty (evaluate probe symbol ts kept rest m).1 id)
      (evaluate probe symbol ts kept rest m).2 := by
  refine evaluate_induction probe symbol ts (motive := fun _ rest m r => ∀ before B, Within B m →
      Reserved remaining before (requests probe symbol rest) →
      Tracks remaining before (requests probe symbol rest) m →
      Within (fun id => B id - closedQty r.1 id) r.2) (fun kept m before B h _ _ => ?_)
    (fun kept rest m r opener ai ai' hskip _ ih before B h hres htracks => ?_)
    (fun kept rest m r opener ai price htriggers _ ih before B h hres htracks => ?_)
    kept rest m before B h hres htracks
  · simp only [closedQty_nil, sub_zero]
    exact ⟨h.nonneg, h.entry⟩
  · rw [requests_cons_of_not (.inl hskip)] at hres htracks
    exact ih before B h hres htracks
  · set s := m.fire ts price opener (probe ai).1 (kept ++ rest) with hs
    have hsplit : ∀ id, B id - closedQty (s.1.toList ++ r.1) id =
        B id - closedQty s.1.toList id - closedQty r.1 id := fun id => by
      rw [closedQty_append]
      ring
    simp only [hsplit]
    by_cases hqty : 0 < (probe ai).1.intent.qty
    · rw [requests_cons_of_triggers htriggers hqty] at hres htracks
      obtain ⟨hany, hres⟩ := hres
      obtain ⟨rem, hlook, hcond⟩ := (Option.any_eq_true _ _).1 hany
      have hcond := of_decide_eq_true hcond
      have hcur := htracks _ mem_cons_self rem hlook hcond
      exact ih _ _ (h.fire hqty hcur) hres (Tracks.fire hqty htracks hlook hcond)
    · rw [requests_cons_of_not (.inr hqty)] at hres htracks
      obtain ⟨hnone, hsame⟩ := @fire_of_nonpos m opener (probe ai).1 (kept ++ rest) ts price hqty
      have hB : ∀ id, B id - closedQty s.1.toList id = B id := fun id => by
        rw [hs, hnone]
        simp [closedQty]
      simp only [hB]
      refine ih before B (h.of_shrinks (shrinks_of_eq hsame)) hres ?_
      intro x hx rem hrem hcond
      rw [hs, hsame]
      exact htracks x hx rem hrem hcond

end Loop

/-! ## Whole runs -/

/-- Opener fills are not negative, and every intent that a trigger fires finds its reservation. -/
def Capped (l : Ledger) : Op → Prop
  | .fill f opener _ _ => isOpenerFill f opener → 0 ≤ f.filledQuantity
  | .price symbol px ts order => 0 < px → Reserved l.manager.openerRemainingQty []
      (requests (ArmedIntent.probePrice px ts) symbol (order.run l.manager.armed))
  | .bar symbol open_ low high close ts order => 0 < low ∧ 0 < high ∧ 0 < close →
      Reserved l.manager.openerRemainingQty []
        (requests (ArmedIntent.probeBar (if 0 < open_ then open_ else close) (min low high)
          (max low high) close ts) symbol (order.run l.manager.armed))
  | _ => True

instance (l : Ledger) (op : Op) : Decidable (Capped l op) := by
  cases op <;> unfold Capped <;> infer_instance

/-- The closes of each opener stay within its fills, and so does what its entry has left. -/
def Ledger.Sound (l : Ledger) : Prop := Within (fun id => l.filled id - l.closed id) l.manager

variable {l : Ledger}

theorem fired_sound {r : List OrderEvent × ExitManager}
    (h : Within (fun id => l.filled id - l.closed id - closedQty r.1 id) r.2) :
    (l.fired r).2.Sound := by
  simp only [sub_sub] at h
  exact h

theorem evaluate_sound {probe : ArmedIntent → ArmedIntent × Option ℚ} {symbol : String}
    (h : l.Sound)
    (order : IterationOrder (Nat × ArmedIntent)) (hres : Reserved l.manager.openerRemainingQty []
      (requests probe symbol (order.run l.manager.armed))) :
    (l.fired (evaluate probe symbol ts [] (order.run l.manager.armed) l.manager)).2.Sound := by
  apply fired_sound
  exact evaluate_within _ _ [] h hres (tracks_self _ _ rfl)

theorem idle_sound (h : l.Sound) : (l.fired ([], l.manager)).2.Sound := by
  apply fired_sound
  simp only [closedQty_nil, sub_zero]
  exact h

theorem openerFill_sound {f : FillEvent} (h : l.Sound) (hqty : 0 ≤ f.filledQuantity)
    (placed : BracketHandles) (order : IterationOrder (Nat × ExitIntent)) :
    Within (fun id => l.filled id + (if f.orderId = id then f.filledQuantity else 0) - l.closed id)
      (l.manager.openerFill f placed order) := by
  refine ⟨fun id => ?_, ?_⟩
  · have hB := h.nonneg id
    split <;> linarith
  · rw [openerFill_remaining]
    refine AList.forall_lookup_insert ?_ fun id rem hrem => ?_
    · rw [if_pos rfl]
      cases hold : l.manager.openerRemainingQty.lookup f.orderId with
      | none =>
        have hB := h.nonneg f.orderId
        rw [Option.getD_none]
        constructor <;> linarith
      | some rem =>
        obtain ⟨h0, hB⟩ := h.entry f.orderId rem hold
        rw [Option.getD_some]
        constructor <;> linarith
    · obtain ⟨h0, hB⟩ := h.entry id rem hrem
      split <;> constructor <;> linarith

theorem step_sound (op : Op) (h : l.Sound) (hc : Capped l op) : (step l op).2.Sound := by
  cases op with
  | register intent =>
    refine h.of_shrinks (shrinks_of_eq ?_)
    show (l.manager.registerPending intent).openerRemainingQty = _
    unfold registerPending
    split <;> rfl
  | fill f opener placed order =>
    show Within (fun id => l.filled id + _ - l.closed id) (l.manager.onFill f opener placed order)
    unfold onFill
    by_cases hcl : opener ≠ 0 ∧ opener ≠ f.orderId
    · have hno : isOpenerFill f opener = false := decide_eq_false (not_not.2 hcl)
      rw [if_pos hcl, hno]
      simp only [Bool.false_eq_true, false_and, if_false, add_zero]
      exact h.of_shrinks (drops_closerFill _ f opener).remaining
    · have hop : isOpenerFill f opener = true := decide_eq_true hcl
      rw [if_neg hcl, hop]
      simp only [true_and]
      exact openerFill_sound h (hc hop) placed order
  | price symbol px ts order =>
    show (l.fired (l.manager.onPrice symbol px ts order)).2.Sound
    unfold onPrice
    split_ifs with hskip
    · exact idle_sound h
    · exact evaluate_sound h order (hc (not_not.1 (not_or.1 hskip).2))
  | bar symbol open_ low high close ts order =>
    show (l.fired (l.manager.onBar symbol open_ low high close ts order)).2.Sound
    unfold onBar
    by_cases hskip : l.manager.armed.isEmpty ∨ ¬ 0 < low ∨ ¬ 0 < high ∨ ¬ 0 < close
    · rw [if_pos hskip]
      exact idle_sound h
    · rw [if_neg hskip]
      simp only [not_or, not_not] at hskip
      exact evaluate_sound h order (hc hskip.2)
  | cancel opener => exact h.of_shrinks (drops_cancel _ opener).remaining
  | cancelStrategy name symbol => exact h.of_shrinks (drops_cancelStrategy _ name symbol).remaining

/-- **The closes emitted for an opener never exceed its fills**, in every run whose triggers find
their reservations. -/
theorem closed_le_filled (hasBracketAdapter : Bool) (ops : List Op)
    (hops : Along step Capped (Ledger.init hasBracketAdapter) ops) :
    ∀ l ∈ states step (Ledger.init hasBracketAdapter) ops, ∀ opener,
      l.closed opener ≤ l.filled opener := by
  have hinit : (Ledger.init hasBracketAdapter).Sound :=
    ⟨fun _ => le_of_eq (sub_self _).symm, fun _ _ hrem => by
      simp [Ledger.init, init] at hrem⟩
  intro l hl opener
  exact sub_nonneg.1 ((invariant (fun _ op => step_sound op) hinit hops l hl).nonneg opener)

/-- A long exit of a fraction of opener 1, with a stop and a target. -/
def longIntent (fraction : ℚ) (stopLoss takeProfit : Option ℚ) : ExitIntent where
  symbol := "BTC"
  closeSide := .sell
  qty := 0
  qtyFraction := fraction
  stopLoss := stopLoss
  takeProfit := takeProfit
  referenceEntry := none
  trailingPct := none
  deadline := none
  openerOrderId := 1
  strategyName := "s"

def openerFillEvent (qty price : ℚ) : FillEvent where
  timestamp := 0
  symbol := "BTC"
  orderId := 1
  side := .buy
  filledQuantity := qty
  fillPrice := price
  commission := 0

def noHandles : BracketHandles := ⟨none, none, none, ""⟩

/-- Two targets and a stop: the targets close a half and three tenths, the stop the rest. -/
def scaleOutRun : List Op :=
  [.register (longIntent (1 / 2) none (some 110)), .register (longIntent (3 / 10) none (some 120)),
    .register (longIntent 1 (some 90) none),
    .fill (openerFillEvent 10 100) 1 noHandles .id, .price "BTC" 110 1 .id, .price "BTC" 120 2 .id,
    .bar "BTC" 91 89 92 90 3 .id]

theorem closed_le_filled_of_scaleOutRun :
    let l := final step (Ledger.init false) scaleOutRun
    l.closed 1 = 10 ∧ l.closed 1 ≤ l.filled 1 :=
  ⟨by decide +kernel, closed_le_filled false scaleOutRun (by decide +kernel) _
    (final_mem_states _ _) 1⟩

/-- Two full stops that one price reaches. -/
def doubleStopRun : List Op :=
  [.register (longIntent 1 (some 95) none), .register (longIntent 1 (some 90) none),
    .fill (openerFillEvent 10 100) 1 noHandles .id, .price "BTC" 89 1 .id]

/-- The first stop takes the whole entry, which is then erased, and the second closes the position
again. -/
theorem closed_gt_filled_of_doubleStopRun :
    ¬ ∀ (hasBracketAdapter : Bool) (ops : List Op),
      (∀ f opener placed order, Op.fill f opener placed order ∈ ops → 0 ≤ f.filledQuantity) →
      ∀ l ∈ states step (Ledger.init hasBracketAdapter) ops, ∀ opener,
        l.closed opener ≤ l.filled opener := by
  intro h
  have hqty : ∀ f opener placed order, Op.fill f opener placed order ∈ doubleStopRun →
      0 ≤ f.filledQuantity := by
    intro f opener placed order hf
    simp only [doubleStopRun, mem_cons, not_mem_nil, reduceCtorEq, Op.fill.injEq, false_or,
      or_false] at hf
    rw [hf.1]
    decide +kernel
  have hlast := h false doubleStopRun hqty _ (final_mem_states _ _) 1
  exact absurd hlast (by decide +kernel)

end TrueTest.ExitManager
