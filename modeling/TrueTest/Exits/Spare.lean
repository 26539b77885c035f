import TrueTest.Exits.Coverage

/-!
# What a trigger leaves to later ones

A trigger erases the intents it fires and takes what they close from the opener's entry, before
anybody knows whether the closes are accepted. What can still be closed later is what the other
intents of the opener hold, capped by what is left in the entry (`coverable`). An entry of which
less than `dust` is left is erased, and the other intents are then capped by nothing.
-/

namespace TrueTest.ExitManager

open Machine

/-- What later triggers can close of an opener. -/
def coverable (m : ExitManager) (opener : Nat) : ℚ :=
  match m.openerRemainingQty.lookup opener with
  | none => armedQty m.armed opener
  | some rem => min (armedQty m.armed opener) rem

/-- What the intents that a trigger does not fire can close of an opener, when the others have asked
for their part. -/
def spare (m : ExitManager) (probe : ArmedIntent → ArmedIntent × Option ℚ) (symbol : String)
    (opener : Nat) : ℚ :=
  let others := armedQty (m.armed.filter fun e => !triggers probe symbol e) opener
  match m.openerRemainingQty.lookup opener with
  | none => others
  | some rem =>
    let left := rem - requested (requests probe symbol m.armed) opener
    if left < dust then others else min others left

/-! ## Firing one intent -/

section Firing

variable {m : ExitManager} {opener id : Nat} {ai : ArmedIntent} {others : List (Nat × ArmedIntent)}
  {ts : Int} {price rem asked : ℚ}

/-- It closes at most what it asks for, of its own opener. -/
theorem closedQty_fire_le :
    closedQty (m.fire ts price opener ai others).1.toList id ≤
      if opener = id ∧ 0 < ai.intent.qty then ai.intent.qty else 0 := by
  by_cases hid : id = opener
  · subst hid
    by_cases hqty : 0 < ai.intent.qty
    · rw [if_pos ⟨rfl, hqty⟩]
      cases hlook : m.openerRemainingQty.lookup id with
      | none => exact (fire_of_none hqty hlook).1.le
      | some rem =>
        rw [(fire_of_some hqty hlook).1]
        exact max_le hqty.le (min_le_left _ _)
    · rw [(fire_of_nonpos hqty).1]
      simp [closedQty, hqty]
  · rw [(fire_of_ne hid).2, if_neg fun hc => hid hc.1.symm]

/-- An entry of which nothing is left is erased. -/
theorem fire_erases (hqty : 0 < ai.intent.qty) (hrem : 0 < rem)
    (hlook : m.openerRemainingQty.lookup opener = some rem)
    (hleft : leftover rem (min ai.intent.qty rem) = 0) :
    (m.fire ts price opener ai others).2.openerRemainingQty.lookup opener = none := by
  unfold fire
  rw [consumeOpenerQty_of_some hqty hlook, hleft]
  dsimp only
  rw [if_pos (lt_min hqty hrem), if_pos (.inl (by simp [isFlat]))]
  simp

/-- An intent whose opener has nothing left in its entry closes nothing. -/
theorem fire_of_flat (h : ∃ rem ≤ 0, m.openerRemainingQty.lookup opener = some rem) :
    (m.fire ts price opener ai others).1 = none ∧
      ∃ rem ≤ 0, (m.fire ts price opener ai others).2.openerRemainingQty.lookup opener =
        some rem := by
  obtain ⟨rem, hrem, hlook⟩ := h
  by_cases hqty : 0 < ai.intent.qty
  · have hleft : leftover rem rem ≤ 0 := by rw [leftover, sub_self, abs_zero, if_pos dust_pos]
    unfold fire
    rw [consumeOpenerQty_of_some hqty hlook, min_eq_right (hrem.trans hqty.le)]
    dsimp only
    rw [if_neg (not_lt.2 hrem)]
    refine ⟨rfl, leftover rem rem, hleft, ?_⟩
    split <;> simp
  · obtain ⟨hnone, hsame⟩ := @fire_of_nonpos m opener ai others ts price hqty
    exact ⟨hnone, rem, hrem, by rw [hsame, hlook]⟩

/-- The entry of an opener that had `rem` and was asked for `asked`: it is gone once less than
`dust` is left, or with the last intent. -/
def EntryAt (m : ExitManager) (opener : Nat) (rem asked : ℚ)
    (live : List (Nat × ArmedIntent)) : Prop :=
  (m.openerRemainingQty.lookup opener = none ∧ (rem - asked < dust ∨ entriesOf live opener = [])) ∨
    (m.openerRemainingQty.lookup opener = some (rem - asked) ∧ 0 < rem - asked ∧
      (asked = 0 ∨ dust ≤ rem - asked))

theorem EntryAt.of_remaining {m' : ExitManager} {live live' : List (Nat × ArmedIntent)}
    (h : EntryAt m opener rem asked live)
    (hsame : m'.openerRemainingQty.lookup opener = m.openerRemainingQty.lookup opener)
    (hlive : entriesOf live opener = [] → entriesOf live' opener = []) :
    EntryAt m' opener rem asked live' := by
  unfold EntryAt at h ⊢
  rw [hsame]
  exact h.imp_left fun ⟨hnone, hleft⟩ => ⟨hnone, hleft.imp_right hlive⟩

theorem EntryAt.fire {old : ArmedIntent} {kept rest : List (Nat × ArmedIntent)}
    (h : EntryAt m opener rem asked (kept ++ (opener, old) :: rest)) (hqty : 0 < ai.intent.qty) :
    EntryAt (m.fire ts price opener ai (kept ++ rest)).2 opener rem (asked + ai.intent.qty)
      (kept ++ rest) := by
  rcases h with ⟨hnone, hleft⟩ | ⟨hsome, hpos, -⟩
  · have hlt := hleft.resolve_right (entriesOf_middle_ne_nil kept rest opener old)
    exact .inl ⟨(fire_of_none hqty hnone).2, .inl (by linarith)⟩
  · by_cases hdust : rem - (asked + ai.intent.qty) < dust
    · -- Nothing is left but dust.
      refine .inl ⟨fire_erases hqty hpos hsome ?_, .inl hdust⟩
      rw [leftover, if_pos]
      rcases le_total ai.intent.qty (rem - asked) with hle | hle
      · rw [min_eq_left hle, abs_of_nonneg (sub_nonneg.2 hle)]
        linarith
      · rw [min_eq_right hle, sub_self, abs_zero]
        exact dust_pos
    · have hdust' := not_lt.1 hdust
      have hpos' : 0 < rem - (asked + ai.intent.qty) := dust_pos.trans_le hdust'
      have hmin : min ai.intent.qty (rem - asked) = ai.intent.qty := min_eq_left (by linarith)
      have hleft : leftover (rem - asked) ai.intent.qty = rem - (asked + ai.intent.qty) := by
        rw [leftover_of_dust_le (by linarith)]
        ring
      obtain ⟨-, hself, hkeep⟩ := @fire_of_some m opener ai (kept ++ rest) ts price _ hqty hsome
      rw [hmin, hleft] at hself hkeep
      rcases hself with hnone | hentry
      · refine .inl ⟨hnone, .inr ?_⟩
        by_contra hne
        rw [hkeep hpos' hne] at hnone
        cases hnone
      · exact .inr ⟨hentry, hpos', .inr hdust'⟩

end Firing

/-! ## The loop -/

section Loop

variable (probe : ArmedIntent → ArmedIntent × Option ℚ) (symbol : String) (ts : Int) (opener : Nat)
  {rem : ℚ}

theorem requested_cons (r : Nat × ℚ) (rs : List (Nat × ℚ)) (opener : Nat) :
    requested (r :: rs) opener = (if r.1 = opener then r.2 else 0) + requested rs opener := by
  by_cases hr : r.1 = opener <;> simp [requested, hr]

/-- The order in which the intents are visited does not change what is asked for. -/
theorem requested_perm {xs ys : List (Nat × ArmedIntent)} (h : xs.Perm ys) :
    requested (requests probe symbol xs) opener = requested (requests probe symbol ys) opener :=
  (((h.filterMap _).filter _).map _).sum_eq

variable (rest kept : List (Nat × ArmedIntent)) (m : ExitManager)

/-- The entry of an opener after the loop. -/
theorem entryAt_evaluate (asked : ℚ) (h : EntryAt m opener rem asked (kept ++ rest)) :
    EntryAt (evaluate probe symbol ts kept rest m).2 opener rem
      (asked + requested (requests probe symbol rest) opener)
      (evaluate probe symbol ts kept rest m).2.armed := by
  refine evaluate_induction probe symbol ts (motive := fun kept rest m r => ∀ asked,
      EntryAt m opener rem asked (kept ++ rest) →
      EntryAt r.2 opener rem (asked + requested (requests probe symbol rest) opener) r.2.armed)
    (fun kept m asked h => ?_) (fun kept rest m r id ai ai' hskip _ ih asked h => ?_)
    (fun kept rest m r id ai price htriggers _ ih asked h => ?_) kept rest m asked h
  · rw [List.append_nil] at h
    have hnone : requested (requests probe symbol []) opener = 0 := rfl
    rw [hnone, add_zero]
    exact h.of_remaining rfl id
  · rw [requests_cons_of_not (.inl hskip)]
    refine ih asked (h.of_remaining rfl fun hnil => ?_)
    by_cases hid : id = opener
    · subst hid
      exact absurd hnil (entriesOf_middle_ne_nil kept rest id ai)
    · simpa [entriesOf, hid] using hnil
  · have hsub : (kept ++ rest).Sublist (kept ++ (id, ai) :: rest) :=
      List.Sublist.append_left (List.sublist_cons_self _ rest) kept
    have hlive : entriesOf (kept ++ (id, ai) :: rest) opener = [] →
        entriesOf (kept ++ rest) opener = [] := fun hnil =>
      by_contra fun hne => entriesOf_ne_nil_of_sublist hsub hne hnil
    by_cases hqty : 0 < (probe ai).1.intent.qty
    · rw [requests_cons_of_triggers htriggers hqty, requested_cons, ← add_assoc]
      by_cases hid : id = opener
      · subst hid
        rw [if_pos rfl]
        exact ih _ (h.fire hqty)
      · rw [if_neg hid, add_zero]
        exact ih _ (h.of_remaining (fire_of_ne (Ne.symm hid)).1 hlive)
    · rw [requests_cons_of_not (.inr hqty)]
      exact ih _ (h.of_remaining (by rw [(fire_of_nonpos hqty).2]) hlive)

/-- An opener without an entry gets none. -/
theorem evaluate_remaining_of_none (h : m.openerRemainingQty.lookup opener = none) :
    (evaluate probe symbol ts kept rest m).2.openerRemainingQty.lookup opener = none := by
  refine evaluate_induction probe symbol ts (motive := fun _ _ m r =>
      m.openerRemainingQty.lookup opener = none → r.2.openerRemainingQty.lookup opener = none)
    (fun _ _ h => h) (fun _ _ _ _ _ _ _ _ _ ih => ih)
    (fun kept rest m r id ai price _ _ ih h => ih ?_) kept rest m h
  by_cases hid : id = opener
  · subst hid
    by_cases hqty : 0 < (probe ai).1.intent.qty
    · exact (fire_of_none hqty h).2
    · rw [(fire_of_nonpos hqty).2, h]
  · rw [(fire_of_ne (Ne.symm hid)).1, h]

/-- The loop closes at most what is asked for. -/
theorem closedQty_evaluate_le : closedQty (evaluate probe symbol ts kept rest m).1 opener ≤
      requested (requests probe symbol rest) opener := by
  refine evaluate_induction probe symbol ts (motive := fun _ rest _ r =>
      closedQty r.1 opener ≤ requested (requests probe symbol rest) opener)
    (fun _ _ => le_rfl) (fun kept rest m r id ai ai' hskip _ ih => ?_)
    (fun kept rest m r id ai price htriggers _ ih => ?_) kept rest m
  · rwa [requests_cons_of_not (.inl hskip)]
  · have hone := @closedQty_fire_le m id opener (probe ai).1 (kept ++ rest) ts price
    rw [closedQty_append]
    by_cases hqty : 0 < (probe ai).1.intent.qty
    · rw [requests_cons_of_triggers htriggers hqty, requested_cons]
      simp only [hqty, and_true] at hone
      linarith
    · rw [requests_cons_of_not (.inr hqty)]
      simp only [hqty, and_false, if_false] at hone
      linarith

/-- An opener whose entry is not positive is closed for nothing. -/
theorem closedQty_evaluate_of_flat (h : ∃ rem ≤ 0, m.openerRemainingQty.lookup opener = some rem) :
    closedQty (evaluate probe symbol ts kept rest m).1 opener ≤ 0 := by
  refine evaluate_induction probe symbol ts (motive := fun _ _ m r =>
      (∃ rem ≤ 0, m.openerRemainingQty.lookup opener = some rem) → closedQty r.1 opener ≤ 0)
    (fun _ _ _ => le_rfl) (fun _ _ _ _ _ _ _ _ _ ih => ih)
    (fun kept rest m r id ai price _ _ ih h => ?_) kept rest m h
  rw [closedQty_append]
  by_cases hid : id = opener
  · subst hid
    obtain ⟨hnone, hflat⟩ := @fire_of_flat m id (probe ai).1 (kept ++ rest) ts price h
    rw [hnone, Option.toList_none, closedQty_nil, zero_add]
    exact ih hflat
  · have hone := @closedQty_fire_le m id opener (probe ai).1 (kept ++ rest) ts price
    rw [if_neg fun hand => hid hand.1] at hone
    have hrest := ih (by rwa [(fire_of_ne (Ne.symm hid)).1])
    linarith

/-- **What a trigger leaves** to later ones is what the untriggered intents can still close. -/
theorem coverable_evaluate (hprobe : ∀ ai, (probe ai).1.intent.qty = ai.intent.qty)
    (m : ExitManager) (order : IterationOrder (Nat × ArmedIntent))
    (h : 0 < closedQty (evaluate probe symbol ts [] (order.run m.armed) m).1 opener) :
    (evaluate probe symbol ts [] (order.run m.armed) m).2.coverable opener =
      m.spare probe symbol opener := by
  have hperm := order.perm m.armed
  have harmed := @armedQty_evaluate probe symbol ts hprobe (order.run m.armed) [] m opener
  have hasked := h.trans_le (closedQty_evaluate_le probe symbol ts opener _ _ _)
  have hflat := closedQty_evaluate_of_flat probe symbol ts opener (order.run m.armed) [] m
  have hnone := evaluate_remaining_of_none probe symbol ts opener (order.run m.armed) [] m
  rw [armedQty_nil, zero_add, armedQty_perm (hperm.filter _)] at harmed
  rw [requested_perm probe symbol opener hperm] at hasked
  unfold coverable spare
  rw [harmed]
  cases hlook : m.openerRemainingQty.lookup opener with
  | none => rw [hnone hlook]
  | some rem =>
    have hrem : 0 < rem := not_le.1 fun hle => absurd (hflat ⟨rem, hle, hlook⟩) (not_le.2 h)
    have hentry := entryAt_evaluate probe symbol ts opener (order.run m.armed) [] m 0
      (.inr ⟨by rw [hlook, sub_zero], by rwa [sub_zero], .inl rfl⟩)
    rw [zero_add, requested_perm probe symbol opener hperm] at hentry
    dsimp only
    rcases hentry with ⟨hgone, hleft⟩ | ⟨hsome, -, hdust⟩
    · rw [hgone]
      dsimp only
      split
      · rfl
      · next hge =>
        -- The entry went with the last intent.
        have hnil := hleft.resolve_left hge
        rw [← harmed, armedQty, hnil]
        exact (min_eq_left (dust_pos.le.trans (not_lt.1 hge))).symm
    · rw [hsome, if_neg (not_lt.2 (hdust.resolve_left hasked.ne'))]

end Loop

/-! ## Fills of the closes -/

/-- What the manager keeps for an opener. -/
structure Holding where
  armed : ℚ
  remaining : Option ℚ
  inFlight : Option ℚ

namespace Holding

/-- What `cancel` leaves. -/
def gone : Holding := ⟨0, none, none⟩

def isFlat (h : Holding) : Bool := h.remaining.all fun rem => rem ≤ 0

def coverable (h : Holding) : ℚ :=
  match h.remaining with
  | none => h.armed
  | some rem => min h.armed rem

/-- A fill of one of the opener's closes. -/
def close (h : Holding) (qty : ℚ) : Holding :=
  let matched := match h.inFlight with
    | some q => min qty q
    | none => 0
  if dust < qty - matched ∨ h.isFlat then gone
  else { h with inFlight := landed h.inFlight qty }

/-- A fill of a close ends the bracket of an opener that is flat. -/
theorem foldl_close_of_flat {h : Holding} {qtys : List ℚ} (hflat : h.isFlat) (hne : qtys ≠ []) :
    qtys.foldl close h = gone := by
  have hclose : ∀ {h : Holding} (qty : ℚ), h.isFlat → h.close qty = gone := fun _ hflat =>
    if_pos (.inr hflat)
  have hgone : ∀ qtys : List ℚ, qtys.foldl close gone = gone := by
    intro qtys
    induction qtys with
    | nil => rfl
    | cons qty qtys ih => rw [List.foldl_cons, hclose qty rfl, ih]
  obtain ⟨qty, qtys, rfl⟩ := List.exists_cons_of_ne_nil hne
  rw [List.foldl_cons, hclose qty hflat, hgone]

/-- The fills of closes are no more than what is in flight. -/
def Accounts (h : Holding) (qtys : List ℚ) : Prop :=
  (∀ qty ∈ qtys, 0 ≤ qty) ∧ qtys.sum ≤ h.inFlight.getD dust

/-- While something is left of the opener, such fills leave its intents and its entry alone. -/
theorem coverable_foldl_close {h : Holding} {qtys : List ℚ} (hflat : h.isFlat = false)
    (hqtys : h.Accounts qtys) : (qtys.foldl close h).coverable = h.coverable := by
  induction qtys generalizing h with
  | nil => rfl
  | cons qty qtys ih =>
    obtain ⟨hnonneg, hsum⟩ := hqtys
    have hqty := hnonneg qty List.mem_cons_self
    have hnonneg' : ∀ q ∈ qtys, 0 ≤ q := fun q hq => hnonneg q (List.mem_cons_of_mem _ hq)
    have hrest := List.sum_nonneg hnonneg'
    rw [List.sum_cons] at hsum
    -- What is in flight may be dropped with less than `dust` left; later fills are no more than
    -- that.
    have hone : ∃ inFlight : Option ℚ, h.close qty = { h with inFlight } ∧
        qtys.sum ≤ inFlight.getD dust := by
      unfold close
      rw [hflat]
      cases hq : h.inFlight with
      | none =>
        rw [hq, Option.getD_none] at hsum
        refine ⟨none, if_neg ?_, by rw [Option.getD_none]; linarith⟩
        simp only [sub_zero, Bool.false_eq_true, or_false, not_lt]
        linarith
      | some q =>
        rw [hq, Option.getD_some] at hsum
        have hmatched : min qty q = qty := min_eq_left (by linarith)
        refine ⟨if q - qty ≤ dust then none else some (q - qty), ?_, ?_⟩
        · dsimp only
          rw [hmatched, sub_self, if_neg (by simp [dust_pos.le]), landed, Option.bind_some,
            hmatched]
        · split <;> simp only [Option.getD_none, Option.getD_some] <;> linarith
    obtain ⟨inFlight, heq, hsum'⟩ := hone
    rw [List.foldl_cons, heq]
    exact ih hflat ⟨hnonneg', hsum'⟩

end Holding

def holding (m : ExitManager) (opener : Nat) : Holding :=
  ⟨armedQty m.armed opener, m.openerRemainingQty.lookup opener,
    m.openerCloseInFlightQty.lookup opener⟩

variable (m : ExitManager) {f : FillEvent} {opener id : Nat}

theorem coverable_eq : m.coverable opener = (m.holding opener).coverable := rfl

theorem holding_cancel : (m.cancel opener).holding id =
    if id = opener then Holding.gone else m.holding id := by
  have hrelease : ∀ m : ExitManager, (m.releaseVenueBracket opener).holding id = m.holding id := by
    intro m
    unfold releaseVenueBracket
    split <;> rfl
  have hforget : (m.forget opener).holding id =
      if id = opener then Holding.gone else m.holding id := by
    split
    · next hid =>
      subst hid
      simp [holding, forget, Holding.gone, armedQty, entriesOf, dropOpener]
    · next hid =>
      rw [holding, forget, holding, armedQty_dropOpener_of_ne hid, AList.lookup_erase_ne hid,
        AList.lookup_erase_ne hid]
  rw [cancel, hrelease, ← hforget]
  split <;> rfl

/-- A closer fill is `Holding.close` for its opener, and nothing for the others. -/
theorem holding_closerFill : (m.closerFill f opener).holding id =
    if id = opener then (m.holding id).close f.filledQuantity else m.holding id := by
  obtain ⟨inFlight, hflight, heq⟩ := m.closerFill_eq f opener
  have hkept : { m with openerCloseInFlightQty := inFlight }.holding id = if id = opener
      then { m.holding id with inFlight := landed (m.holding id).inFlight f.filledQuantity }
      else m.holding id := by
    rw [holding, hflight id, holding]
    split
    · next hid => rw [hid]
    · rfl
  rw [heq]
  by_cases hid : id = opener
  · subst hid
    have hends : m.endsBracket f id = true ↔ _ := decide_eq_true_iff
    rw [if_pos rfl] at hkept ⊢
    rw [apply_ite (holding · id), holding_cancel, if_pos rfl, hkept]
    exact if_congr hends rfl rfl
  · rw [if_neg hid] at hkept ⊢
    split
    · rw [holding_cancel, if_neg hid, hkept]
    · exact hkept

/-- What a fill does to the holding of an opener that is not its order. -/
theorem holding_onFill (placed : BracketHandles) (order : IterationOrder (Nat × ExitIntent))
    (hid : id ≠ f.orderId) : (m.onFill f opener placed order).holding id =
      (if id ≠ 0 ∧ opener = id then [f.filledQuantity] else []).foldl Holding.close
        (m.holding id) := by
  unfold onFill
  split
  · next hcloser =>
    rw [holding_closerFill]
    by_cases ho : id = opener
    · rw [if_pos ho, if_pos ⟨ho ▸ hcloser.1, ho.symm⟩]
      rfl
    · rw [if_neg ho, if_neg fun h => ho h.2.symm]
      rfl
  · next hopener =>
    have hflight :
        (m.openerFill f placed order).openerCloseInFlightQty = m.openerCloseInFlightQty := by
      unfold openerFill recordPlaced
      split
      · rfl
      · dsimp only
        split_ifs <;> rfl
    have hother : ¬ (id ≠ 0 ∧ opener = id) := fun ⟨hzero, ho⟩ => hopener (ho ▸ ⟨hzero, hid⟩)
    rw [if_neg hother, holding, armedQty_openerFill_of_ne hid placed, openerFill_remaining,
      AList.lookup_insert_ne hid, hflight]
    rfl

end TrueTest.ExitManager
