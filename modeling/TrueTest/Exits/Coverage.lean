import TrueTest.Exits.Armed

/-!
# What the armed intents cover

An opener with an intent of fraction one should stay protected: what is armed for it, together with
what its intents have closed, is at least what was filled. An opener fill keeps this if it finds an
intent of fraction one to arm or to grow (`Ready`), and a trigger keeps it because a fired intent
closes all it held or all that was left. The second part needs the opener's entry in
`opener_remaining_qty_` to be no smaller than what was filled and not closed (`Balanced`), which an
entry rounded down from a remainder below `dust` is not (`Clean`).
-/

namespace TrueTest.ExitManager

open Machine List

/-! ## The balance of an opener -/

/-- A remainder that `consume_opener_qty` rounds to zero. -/
def IsDust (q : ℚ) : Prop := 0 < q ∧ q < dust

instance (q : ℚ) : Decidable (IsDust q) := inferInstanceAs (Decidable (_ ∧ _))

/-- What was filled of an opener is armed or closed; its entry is no smaller than the part that is
not closed, and without an entry all of it is closed. -/
structure Balanced (filled closed armed : ℚ) (entry : Option ℚ) : Prop where
  covered : filled ≤ armed + closed
  entry_le : ∀ rem, entry = some rem → filled - closed ≤ rem
  of_none : entry = none → filled ≤ closed

/-- Nothing held is negative, and the guarded openers are balanced. -/
structure Secure (guarded : Nat → Prop) (filled closed : Nat → ℚ)
    (armed : List (Nat × ArmedIntent)) (remaining : AList fun _ : Nat => ℚ) : Prop where
  qty_nonneg : ∀ e ∈ armed, 0 ≤ e.2.intent.qty
  entry_nonneg : ∀ id rem, remaining.lookup id = some rem → 0 ≤ rem
  closed_nonneg : ∀ id, 0 ≤ closed id
  balanced : ∀ id, guarded id →
    Balanced (filled id) (closed id) (armedQty armed id) (remaining.lookup id)

section Firing

variable {guarded : Nat → Prop} {filled closed : Nat → ℚ} {m : ExitManager} {opener : Nat}
  {ai ai' : ArmedIntent} {xs ys : List (Nat × ArmedIntent)} {ts : Int} {price : ℚ}

/-- A triggered intent whose opener has no entry closes all it asks for. -/
theorem fire_of_none {others : List (Nat × ArmedIntent)} (hqty : 0 < ai.intent.qty)
    (hnone : m.openerRemainingQty.lookup opener = none) :
    closedQty (m.fire ts price opener ai others).1.toList opener = ai.intent.qty ∧
      (m.fire ts price opener ai others).2.openerRemainingQty.lookup opener = none := by
  have hconsume : m.consumeOpenerQty opener ai.intent.qty = (ai.intent.qty, m) := by
    rw [consumeOpenerQty, if_pos hqty, hnone]
  unfold fire
  rw [hconsume]
  dsimp only
  rw [if_pos hqty]
  refine ⟨by simp [closedQty, closeOrder, OrderEvent.new], ?_⟩
  split <;> simp [hnone]

/-- A fired intent with an entry leaves the opener balanced: it closes all it held, or all the entry
had. The remainder must not be one that is rounded to zero. -/
theorem Balanced.fire {f c a q rem : ℚ} {entry : Option ℚ} (h : Balanced f c (a + q) (some rem))
    (ha : 0 ≤ a) (hrem : 0 ≤ rem) (hq : 0 < q) (hclean : ¬ IsDust (rem - q))
    (hentry : entry = none ∨ entry = some (leftover rem (min q rem)))
    (hkept : entry = none → 0 < leftover rem (min q rem) → a = 0) :
    Balanced f (c + max 0 (min q rem)) a entry := by
  have hcov := h.covered
  have hle := h.entry_le rem rfl
  have hmax : max 0 (min q rem) = min q rem := max_eq_right (le_min hq.le hrem)
  have hcovered : f ≤ a + (c + min q rem) := by
    rcases le_total q rem with hqr | hqr
    · rw [min_eq_left hqr]
      linarith
    · rw [min_eq_right hqr]
      linarith
  have hleft : f - (c + min q rem) ≤ leftover rem (min q rem) := by
    unfold leftover
    split
    · next hdust =>
      rcases le_or_gt rem q with hqr | hqr
      · rw [min_eq_right hqr]
        linarith
      · rw [min_eq_left hqr.le] at hdust
        rw [abs_of_pos (sub_pos.2 hqr)] at hdust
        exact absurd ⟨sub_pos.2 hqr, hdust⟩ hclean
    · linarith
  rw [hmax]
  refine ⟨hcovered, fun r hr => ?_, fun hnone => ?_⟩
  · rcases hentry with he | he
    · rw [he] at hr
      cases hr
    · rw [he] at hr
      cases hr
      exact hleft
  · by_cases hpos : 0 < leftover rem (min q rem)
    · rw [hkept hnone hpos] at hcovered
      linarith
    · linarith [not_lt.1 hpos]

/-- Firing an armed intent keeps the guarded openers balanced. -/
theorem Secure.fire (h : Secure guarded filled closed (xs ++ (opener, ai) :: ys)
      m.openerRemainingQty)
    (hsame : ai'.intent.qty = ai.intent.qty)
    (hclean : 0 < ai'.intent.qty → ∀ rem, m.openerRemainingQty.lookup opener = some rem →
      ¬ IsDust (rem - ai'.intent.qty)) :
    Secure guarded filled
      (fun id => closed id + closedQty (m.fire ts price opener ai' (xs ++ ys)).1.toList id)
      (xs ++ ys) (m.fire ts price opener ai' (xs ++ ys)).2.openerRemainingQty := by
  have hsub : ∀ e ∈ xs ++ ys, 0 ≤ e.2.intent.qty := fun e he =>
    h.qty_nonneg e (((sublist_cons_self _ ys).append_left xs).subset he)
  have hmid : ∀ id, armedQty (xs ++ (opener, ai) :: ys) id =
      armedQty (xs ++ ys) id + if opener = id then ai.intent.qty else 0 :=
    fun id => armedQty_middle xs ys _ id
  set s := m.fire ts price opener ai' (xs ++ ys) with hs
  -- What becomes of the opener itself.
  have hown : (∀ r, s.2.openerRemainingQty.lookup opener = some r → 0 ≤ r) ∧
      0 ≤ closedQty s.1.toList opener ∧ (guarded opener → Balanced (filled opener)
        (closed opener + closedQty s.1.toList opener) (armedQty (xs ++ ys) opener)
        (s.2.openerRemainingQty.lookup opener)) := by
    have hbal : guarded opener → Balanced (filled opener) (closed opener)
        (armedQty (xs ++ ys) opener + ai'.intent.qty) (m.openerRemainingQty.lookup opener) :=
          fun hid => by
      have hb := h.balanced opener hid
      rwa [hmid, if_pos rfl, ← hsame] at hb
    by_cases hqty : 0 < ai'.intent.qty
    · cases hlook : m.openerRemainingQty.lookup opener with
      | none =>
        obtain ⟨hclosed, hrem⟩ := @fire_of_none m opener ai' ts price (xs ++ ys) hqty hlook
        rw [hclosed, hrem]
        refine ⟨nofun, hqty.le, fun hid => ?_⟩
        have hb := hbal hid
        have hcov := hb.covered
        have hall := hb.of_none hlook
        exact ⟨by linarith, nofun, fun _ => by linarith⟩
      | some rem =>
        obtain ⟨hclosed, hself, hkeep⟩ :=
          @fire_of_some m opener ai' (xs ++ ys) ts price rem hqty hlook
        rw [hclosed]
        refine ⟨fun r hr => ?_, le_max_left _ _, fun hid => ?_⟩
        · rcases hself with hn | hleft
          · rw [hn] at hr
            cases hr
          · rw [hleft] at hr
            cases hr
            exact (leftover_bounds (min_le_right _ _)).1
        · have hb := hbal hid
          rw [hlook] at hb
          refine hb.fire (armedQty_nonneg hsub _) (h.entry_nonneg opener rem hlook) hqty
            (hclean hqty rem hlook) hself fun hnone hpos => ?_
          -- The entry goes although something is left, so no other intent is armed.
          by_contra hne
          have hothers : entriesOf (xs ++ ys) opener ≠ [] := fun hnil => hne (by
            rw [armedQty, hnil]
            rfl)
          rw [hkeep hpos hothers] at hnone
          cases hnone
    · -- It asks for nothing, so it held nothing.
      obtain ⟨hnone, hrem⟩ := @fire_of_nonpos m opener ai' (xs ++ ys) ts price hqty
      have hzero : ai'.intent.qty = 0 := le_antisymm (not_lt.1 hqty)
        (hsame ▸ h.qty_nonneg (opener, ai) (by simp))
      rw [hs, hnone, hrem, Option.toList_none, closedQty_nil, add_zero]
      refine ⟨h.entry_nonneg opener, le_rfl, fun hid => ?_⟩
      have hb := hbal hid
      rwa [hzero, add_zero] at hb
  refine ⟨hsub, fun id r hr => ?_, fun id => ?_, fun id hid => ?_⟩ <;> by_cases ho : id = opener
  · exact hown.1 r (ho ▸ hr)
  · rw [(fire_of_ne ho).1] at hr
    exact h.entry_nonneg id r hr
  · rw [ho]
    exact add_nonneg (h.closed_nonneg opener) hown.2.1
  · rw [(fire_of_ne ho).2, add_zero]
    exact h.closed_nonneg id
  · rw [ho] at hid ⊢
    exact hown.2.2 hid
  · have hb := h.balanced id hid
    rw [hmid, if_neg (Ne.symm ho), add_zero] at hb
    rwa [(fire_of_ne ho).1, (fire_of_ne ho).2, add_zero]

end Firing

/-! ## The loop over the armed intents -/

section Loop

variable {guarded : Nat → Prop} {filled closed : Nat → ℚ} {m : ExitManager} {opener : Nat}
  {probe : ArmedIntent → ArmedIntent × Option ℚ} {symbol : String} {ts : Int}
  {remaining : AList fun _ : Nat => ℚ} {before : List (Nat × ℚ)}

/-- No request leaves dust in the entry of its opener. -/
def Clean (remaining : AList fun _ : Nat => ℚ) : List (Nat × ℚ) → List (Nat × ℚ) → Prop
  | _, [] => True
  | before, r :: rs =>
    (∀ rem ∈ remaining.lookup r.1, ¬ IsDust (rem - requested (before ++ [r]) r.1)) ∧
      Clean remaining (before ++ [r]) rs

instance decidableClean (remaining : AList fun _ : Nat => ℚ) :
    ∀ before rs, Decidable (Clean remaining before rs)
  | _, [] => isTrue trivial
  | before, r :: rs =>
    have := decidableClean remaining (before ++ [r]) rs
    inferInstanceAs (Decidable (_ ∧ _))

/-- The entry of an opener is what the requests so far left of it, while something is left and an
intent of the opener is armed; once nothing is left, the entry is gone or not positive. -/
structure Follows (remaining : AList fun _ : Nat => ℚ) (before : List (Nat × ℚ))
    (live : List (Nat × ArmedIntent)) (m : ExitManager) : Prop where
  absent : ∀ id, remaining.lookup id = none → m.openerRemainingQty.lookup id = none
  left : ∀ id rem, remaining.lookup id = some rem → requested before id < rem →
    entriesOf live id ≠ [] → m.openerRemainingQty.lookup id = some (rem - requested before id)
  used : ∀ id rem, remaining.lookup id = some rem → rem ≤ requested before id →
    ∀ r, m.openerRemainingQty.lookup id = some r → r ≤ 0

theorem follows_self (m : ExitManager) (live : List (Nat × ArmedIntent)) :
    Follows m.openerRemainingQty [] live m where
  absent _ h := h
  left id rem h _ _ := by rw [h, requested_of_not_mem (by simp), sub_zero]
  used id rem h hle r hr := by
    rw [h] at hr
    cases hr
    rwa [requested_of_not_mem (by simp)] at hle

/-- What the loop knows of an entry keeps `fire` from rounding a remainder. -/
theorem Follows.not_isDust {live : List (Nat × ArmedIntent)} {q : ℚ}
    (h : Follows remaining before live m)
    (hlive : entriesOf live opener ≠ []) (hq : 0 < q) (hclean : ∀ rem ∈ remaining.lookup opener,
      ¬ IsDust (rem - requested (before ++ [(opener, q)]) opener))
    {r : ℚ} (hr : m.openerRemainingQty.lookup opener = some r) : ¬ IsDust (r - q) := by
  cases hrem : remaining.lookup opener with
  | none =>
    rw [h.absent opener hrem] at hr
    cases hr
  | some rem =>
    rcases lt_or_ge (requested before opener) rem with hlt | hge
    · rw [h.left opener rem hrem hlt hlive] at hr
      cases hr
      have hc := hclean rem hrem
      rwa [requested_snoc, if_pos rfl, ← sub_sub] at hc
    · have hr0 := h.used opener rem hrem hge r hr
      exact fun hdust => absurd hdust.1 (by linarith)

theorem entriesOf_middle_ne_nil (xs ys : List (Nat × ArmedIntent)) (opener : Nat)
    (ai : ArmedIntent) : entriesOf (xs ++ (opener, ai) :: ys) opener ≠ [] :=
  ne_nil_of_mem (mem_filter.2 ⟨mem_append_right xs mem_cons_self, decide_eq_true rfl⟩)

theorem entriesOf_ne_nil_of_sublist {xs ys : List (Nat × ArmedIntent)} {id : Nat}
    (hsub : xs.Sublist ys) (h : entriesOf xs id ≠ []) : entriesOf ys id ≠ [] :=
  fun hnil => h (sublist_nil.1 (hnil ▸ hsub.filter _))

theorem Follows.mono {xs ys : List (Nat × ArmedIntent)} {m' : ExitManager}
    (h : Follows remaining before ys m) (hsub : xs.Sublist ys)
    (hsame : m'.openerRemainingQty = m.openerRemainingQty) : Follows remaining before xs m' := by
  refine ⟨fun id hid => ?_, fun id rem hrem hlt hne => ?_, fun id rem hrem hle r hr => ?_⟩
  · rw [hsame]
    exact h.absent id hid
  · rw [hsame]
    exact h.left id rem hrem hlt (entriesOf_ne_nil_of_sublist hsub hne)
  · rw [hsame] at hr
    exact h.used id rem hrem hle r hr

theorem Follows.fire {old ai : ArmedIntent} {kept rest : List (Nat × ArmedIntent)} {price : ℚ}
    (hq : 0 < ai.intent.qty) (h : Follows remaining before (kept ++ (opener, old) :: rest) m)
    (hclean : ∀ rem ∈ remaining.lookup opener,
      ¬ IsDust (rem - requested (before ++ [(opener, ai.intent.qty)]) opener)) :
    Follows remaining (before ++ [(opener, ai.intent.qty)]) (kept ++ rest)
      (m.fire ts price opener ai (kept ++ rest)).2 := by
  have hsub : (kept ++ rest).Sublist (kept ++ (opener, old) :: rest) :=
    Sublist.append_left (sublist_cons_self _ rest) kept
  have hlive := entriesOf_middle_ne_nil kept rest opener old
  refine ⟨fun id hid => ?_, fun id rem hrem hlt hne => ?_, fun id rem hrem hle r hr => ?_⟩ <;>
    by_cases ho : id = opener
  · rw [ho] at hid ⊢
    exact (fire_of_none hq (h.absent opener hid)).2
  · rw [(fire_of_ne ho).1]
    exact h.absent id hid
  · rw [ho] at hrem hlt hne ⊢
    rw [requested_snoc, if_pos rfl] at hlt ⊢
    have hcur := h.left opener rem hrem (by linarith) hlive
    have hdust := h.not_isDust hlive hq hclean hcur
    -- Something is left, and it is not dust.
    have hpos : 0 < rem - requested before opener - ai.intent.qty := by linarith
    obtain ⟨-, -, hkeep⟩ := @fire_of_some m opener ai (kept ++ rest) ts price _ hq hcur
    rw [min_eq_left (by linarith),
      leftover_of_dust_le (not_lt.1 fun hlt => hdust ⟨hpos, hlt⟩)] at hkeep
    rw [hkeep hpos hne, sub_sub]
  · rw [requested_snoc, if_neg (Ne.symm ho), add_zero] at hlt ⊢
    rw [(fire_of_ne ho).1]
    exact h.left id rem hrem hlt (entriesOf_ne_nil_of_sublist hsub hne)
  · rw [ho] at hrem hle hr
    rw [requested_snoc, if_pos rfl] at hle
    cases hlook : m.openerRemainingQty.lookup opener with
    | none =>
      rw [(fire_of_none hq hlook).2] at hr
      cases hr
    | some r₀ =>
      have hall : r₀ ≤ ai.intent.qty := by
        rcases lt_or_ge (requested before opener) rem with hlt | hge
        · rw [h.left opener rem hrem hlt hlive] at hlook
          cases hlook
          linarith
        · have := h.used opener rem hrem hge r₀ hlook
          linarith
      obtain ⟨-, hself, -⟩ := @fire_of_some m opener ai (kept ++ rest) ts price r₀ hq hlook
      rw [min_eq_right hall] at hself
      rcases hself with hn | hs
      · rw [hn] at hr
        cases hr
      · rw [hs] at hr
        cases hr
        rw [leftover, sub_self, abs_zero, if_pos dust_pos]
  · rw [requested_snoc, if_neg (Ne.symm ho), add_zero] at hle
    rw [(fire_of_ne ho).1] at hr
    exact h.used id rem hrem hle r hr

/-- An intent that is not triggered keeps its quantity. -/
theorem Secure.replace {ai ai' : ArmedIntent} {xs ys : List (Nat × ArmedIntent)}
    (h : Secure guarded filled closed (xs ++ (opener, ai) :: ys) remaining)
    (hsame : ai'.intent.qty = ai.intent.qty) :
    Secure guarded filled closed (xs ++ [(opener, ai')] ++ ys) remaining := by
  rw [append_assoc, singleton_append]
  refine ⟨?_, h.entry_nonneg, h.closed_nonneg, fun id hid => ?_⟩
  · obtain ⟨hxs, hys⟩ := forall_mem_append.1 h.qty_nonneg
    obtain ⟨hai, hys⟩ := forall_mem_cons.1 hys
    exact forall_mem_append.2 ⟨hxs, forall_mem_cons.2 ⟨hsame ▸ hai, hys⟩⟩
  · have hb := h.balanced id hid
    rw [armedQty_middle] at hb ⊢
    rwa [hsame]

theorem Follows.replace {ai ai' : ArmedIntent} {xs ys : List (Nat × ArmedIntent)}
    (h : Follows remaining before (xs ++ (opener, ai) :: ys) m) :
    Follows remaining before (xs ++ [(opener, ai')] ++ ys) m := by
  refine ⟨h.absent, fun id rem hrem hlt hne => h.left id rem hrem hlt fun hnil => hne ?_, h.used⟩
  by_cases ho : opener = id
  · subst ho
    exact absurd hnil (entriesOf_middle_ne_nil xs ys opener ai)
  · simpa [entriesOf, ho] using hnil

/-- The loop keeps the guarded openers balanced if no request leaves dust. -/
theorem evaluate_secure (hprobe : ∀ ai, (probe ai).1.intent.qty = ai.intent.qty)
    (rest kept : List (Nat × ArmedIntent))
    (h : Secure guarded filled closed (kept ++ rest) m.openerRemainingQty)
    (hclean : Clean remaining before (requests probe symbol rest))
    (hfollows : Follows remaining before (kept ++ rest) m) :
    Secure guarded filled
      (fun id => closed id + closedQty (evaluate probe symbol ts kept rest m).1 id)
      (evaluate probe symbol ts kept rest m).2.armed
      (evaluate probe symbol ts kept rest m).2.openerRemainingQty := by
  refine evaluate_induction probe symbol ts (motive := fun kept rest m r => ∀ before closed,
      Secure guarded filled closed (kept ++ rest) m.openerRemainingQty →
      Clean remaining before (requests probe symbol rest) →
      Follows remaining before (kept ++ rest) m →
      Secure guarded filled (fun id => closed id + closedQty r.1 id) r.2.armed
    r.2.openerRemainingQty) (fun kept m before closed h _ _ => ?_)
    (fun kept rest m r opener ai ai' hskip hai ih before closed h hclean hfollows => ?_)
    (fun kept rest m r opener ai price htriggers _ ih before closed h hclean hfollows => ?_)
    kept rest m before closed h hclean hfollows
  · simp only [closedQty_nil, add_zero]
    rw [append_nil] at h
    exact h
  · have hqty : ai'.intent.qty = ai.intent.qty := by rw [hai, passed_qty hprobe]
    rw [requests_cons_of_not (.inl hskip)] at hclean
    exact ih before closed (h.replace hqty) hclean hfollows.replace
  · have hqty := hprobe ai
    set s := m.fire ts price opener (probe ai).1 (kept ++ rest)
    have hsplit : ∀ id, closed id + closedQty (s.1.toList ++ r.1) id =
        closed id + closedQty s.1.toList id + closedQty r.1 id := fun id => by
      rw [closedQty_append, add_assoc]
    simp only [hsplit]
    by_cases hpos : 0 < (probe ai).1.intent.qty
    · rw [requests_cons_of_triggers htriggers hpos] at hclean
      have hlive := entriesOf_middle_ne_nil kept rest opener ai
      exact ih _ _ (h.fire hqty fun _ _ hrem => hfollows.not_isDust hlive hpos hclean.1 hrem)
        hclean.2 (hfollows.fire hpos hclean.1)
    · rw [requests_cons_of_not (.inr hpos)] at hclean
      obtain ⟨-, hsame⟩ := @fire_of_nonpos m opener (probe ai).1 (kept ++ rest) ts price hpos
      refine ih before _ (h.fire hqty fun hlt => absurd hlt hpos) hclean ?_
      exact hfollows.mono (Sublist.append_left (sublist_cons_self _ rest) kept) hsame

end Loop

/-! ## Whole runs -/

/-- A ledger with the openers that have an intent of fraction one, and those whose bracket was
cancelled or closed by a closer fill. -/
structure Account where
  ledger : Ledger
  declared : List Nat
  ended : List Nat

def Account.init (hasBracketAdapter : Bool) : Account := ⟨Ledger.init hasBracketAdapter, [], []⟩

/-- The opener for which an operation registers an intent of fraction one. -/
def declaredBy : Op → List Nat
  | .register intent =>
    if intent.openerOrderId ≠ 0 ∧ intent.fraction = 1 then [intent.openerOrderId] else []
  | _ => []

/-- The openers whose bracket an operation ends. -/
def endedBy (m : ExitManager) : Op → List Nat
  | .fill f opener _ _ =>
    if ¬ isOpenerFill f opener ∧ m.endsBracket f opener then [opener] else []
  | .cancel opener => [opener]
  | .cancelStrategy strategyName symbol => m.openersOf strategyName symbol
  | _ => []

namespace Account

variable (a : Account)

/-- One operation of the manager, on the account. -/
def step (op : Op) : List OrderEvent × Account :=
  ((ExitManager.step a.ledger op).1,
    { ledger := (ExitManager.step a.ledger op).2
      declared := a.declared ++ declaredBy op
      ended := a.ended ++ endedBy a.ledger.manager op })

/-- The opener has an intent of fraction one and its bracket has not ended. -/
def Guards (id : Nat) : Prop := id ∈ a.declared ∧ id ∉ a.ended

instance (id : Nat) : Decidable (a.Guards id) := inferInstanceAs (Decidable (_ ∧ _))

def Secure : Prop :=
  ExitManager.Secure a.Guards a.ledger.filled a.ledger.closed a.ledger.manager.armed
    a.ledger.manager.openerRemainingQty

/-- An intent of fraction one is registered before its opener has fills, or where there is one
already; a fill of a guarded opener finds an intent of fraction one; a trigger leaves no dust. -/
def Protected : Op → Prop
  | .register intent => intent.openerOrderId ∈ declaredBy (.register intent) →
      intent.openerOrderId ∈ a.declared ∨ a.ledger.filled intent.openerOrderId = 0
  | .fill f opener _ _ => isOpenerFill f opener →
      0 ≤ f.filledQuantity ∧ (a.Guards f.orderId → a.ledger.manager.Ready f.orderId)
  | .price symbol px ts order => 0 < px → Clean a.ledger.manager.openerRemainingQty []
      (requests (ArmedIntent.probePrice px ts) symbol (order.run a.ledger.manager.armed))
  | .bar symbol open_ low high close ts order => 0 < low ∧ 0 < high ∧ 0 < close →
      Clean a.ledger.manager.openerRemainingQty []
        (requests (ArmedIntent.probeBar (if 0 < open_ then open_ else close) (min low high)
          (max low high) close ts) symbol (order.run a.ledger.manager.armed))
  | _ => True

instance (op : Op) : Decidable (a.Protected op) := by
  induction op using Op.casesOn <;> unfold Protected <;> infer_instance

variable {a : Account}

/-- An operation that declares nothing guards no more openers, and none that it ends. -/
theorem guards_step {op : Op} (hnone : declaredBy op = []) {id : Nat}
    (h : (a.step op).2.Guards id) :
    a.Guards id ∧ id ∉ endedBy a.ledger.manager op := by
  obtain ⟨hdecl, hend⟩ := h
  simp only [step, hnone, append_nil] at hdecl
  simp only [step, mem_append, not_or] at hend
  exact ⟨⟨hdecl, hend.1⟩, hend.2⟩

/-- Ending brackets keeps the other openers balanced. -/
theorem secure_of_drops {a' : Account} {ids : List Nat} (h : a.Secure)
    (hdrops : Drops ids a.ledger.manager a'.ledger.manager)
    (hfilled : a'.ledger.filled = a.ledger.filled) (hclosed : a'.ledger.closed = a.ledger.closed)
    (hguards : ∀ id, a'.Guards id → a.Guards id ∧ id ∉ ids) : a'.Secure := by
  refine ⟨fun e he => h.qty_nonneg e (hdrops.armed e he),
    fun id rem hrem => h.entry_nonneg id rem (hdrops.remaining id rem hrem), ?_, fun id hid => ?_⟩
  · rw [hclosed]
    exact h.closed_nonneg
  · obtain ⟨hold, hnot⟩ := hguards id hid
    obtain ⟨harmed, hrem⟩ := hdrops.spared id hnot
    rw [hfilled, hclosed, harmed, hrem]
    exact h.balanced id hold

theorem register_secure (intent : ExitIntent) (h : a.Secure)
    (hp : a.Protected (.register intent)) : (a.step (.register intent)).2.Secure := by
  have harmed : (a.ledger.manager.registerPending intent).armed = a.ledger.manager.armed := by
    unfold registerPending
    split <;> rfl
  have hrem : (a.ledger.manager.registerPending intent).openerRemainingQty =
      a.ledger.manager.openerRemainingQty := by
    unfold registerPending
    split <;> rfl
  have hnew : ∀ id ∈ declaredBy (.register intent), id = intent.openerOrderId := by
    intro id hid
    simp only [declaredBy] at hid
    split at hid
    · exact mem_singleton.1 hid
    · cases hid
  show ExitManager.Secure _ a.ledger.filled a.ledger.closed
    (a.ledger.manager.registerPending intent).armed
    (a.ledger.manager.registerPending intent).openerRemainingQty
  rw [harmed, hrem]
  refine ⟨h.qty_nonneg, h.entry_nonneg, h.closed_nonneg, fun id hid => ?_⟩
  obtain ⟨hdecl, hend⟩ := hid
  have hend : id ∉ a.ended := fun hmem => hend (mem_append_left _ hmem)
  by_cases hold : id ∈ a.declared
  · exact h.balanced id ⟨hold, hend⟩
  · have hmem := (mem_append.1 hdecl).resolve_left hold
    obtain rfl := hnew id hmem
    -- The first intent of fraction one comes before the first fill.
    have hzero := (hp hmem).resolve_left hold
    have hc := h.closed_nonneg intent.openerOrderId
    have ha := armedQty_nonneg h.qty_nonneg intent.openerOrderId
    rw [hzero]
    refine ⟨by linarith, fun rem hrem => ?_, fun _ => hc⟩
    linarith [h.entry_nonneg _ rem hrem]

section

variable {f : FillEvent} {opener : Nat} (placed : BracketHandles)
  (order : IterationOrder (Nat × ExitIntent)) (h : a.Secure)
include h

theorem openerFill_secure (hp : a.Protected (.fill f opener placed order))
    (hop : isOpenerFill f opener) :
    (a.step (.fill f opener placed order)).2.Secure := by
  obtain ⟨hqty, hready⟩ := hp hop
  have hcl : ¬ (opener ≠ 0 ∧ opener ≠ f.orderId) := of_decide_eq_true hop
  have hmanager : a.ledger.manager.onFill f opener placed order =
      a.ledger.manager.openerFill f placed order := by rw [onFill, if_neg hcl]
  have hfilled : ∀ id, (a.step (.fill f opener placed order)).2.ledger.filled id =
      a.ledger.filled id + if f.orderId = id then f.filledQuantity else 0 := fun id => by
    simp [step, ExitManager.step, hop]
  have hguards : ∀ id, (a.step (.fill f opener placed order)).2.Guards id → a.Guards id :=
    fun id hid => (guards_step rfl hid).1
  show ExitManager.Secure _ _ a.ledger.closed (a.ledger.manager.onFill f opener placed order).armed
    (a.ledger.manager.onFill f opener placed order).openerRemainingQty
  rw [hmanager, openerFill_remaining]
  refine ⟨openerFill_qty_nonneg hqty placed h.qty_nonneg,
    AList.forall_lookup_insert ?_ h.entry_nonneg, h.closed_nonneg, fun id hid => ?_⟩
  · cases hold : a.ledger.manager.openerRemainingQty.lookup f.orderId with
    | none => simpa using hqty
    | some rem =>
      rw [Option.getD_some]
      exact add_nonneg (h.entry_nonneg _ rem hold) hqty
  · have hb := h.balanced id (hguards id hid)
    rw [hfilled]
    by_cases ho : id = f.orderId
    · subst ho
      have harmed :=
        @armedQty_openerFill f a.ledger.manager order hqty placed (hready (hguards _ hid))
      have hcov := hb.covered
      rw [AList.lookup_insert, if_pos rfl]
      refine ⟨by linarith, fun rem hrem => ?_, fun hnone => by cases hnone⟩
      cases hrem
      cases hold : a.ledger.manager.openerRemainingQty.lookup f.orderId with
      | none =>
        have := hb.of_none hold
        rw [Option.getD_none]
        linarith
      | some rem =>
        have := hb.entry_le rem hold
        rw [Option.getD_some]
        linarith
    · rw [AList.lookup_insert_ne ho, if_neg (Ne.symm ho), add_zero, armedQty_openerFill_of_ne ho]
      exact hb

theorem closerFill_secure (hop : ¬ isOpenerFill f opener) :
    (a.step (.fill f opener placed order)).2.Secure := by
  have hcl : opener ≠ 0 ∧ opener ≠ f.orderId := not_not.1 fun hne => hop (decide_eq_true hne)
  have hdrops : Drops (if a.ledger.manager.endsBracket f opener then [opener] else [])
      a.ledger.manager (a.ledger.manager.onFill f opener placed order) := by
    rw [onFill, if_pos hcl]
    exact drops_closerFill _ f opener
  refine secure_of_drops h hdrops ?_ rfl ?_
  · funext id
    simp [step, ExitManager.step, hop]
  · intro id hid
    obtain ⟨hold, hend⟩ := guards_step rfl hid
    exact ⟨hold, by simpa [endedBy, hop] using hend⟩

end

/-- Both triggers run the loop over the armed intents, in some order. -/
theorem trigger_secure {probe : ArmedIntent → ArmedIntent × Option ℚ} {symbol : String} {ts : Int}
    (hprobe : ∀ ai, (probe ai).1.intent.qty = ai.intent.qty)
    (order : IterationOrder (Nat × ArmedIntent))
    (h : a.Secure) (hclean : Clean a.ledger.manager.openerRemainingQty []
      (requests probe symbol (order.run a.ledger.manager.armed))) :
    let r := evaluate probe symbol ts [] (order.run a.ledger.manager.armed) a.ledger.manager
    ExitManager.Secure a.Guards a.ledger.filled
      (fun id => a.ledger.closed id + closedQty r.1 id) r.2.armed r.2.openerRemainingQty := by
  have hperm := order.perm a.ledger.manager.armed
  refine evaluate_secure hprobe _ [] ?_ hclean (follows_self _ _)
  refine ⟨fun e he => h.qty_nonneg e (hperm.mem_iff.1 he), h.entry_nonneg, h.closed_nonneg,
    fun id hid => ?_⟩
  rw [nil_append, armedQty_perm hperm]
  exact h.balanced id hid

theorem idle_secure (h : a.Secure) :
    ExitManager.Secure a.Guards a.ledger.filled
      (fun id => a.ledger.closed id + closedQty [] id) a.ledger.manager.armed
      a.ledger.manager.openerRemainingQty := by
  simp only [closedQty_nil, add_zero]
  exact h

theorem step_secure (op : Op) (h : a.Secure) (hp : a.Protected op) : (a.step op).2.Secure := by
  -- No opener is declared or ended by a trigger.
  have hsame : ∀ r, ExitManager.Secure a.Guards a.ledger.filled
        (fun id => a.ledger.closed id + closedQty r.1 id) r.2.armed r.2.openerRemainingQty →
      ExitManager.Secure (Guards ⟨(a.ledger.fired r).2, a.declared ++ [], a.ended ++ []⟩)
        (a.ledger.fired r).2.filled (a.ledger.fired r).2.closed (a.ledger.fired r).2.manager.armed
        (a.ledger.fired r).2.manager.openerRemainingQty := by
    intro r hr
    simp only [append_nil]
    exact hr
  cases op with
  | register intent => exact register_secure intent h hp
  | fill f opener placed order =>
    by_cases hop : isOpenerFill f opener
    · exact openerFill_secure placed order h hp hop
    · exact closerFill_secure placed order h hop
  | price symbol px ts order =>
    refine hsame (a.ledger.manager.onPrice symbol px ts order) ?_
    unfold onPrice
    split_ifs with hskip
    · exact idle_secure h
    · exact trigger_secure (probePrice_qty px ts) order h (hp (not_not.1 (not_or.1 hskip).2))
  | bar symbol open_ low high close ts order =>
    refine hsame (a.ledger.manager.onBar symbol open_ low high close ts order) ?_
    unfold onBar
    by_cases hskip : a.ledger.manager.armed.isEmpty ∨ ¬ 0 < low ∨ ¬ 0 < high ∨ ¬ 0 < close
    · rw [if_pos hskip]
      exact idle_secure h
    · rw [if_neg hskip]
      simp only [not_or, not_not] at hskip
      exact trigger_secure (probeBar_qty _ _ _ _ ts) order h (hp hskip.2)
  | cancel opener =>
    exact secure_of_drops h (drops_cancel _ opener) rfl rfl fun id => guards_step rfl
  | cancelStrategy strategyName symbol =>
    exact secure_of_drops h (drops_cancelStrategy _ strategyName symbol) rfl rfl
      fun id => guards_step rfl

theorem secure_init (hasBracketAdapter : Bool) : (init hasBracketAdapter).Secure := by
  refine ⟨fun _ he => absurd he not_mem_nil, fun id rem hrem => ?_, fun _ => le_rfl,
    fun id hid => ?_⟩
  · simp [init, Ledger.init, ExitManager.init] at hrem
  · cases hid.1

end Account

end TrueTest.ExitManager
