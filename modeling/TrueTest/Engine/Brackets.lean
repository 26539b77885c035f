import TrueTest.Engine.Refusals

/-!
# Brackets that can still fire

A trigger, a price or a bar, emits a closing order for an armed intent that it reaches, if the
intent asks for something and its opener has something left. A symbol is silent if no triggers emit
anything for it, however many come: no intent is left that they reach, with its trail where they
pull it.

A flat position sweeps the brackets of the configured strategies. What remains is everything whose
opener is not listed under a key that was swept.
-/

namespace TrueTest

open Machine List

/-! ## Triggers -/

namespace Engine.Trigger

/-- The manager ignores a trigger whose prices are not positive. -/
def Valid : Trigger → Prop
  | .price px => 0 < px
  | .bar _ low high close => 0 < low ∧ 0 < high ∧ 0 < close

/-- A trigger moves at most the stop of an intent. -/
theorem probe_intent (t : Trigger) (ts : Int) (ai : ArmedIntent) :
    ∃ sl, (t.probe ts ai).1.intent = { ai.intent with stopLoss := sl } := by
  have htrail : ∀ px, ∃ sl, (ai.seen px).trail.intent = { ai.intent with stopLoss := sl } :=
    fun px => by
    obtain ⟨sl, hsl⟩ := (ai.seen px).exists_trail_eq
    exact ⟨sl, by rw [hsl, ArmedIntent.seen_intent]⟩
  cases t with
  | price px => exact htrail px
  | bar open_ low high close =>
    rw [probe, ArmedIntent.probeBar]
    split_ifs
    all_goals first | exact ⟨_, rfl⟩ | exact htrail _

theorem probe_symbol (t : Trigger) (ts : Int) (ai : ArmedIntent) :
    (t.probe ts ai).1.intent.symbol = ai.intent.symbol := by
  obtain ⟨sl, hsl⟩ := t.probe_intent ts ai
  rw [hsl]

/-- The last of some triggers on the intent's symbol makes it fire. -/
def Fires : List (Trigger × Int) → ArmedIntent → Prop
  | [], _ => False
  | (t, ts) :: cs, ai => t.Valid ∧ ((t.probe ts ai).2.isSome ∨ Fires cs (t.probe ts ai).1)

end Engine.Trigger

namespace ExitManager

open Engine (Trigger)

variable {m m' : ExitManager} {opener id : Nat} {ai : ArmedIntent}
  {others : List (Nat × ArmedIntent)} {ts : Int} {price qty : ℚ} {symbol : String}

/-- An intent for `qty` of the opener has something to close. -/
def Loaded (m : ExitManager) (opener : Nat) (qty : ℚ) : Prop :=
  0 < qty ∧ ∀ rem ∈ m.openerRemainingQty.lookup opener, 0 < rem

theorem loaded_iff : m.Loaded opener qty ↔ 0 < qty ∧ m.hasRest opener = true := by
  rw [Loaded, hasRest]
  cases m.openerRemainingQty.lookup opener <;> simp

/-- The loop emits nothing exactly if no intent that is triggered is loaded. -/
theorem evaluate_eq_nil_iff {probe : ArmedIntent → ArmedIntent × Option ℚ}
    (hprobe : ∀ ai, (probe ai).1.intent.qty = ai.intent.qty) (kept rest : List (Nat × ArmedIntent))
    (m : ExitManager) : (evaluate probe symbol ts kept rest m).1 = [] ↔
      ∀ x ∈ rest, triggers probe symbol x → ¬ m.Loaded x.1 x.2.intent.qty := by
  have hsends : Forall₂ (Closes probe ts) (rest.filter (m.sends probe symbol)) _ :=
    evaluate_sends kept rest m
  rw [← length_eq_zero_iff, ← hsends.length_eq, length_eq_zero_iff, filter_eq_nil_iff]
  refine forall₂_congr fun x _ => ?_
  rw [sends, decide_eq_true_iff, hprobe, loaded_iff, not_and]

/-- Some triggers on the symbol would make the intent emit a closing order. -/
def CanFire (m : ExitManager) (symbol : String) (x : Nat × ArmedIntent) : Prop :=
  x.2.intent.symbol = symbol ∧ m.Loaded x.1 x.2.intent.qty ∧ ∃ cs, Trigger.Fires cs x.2

/-- One trigger on the symbol, with the closing orders it emits. -/
def trigger (symbol : String) (m : ExitManager)
    (c : Trigger × Int × IterationOrder (Nat × ArmedIntent)) :
    List OrderEvent × ExitManager :=
  m.call (c.1.call symbol c.2.1 c.2.2)

/-- No triggers on the symbol emit a closing order. -/
def Silent (m : ExitManager) (symbol : String) : Prop :=
  ∀ cs, ∀ closes ∈ outputs (trigger symbol) m cs, closes = []

variable (m)

section

variable {t : Trigger} (symbol : String) (ts : Int) (order : IterationOrder (Nat × ArmedIntent))

theorem trigger_of_invalid (hinvalid : ¬ t.Valid) : trigger symbol m (t, ts, order) = ([], m) := by
  cases t with
  | price px =>
    show m.onPrice symbol px ts order = _
    rw [onPrice, if_pos (.inr hinvalid)]
  | bar open_ low high close =>
    have hbad : ¬ 0 < low ∨ ¬ 0 < high ∨ ¬ 0 < close := by
      rw [← not_and_or, ← not_and_or]
      exact hinvalid
    show m.onBar symbol open_ low high close ts order = _
    rw [onBar, if_pos (.inr hbad)]

theorem trigger_of_valid (hvalid : t.Valid) :
    trigger symbol m (t, ts, order) = evaluate (t.probe ts) symbol ts [] (order.run m.armed) m := by
  cases t with
  | price px => exact onPrice_eq_evaluate m order hvalid
  | bar open_ low high close => exact onBar_eq_evaluate m order hvalid.1 hvalid.2.1 hvalid.2.2

theorem trigger_eq_nil_iff (hvalid : t.Valid) : (trigger symbol m (t, ts, order)).1 = [] ↔
      ∀ x ∈ m.armed, triggers (t.probe ts) symbol x → ¬ m.Loaded x.1 x.2.intent.qty := by
  rw [trigger_of_valid m symbol ts order hvalid, evaluate_eq_nil_iff (t.probe_qty ts)]
  simp only [(order.perm m.armed).mem_iff]

theorem mem_armed_trigger (hvalid : t.Valid) (y : Nat × ArmedIntent) :
    y ∈ (trigger symbol m (t, ts, order)).2.armed ↔
      ∃ x ∈ m.armed, triggers (t.probe ts) symbol x = false ∧
        (x.1, passed (t.probe ts) symbol x.2) = y := by
  rw [trigger_of_valid m symbol ts order hvalid, evaluate_armed, nil_append, mem_map]
  simp only [mem_filter, (order.perm m.armed).mem_iff, Bool.not_eq_true', and_assoc]

theorem loaded_trigger (hvalid : t.Valid) (id : Nat) (qty : ℚ) :
    (trigger symbol m (t, ts, order)).2.Loaded id qty ↔ m.Loaded id qty := by
  rw [trigger_of_valid m symbol ts order hvalid, loaded_iff, loaded_iff, hasRest_evaluate]

end

variable {m} {name : String}

theorem Silent.cons (h : m.Silent symbol) (c : Trigger × Int × IterationOrder (Nat × ArmedIntent)) :
    (trigger symbol m c).1 = [] ∧ (trigger symbol m c).2.Silent symbol :=
  ⟨h [c] _ mem_cons_self, fun cs closes hcloses => h (c :: cs) closes (mem_cons_of_mem _ hcloses)⟩

/-- An intent that some triggers reach shows in the closing orders of a run of them. -/
theorem not_canFire_of_silent (h : m.Silent symbol) {x : Nat × ArmedIntent}
    (hx : x ∈ m.armed) : ¬ m.CanFire symbol x := by
  rintro ⟨hsymbol, hloaded, cs, hfires⟩
  induction cs generalizing m x with
  | nil => exact hfires
  | cons c cs ih =>
    obtain ⟨t, ts⟩ := c
    obtain ⟨hvalid, hfires⟩ := hfires
    obtain ⟨hquiet, hnext⟩ := h.cons (t, ts, .id)
    by_cases hnow : (t.probe ts x.2).2.isSome
    · exact (trigger_eq_nil_iff m symbol ts .id hvalid).1 hquiet x hx
        (by simp [triggers, hsymbol, hnow]) hloaded
    · have hpassed : passed (t.probe ts) symbol x.2 = (t.probe ts x.2).1 := if_pos hsymbol
      refine ih hnext (x := (x.1, (t.probe ts x.2).1)) ?_ ?_ ?_ (hfires.resolve_left hnow)
      · exact (mem_armed_trigger m symbol ts .id hvalid _).2
          ⟨x, hx, by simp [triggers, hnow], by rw [hpassed]⟩
      · exact (t.probe_symbol ts x.2).trans hsymbol
      · rw [loaded_trigger m symbol ts .id hvalid, t.probe_qty]
        exact hloaded

theorem silent_iff (m : ExitManager) (symbol : String) :
    m.Silent symbol ↔ ∀ x ∈ m.armed, ¬ m.CanFire symbol x := by
  refine ⟨fun h x hx => not_canFire_of_silent h hx, fun h cs => ?_⟩
  -- No intent can fire later that could not fire before, so the induction is on the triggers.
  induction cs generalizing m with
  | nil => exact nofun
  | cons c cs ih =>
    obtain ⟨t, ts, order⟩ := c
    by_cases hvalid : t.Valid
    · have hquiet : (trigger symbol m (t, ts, order)).1 = [] := by
        refine (trigger_eq_nil_iff m symbol ts order hvalid).2 fun x hx htrig hloaded => ?_
        obtain ⟨hsymbol, hnow⟩ : x.2.intent.symbol = symbol ∧ (t.probe ts x.2).2.isSome := by
          simpa [triggers] using htrig
        exact h x hx ⟨hsymbol, hloaded, [(t, ts)], hvalid, .inl hnow⟩
      refine forall_mem_cons.2 ⟨hquiet, ih _ fun y hy hcan => ?_⟩
      obtain ⟨x, hx, hnot, rfl⟩ := (mem_armed_trigger m symbol ts order hvalid y).1 hy
      obtain ⟨hsymbol, hloaded, cs, hfires⟩ := hcan
      rw [loaded_trigger m symbol ts order hvalid] at hloaded
      by_cases hown : x.2.intent.symbol = symbol
      · rw [passed, if_pos hown] at hloaded hfires
        rw [t.probe_qty] at hloaded
        exact h x hx ⟨hown, hloaded, (t, ts) :: cs, hvalid, .inr hfires⟩
      · rw [passed, if_neg hown] at hsymbol
        exact hown hsymbol
    · refine forall_mem_cons.2 ?_
      rw [trigger_of_invalid m symbol ts order hvalid]
      exact ⟨rfl, ih m h⟩

/-! ## Sweeping -/

theorem mem_openersOf :
    id ∈ m.openersOf name symbol ↔ ((name, symbol), id) ∈ m.strategySymbolToOpeners := by
  simp [openersOf]

theorem cancelStrategy_owners (m : ExitManager) (name symbol : String) :
    (m.cancelStrategy name symbol).strategySymbolToOpeners =
      m.strategySymbolToOpeners.filter fun e => e.1 ≠ (name, symbol) :=
  foldlRecOn (motive := fun m₁ : ExitManager => m₁.strategySymbolToOpeners = _) _ _ rfl
    fun _ h id _ => (releaseVenueBracket_owners _ id).trans h

theorem mem_armed_cancelStrategy (m : ExitManager) (name symbol : String) (x : Nat × ArmedIntent) :
    x ∈ (m.cancelStrategy name symbol).armed ↔ x ∈ m.armed ∧ x.1 ∉ m.openersOf name symbol := by
  have hrelease : ∀ (m : ExitManager) id, (m.releaseVenueBracket id).armed = m.armed := by
    intro m id
    rw [releaseVenueBracket]
    cases m.handles.lookup id <;> rfl
  have hloop : ∀ (ids : List Nat) (m : ExitManager),
      x ∈ (ids.foldl (fun m id => (m.forget id).releaseVenueBracket id) m).armed ↔
        x ∈ m.armed ∧ x.1 ∉ ids := by
    intro ids
    induction ids with
    | nil => simp
    | cons id ids ih =>
      intro m
      rw [foldl_cons, ih, hrelease, mem_cons, not_or, ← and_assoc]
      simp [forget, dropOpener]
  exact hloop (m.openersOf name symbol) _

/-- `m'` is left of `m` when the brackets under the keys with `K` are swept. -/
structure Cleared (K : String × String → Prop) (m m' : ExitManager) : Prop where
  pending : ∀ e ∈ m'.pending, e ∈ m.pending
  armed : ∀ x, x ∈ m'.armed ↔ x ∈ m.armed ∧ ∀ k, K k → (k, x.1) ∉ m.strategySymbolToOpeners
  owners : ∀ e, e ∈ m'.strategySymbolToOpeners ↔ e ∈ m.strategySymbolToOpeners ∧ ¬ K e.1
  openersFor : ∀ k, ¬ K k → m'.openersFor k.1 k.2 = m.openersFor k.1 k.2
  remaining : ∀ x ∈ m'.armed, m'.openerRemainingQty.lookup x.1 = m.openerRemainingQty.lookup x.1

variable {K K' : String × String → Prop} {m₁ : ExitManager}

theorem Cleared.refl (m : ExitManager) : Cleared (fun _ => False) m m where
  pending _ he := he
  armed x := by simp
  owners e := by simp
  openersFor _ _ := rfl
  remaining _ _ := rfl

variable (h : Cleared K m m₁)
include h

theorem Cleared.congr (hK : ∀ k, K k ↔ K' k) : Cleared K' m m₁ := by
  have heq : K = K' := funext fun k => propext (hK k)
  exact heq ▸ h

theorem Cleared.openersFor_eq_zero (hK : K (name, symbol)) : m₁.openersFor name symbol = 0 := by
  rw [ExitManager.openersFor, countP_eq_zero]
  intro e he hkey
  have hkey : e.1 = (name, symbol) := by simpa using hkey
  exact ((h.owners e).1 he).2 (hkey ▸ hK)

theorem Cleared.cancelStrategy (name symbol : String) :
    Cleared (fun k => K k ∨ k = (name, symbol)) m (m₁.cancelStrategy name symbol) where
  pending e he := h.pending e ((drops_cancelStrategy m₁ name symbol).pending e he)
  armed x := by
    rw [mem_armed_cancelStrategy, h.armed, mem_openersOf, h.owners]
    constructor
    · rintro ⟨⟨hx, hkept⟩, hnot⟩
      refine ⟨hx, fun k hk hmem => ?_⟩
      rcases hk with hk | rfl
      · exact hkept k hk hmem
      · by_cases hK : K (name, symbol)
        · exact hkept _ hK hmem
        · exact hnot ⟨hmem, hK⟩
    · rintro ⟨hx, hkept⟩
      exact ⟨⟨hx, fun k hk => hkept k (.inl hk)⟩, fun hmem => hkept _ (.inr rfl) hmem.1⟩
  owners e := by
    rw [cancelStrategy_owners, mem_filter, h.owners, not_or, and_assoc]
    simp
  openersFor k hk := by
    rw [not_or] at hk
    rw [← h.openersFor k hk.1, ExitManager.openersFor, cancelStrategy_owners, countP_filter]
    refine countP_congr fun e _ => ?_
    have hne : e.1 = k → e.1 ≠ (name, symbol) := fun he heq => hk.2 (he.symm.trans heq)
    simpa using hne
  remaining x hx := by
    obtain ⟨hx₁, hnot⟩ := (mem_armed_cancelStrategy m₁ name symbol x).1 hx
    rw [← h.remaining x hx₁]
    exact ((drops_cancelStrategy m₁ name symbol).spared x.1 hnot).2

/-- The fill of an order that is no opener here. -/
theorem Cleared.onFill {f : FillEvent} (placed : BracketHandles)
    (order : IterationOrder (Nat × ExitIntent)) (hpending : ∀ e ∈ m.pending, e.1 ≠ f.orderId)
    (harmed : ∀ x ∈ m.armed, x.1 ≠ f.orderId) : Cleared K m (m₁.onFill f 0 placed order) := by
  have hfill : m₁.onFill f 0 placed order =
      { m₁ with armed := growAll f m₁.armed }.addRemaining f.orderId f.filledQuantity := by
    have hnone : entriesOf m₁.pending f.orderId = [] := by
      refine filter_eq_nil_iff.2 fun e he hid => ?_
      exact hpending e (h.pending e he) (of_decide_eq_true hid)
    have hrun : order.run (entriesOf m₁.pending f.orderId) = [] := by
      have hperm := order.perm (entriesOf m₁.pending f.orderId)
      rw [hnone] at hperm ⊢
      exact hperm.eq_nil
    simp [ExitManager.onFill, openerFill, hrun, growAll]
  have hgrow : growAll f m₁.armed = m₁.armed :=
    (map_congr_left fun x hx => if_neg (harmed x ((h.armed x).1 hx).1)).trans (map_id _)
  rw [hfill, hgrow]
  refine ⟨h.pending, h.armed, h.owners, h.openersFor, fun x hx => ?_⟩
  rw [← h.remaining x hx]
  exact AList.lookup_insert_ne (harmed x ((h.armed x).1 hx).1)

end ExitManager

namespace Engine

variable {e : Engine} {m : ExitManager} {K : String × String → Prop} (config : EngineConfig)

/-- The strategies whose brackets a flat position sweeps. -/
def strategies : List String :=
  config.primaryStrategyName :: config.additionalStrategyNames

/-- A flat position sweeps the key: its strategy is configured and has at most one entry under
it. -/
def Sweepable (m : ExitManager) (k : String × String) : Prop :=
  k.1 ∈ strategies config ∧ k.1 ≠ "" ∧ m.openersFor k.1 k.2 ≤ 1

instance (m : ExitManager) (k : String × String) :
    Decidable (Sweepable config m k) := inferInstanceAs (Decidable (_ ∧ _ ∧ _))

section

variable (h : m.Cleared K e.exitManager) (hK : ∀ k, K k → m.openersFor k.1 k.2 ≤ 1)
include h hK

theorem cleared_sweepStrategy (symbol name : String) :
    m.Cleared (fun k => K k ∨ k = (name, symbol) ∧ name ≠ "" ∧ m.openersFor name symbol ≤ 1)
      (e.sweepStrategy symbol name).exitManager := by
  have hcount : e.exitManager.openersFor name symbol ≤ 1 ↔ m.openersFor name symbol ≤ 1 := by
    by_cases hk : K (name, symbol)
    · rw [h.openersFor_eq_zero hk]
      exact iff_of_true (Nat.zero_le 1) (hK _ hk)
    · rw [h.openersFor (name, symbol) hk]
  rw [sweepStrategy]
  by_cases hname : name = ""
  · rw [if_pos hname]
    exact h.congr fun k => by simp [hname]
  · rw [if_neg hname]
    by_cases hone : m.openersFor name symbol ≤ 1
    · rw [if_pos (hcount.2 hone)]
      exact (h.cancelStrategy name symbol).congr fun k => by simp [hname, hone]
    · rw [if_neg fun hle => hone (hcount.1 hle)]
      exact h.congr fun k => by simp [hone]

theorem cleared_sweep (symbol : String) (names : List String) :
    m.Cleared (fun k => K k ∨ k.2 = symbol ∧ k.1 ∈ names ∧ k.1 ≠ "" ∧ m.openersFor k.1 k.2 ≤ 1)
      (names.foldl (sweepStrategy symbol) e).exitManager := by
  induction names generalizing e K with
  | nil => exact h.congr fun k => by simp
  | cons name names ih =>
    refine (ih (cleared_sweepStrategy h hK symbol name) ?_).congr fun k => ?_
    · rintro k (hk | ⟨rfl, -, hone⟩)
      · exact hK k hk
      · exact hone
    · obtain ⟨name', symbol'⟩ := k
      simp only [Prod.mk.injEq, mem_cons]
      grind

end

/-- The keys that are swept when the positions of some symbols become flat. -/
def SweptBy (m : ExitManager) (symbols : List String) (k : String × String) :
    Prop := k.2 ∈ symbols ∧ Sweepable config m k

theorem cleared_notify {symbols : List String}
    (h : m.Cleared (SweptBy e.config m symbols) e.exitManager) (symbol : String) (isOpen : Bool) :
    m.Cleared (SweptBy e.config m (if isOpen then symbols else symbol :: symbols))
      (e.notifyPositionChangeAll symbol isOpen).exitManager := by
  cases isOpen with
  | true => exact h
  | false =>
    have hnotify :
        m.Cleared (SweptBy e.config m symbols) (e.act (.notify symbol false)).exitManager := h
    refine (cleared_sweep hnotify (fun k hk => hk.2.2.2) symbol (strategies e.config)).congr
      fun k => ?_
    simp only [SweptBy, Sweepable, Bool.false_eq_true, if_false, mem_cons]
    grind

end Engine

end TrueTest
