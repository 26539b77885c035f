import TrueTest.Exits.Trailing
import TrueTest.Providers.Event

/-!
# Showing one bar several times

`on_bar` tests a stop at its level from the bars before, and only then lets the bar move the trail.
The engine calls it once for each strategy, so that one bar is shown several times, with fills,
registrations and cancels in between. The second showing tests the stop that the first one has
moved.

`Passes b k` are the calls among which the bar `b` is shown at most `k` times and nothing else is.
`NoLookAhead` says that an intent armed before them fires only if `b` reaches it as it stood before
the first. An intent is `exposed` if it does not, but `b` reaches the stop that `b` itself pulls up.
Showing a bar again changes nothing further (`pulled_pulled`), so exposed intents are the only ones
in danger.
-/

namespace TrueTest

open Machine List ArmedIntent

namespace ArmedIntent

variable {ai : ArmedIntent} {px : ℚ} (b : MarketEvent) (entry qty : ℚ)

/-! ## Levels -/

/-- The intent with another size and entry. -/
def resized (ai : ArmedIntent) (entry qty : ℚ) : ArmedIntent :=
  { ai with entryPrice := entry, intent := { ai.intent with qty := qty } }

theorem seen_resized : (ai.resized entry qty).seen px = (ai.seen px).resized entry qty := by
  rw [seen, seen, apply_ite (resized · entry qty)]
  rfl

theorem trail_resized : (ai.resized entry qty).trail = ai.trail.resized entry qty := by
  cases hpct : ai.intent.trailingPct with
  | none =>
    rw [trail_of_none hpct]
    exact trail_of_none hpct
  | some pct =>
    by_cases ht : ai.Tighter (ai.trailLevel pct)
    · rw [trail_of_tighter hpct ht]
      exact trail_of_tighter hpct ht
    · rw [trail_of_not_tighter hpct ht]
      exact trail_of_not_tighter hpct ht

theorem pulled_resized : (ai.resized entry qty).pulled px = (ai.pulled px).resized entry qty := by
  rw [pulled, seen_resized, trail_resized]

/-- A price that does not move the best price is not seen. -/
theorem seen_of_bestPrice (h : extreme ai.isLong ai.bestPrice px = ai.bestPrice) :
    ai.seen px = ai := by
  rw [seen, if_neg]
  rw [extreme] at h
  rintro (⟨hlong, hlt⟩ | ⟨hshort, hlt⟩)
  · rw [if_pos hlong] at h
    exact absurd (max_eq_left_iff.1 h) (not_le.2 hlt)
  · rw [if_neg hshort] at h
    exact absurd (min_eq_left_iff.1 h) (not_le.2 hlt)

theorem not_tighter_self {level : ℚ} (h : ai.intent.stopLoss = some level) :
    ¬ ai.Tighter level := by
  rw [Tighter, h]
  split
  · exact lt_irrefl level
  · exact fun hall => lt_irrefl level (hall level rfl)

theorem trail_trail : ai.trail.trail = ai.trail := by
  cases hpct : ai.intent.trailingPct with
  | none => rw [trail_of_none hpct, trail_of_none hpct]
  | some pct =>
    by_cases ht : ai.Tighter (ai.trailLevel pct)
    · rw [trail_of_tighter hpct ht]
      refine trail_of_not_tighter hpct ?_
      exact not_tighter_self rfl
    · rw [trail_of_not_tighter hpct ht, trail_of_not_tighter hpct ht]

theorem extreme_extreme (long : Bool) (a b : ℚ) :
    extreme long (extreme long a b) b = extreme long a b := by
  cases long <;> simp [extreme]

/-- Showing a price again changes nothing. -/
theorem pulled_pulled : (ai.pulled px).pulled px = ai.pulled px := by
  have hseen : (ai.pulled px).seen px = ai.pulled px := by
    refine seen_of_bestPrice ?_
    rw [pulled_bestPrice, pulled, trail_isLong, seen_isLong, extreme_extreme]
  rw [pulled, hseen, pulled, trail_trail]

/-! ## One bar -/

/-- Whether a bar reaches the stop as it stands, the target or the deadline. -/
def reachedBy (b : MarketEvent) (ai : ArmedIntent) : Bool :=
  ai.hitBy (min b.low b.high) (max b.low b.high) b.timestamp

/-- The intent when it has survived a bar. -/
def after (b : MarketEvent) (ai : ArmedIntent) : ArmedIntent :=
  ai.pulled (ai.favorable (min b.low b.high) (max b.low b.high))

/-- The bar does not reach the intent as it stands, but reaches the stop that it pulls up. -/
def exposed (b : MarketEvent) (ai : ArmedIntent) : Bool :=
  (b.symbol = ai.intent.symbol ∧ 0 < b.low ∧ 0 < b.high ∧ 0 < b.close) ∧ ai.reachedBy b = false ∧
    (ai.after b).stopHit (ai.adverse (min b.low b.high) (max b.low b.high))

theorem after_resized :
    (ai.resized entry qty).after b = (ai.after b).resized entry qty := pulled_resized entry qty

theorem favorable_pulled (low high : ℚ) :
    (ai.pulled px).favorable low high = ai.favorable low high := by
  rw [favorable, favorable, pulled, trail_isLong, seen_isLong]

theorem after_after : (ai.after b).after b = ai.after b := by
  rw [after, after, favorable_pulled, pulled_pulled]

/-- An intent that is neither reached nor exposed is not reached after the bar either. -/
theorem reachedBy_after {b : MarketEvent}
    (hshown : b.symbol = ai.intent.symbol ∧ 0 < b.low ∧ 0 < b.high ∧
    0 < b.close) (hmiss : ai.reachedBy b = false) (hsafe : ai.exposed b = false) :
    (ai.after b).reachedBy b = false := by
  have hstop : (ai.after b).stopHit (ai.adverse (min b.low b.high) (max b.low b.high)) = false := by
    rw [exposed, decide_eq_false_iff_not] at hsafe
    exact Bool.eq_false_of_not_eq_true fun hstop => hsafe ⟨hshown, hmiss, hstop⟩
  obtain ⟨best, stop, hpulled⟩ :=
    exists_pulled_eq ai (ai.favorable (min b.low b.high) (max b.low b.high))
  rw [reachedBy, hitBy_eq, decide_eq_false_iff_not, not_or, not_or] at hmiss ⊢
  rw [after, hpulled] at hstop ⊢
  refine ⟨?_, hmiss.2.1, hmiss.2.2⟩
  rw [Bool.eq_false_iff] at hstop
  exact hstop

end ArmedIntent

namespace ExitManager

/-- A call that shows the bar. -/
def Op.isPass (b : MarketEvent) : Op → Bool
  | .bar s open_ low high close ts _ => s = b.symbol ∧ open_ = b.open_ ∧ low = b.low ∧
      high = b.high ∧ close = b.close ∧ ts = b.timestamp
  | _ => false

/-- The bar is shown at most `k` times, and nothing else is. -/
structure Passes (b : MarketEvent) (k : Nat) (calls : List Op) : Prop where
  only : ∀ c ∈ calls, c.evaluates = true → c.isPass b = true
  count : calls.countP (Op.isPass b) ≤ k

/-- An intent that was armed before the calls is fired only if the bar reaches it as it stood
then. -/
def NoLookAhead (b : MarketEvent) (m : ExitManager) (calls : List Op) : Prop :=
  ∀ pre c post, calls = pre ++ c :: post → ∀ e e', Lives m pre e e' → c.fires e'.2 = true →
    e.2.reachedBy b = true

variable {b : MarketEvent} {m : ExitManager} {e e' : Nat × ArmedIntent} {c : Op} {calls : List Op}

theorem isPass_iff : c.isPass b = true ↔
    ∃ order, c = .bar b.symbol b.open_ b.low b.high b.close b.timestamp order := by
  cases c with
  | bar s open_ low high close ts order =>
    rw [Op.isPass, decide_eq_true_iff]
    constructor
    · rintro ⟨rfl, rfl, rfl, rfl, rfl, rfl⟩
      exact ⟨order, rfl⟩
    · rintro ⟨order', h⟩
      cases h
      exact ⟨rfl, rfl, rfl, rfl, rfl, rfl⟩
  | _ => exact iff_of_false Bool.false_ne_true fun ⟨_, h⟩ => nomatch h

theorem fires_of_not_evaluates (h : c.evaluates = false) (ai : ArmedIntent) :
    c.fires ai = false := by
  cases c with
  | price | bar => cases h
  | _ => rfl

/-- A call that shows nothing leaves the levels. -/
theorem Next.resized (hnext : Next c e e') (h : c.evaluates = false) :
    ∃ entry qty, e'.2 = e.2.resized entry qty := by
  have hshows : c.shows e.2.intent.symbol e.2.isLong = none := by
    cases c with
    | price | bar => cases h
    | _ => rfl
  obtain ⟨-, hnext⟩ := hnext
  rw [hshows] at hnext
  rcases hnext with rfl | ⟨f, opener, placed, order, -, rfl⟩
  · exact ⟨_, _, rfl⟩
  · exact exists_grow_eq f e.2

/-- What the bar leaves of an intent that survives it. -/
theorem Next.pass (hnext : Next c e e') (h : c.isPass b = true) :
    e'.2 = e.2 ∨ ((b.symbol = e.2.intent.symbol ∧ 0 < b.low ∧ 0 < b.high ∧ 0 < b.close) ∧
      e.2.reachedBy b = false ∧ e'.2 = e.2.after b) := by
  obtain ⟨order, rfl⟩ := isPass_iff.1 h
  obtain ⟨hfires, hnext⟩ := hnext
  by_cases hshown : b.symbol = e.2.intent.symbol ∧ 0 < b.low ∧ 0 < b.high ∧ 0 < b.close
  · rw [Op.shows, if_pos hshown] at hnext
    refine .inr ⟨hshown, ?_, congrArg Prod.snd hnext⟩
    rw [Op.fires, decide_eq_false_iff_not, not_and] at hfires
    exact Bool.eq_false_of_not_eq_true (hfires hshown)
  · rw [Op.shows, if_neg hshown] at hnext
    rcases hnext with rfl | ⟨f, opener, placed, order, hop, -⟩
    · exact .inl rfl
    · cases hop

/-- The intent has its levels, or those that the bar leaves when it does not reach it. -/
def Withstands (b : MarketEvent) (e e' : Nat × ArmedIntent) : Prop :=
  ∃ entry qty, e'.2 = e.2.resized entry qty ∨
    ((b.symbol = e.2.intent.symbol ∧ 0 < b.low ∧ 0 < b.high ∧ 0 < b.close) ∧
      e.2.reachedBy b = false ∧ e'.2 = (e.2.after b).resized entry qty)

theorem Lives.resized (hlives : Lives m calls e e')
    (hcalm : ∀ c ∈ calls, c.evaluates = false) : ∃ entry qty, e'.2 = e.2.resized entry qty := by
  induction calls generalizing m e with
  | nil =>
    obtain ⟨-, rfl⟩ := hlives
    exact ⟨_, _, rfl⟩
  | cons c calls ih =>
    obtain ⟨-, e₁, hnext, hrest⟩ := hlives
    rw [forall_mem_cons] at hcalm
    obtain ⟨entry, qty, hfirst⟩ := hnext.resized hcalm.1
    obtain ⟨entry', qty', hlast⟩ := ih hrest hcalm.2
    exact ⟨entry', qty', by rw [hlast, hfirst]; rfl⟩

/-- However often the bar is shown, it pulls the stop once. -/
theorem Lives.withstands (hlives : Lives m calls e e')
    (honly : ∀ c ∈ calls, c.evaluates = true → c.isPass b = true) : Withstands b e e' := by
  induction calls generalizing m e with
  | nil =>
    obtain ⟨-, rfl⟩ := hlives
    exact ⟨_, _, .inl rfl⟩
  | cons c calls ih =>
    obtain ⟨-, e₁, hnext, hrest⟩ := hlives
    rw [forall_mem_cons] at honly
    obtain ⟨entry, qty, hlast⟩ := ih hrest honly.2
    by_cases heval : c.evaluates = true
    · rcases hnext.pass (honly.1 heval) with hsame | ⟨hshown, hmiss, hafter⟩
      · rw [hsame] at hlast
        exact ⟨entry, qty, hlast⟩
      · refine ⟨entry, qty, .inr ⟨hshown, hmiss, ?_⟩⟩
        rw [hafter, after_after] at hlast
        exact hlast.elim id fun h => h.2.2
    · obtain ⟨entry', qty', hfirst⟩ := hnext.resized (Bool.eq_false_of_not_eq_true heval)
      rw [hfirst, after_resized] at hlast
      exact ⟨entry, qty, hlast⟩

/-- Calls that show the bar once do not look ahead, and neither does any number of them if the bar
exposes no armed intent. -/
theorem noLookAhead_of_passes {k : Nat} (hpasses : Passes b k calls)
    (hsafe : k ≤ 1 ∨ ∀ e ∈ m.armed, e.2.exposed b = false) : NoLookAhead b m calls := by
  rintro pre c post rfl e e' hlives hfires
  have heval : c.evaluates = true := by
    by_contra h
    rw [fires_of_not_evaluates (Bool.eq_false_of_not_eq_true h)] at hfires
    exact Bool.false_ne_true hfires
  have hpass : c.isPass b = true := hpasses.only c (by simp) heval
  have hreached : e'.2.reachedBy b = true := by
    obtain ⟨order, rfl⟩ := isPass_iff.1 hpass
    rw [Op.fires, decide_eq_true_iff] at hfires
    exact hfires.2
  have honly : ∀ c ∈ pre, c.evaluates = true → c.isPass b = true :=
    fun c hc => hpasses.only c (mem_append_left _ hc)
  rcases hsafe with honce | hsafe
  · have hcount := hpasses.count
    rw [countP_append, countP_cons_of_pos hpass] at hcount
    have hnone : pre.countP (Op.isPass b) = 0 := by omega
    rw [countP_eq_zero] at hnone
    have hcalm : ∀ c ∈ pre, c.evaluates = false :=
      fun c hc => Bool.eq_false_of_not_eq_true fun h => hnone c hc (honly c hc h)
    obtain ⟨entry, qty, hsame⟩ := hlives.resized hcalm
    rw [hsame] at hreached
    exact hreached
  · obtain ⟨entry, qty, hsame | ⟨hshown, hmiss, hafter⟩⟩ := hlives.withstands honly
    · rw [hsame] at hreached
      exact hreached
    · have hkept : (e.2.after b).reachedBy b = true := by
        rw [hafter] at hreached
        exact hreached
      exact absurd hkept (Bool.eq_false_iff.1 (reachedBy_after hshown hmiss (hsafe e hlives.mem)))

/-- An intent that the bar does not reach stays armed. -/
theorem mem_armed_pass {order : IterationOrder (Nat × ArmedIntent)} (hmem : e ∈ m.armed)
    (hshown : b.symbol = e.2.intent.symbol ∧ 0 < b.low ∧ 0 < b.high ∧ 0 < b.close)
    (hmiss : e.2.reachedBy b = false) :
    (e.1, e.2.after b) ∈
      (m.call (.bar b.symbol b.open_ b.low b.high b.close b.timestamp order)).2.armed := by
  obtain ⟨hsymbol, hlow, hhigh, hclose⟩ := hshown
  have hhit : e.2.hitBy (min b.low b.high) (max b.low b.high) b.timestamp = false := hmiss
  rw [call, onBar_eq_evaluate m order hlow hhigh hclose, evaluate_armed, nil_append]
  refine mem_map.2 ⟨e, mem_filter.2 ⟨(order.perm m.armed).mem_iff.2 hmem, ?_⟩, ?_⟩
  · rw [triggers_probeBar, barFires, hhit]
    simp
  · rw [passed, if_pos hsymbol.symm, probeBar_of_miss hhit]
    rfl

/-- An intent that the bar exposes is fired when the bar is shown again. -/
theorem not_noLookAhead_of_exposed {c' : Op} {post : List Op} (hmem : e ∈ m.armed)
    (hexposed : e.2.exposed b = true) (hc : c.isPass b = true) (hc' : c'.isPass b = true) :
    ¬ NoLookAhead b m (c :: c' :: post) := by
  obtain ⟨order, hbar⟩ := isPass_iff.1 hc
  obtain ⟨order', hbar'⟩ := isPass_iff.1 hc'
  rw [exposed, decide_eq_true_iff] at hexposed
  obtain ⟨hshown, hmiss, hstop⟩ := hexposed
  intro hno
  have hfires : c.fires e.2 = false := by
    rw [hbar, Op.fires, decide_eq_false_iff_not]
    exact fun h => Bool.eq_false_iff.1 hmiss h.2
  have hnext : Next c e (e.1, e.2.after b) := by
    refine ⟨hfires, ?_⟩
    rw [hbar, Op.shows, if_pos hshown]
    rfl
  have hstays : (e.1, e.2.after b) ∈ (m.call c).2.armed := hbar ▸ mem_armed_pass hmem hshown hmiss
  have hrefire : c'.fires (e.2.after b) = true := by
    obtain ⟨best, stop, hpulled⟩ :=
      exists_pulled_eq e.2 (e.2.favorable (min b.low b.high) (max b.low b.high))
    rw [ArmedIntent.after, hpulled] at hstop ⊢
    rw [hbar', Op.fires, decide_eq_true_iff, hitBy_eq, decide_eq_true_iff]
    exact ⟨hshown, .inl hstop⟩
  have hreached := hno [_] _ post rfl e (e.1, e.2.after b) ⟨hmem, _, hnext, hstays, rfl⟩ hrefire
  exact Bool.eq_false_iff.1 hmiss hreached

end ExitManager

end TrueTest
