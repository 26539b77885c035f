import TrueTest.Exits.Evaluators
import TrueTest.Exits.Registered

/-!
# Trailing stops

An armed intent is followed through a run: `Next` says what one operation makes of an intent that
stays, `Lives` chains these steps, and every armed intent of a run has lived since a fill armed it
(`exists_life`).

**Theorem (`trailing_stop_ratchets`).** Along the life of an intent with a trail,

* the best price is the extreme of the fill price and the favourable prices seen since;
* the stop never moves away from the market, and is never behind the stop it was armed with;
* once a price has been seen, the stop is the better of the stop it was armed with and the trail
  behind the best price.

The invariant is `Ratchet`. It is kept because the level of the trail moves with the best price, so
that the better of the old stop and the new level is the better of the first stop and the new level.
-/

namespace TrueTest

open Machine List ArmedIntent

/-! ## Extremes -/

/-- The more favourable of two prices: the higher for a long, the lower for a short. -/
def extreme (long : Bool) (a b : ℚ) : ℚ := if long then max a b else min a b

/-- The nearer to the market of a stop, if there is one, and a level. -/
def better (long : Bool) (stop : Option ℚ) (level : ℚ) : ℚ :=
  match stop with
  | some sl => extreme long sl level
  | none => level

namespace ArmedIntent

variable {ai : ArmedIntent} {px pct : ℚ}

theorem seen_bestPrice : (ai.seen px).bestPrice = extreme ai.isLong ai.bestPrice px := by
  rw [seen, extreme]
  by_cases hlong : ai.isLong = true
  · by_cases hpx : ai.bestPrice < px
    · simp [hlong, hpx, hpx.le]
    · simp [hlong, hpx, not_lt.1 hpx]
  · by_cases hpx : px < ai.bestPrice
    · simp [hlong, hpx, hpx.le]
    · simp [hlong, hpx, not_lt.1 hpx]

theorem trail_bestPrice : ai.trail.bestPrice = ai.bestPrice := by
  obtain ⟨stop, h⟩ := exists_trail_eq ai
  rw [h]

theorem pulled_bestPrice : (ai.pulled px).bestPrice = extreme ai.isLong ai.bestPrice px := by
  rw [pulled, trail_bestPrice, seen_bestPrice]

theorem trailLevel_pulled : (ai.pulled px).trailLevel pct = (ai.seen px).trailLevel pct := by
  rw [trailLevel, trailLevel, pulled, trail_bestPrice, trail_isLong]

/-- The level of the trail moves with the best price. -/
theorem trailLevel_seen (h0 : 0 ≤ pct) (h1 : pct < 1) :
    ai.AtOrWorse (ai.trailLevel pct) ((ai.seen px).trailLevel pct) := by
  rw [AtOrWorse, trailLevel, trailLevel, seen_isLong, seen_bestPrice, extreme]
  by_cases hlong : ai.isLong = true
  · simp only [hlong, if_true]
    exact mul_le_mul_of_nonneg_right (le_max_left _ _) (sub_nonneg.2 h1.le)
  · simp only [hlong, if_false, Bool.false_eq_true]
    exact mul_le_mul_of_nonneg_right (min_le_left _ _) (by linarith)

/-- What a price makes of the stop of an intent with a trail. -/
theorem pulled_stopLoss (hpct : ai.intent.trailingPct = some pct) (h1 : pct < 1) (hpx : 0 < px) :
    (ai.pulled px).intent.stopLoss =
      some (better ai.isLong ai.intent.stopLoss ((ai.seen px).trailLevel pct)) := by
  have hseen : (ai.seen px).intent.trailingPct = some pct := by rw [seen_intent, hpct]
  have hpos : ai.isLong = true → 0 < (ai.seen px).trailLevel pct := by
    intro hlong
    rw [trailLevel, seen_isLong, seen_bestPrice, extreme, if_pos hlong, if_pos hlong]
    exact mul_pos (hpx.trans_le (le_max_right _ _)) (sub_pos.2 h1)
  by_cases ht : (ai.seen px).Tighter ((ai.seen px).trailLevel pct)
  · rw [pulled, trail_of_tighter hseen ht]
    rw [Tighter, seen_isLong, seen_intent] at ht
    refine congrArg some ?_
    cases hstop : ai.intent.stopLoss with
    | none => rfl
    | some sl =>
      rw [hstop] at ht
      by_cases hlong : ai.isLong = true
      · rw [if_pos hlong, Option.getD_some] at ht
        simp [better, extreme, hlong, ht.le]
      · rw [if_neg hlong] at ht
        simp [better, extreme, hlong, min_eq_right (ht sl rfl).le]
  · rw [pulled, trail_of_not_tighter hseen ht, seen_intent]
    rw [Tighter, seen_isLong, seen_intent] at ht
    cases hstop : ai.intent.stopLoss with
    | none =>
      rw [hstop] at ht
      by_cases hlong : ai.isLong = true
      · rw [if_pos hlong] at ht
        exact absurd (hpos hlong) ht
      · rw [if_neg hlong] at ht
        exact absurd (fun cur hcur => absurd hcur (Option.some_ne_none cur).symm) ht
    | some sl =>
      rw [hstop] at ht
      by_cases hlong : ai.isLong = true
      · rw [if_pos hlong, Option.getD_some] at ht
        simp [better, extreme, hlong, not_lt.1 ht]
      · rw [if_neg hlong] at ht
        have hle : sl ≤ (ai.seen px).trailLevel pct := by
          by_contra hlt
          refine ht fun cur hcur => ?_
          rw [← Option.some.inj hcur]
          exact not_le.1 hlt
        simp [better, extreme, hlong, min_eq_left hle]

/-- The better of the better of a stop and a level, and a nearer level. -/
theorem better_better {stop : Option ℚ} {level level' : ℚ} (h : ai.AtOrWorse level level') :
    better ai.isLong (some (better ai.isLong stop level)) level' =
      better ai.isLong stop level' := by
  rw [AtOrWorse] at h
  by_cases hlong : ai.isLong = true
  · rw [if_pos hlong] at h
    cases stop <;> simp [better, extreme, hlong, max_assoc, max_eq_right h]
  · rw [if_neg hlong] at h
    cases stop <;> simp [better, extreme, hlong, min_assoc, min_eq_right h]

end ArmedIntent

/-! ## The life of an armed intent -/

namespace ExitManager

/-- The favourable price that an operation shows to the intents of a symbol and side. -/
def Op.shows (symbol : String) (long : Bool) : Op → Option ℚ
  | .price s px _ _ => if s = symbol ∧ 0 < px then some px else none
  | .bar s _ low high close _ _ =>
    if s = symbol ∧ 0 < low ∧ 0 < high ∧ 0 < close then
      some (if long then max low high else min low high)
    else none
  | _ => none

def Op.fires (ai : ArmedIntent) : Op → Bool
  | .price s px ts _ => (s = ai.intent.symbol ∧ 0 < px) ∧
      (ai.hitBy px px ts ∨ (ai.pulled px).stopHit px)
  | .bar s _ low high close ts _ => (s = ai.intent.symbol ∧ 0 < low ∧ 0 < high ∧ 0 < close) ∧
      ai.hitBy (min low high) (max low high) ts
  | _ => false

/-- What an operation makes of an armed intent that stays. -/
def Next (op : Op) (e e' : Nat × ArmedIntent) : Prop :=
  op.fires e.2 = false ∧
    match op.shows e.2.intent.symbol e.2.isLong with
    | some px => e' = (e.1, e.2.pulled px)
    | none =>
      e' = e ∨ ∃ f opener placed order, op = .fill f opener placed order ∧ e' = (e.1, e.2.grow f)

/-- The operation is a fill that arms a pending intent. -/
def Arms (m : ExitManager) (op : Op) (e : Nat × ArmedIntent) : Prop :=
  ∃ f opener placed order intent, op = .fill f opener placed order ∧
    (f.orderId, intent) ∈ m.pending ∧
    e = (f.orderId, intent.arm f)

variable {m : ExitManager} {e e' e₁ : Nat × ArmedIntent}
  {order : IterationOrder (Nat × ArmedIntent)}
  {symbol : String} {op : Op} {ops : List Op} (f : FillEvent) (ai : ArmedIntent) {ts : Int} (px : ℚ)

theorem Drops.next {ids : List Nat} {m' : ExitManager} (h : Drops ids m m')
    (hfires : ∀ ai, op.fires ai = false) (hshows : ∀ symbol long, op.shows symbol long = none)
    (he : e' ∈ m'.armed) : ∃ e ∈ m.armed, Next op e e' := by
  refine ⟨e', h.armed e' he, hfires _, ?_⟩
  rw [hshows]
  exact .inl rfl

theorem next_evaluate {probe : ArmedIntent → ArmedIntent × Option ℚ}
    (hfires : ∀ e, op.fires e.2 = triggers probe symbol e) (hpassed : ∀ ai, op.fires ai = false →
      passed probe symbol ai = (op.shows ai.intent.symbol ai.isLong).elim ai ai.pulled)
    (he : e' ∈ (evaluate probe symbol ts [] (order.run m.armed) m).2.armed) :
    ∃ e ∈ m.armed, Next op e e' := by
  rw [evaluate_armed, nil_append] at he
  obtain ⟨e, hstays, rfl⟩ := mem_map.1 he
  obtain ⟨hmem, hskip⟩ := mem_filter.1 hstays
  have hmiss : op.fires e.2 = false := by
    rw [hfires]
    simpa using hskip
  refine ⟨e, (order.perm m.armed).mem_iff.1 hmem, hmiss, ?_⟩
  rw [hpassed e.2 hmiss]
  cases op.shows e.2.intent.symbol e.2.isLong with
  | some px => rfl
  | none => exact .inl rfl

theorem next_price {px : ℚ} (he : e' ∈ (m.onPrice symbol px ts order).2.armed) :
    ∃ e ∈ m.armed, Next (.price symbol px ts order) e e' := by
  by_cases hpx : 0 < px
  · rw [onPrice_eq_evaluate m order hpx] at he
    refine next_evaluate (fun e => ?_) (fun ai hmiss => ?_) he
    · rw [Bool.eq_iff_iff, triggers_probePrice, Op.fires, decide_eq_true_iff]
      simp only [hpx, and_true, eq_comm]
    · rw [passed, Op.shows, probePrice_eq]
      by_cases hsym : ai.intent.symbol = symbol
      · simp [hsym, hpx]
      · simp [hsym, Ne.symm hsym]
  · have hidle : e' ∈ m.armed := by
      rw [onPrice, if_pos (.inr hpx)] at he
      exact he
    refine ⟨e', hidle, by simp [Op.fires, hpx], ?_⟩
    simp [Op.shows, hpx]

theorem next_bar {open_ low high close : ℚ}
    (he : e' ∈ (m.onBar symbol open_ low high close ts order).2.armed) :
    ∃ e ∈ m.armed, Next (.bar symbol open_ low high close ts order) e e' := by
  by_cases hvalid : 0 < low ∧ 0 < high ∧ 0 < close
  · rw [onBar_eq_evaluate m order hvalid.1 hvalid.2.1 hvalid.2.2] at he
    refine next_evaluate (fun e => ?_) (fun ai hmiss => ?_) he
    · rw [Bool.eq_iff_iff, triggers_probeBar, Op.fires, barFires, decide_eq_true_iff,
        decide_eq_true_iff]
      simp only [hvalid, and_true, eq_comm]
    · rw [passed, Op.shows]
      by_cases hsym : ai.intent.symbol = symbol
      · have hhit : ai.hitBy (min low high) (max low high) ts = false := by
          simpa [Op.fires, hsym, hvalid] using hmiss
        rw [probeBar_of_miss hhit]
        simp [hsym, hvalid, favorable]
      · simp [hsym, Ne.symm hsym]
  · have hidle : e' ∈ m.armed := by
      rw [onBar, if_pos] at he
      · exact he
      · simp only [not_and_or] at hvalid
        exact .inr hvalid
    refine ⟨e', hidle, by simp [Op.fires, hvalid], ?_⟩
    simp [Op.shows, hvalid]

/-- **Every armed intent after an operation** was armed before it, or is armed by it. -/
theorem armed_call (op : Op) (he : e' ∈ (m.call op).2.armed) :
    (∃ e ∈ m.armed, Next op e e') ∨ Arms m op e' := by
  cases op with
  | register intent =>
    have hmem : e' ∈ m.armed := by
      rw [call, registerPending] at he
      split at he <;> exact he
    exact .inl ⟨e', hmem, rfl, .inl rfl⟩
  | fill f opener placed order =>
    rw [call, onFill] at he
    split at he
    · exact .inl ((drops_closerFill m f opener).next (fun _ => rfl) (fun _ _ => rfl) he)
    · rw [openerFill_armed] at he
      split at he
      · obtain ⟨e, hmem, rfl⟩ := mem_map.1 he
        refine .inl ⟨e, hmem, rfl, ?_⟩
        show _ ∨ _
        split
        · exact .inr ⟨f, opener, placed, order, rfl, rfl⟩
        · exact .inl rfl
      · rcases mem_append.1 he with hmem | hnew
        · exact .inl ⟨e', hmem, rfl, .inl rfl⟩
        · obtain ⟨intent, hpending, hnew⟩ := mem_armed_new hnew
          exact .inr ⟨f, opener, placed, order, intent, rfl, hpending, hnew⟩
  | price symbol px ts order => exact .inl (next_price he)
  | bar symbol open_ low high close ts order => exact .inl (next_bar he)
  | cancel opener => exact .inl ((drops_cancel m opener).next (fun _ => rfl) (fun _ _ => rfl) he)
  | cancelStrategy name symbol =>
    exact .inl ((drops_cancelStrategy m name symbol).next (fun _ => rfl) (fun _ _ => rfl) he)

/-- An armed intent of `m` becomes another in a run, without being fired. -/
def Lives : ExitManager → List Op → Nat × ArmedIntent → Nat × ArmedIntent → Prop
  | m, [], e, e' => e ∈ m.armed ∧ e' = e
  | m, op :: ops, e, e' => e ∈ m.armed ∧ ∃ e₁, Next op e e₁ ∧ Lives (m.call op).2 ops e₁ e'

theorem Lives.mem (h : Lives m ops e e') : e ∈ m.armed := by
  cases ops with
  | nil | cons op ops => exact h.1

theorem Lives.snoc {e₂ : Nat × ArmedIntent} (h : Lives m ops e e₁) (hnext : Next op e₁ e₂)
    (hmem : e₂ ∈ (final call m (ops ++ [op])).armed) : Lives m (ops ++ [op]) e e₂ := by
  induction ops generalizing m e with
  | nil =>
    obtain ⟨hstart, rfl⟩ := h
    exact ⟨hstart, e₂, hnext, hmem, rfl⟩
  | cons op' ops ih =>
    obtain ⟨hstart, e', hfirst, hrest⟩ := h
    exact ⟨hstart, e', hfirst, ih hrest hmem⟩

/-- Every armed intent of a run that began with none has lived since a fill armed it. -/
theorem exists_life (hnone : m.armed = []) (ops : List Op) (he : e' ∈ (final call m ops).armed) :
    ∃ pre op post e, ops = pre ++ op :: post ∧ Arms (final call m pre) op e ∧
      Lives (final call m (pre ++ [op])) post e e' := by
  induction ops using reverseRecOn generalizing e' with
  | nil =>
    rw [final, hnone] at he
    cases he
  | append_singleton ops op ih =>
    have hcall := he
    rw [final_append] at hcall
    rcases armed_call op hcall with ⟨e₁, he₁, hnext⟩ | harms
    · obtain ⟨pre, op₁, post, e, rfl, harms, hlives⟩ := ih he₁
      refine ⟨pre, op₁, post ++ [op], e, by simp, harms, hlives.snoc hnext ?_⟩
      rw [← final_append]
      simpa using he
    · exact ⟨ops, op, [], e', rfl, harms, he, rfl⟩

/-! ## The ratchet -/

theorem exists_grow_eq : ∃ entry qty, ai.grow f =
    { ai with entryPrice := entry, intent := { ai.intent with qty := qty } } := by
  rw [grow]
  split
  · exact ⟨_, _, rfl⟩
  · exact ⟨_, _, rfl⟩

/-- The parts of an armed intent that no operation changes. -/
structure Kindred (ai ai' : ArmedIntent) : Prop where
  symbol : ai'.intent.symbol = ai.intent.symbol
  long : ai'.isLong = ai.isLong
  trailing : ai'.intent.trailingPct = ai.intent.trailingPct
  reference : ai'.intent.referenceEntry = ai.intent.referenceEntry

theorem Kindred.trans {a b c : ArmedIntent} (h₁ : Kindred a b) (h₂ : Kindred b c) : Kindred a c :=
  ⟨h₂.symbol.trans h₁.symbol, h₂.long.trans h₁.long, h₂.trailing.trans h₁.trailing,
    h₂.reference.trans h₁.reference⟩

theorem kindred_pulled : Kindred ai (ai.pulled px) := by
  obtain ⟨best, stop, h⟩ := exists_pulled_eq ai px
  rw [h]
  exact ⟨rfl, rfl, rfl, rfl⟩

theorem kindred_grow : Kindred ai (ai.grow f) := by
  obtain ⟨entry, qty, h⟩ := exists_grow_eq f ai
  rw [h]
  exact ⟨rfl, rfl, rfl, rfl⟩

/-- The levels after one operation: a price that is shown pulls them, anything else leaves them. -/
theorem Next.levels (h : Next op e e') : Kindred e.2 e'.2 ∧
    match op.shows e.2.intent.symbol e.2.isLong with
    | some px => e'.2 = e.2.pulled px
    | none => e'.2.bestPrice = e.2.bestPrice ∧ e'.2.intent.stopLoss = e.2.intent.stopLoss := by
  obtain ⟨-, h⟩ := h
  cases hshows : op.shows e.2.intent.symbol e.2.isLong with
  | some px =>
    rw [hshows] at h
    obtain rfl : e' = _ := h
    exact ⟨kindred_pulled e.2 px, rfl⟩
  | none =>
    rw [hshows] at h
    rcases h with rfl | ⟨f, opener, placed, order, -, rfl⟩
    · exact ⟨⟨rfl, rfl, rfl, rfl⟩, rfl, rfl⟩
    · refine ⟨kindred_grow f e.2, ?_⟩
      obtain ⟨entry, qty, hgrow⟩ := exists_grow_eq f e.2
      rw [hgrow]
      exact ⟨rfl, rfl⟩

/-- A stop that is set stays set, at the same level or nearer to the market. -/
def StopHolds (ai ai' : ArmedIntent) : Prop :=
  ∀ sl, ai.intent.stopLoss = some sl → ∃ sl', ai'.intent.stopLoss = some sl' ∧ ai.AtOrWorse sl sl'

theorem atOrWorse_congr {ai ai' : ArmedIntent} (h : ai'.isLong = ai.isLong) (x y : ℚ) :
    ai'.AtOrWorse x y ↔ ai.AtOrWorse x y := by
  rw [AtOrWorse, AtOrWorse, h]

theorem StopHolds.trans {a b c : ArmedIntent} (h₁ : StopHolds a b) (h₂ : StopHolds b c)
    (hlong : b.isLong = a.isLong) : StopHolds a c := by
  intro sl hsl
  obtain ⟨sl₁, hsl₁, hworse₁⟩ := h₁ sl hsl
  obtain ⟨sl₂, hsl₂, hworse₂⟩ := h₂ sl₁ hsl₁
  exact ⟨sl₂, hsl₂, atOrWorse_trans hworse₁ ((atOrWorse_congr hlong _ _).1 hworse₂)⟩

theorem stopHolds_pulled : StopHolds ai (ai.pulled px) := by
  intro sl hsl
  have hseen : (ai.seen px).intent.stopLoss = some sl := by rw [seen_intent, hsl]
  obtain ⟨sl', hsl', hworse⟩ := trail_tightens hseen
  exact ⟨sl', hsl', (atOrWorse_congr seen_isLong _ _).1 hworse⟩

theorem Next.holds (h : Next op e e') : StopHolds e.2 e'.2 := by
  obtain ⟨-, hlevels⟩ := h.levels
  cases hshows : op.shows e.2.intent.symbol e.2.isLong with
  | some px =>
    rw [hshows] at hlevels
    have hpulled : e'.2 = e.2.pulled px := hlevels
    rw [hpulled]
    exact stopHolds_pulled e.2 px
  | none =>
    rw [hshows] at hlevels
    intro sl hsl
    exact ⟨sl, hlevels.2.trans hsl, atOrWorse_self sl⟩

/-- **The stop never moves away from the market.** -/
theorem Lives.holds (h : Lives m ops e e') : Kindred e.2 e'.2 ∧ StopHolds e.2 e'.2 := by
  induction ops generalizing m e with
  | nil =>
    obtain ⟨-, rfl⟩ := h
    exact ⟨⟨rfl, rfl, rfl, rfl⟩, fun sl hsl => ⟨sl, hsl, atOrWorse_self sl⟩⟩
  | cons op ops ih =>
    obtain ⟨-, e₁, hnext, hrest⟩ := h
    obtain ⟨hkin, hholds⟩ := ih hrest
    exact ⟨hnext.levels.1.trans hkin, hnext.holds.trans hholds hnext.levels.1.long⟩

/-- The favourable prices that a run shows to the intents of a symbol and side. -/
def seenBy (symbol : String) (long : Bool) (ops : List Op) : List ℚ :=
  ops.filterMap (Op.shows symbol long)

/-- The levels of an intent with a trail that was armed as `start` and has since seen some
prices. -/
structure Ratchet (start : ArmedIntent) (pct : ℚ) (seen : List ℚ) (ai : ArmedIntent) : Prop where
  best : ai.bestPrice = seen.foldl (extreme start.isLong) start.bestPrice
  unset : seen = [] → ai.intent.stopLoss = start.intent.stopLoss
  set : seen ≠ [] → ai.intent.stopLoss =
    some (better start.isLong start.intent.stopLoss (ai.trailLevel pct))

variable {start : ArmedIntent} {pct px : ℚ} {seen : List ℚ} {ai : ArmedIntent} {intent : ExitIntent}

theorem Ratchet.pull (h : Ratchet start pct seen ai) (hlong : ai.isLong = start.isLong)
    (hpct : ai.intent.trailingPct = some pct) (h0 : 0 ≤ pct) (h1 : pct < 1) (hpx : 0 < px) :
    Ratchet start pct (seen ++ [px]) (ai.pulled px) where
  best := by
    rw [pulled_bestPrice, hlong, h.best, foldl_append]
    rfl
  unset hnil := by simp at hnil
  set _ := by
    rw [pulled_stopLoss hpct h1 hpx, trailLevel_pulled]
    by_cases hseen : seen = []
    · rw [h.unset hseen, hlong]
    · rw [h.set hseen, ← hlong, better_better (trailLevel_seen h0 h1)]

theorem Ratchet.keep {ai' : ArmedIntent} (h : Ratchet start pct seen ai)
    (hlong : ai'.isLong = ai.isLong)
    (hbest : ai'.bestPrice = ai.bestPrice) (hstop : ai'.intent.stopLoss = ai.intent.stopLoss) :
    Ratchet start pct seen ai' where
  best := hbest.trans h.best
  unset hnil := hstop.trans (h.unset hnil)
  set hseen := by
    rw [hstop, h.set hseen, trailLevel, trailLevel, hbest, hlong]

theorem shows_pos {long : Bool} (h : op.shows symbol long = some px) : 0 < px := by
  cases op with
  | price s p ts order =>
    rw [Op.shows] at h
    split at h
    · rw [← Option.some.inj h]
      exact ‹_ ∧ 0 < p›.2
    · cases h
  | bar s o low high close ts order =>
    rw [Op.shows] at h
    split at h
    case isTrue hvalid =>
      rw [← Option.some.inj h]
      split
      · exact lt_max_of_lt_left hvalid.2.1
      · exact lt_min hvalid.2.1 hvalid.2.2.1
    case isFalse => cases h
  | _ => cases h

/-- The ratchet along a life: the prices that the run shows are added to those seen. -/
theorem Lives.ratchet (h : Lives m ops e e') (hlong : e.2.isLong = start.isLong)
    (hpct : e.2.intent.trailingPct = some pct) (h0 : 0 ≤ pct) (h1 : pct < 1)
    (hr : Ratchet start pct seen e.2) :
    Ratchet start pct (seen ++ seenBy e.2.intent.symbol start.isLong ops) e'.2 := by
  induction ops generalizing m e seen with
  | nil =>
    obtain ⟨-, rfl⟩ := h
    rw [seenBy, filterMap_nil, append_nil]
    exact hr
  | cons op ops ih =>
    obtain ⟨-, e₁, hnext, hrest⟩ := h
    obtain ⟨hkin, hlevels⟩ := hnext.levels
    have hlong₁ := hkin.long.trans hlong
    have hpct₁ := hkin.trailing.trans hpct
    rw [hlong] at hlevels
    rw [seenBy, filterMap_cons]
    cases hshows : op.shows e.2.intent.symbol start.isLong with
    | none =>
      rw [hshows] at hlevels
      have hkept := hr.keep hkin.long hlevels.1 hlevels.2
      have hrest' := ih hrest hlong₁ hpct₁ hkept
      rw [hkin.symbol] at hrest'
      exact hrest'
    | some px =>
      rw [hshows] at hlevels
      have hpulled : e₁.2 = e.2.pulled px := hlevels
      have hpull := hr.pull hlong hpct h0 h1 (shows_pos hshows)
      rw [← hpulled] at hpull
      have hrest' := ih hrest hlong₁ hpct₁ hpull
      rw [hkin.symbol, append_assoc] at hrest'
      exact hrest'

theorem arm_reference (h : (intent.arm f).intent.referenceEntry = none) :
    intent.referenceEntry = none := by
  cases href : intent.referenceEntry with
  | none => rfl
  | some ref =>
    rw [ExitIntent.arm, ExitIntent.anchor] at h
    rw [href] at h
    dsimp only at h
    split at h
    · cases h
    · exact absurd h (by simp)

/-- An intent without a reference entry is armed with its own levels. -/
theorem arm_of_absolute (h : intent.referenceEntry = none) :
    (intent.arm f).intent = { intent with qty := f.filledQuantity * intent.fraction } := by
  rw [ExitIntent.arm, ExitIntent.anchor]
  rw [h]

/-- **The trailing stop is a ratchet.** Take an armed intent of any run that has a trail and
absolute levels. A fill armed it; at every moment of its life since then the best price is the
extreme of the fill price and the favourable prices seen, and once there are any, the stop is the
better of the declared stop and the trail behind that price. From every moment on the stop has only
moved towards the market. -/
theorem trailing_stop_ratchets (hasBracketAdapter : Bool) (ops : List Op) {last : Nat × ArmedIntent}
    (hlast : last ∈ (final call (init hasBracketAdapter) ops).armed) {pct : ℚ}
    (hpct : last.2.intent.trailingPct = some pct) (h0 : 0 ≤ pct) (h1 : pct < 1)
    (href : last.2.intent.referenceEntry = none) :
    ∃ pre f opener placed order post intent,
      ops = pre ++ .fill f opener placed order :: post ∧
      (f.orderId, intent) ∈ (final call (init hasBracketAdapter) pre).pending ∧
      let armed := final call (init hasBracketAdapter) (pre ++ [.fill f opener placed order])
      Lives armed post (f.orderId, intent.arm f) last ∧
      ∀ mid rest e, post = mid ++ rest → Lives armed mid (f.orderId, intent.arm f) e →
        Lives (final call armed mid) rest e last →
          let long : Bool := intent.closeSide = .sell
          let seen := seenBy intent.symbol long mid
          e.2.bestPrice = seen.foldl (extreme long) f.fillPrice ∧
          (∀ sl, intent.stopLoss = some sl →
            ∃ sl', e.2.intent.stopLoss = some sl' ∧ e.2.AtOrWorse sl sl') ∧
          (seen ≠ [] → e.2.intent.stopLoss =
            some (better long intent.stopLoss
              (e.2.bestPrice * if long then 1 - pct else 1 + pct))) ∧
          ∀ sl, e.2.intent.stopLoss = some sl →
            ∃ sl', last.2.intent.stopLoss = some sl' ∧ e.2.AtOrWorse sl sl' := by
  obtain ⟨pre, op, post, start, rfl, ⟨f, opener, placed, order, intent, rfl, hpending, rfl⟩,
    hlives⟩ :=
    exists_life rfl ops hlast
  refine ⟨pre, f, opener, placed, order, post, intent, rfl, hpending, hlives, ?_⟩
  intro mid rest e _ hmid hrest
  obtain ⟨hkin, -⟩ := hlives.holds
  have habsolute := arm_of_absolute f (arm_reference f (hkin.reference.symm.trans href))
  have htrailing : (intent.arm f).intent.trailingPct = some pct := hkin.trailing.symm.trans hpct
  have hlong : (intent.arm f).isLong = decide (intent.closeSide = .sell) := by
    rw [isLong, habsolute]
  have hstart : Ratchet (intent.arm f) pct [] (intent.arm f) :=
    ⟨rfl, fun _ => rfl, fun h => absurd rfl h⟩
  have hratchet := hmid.ratchet rfl htrailing h0 h1 hstart
  obtain ⟨hmidkin, hmidholds⟩ := hmid.holds
  have hseen : [] ++ seenBy (intent.arm f).intent.symbol (intent.arm f).isLong mid =
      seenBy intent.symbol (decide (intent.closeSide = .sell)) mid := by
    rw [nil_append, hlong, habsolute]
  rw [hseen] at hratchet
  refine ⟨?_, ?_, ?_, hrest.holds.2⟩
  · rw [hratchet.best, hlong]
    rfl
  · intro sl hsl
    obtain ⟨sl', hsl', hworse⟩ := hmidholds sl (by rw [habsolute]; exact hsl)
    exact ⟨sl', hsl', (atOrWorse_congr hmidkin.long _ _).2 hworse⟩
  · intro hany
    have hset := hratchet.set hany
    rw [trailLevel, hmidkin.long, hlong, habsolute] at hset
    exact hset

/-- A long with a stop at 90 and a trail of a twentieth, filled in two parts. -/
def trailingRun : List Op :=
  [.register { longIntent 1 (some 90) none with trailingPct := some (1 / 20) },
    .fill (openerFillEvent 6 100) 1 noHandles .id, .price "BTC" 110 1 .id,
    .fill (openerFillEvent 4 109) 1 noHandles .id, .bar "BTC" 108 106 109 107 2 .id]

theorem trailing_stop_ratchets_of_trailingRun :
    ∃ last ∈ (final call (init false) trailingRun).armed, last.2.intent.stopLoss = some (209 / 2) ∧
      ∃ pre f opener placed order post intent, trailingRun =
        pre ++ .fill f opener placed order :: post ∧
        (f.orderId, intent) ∈ (final call (init false) pre).pending ∧
        Lives (final call (init false) (pre ++ [.fill f opener placed order])) post
          (f.orderId, intent.arm f) last := by
  obtain ⟨last, hlast, hstop, hpct, href⟩ : ∃ last ∈ (final call (init false) trailingRun).armed,
      last.2.intent.stopLoss = some (209 / 2) ∧ last.2.intent.trailingPct = some (1 / 20) ∧
        last.2.intent.referenceEntry = none := by
    decide +kernel
  obtain ⟨pre, f, opener, placed, order, post, intent, hops, hpending, hlives, -⟩ :=
    trailing_stop_ratchets false trailingRun hlast hpct (by norm_num) (by norm_num) href
  exact ⟨last, hlast, hstop, pre, f, opener, placed, order, post, intent, hops, hpending, hlives⟩

end ExitManager

end TrueTest
