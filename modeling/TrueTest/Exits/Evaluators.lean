import TrueTest.Exits.Spare

/-!
# What an evaluation fires

`on_price` and `on_bar` go once through the armed intents. This module says what comes out of the
loop, intent by intent: which intents stay and how they are left (`evaluate_armed`), and which
closing orders are sent, in the order of the loop (`evaluate_sends`). A triggered intent sends a
close unless it asks for nothing or the entry of its opener has nothing left. Whether an entry has
something left does not change during the loop, because an entry that is used up is erased
(`hasRest_fire`).

The two results about the evaluators:

* `onBar_closes`: what a bar fires and at which prices;
* `onPrice_eq_onBar_iff`: `on_price` and `on_bar` on the bar of a single price agree unless the
  price reaches a stop that it has just pulled up.
-/

namespace TrueTest

open Machine List ArmedIntent

variable {o : OrderEvent} {px sl pct tp : ℚ} {m : ExitManager}

namespace ExitManager

/-! ## One triggered intent -/

/-- The opener has no entry, or one with something left. -/
def hasRest (m : ExitManager) (opener : Nat) : Bool :=
  (m.openerRemainingQty.lookup opener).all fun rem => 0 < rem

section Firing

variable {m : ExitManager} {opener id : Nat} {ai : ArmedIntent} {others : List (Nat × ArmedIntent)}
  {ts : Int} {price : ℚ}

theorem hasRest_of_none (h : m.openerRemainingQty.lookup opener = none) :
    m.hasRest opener = true := by
  rw [hasRest, h]
  rfl

theorem hasRest_of_some {rem : ℚ} (h : m.openerRemainingQty.lookup opener = some rem) :
    m.hasRest opener = decide (0 < rem) := by
  rw [hasRest, h]
  rfl

/-- The loop does not change which openers have something left. -/
theorem hasRest_fire : (m.fire ts price opener ai others).2.hasRest id = m.hasRest id := by
  by_cases hid : id = opener
  · subst hid
    by_cases hqty : 0 < ai.intent.qty
    · cases hlook : m.openerRemainingQty.lookup id with
      | none =>
        rw [hasRest_of_none hlook]
        exact hasRest_of_none (fire_of_none hqty hlook).2
      | some rem =>
        rw [hasRest_of_some hlook]
        by_cases hrem : 0 < rem
        · rw [decide_eq_true hrem]
          rcases (leftover_bounds (min_le_right ai.intent.qty rem)).1.eq_or_lt with hleft | hleft
          · exact hasRest_of_none (fire_erases hqty hrem hlook hleft.symm)
          · rcases (@fire_of_some m id ai others ts price rem hqty hlook).2.1 with hnone | hsome
            · exact hasRest_of_none hnone
            · rw [hasRest_of_some hsome, decide_eq_true hleft]
        · obtain ⟨rem', hrem', hlook'⟩ := (@fire_of_flat m id ai others ts price
            ⟨rem, not_lt.1 hrem, hlook⟩).2
          rw [hasRest_of_some hlook', decide_eq_false (not_lt.2 hrem'), decide_eq_false hrem]
    · rw [hasRest, (fire_of_nonpos hqty).2, hasRest]
  · rw [hasRest, (fire_of_ne hid).1, hasRest]

/-- A triggered intent sends a close if it asks for something and its opener has something left. -/
theorem fire_isSome :
    (m.fire ts price opener ai others).1.isSome ↔ 0 < ai.intent.qty ∧ m.hasRest opener = true := by
  by_cases hqty : 0 < ai.intent.qty
  · have hpos : 0 < (m.consumeOpenerQty opener ai.intent.qty).1 ↔ m.hasRest opener = true := by
      cases hlook : m.openerRemainingQty.lookup opener with
      | none =>
        rw [consumeOpenerQty, if_pos hqty, hlook, hasRest_of_none hlook]
        exact iff_of_true hqty rfl
      | some rem =>
        rw [consumeOpenerQty_of_some hqty hlook, hasRest_of_some hlook, decide_eq_true_iff]
        exact lt_min_iff.trans (and_iff_right hqty)
    rw [fire]
    dsimp only
    rw [← hpos, and_iff_right hqty]
    by_cases hq : 0 < (m.consumeOpenerQty opener ai.intent.qty).1
    · rw [if_pos hq]
      exact iff_of_true rfl hq
    · rw [if_neg hq]
      exact iff_of_false Bool.false_ne_true hq
  · rw [(fire_of_nonpos hqty).1]
    exact iff_of_false Bool.false_ne_true fun h => hqty h.1

/-- The close is for at most what the intent asks for. -/
theorem fire_eq_some (h : (m.fire ts price opener ai others).1 = some o) :
    ∃ qty, 0 < qty ∧ qty ≤ ai.intent.qty ∧ o = closeOrder ts opener ai qty price := by
  rw [fire] at h
  dsimp only at h
  split at h
  case isTrue hq =>
    refine ⟨_, hq, ?_, (Option.some.inj h).symm⟩
    rw [consumeOpenerQty] at hq ⊢
    split
    · split
      · exact le_rfl
      · exact min_le_left _ _
    case isFalse hqty =>
      rw [if_neg hqty] at hq
      exact absurd hq (lt_irrefl 0)
  case isFalse => cases h

end Firing

/-! ## The loop -/

section Loop

variable {probe : ArmedIntent → ArmedIntent × Option ℚ} {symbol : String} {ts : Int}

theorem hasRest_evaluate (kept rest : List (Nat × ArmedIntent)) (m : ExitManager) (id : Nat) :
    (evaluate probe symbol ts kept rest m).2.hasRest id = m.hasRest id :=
  evaluate_induction probe symbol ts (motive := fun _ _ m r => r.2.hasRest id = m.hasRest id)
    (fun _ _ => rfl) (fun _ _ _ _ _ _ _ _ _ ih => ih)
    (fun _ _ _ _ _ _ _ _ _ ih => ih.trans hasRest_fire) kept rest m

/-- Whether the loop sends a close for an armed intent. -/
def sends (m : ExitManager) (probe : ArmedIntent → ArmedIntent × Option ℚ) (symbol : String)
    (e : Nat × ArmedIntent) : Bool :=
  triggers probe symbol e ∧ 0 < (probe e.2).1.intent.qty ∧ m.hasRest e.1

/-- An order is the close of an armed intent, for at most what the intent asks for. -/
def Closes (probe : ArmedIntent → ArmedIntent × Option ℚ) (ts : Int) (e : Nat × ArmedIntent)
    (o : OrderEvent) : Prop :=
  ∃ price qty, (probe e.2).2 = some price ∧ 0 < qty ∧ qty ≤ (probe e.2).1.intent.qty ∧
    o = closeOrder ts e.1 (probe e.2).1 qty price

theorem sends_congr {m' : ExitManager} (h : ∀ id, m'.hasRest id = m.hasRest id) :
    m'.sends probe symbol = m.sends probe symbol := by
  funext e
  rw [sends, sends, h]

/-- The closes are those of the intents that send one, in the order of the loop. -/
theorem evaluate_sends (kept rest : List (Nat × ArmedIntent)) (m : ExitManager) :
    Forall₂ (Closes probe ts) (rest.filter (m.sends probe symbol))
      (evaluate probe symbol ts kept rest m).1 := by
  refine evaluate_induction probe symbol ts
    (motive := fun _ rest m r => Forall₂ (Closes probe ts) (rest.filter (m.sends probe symbol)) r.1)
    (fun _ _ => .nil) (fun kept rest m r opener ai ai' hskip _ ih => ?_)
    (fun kept rest m r opener ai price htriggers hprice ih => ?_) kept rest m
  · rw [filter_cons_of_neg]
    · exact ih
    · rw [sends, hskip]
      simp
  · rw [sends_congr fun _ => hasRest_fire] at ih
    cases hclose : (m.fire ts price opener (probe ai).1 (kept ++ rest)).1 with
    | none =>
      have hnot : ¬ (0 < (probe ai).1.intent.qty ∧ m.hasRest opener = true) := by
        rw [← fire_isSome, hclose]
        exact Bool.false_ne_true
      rw [filter_cons_of_neg fun hsends => hnot (of_decide_eq_true hsends).2]
      exact ih
    | some o =>
      have hsome := fire_isSome.1 (Option.isSome_iff_exists.2 ⟨o, hclose⟩)
      obtain ⟨qty, hpos, hle, ho⟩ := fire_eq_some hclose
      have hsends : m.sends probe symbol (opener, ai) = true := decide_eq_true ⟨htriggers, hsome⟩
      rw [filter_cons_of_pos hsends]
      exact .cons ⟨price, qty, hprice, hpos, hle, ho⟩ ih

theorem closes_of_mem_evaluate {kept rest : List (Nat × ArmedIntent)}
    (ho : o ∈ (evaluate probe symbol ts kept rest m).1) : ∃ e, Closes probe ts e o := by
  obtain ⟨i, hi, rfl⟩ := mem_iff_getElem.1 ho
  have hsends : Forall₂ (Closes probe ts) (rest.filter (m.sends probe symbol)) _ :=
    evaluate_sends kept rest m
  have hlen : i < (rest.filter (m.sends probe symbol)).length := by rwa [hsends.length_eq]
  exact ⟨_, hsends.get hlen hi⟩

/-- The loop over no intents. -/
theorem evaluate_of_empty (h : m.armed = []) (order : IterationOrder (Nat × ArmedIntent)) :
    evaluate probe symbol ts [] (order.run m.armed) m = ([], m) := by
  have hrun : order.run m.armed = [] := by
    rw [h]
    exact (order.perm []).eq_nil
  rw [hrun, evaluate, ← h]

variable (m : ExitManager) (order : IterationOrder (Nat × ArmedIntent))

theorem onPrice_eq_evaluate (hp : 0 < px) : m.onPrice symbol px ts order =
      evaluate (probePrice px ts) symbol ts [] (order.run m.armed) m := by
  rw [onPrice]
  by_cases hempty : m.armed = []
  · rw [if_pos (.inl (isEmpty_iff.2 hempty)), evaluate_of_empty hempty]
  · rw [if_neg]
    rintro (h | h)
    · exact hempty (isEmpty_iff.1 h)
    · exact h hp

theorem onBar_eq_evaluate {open_ low high close : ℚ} (hl : 0 < low) (hh : 0 < high)
    (hc : 0 < close) :
    m.onBar symbol open_ low high close ts order =
      evaluate (probeBar (if 0 < open_ then open_ else close) (min low high) (max low high)
        close ts) symbol ts [] (order.run m.armed) m := by
  rw [onBar]
  by_cases hempty : m.armed = []
  · rw [if_pos (.inl (isEmpty_iff.2 hempty)), evaluate_of_empty hempty]
  · rw [if_neg]
    rintro (h | h | h | h)
    · exact hempty (isEmpty_iff.1 h)
    · exact h hl
    · exact h hh
    · exact h hc

end Loop

end ExitManager

/-! ## Bars -/

namespace ArmedIntent

variable {ai : ArmedIntent} {open_ low high close price : ℚ} {ts : Int}

/-- The extreme of a bar against the position. -/
def adverse (ai : ArmedIntent) (low high : ℚ) : ℚ := if ai.isLong then low else high

/-- The extreme of a bar in the position's favour. -/
def favorable (ai : ArmedIntent) (low high : ℚ) : ℚ := if ai.isLong then high else low

/-- A price is at a level or on the losing side of it. -/
def AtOrWorse (ai : ArmedIntent) (price level : ℚ) : Prop :=
  if ai.isLong then price ≤ level else level ≤ price

instance (ai : ArmedIntent) (price level : ℚ) : Decidable (ai.AtOrWorse price level) :=
  inferInstanceAs (Decidable (if ai.isLong then price ≤ level else level ≤ price))

/-- Whether a bar reaches the stop as it stands, the target or the deadline. -/
def hitBy (ai : ArmedIntent) (low high : ℚ) (ts : Int) : Bool :=
  (∃ sl ∈ ai.intent.stopLoss, ai.AtOrWorse (ai.adverse low high) sl) ∨
    (∃ tp ∈ ai.intent.takeProfit, ai.AtOrWorse tp (ai.favorable low high)) ∨
    ∃ d ∈ ai.intent.deadline, d ≤ ts

theorem stopHit_iff :
    ai.stopHit px = true ↔ ∃ sl, ai.intent.stopLoss = some sl ∧ ai.AtOrWorse px sl := by
  rw [stopHit, Option.any_eq_true]
  refine exists_congr fun sl => and_congr_right fun _ => ?_
  rw [AtOrWorse]
  split <;> exact decide_eq_true_iff

theorem targetHit_iff :
    ai.targetHit px = true ↔ ∃ tp, ai.intent.takeProfit = some tp ∧ ai.AtOrWorse tp px := by
  rw [targetHit, Option.any_eq_true]
  refine exists_congr fun tp => and_congr_right fun _ => ?_
  rw [AtOrWorse]
  split <;> exact decide_eq_true_iff

theorem timeHit_iff : ai.timeHit ts = true ↔ ∃ d, ai.intent.deadline = some d ∧ d ≤ ts := by
  simp [timeHit, Option.any_eq_true]

theorem hitBy_eq : ai.hitBy low high ts = decide (ai.stopHit (ai.adverse low high) ∨
    ai.targetHit (ai.favorable low high) ∨ ai.timeHit ts) := by
  rw [hitBy, decide_eq_decide, stopHit_iff, targetHit_iff, timeHit_iff]
  rfl

section Probe

/-! The four ways a bar leaves an intent. -/

theorem probeBar_of_stop (hsl : ai.intent.stopLoss = some sl)
    (h : ai.stopHit (ai.adverse low high) = true) :
    ai.probeBar open_ low high close ts =
      (ai, some (if ai.AtOrWorse open_ sl then open_ else sl)) := by
  rw [adverse] at h
  rw [probeBar]
  rw [if_pos h, hsl]
  rfl

theorem probeBar_of_target (htp : ai.intent.takeProfit = some tp)
    (hstop : ai.stopHit (ai.adverse low high) ≠ true)
    (h : ai.targetHit (ai.favorable low high) = true) :
    ai.probeBar open_ low high close ts =
      (ai, some (if ai.AtOrWorse tp open_ then open_ else tp)) := by
  rw [adverse] at hstop
  rw [favorable] at h
  rw [probeBar]
  rw [if_neg hstop, if_pos h, htp]
  rfl

theorem probeBar_of_time (hstop : ai.stopHit (ai.adverse low high) ≠ true)
    (htarget : ai.targetHit (ai.favorable low high) ≠ true) (h : ai.timeHit ts = true) :
    ai.probeBar open_ low high close ts = (ai, some close) := by
  rw [adverse] at hstop
  rw [favorable] at htarget
  rw [probeBar]
  rw [if_neg hstop, if_neg htarget, if_pos h]

theorem probeBar_of_miss (h : ai.hitBy low high ts = false) :
    ai.probeBar open_ low high close ts = ((ai.seen (ai.favorable low high)).trail, none) := by
  obtain ⟨hstop, htarget, htime⟩ : ¬ ai.stopHit (ai.adverse low high) = true ∧
      ¬ ai.targetHit (ai.favorable low high) = true ∧ ¬ ai.timeHit ts = true := by
    rw [hitBy_eq, decide_eq_false_iff_not, not_or, not_or] at h
    exact h
  rw [adverse] at hstop
  rw [favorable] at htarget
  rw [probeBar]
  rw [if_neg hstop, if_neg htarget, if_neg htime]
  rfl

theorem probeBar_isSome :
    (ai.probeBar open_ low high close ts).2.isSome = ai.hitBy low high ts := by
  by_cases hstop : ai.stopHit (ai.adverse low high) = true
  · obtain ⟨sl, hsl, -⟩ := stopHit_iff.1 hstop
    rw [probeBar_of_stop hsl hstop, hitBy_eq, decide_eq_true (.inl hstop)]
    rfl
  · by_cases htarget : ai.targetHit (ai.favorable low high) = true
    · obtain ⟨tp, htp, -⟩ := targetHit_iff.1 htarget
      rw [probeBar_of_target htp hstop htarget, hitBy_eq, decide_eq_true (.inr (.inl htarget))]
      rfl
    · by_cases htime : ai.timeHit ts = true
      · rw [probeBar_of_time hstop htarget htime, hitBy_eq, decide_eq_true (.inr (.inr htime))]
        rfl
      · have hmiss : ai.hitBy low high ts = false := by
          rw [hitBy_eq, decide_eq_false_iff_not, not_or, not_or]
          exact ⟨hstop, htarget, htime⟩
        rw [probeBar_of_miss hmiss, hmiss]
        rfl

end Probe

/-- What a bar may fire an intent at. -/
structure FiresAt (ai : ArmedIntent) (low high close price : ℚ) : Prop where
  range : low ≤ price ∧ price ≤ high
  /-- A stop fires at its level or worse, also when the target is reached as well. -/
  stop : ai.stopHit (ai.adverse low high) = true →
    ∃ sl, ai.intent.stopLoss = some sl ∧ ai.AtOrWorse price sl
  /-- A target fires at its level or better. -/
  target : ai.stopHit (ai.adverse low high) ≠ true → ai.targetHit (ai.favorable low high) = true →
    ∃ tp, ai.intent.takeProfit = some tp ∧ ai.AtOrWorse tp price
  deadline : ai.stopHit (ai.adverse low high) ≠ true →
    ai.targetHit (ai.favorable low high) ≠ true → price = close

theorem atOrWorse_self (x : ℚ) : ai.AtOrWorse x x := by
  rw [AtOrWorse]
  split <;> exact le_rfl

variable (hlo : low ≤ open_) (hoh : open_ ≤ high)
include hlo hoh

/-- The stop, or an open that has gapped through it, is within the bar. -/
theorem stop_mem_range (h : ai.AtOrWorse (ai.adverse low high) sl) :
    low ≤ (if ai.AtOrWorse open_ sl then open_ else sl) ∧
      (if ai.AtOrWorse open_ sl then open_ else sl) ≤ high := by
  split
  case isTrue => exact ⟨hlo, hoh⟩
  case isFalse hgap =>
    rw [AtOrWorse, adverse] at h
    rw [AtOrWorse] at hgap
    by_cases hlong : ai.isLong = true
    · rw [if_pos hlong] at h hgap
      rw [if_pos hlong] at h
      exact ⟨h, (not_le.1 hgap).le.trans hoh⟩
    · rw [if_neg hlong] at h hgap
      rw [if_neg hlong] at h
      exact ⟨hlo.trans (not_le.1 hgap).le, h⟩

theorem target_mem_range (h : ai.AtOrWorse tp (ai.favorable low high)) :
    low ≤ (if ai.AtOrWorse tp open_ then open_ else tp) ∧
      (if ai.AtOrWorse tp open_ then open_ else tp) ≤ high := by
  split
  case isTrue => exact ⟨hlo, hoh⟩
  case isFalse hgap =>
    rw [AtOrWorse, favorable] at h
    rw [AtOrWorse] at hgap
    by_cases hlong : ai.isLong = true
    · rw [if_pos hlong] at h hgap
      rw [if_pos hlong] at h
      exact ⟨hlo.trans (not_le.1 hgap).le, h⟩
    · rw [if_neg hlong] at h hgap
      rw [if_neg hlong] at h
      exact ⟨h, (not_le.1 hgap).le.trans hoh⟩

/-- A bar that reaches an intent fires it within its range, and leaves its levels. -/
theorem probeBar_of_hit (hlc : low ≤ close) (hch : close ≤ high) (h : ai.hitBy low high ts = true) :
    ∃ price, ai.probeBar open_ low high close ts = (ai, some price) ∧
      ai.FiresAt low high close price := by
  by_cases hstop : ai.stopHit (ai.adverse low high) = true
  · obtain ⟨sl, hsl, hworse⟩ := stopHit_iff.1 hstop
    refine ⟨_, probeBar_of_stop hsl hstop, stop_mem_range hlo hoh hworse, fun _ => ⟨sl, hsl, ?_⟩,
      fun hno => absurd hstop hno, fun hno => absurd hstop hno⟩
    split
    case isTrue hgap => exact hgap
    case isFalse => exact atOrWorse_self sl
  · by_cases htarget : ai.targetHit (ai.favorable low high) = true
    · obtain ⟨tp, htp, hbetter⟩ := targetHit_iff.1 htarget
      refine ⟨_, probeBar_of_target htp hstop htarget, target_mem_range hlo hoh hbetter,
        fun hyes => absurd hyes hstop, fun _ _ => ⟨tp, htp, ?_⟩, fun _ hno => absurd htarget hno⟩
      split
      case isTrue hgap => exact hgap
      case isFalse => exact atOrWorse_self tp
    · have htime : ai.timeHit ts = true := by
        have hany := of_decide_eq_true (hitBy_eq.symm.trans h)
        exact (hany.resolve_left hstop).resolve_left htarget
      exact ⟨close, probeBar_of_time hstop htarget htime, ⟨hlc, hch⟩, fun hyes => absurd hyes hstop,
        fun _ hyes => absurd hyes htarget, fun _ _ => rfl⟩

end ArmedIntent

namespace ExitManager

section Bars

variable {symbol : String} {open_ low high close : ℚ} {ts : Int}

def barFires (symbol : String) (low high : ℚ) (ts : Int) (e : Nat × ArmedIntent) : Bool :=
  e.2.intent.symbol = symbol ∧ e.2.hitBy low high ts

/-- An armed intent after a bar of a symbol that does not fire it. -/
def rolled (symbol : String) (low high : ℚ) (e : Nat × ArmedIntent) : Nat × ArmedIntent :=
  if e.2.intent.symbol = symbol then (e.1, (e.2.seen (e.2.favorable low high)).trail) else e

/-- An order closes an armed intent, at a price that the bar may fire it at. -/
structure ClosesOnBar (low high close : ℚ) (e : Nat × ArmedIntent) (o : OrderEvent) : Prop where
  opener : o.openerOrderId = e.1
  symbol : o.symbol = e.2.intent.symbol
  side : o.side = e.2.intent.closeSide
  quantity : 0 < o.quantity ∧ o.quantity ≤ e.2.intent.qty
  price : e.2.FiresAt low high close o.price

theorem triggers_probeBar (e : Nat × ArmedIntent) :
    triggers (probeBar open_ low high close ts) symbol e = barFires symbol low high ts e := by
  rw [triggers, barFires, probeBar_isSome]

theorem closesOnBar_of_closes (hlo : low ≤ open_) (hoh : open_ ≤ high) (hlc : low ≤ close)
    (hch : close ≤ high) {e : Nat × ArmedIntent} (hhit : e.2.hitBy low high ts = true)
    (h : Closes (probeBar open_ low high close ts) ts e o) : ClosesOnBar low high close e o := by
  obtain ⟨hit, hprobe, hfiresAt⟩ := probeBar_of_hit hlo hoh hlc hch hhit
  obtain ⟨price, qty, hprice, hpos, hle, rfl⟩ := h
  rw [hprobe] at hprice hle ⊢
  obtain rfl : hit = price := Option.some.inj hprice
  exact ⟨rfl, rfl, rfl, ⟨hpos, hle⟩, hfiresAt⟩

/-- The loop on a well-formed bar. -/
theorem onBar_of_ordered (m : ExitManager) (order : IterationOrder (Nat × ArmedIntent))
    (hl : 0 < low) (hlo : low ≤ open_) (hoh : open_ ≤ high) (hlc : low ≤ close) :
    m.onBar symbol open_ low high close ts order =
      evaluate (probeBar open_ low high close ts) symbol ts [] (order.run m.armed) m := by
  have hlh := hlo.trans hoh
  rw [onBar_eq_evaluate m order hl (hl.trans_le hlh) (hl.trans_le hlc), if_pos (hl.trans_le hlo),
    min_eq_left hlh, max_eq_right hlh]

/-- **What a bar fires.** The intents that a bar does not reach stay armed, with their trails
rolled; the others are gone. Each of these with something to close sends one order, priced within
the bar: by the stop if the bar reaches it at its level from before the bar, otherwise by the
target, otherwise by the close. -/
theorem onBar_closes (m : ExitManager) (symbol : String) {open_ low high close : ℚ} (ts : Int)
    (order : IterationOrder (Nat × ArmedIntent)) (hl : 0 < low) (hlo : low ≤ open_)
    (hoh : open_ ≤ high) (hlc : low ≤ close) (hch : close ≤ high) :
    (m.onBar symbol open_ low high close ts order).2.armed =
        ((order.run m.armed).filter fun e => !barFires symbol low high ts e).map
          (rolled symbol low high) ∧
      List.Forall₂ (ClosesOnBar low high close)
        ((order.run m.armed).filter fun e =>
          barFires symbol low high ts e && (0 < e.2.intent.qty && m.hasRest e.1))
        (m.onBar symbol open_ low high close ts order).1 := by
  set probe := probeBar open_ low high close ts
  have hfires : triggers probe symbol = barFires symbol low high ts :=
    funext fun e => triggers_probeBar e
  rw [onBar_of_ordered m order hl hlo hoh hlc]
  constructor
  · rw [evaluate_armed, nil_append, hfires]
    refine map_congr_left fun e he => ?_
    have hmiss : barFires symbol low high ts e = false := by
      simpa using (mem_filter.1 he).2
    rw [passed, rolled]
    split
    case isTrue hsym =>
      have hhit : e.2.hitBy low high ts = false := by
        rw [barFires, decide_eq_false_iff_not, not_and] at hmiss
        exact Bool.eq_false_of_not_eq_true (hmiss hsym)
      rw [probeBar_of_miss hhit]
    case isFalse => rfl
  · have hsends : (order.run m.armed).filter (m.sends probe symbol) = (order.run m.armed).filter
        fun e => barFires symbol low high ts e && (0 < e.2.intent.qty && m.hasRest e.1) := by
      refine filter_congr fun e _ => ?_
      rw [sends, hfires, probeBar_qty]
      simp
    have hcloses :
        Forall₂ (Closes probe ts) _ (evaluate probe symbol ts [] (order.run m.armed) m).1 :=
      evaluate_sends [] (order.run m.armed) m
    rw [hsends] at hcloses
    have hpaired := (forall₂_and_left _ _).2 ⟨fun e he => (mem_filter.1 he).2, hcloses⟩
    refine hpaired.imp fun e o hboth => closesOnBar_of_closes hlo hoh hlc hch ?_ hboth.2
    exact (of_decide_eq_true (Bool.and_eq_true_iff.1 hboth.1).1).2

/-- A long of ten lots from 100 with a stop at 95 and a target at 105. -/
def bracketed : ExitManager :=
  final call (init false) [.register (longIntent 1 (some 95) (some 105)),
    .fill (openerFillEvent 10 100) 1 noHandles .id]

/-- A bar that reaches both fires at the stop. -/
theorem onBar_closes_of_bothReached :
    let r := bracketed.onBar "BTC" 100 90 110 108 1 .id
    r.1.map OrderEvent.price = [95] ∧ r.2.armed.length = 0 ∧
      List.Forall₂ (ClosesOnBar 90 110 108) (bracketed.armed.filter fun e =>
        barFires "BTC" 90 110 1 e && (0 < e.2.intent.qty && bracketed.hasRest e.1)) r.1 := by
  obtain ⟨harmed, hcloses⟩ := onBar_closes bracketed "BTC" 1 .id (show (0 : ℚ) < 90 by norm_num)
    (show (90 : ℚ) ≤ 100 by norm_num) (show (100 : ℚ) ≤ 110 by norm_num)
    (show (90 : ℚ) ≤ 108 by norm_num) (show (108 : ℚ) ≤ 110 by norm_num)
  refine ⟨by decide +kernel, ?_, hcloses⟩
  rw [harmed]
  decide +kernel

end Bars

/-! ## A single price -/

end ExitManager

namespace ArmedIntent

variable {ai : ArmedIntent} {px : ℚ} {ts : Int}

@[simp] theorem seen_intent : (ai.seen px).intent = ai.intent := by
  rw [seen]
  split <;> rfl

@[simp] theorem seen_isLong : (ai.seen px).isLong = ai.isLong := by
  rw [isLong, seen_intent, isLong]

/-- Where the trail of an intent with this percentage stands. -/
def trailLevel (ai : ArmedIntent) (pct : ℚ) : ℚ :=
  ai.bestPrice * (if ai.isLong then 1 - pct else 1 + pct)

/-- A level is nearer to the market than the stop. A long without a stop counts as one with a stop
at zero. -/
def Tighter (ai : ArmedIntent) (level : ℚ) : Prop :=
  if ai.isLong then ai.intent.stopLoss.getD 0 < level
  else ∀ cur, ai.intent.stopLoss = some cur → level < cur

theorem trail_of_none (h : ai.intent.trailingPct = none) : ai.trail = ai := by
  rw [trail, h]

theorem trail_of_tighter (h : ai.intent.trailingPct = some pct)
    (ht : ai.Tighter (ai.trailLevel pct)) :
    ai.trail = { ai with intent := { ai.intent with stopLoss := some (ai.trailLevel pct) } } := by
  rw [trail, h]
  rw [Tighter] at ht
  dsimp only
  rw [if_pos]
  · rfl
  · split at ht
    case isTrue hlong =>
      rw [if_pos hlong]
      exact decide_eq_true ht
    case isFalse hlong =>
      rw [if_neg hlong]
      cases hstop : ai.intent.stopLoss with
      | none => rfl
      | some cur => exact decide_eq_true (ht cur hstop)

theorem trail_of_not_tighter (h : ai.intent.trailingPct = some pct)
    (ht : ¬ ai.Tighter (ai.trailLevel pct)) : ai.trail = ai := by
  rw [trail, h]
  rw [Tighter] at ht
  dsimp only
  rw [if_neg]
  split at ht
  case isTrue hlong =>
    rw [if_pos hlong, decide_eq_true_iff]
    exact ht
  case isFalse hlong =>
    rw [if_neg hlong]
    intro htight
    refine ht fun cur hcur => ?_
    rw [hcur] at htight
    exact of_decide_eq_true htight

/-- The trail writes the stop and nothing else. -/
theorem exists_trail_eq (ai : ArmedIntent) :
    ∃ stop, ai.trail = { ai with intent := { ai.intent with stopLoss := stop } } := by
  cases hpct : ai.intent.trailingPct with
  | none => exact ⟨_, trail_of_none hpct⟩
  | some pct =>
    by_cases ht : ai.Tighter (ai.trailLevel pct)
    · exact ⟨_, trail_of_tighter hpct ht⟩
    · exact ⟨_, trail_of_not_tighter hpct ht⟩

@[simp] theorem trail_isLong : ai.trail.isLong = ai.isLong := by
  obtain ⟨stop, h⟩ := exists_trail_eq ai
  rw [h]
  rfl

theorem atOrWorse_trans {x y z : ℚ} (hxy : ai.AtOrWorse x y) (hyz : ai.AtOrWorse y z) :
    ai.AtOrWorse x z := by
  rw [AtOrWorse] at *
  split at hxy
  case isTrue hlong =>
    rw [if_pos hlong] at *
    exact hxy.trans hyz
  case isFalse hlong =>
    rw [if_neg hlong] at *
    exact hyz.trans hxy

theorem Tighter.atOrWorse {level : ℚ} (h : ai.Tighter level) (hsl : ai.intent.stopLoss = some sl) :
    ai.AtOrWorse sl level := by
  rw [Tighter, hsl] at h
  rw [AtOrWorse]
  split at h
  case isTrue hlong =>
    rw [if_pos hlong]
    exact h.le
  case isFalse hlong =>
    rw [if_neg hlong]
    exact (h sl rfl).le

/-- The trail moves a stop only towards the market. -/
theorem trail_tightens (hsl : ai.intent.stopLoss = some sl) :
    ∃ sl', ai.trail.intent.stopLoss = some sl' ∧ ai.AtOrWorse sl sl' := by
  cases hpct : ai.intent.trailingPct with
  | none => exact ⟨sl, by rw [trail_of_none hpct, hsl], atOrWorse_self sl⟩
  | some pct =>
    by_cases ht : ai.Tighter (ai.trailLevel pct)
    · exact ⟨ai.trailLevel pct, by rw [trail_of_tighter hpct ht], ht.atOrWorse hsl⟩
    · exact ⟨sl, by rw [trail_of_not_tighter hpct ht, hsl], atOrWorse_self sl⟩

/-- An intent after a price that it survives. -/
abbrev pulled (ai : ArmedIntent) (px : ℚ) : ArmedIntent := (ai.seen px).trail

theorem exists_pulled_eq (ai : ArmedIntent) (px : ℚ) : ∃ best stop, ai.pulled px =
    { ai with bestPrice := best, intent := { ai.intent with stopLoss := stop } } := by
  obtain ⟨stop, htrail⟩ := exists_trail_eq (ai.seen px)
  refine ⟨(ai.seen px).bestPrice, stop, ?_⟩
  rw [pulled, htrail, seen]
  split <;> rfl

theorem stopHit_pulled (h : ai.stopHit px = true) : (ai.pulled px).stopHit px = true := by
  obtain ⟨sl, hsl, hworse⟩ := stopHit_iff.1 h
  have hseen : (ai.seen px).intent.stopLoss = some sl := by rw [seen_intent, hsl]
  obtain ⟨sl', hsl', htight⟩ := trail_tightens hseen
  refine stopHit_iff.2 ⟨sl', hsl', ?_⟩
  rw [AtOrWorse, seen_isLong] at htight
  have htrans := atOrWorse_trans hworse htight
  rw [AtOrWorse, pulled, trail_isLong, seen_isLong]
  exact htrans

theorem adverse_self : ai.adverse px px = px := by
  rw [adverse, ite_self]

theorem favorable_self : ai.favorable px px = px := by
  rw [favorable, ite_self]

/-- `on_price` fires an intent if the price reaches it as it stands, or reaches the stop that the
price itself has pulled up. -/
theorem probePrice_eq :
    ai.probePrice px ts = (ai.pulled px,
      if ai.hitBy px px ts ∨ (ai.pulled px).stopHit px then some px else none) := by
  have hsame :
      ((ai.pulled px).stopHit px ∨ (ai.pulled px).targetHit px ∨ (ai.pulled px).timeHit ts) ↔
      (ai.hitBy px px ts ∨ (ai.pulled px).stopHit px) := by
    have htarget : (ai.pulled px).targetHit px = ai.targetHit px := by
      obtain ⟨best, stop, h⟩ := exists_pulled_eq ai px
      rw [h]
      rfl
    have htime : (ai.pulled px).timeHit ts = ai.timeHit ts := by
      obtain ⟨best, stop, h⟩ := exists_pulled_eq ai px
      rw [h]
      rfl
    rw [htarget, htime, hitBy_eq, adverse_self, favorable_self, decide_eq_true_iff]
    constructor
    · rintro (h | h)
      · exact .inr h
      · exact .inl (.inr h)
    · rintro ((h | h) | h)
      · exact .inl (stopHit_pulled h)
      · exact .inr h
      · exact .inl h
  rw [probePrice, if_congr hsame rfl rfl]

/-- `on_bar` on the bar of a single price fires at that price. -/
theorem probeBar_single (h : ai.hitBy px px ts = true) :
    ai.probeBar px px px px ts = (ai, some px) := by
  obtain ⟨price, hprobe, hfires⟩ := probeBar_of_hit le_rfl le_rfl le_rfl le_rfl h
  rw [hprobe, le_antisymm hfires.range.2 hfires.range.1]

end ArmedIntent

namespace ExitManager

section Agreement

variable {probe probe' : ArmedIntent → ArmedIntent × Option ℚ} {symbol : String} {ts : Int}

/-- Two outcomes of a probe that the loop treats alike: the levels of a fired intent do not
matter. -/
def Alike (ts : Int) (r r' : ArmedIntent × Option ℚ) : Prop :=
  r = r' ∨ ∃ price, r.2 = some price ∧ r'.2 = some price ∧
    ∀ (m : ExitManager) opener others, m.fire ts price opener r.1 others =
      m.fire ts price opener r'.1 others

theorem evaluate_congr (rest : List (Nat × ArmedIntent))
    (h : ∀ e ∈ rest, e.2.intent.symbol = symbol → Alike ts (probe e.2) (probe' e.2))
    (kept : List (Nat × ArmedIntent)) (m : ExitManager) :
    evaluate probe symbol ts kept rest m = evaluate probe' symbol ts kept rest m := by
  induction rest generalizing kept m with
  | nil => rfl
  | cons e rest ih =>
    obtain ⟨opener, ai⟩ := e
    obtain ⟨hhead, hrest⟩ := forall_mem_cons.1 h
    rw [evaluate, evaluate]
    by_cases hsym : ai.intent.symbol = symbol
    · rw [if_neg (not_not.2 hsym), if_neg (not_not.2 hsym)]
      rcases hhead hsym with heq | ⟨price, hprice, hprice', hfire⟩
      · rw [heq]
        rcases probe' ai with ⟨ai', _ | price⟩
        · exact ih hrest _ m
        · dsimp only
          rw [ih hrest]
      · have hpair : probe ai = ((probe ai).1, some price) := Prod.ext rfl hprice
        have hpair' : probe' ai = ((probe' ai).1, some price) := Prod.ext rfl hprice'
        rw [hpair, hpair']
        dsimp only
        rw [hfire, ih hrest]
    · rw [if_pos hsym, if_pos hsym]
      exact ih hrest _ m

/-- Two filters that leave lists of one length, one of them the stricter, select the same. -/
theorem filter_imp_of_length {α : Type} {p q : α → Bool} {xs : List α} (hpq : ∀ x, p x → q x)
    (hlen : (xs.filter p).length = (xs.filter q).length) : ∀ x ∈ xs, q x → p x := by
  intro x hx hqx
  have heq := (monotone_filter_right xs hpq).eq_of_length hlen
  have hmem : x ∈ xs.filter p := by
    rw [heq]
    exact mem_filter.2 ⟨hx, hqx⟩
  exact (mem_filter.1 hmem).2

theorem triggers_probePrice (px : ℚ) (e : Nat × ArmedIntent) :
    triggers (probePrice px ts) symbol e = true ↔
      e.2.intent.symbol = symbol ∧ (e.2.hitBy px px ts ∨ (e.2.pulled px).stopHit px) := by
  rw [triggers, decide_eq_true_iff, probePrice_eq]
  refine and_congr_right fun _ => ?_
  split
  case isTrue h => exact iff_of_true rfl h
  case isFalse h => exact iff_of_false Bool.false_ne_true h

/-- An intent that the price does not both pull up and fire is treated alike. -/
theorem alike_probes {ai : ArmedIntent}
    (h : ai.hitBy px px ts = false → (ai.pulled px).stopHit px = false) :
    Alike ts (ai.probePrice px ts) (ai.probeBar px px px px ts) := by
  rw [probePrice_eq]
  by_cases hhit : ai.hitBy px px ts = true
  · rw [if_pos (.inl hhit), probeBar_single hhit]
    refine .inr ⟨px, rfl, rfl, fun m opener others => ?_⟩
    obtain ⟨best, stop, hpulled⟩ := exists_pulled_eq ai px
    rw [hpulled]
    rfl
  · have hmiss := Bool.eq_false_of_not_eq_true hhit
    rw [if_neg, probeBar_of_miss hmiss, favorable_self]
    · exact .inl rfl
    · rintro (hyes | hstop)
      · exact hhit hyes
      · exact Bool.eq_false_iff.1 (h hmiss) hstop

/-- **When a price and its bar agree.** `on_price` and `on_bar` on the bar of the same single price
send the same closes and leave the same manager, unless an armed intent that the price does not
reach as it stands has a stop that the price pulls up and reaches: `on_price` fires it, and `on_bar`
only moves the stop. -/
theorem onPrice_eq_onBar_iff (m : ExitManager) (symbol : String) {px : ℚ} (hp : 0 < px) (ts : Int)
    (order : IterationOrder (Nat × ArmedIntent)) :
    m.onPrice symbol px ts order = m.onBar symbol px px px px ts order ↔
      ∀ e ∈ m.armed, e.2.intent.symbol = symbol → e.2.hitBy px px ts = false →
        ((e.2.seen px).trail).stopHit px = false := by
  rw [onPrice_eq_evaluate m order hp, onBar_of_ordered m order hp le_rfl le_rfl le_rfl]
  constructor
  · intro heq e he hsym hmiss
    have hlen := congrArg (fun r => r.2.armed.length) heq
    simp only [evaluate_armed, nil_append, length_map] at hlen
    have hbar (x : Nat × ArmedIntent) :
        triggers (probeBar px px px px ts) symbol x = barFires symbol px px ts x :=
      triggers_probeBar x
    -- What the bar fires, the price fires; the lengths say that it fires nothing else.
    have hmore : ∀ x, (!triggers (probePrice px ts) symbol x) = true →
        (!triggers (probeBar px px px px ts) symbol x) = true := by
      intro x hx
      rw [Bool.not_eq_true'] at hx ⊢
      rw [hbar, Bool.eq_false_iff]
      intro hfires
      obtain ⟨hxsym, hxhit⟩ := of_decide_eq_true hfires
      exact Bool.eq_false_iff.1 hx ((triggers_probePrice px x).2 ⟨hxsym, .inl hxhit⟩)
    have hstays := filter_imp_of_length hmore hlen e ((order.perm m.armed).mem_iff.2 he)
    rw [Bool.not_eq_true', Bool.not_eq_true', hbar, Bool.eq_false_iff, Bool.eq_false_iff] at hstays
    rw [Bool.eq_false_iff]
    intro hstop
    refine hstays (fun hfires => ?_) ((triggers_probePrice px e).2 ⟨hsym, .inr hstop⟩)
    exact Bool.eq_false_iff.1 hmiss (of_decide_eq_true hfires).2
  · intro h
    refine evaluate_congr _ (fun e he hsym => ?_) [] m
    exact alike_probes (h e ((order.perm m.armed).mem_iff.1 he) hsym)

/-- A price through the stop: both fire it. -/
theorem onPrice_eq_onBar_of_stopReached :
    (bracketed.onPrice "BTC" 94 1 .id).1.map OrderEvent.price = [94] ∧
      bracketed.onPrice "BTC" 94 1 .id = bracketed.onBar "BTC" 94 94 94 94 1 .id :=
  ⟨by decide +kernel, (onPrice_eq_onBar_iff bracketed "BTC" (by norm_num) 1 .id).2
    (by decide +kernel)⟩

/-- A long from 100 with a trail of a twentieth and no stop of its own. -/
def trailing : ExitManager :=
  final call (init false) [.register { longIntent 1 none none with trailingPct := some (1 / 20) },
    .fill (openerFillEvent 10 100) 1 noHandles .id]

/-- The first price after the fill sets the trail at 95 and is below it: `on_price` closes, `on_bar`
does not. -/
theorem onPrice_ne_onBar_of_trailing :
    ¬ ∀ (m : ExitManager) (symbol : String) (px : ℚ) (ts : Int)
      (order : IterationOrder (Nat × ArmedIntent)), 0 < px →
        m.onPrice symbol px ts order = m.onBar symbol px px px px ts order := by
  intro h
  have hcloses := congrArg (fun r => r.1.length) (h trailing "BTC" 90 1 .id (by norm_num))
  exact absurd hcloses (by decide +kernel)

end Agreement

end ExitManager

end TrueTest
