import TrueTest.Risk.RiskManager
import TrueTest.Util.Machine

/-!
# The rate of orders

`max_orders_per_minute`. The risk manager keeps the times of the orders that passed and prunes them
only when an order is checked; a check that rejects prunes as well, and records nothing. Without a
limit on the daily loss an order that is recorded has passed, so the times that are kept are the
last of the orders that passed, and those that were pruned are too old for every window that a later
order closes.
-/

namespace TrueTest.RiskManager

open Machine List RiskManager

def minute : Int := 60 * second

/-- A call of `check_order`. -/
structure Check where
  order : OrderEvent
  now : Int
  portfolio : Portfolio
  snap : RiskSnapshot

def check (limits : RiskLimits) (rm : RiskManager) (c : Check) : RiskAction × RiskManager :=
  rm.checkOrder limits c.order c.now c.portfolio c.snap

/-- The order reaches the rate check: what is decided before it does not stop the order. -/
def Check.Reaches (limits : RiskLimits) (c : Check) : Prop :=
  ∀ rm : RiskManager, rm.check limits c = rm.checkRates limits c.now

/-- One check, with the times of the orders that have passed. -/
def step (limits : RiskLimits) (s : RiskManager × List Int) (c : Check) :
    RiskAction × RiskManager × List Int :=
  let r := s.1.check limits c
  (r.1, r.2, if r.1 = .pass then s.2 ++ [c.now] else s.2)

/-- How many of the times lie in the closed minute from `start` on. -/
def inMinute (start : Int) (times : List Int) : Nat :=
  times.countP fun t => start ≤ t ∧ t ≤ start + minute

variable {limits : RiskLimits} {c : Check} {checks : List Check} {s : RiskManager × List Int}
  {times : List Int}

theorem breaker_ne_pass {limit current escalation : ℚ} {a : RiskAction}
    (h : breaker limit current escalation = some a) : a ≠ .pass := by
  rw [breaker] at h
  split_ifs at h <;> cases h <;> decide

/-- An order reaches the rate check, or is stopped before it and leaves the risk manager as it
is. -/
theorem reaches_or_stopped (limits : RiskLimits) (c : Check) : c.Reaches limits ∨
    ∃ a, a ≠ .pass ∧ ∀ rm : RiskManager, rm.check limits c = (a, rm) := by
  simp only [Check.Reaches, check, checkOrder]
  split_ifs
  · exact .inr ⟨.halt, by decide, fun _ => rfl⟩
  · exact .inr ⟨.reject, by decide, fun _ => rfl⟩
  · exact .inr ⟨.reject, by decide, fun _ => rfl⟩
  · cases hspread : breaker limits.maxSpreadBps c.snap.currentSpreadBps 2 with
    | some a => exact .inr ⟨a, breaker_ne_pass hspread, fun _ => rfl⟩
    | none =>
      cases hfunding : breaker limits.maxFunding8hRate c.snap.currentFunding8hRate (3 / 2) with
      | some a => exact .inr ⟨a, breaker_ne_pass hfunding, fun _ => rfl⟩
      | none => exact .inl fun _ => rfl

/-- The rate check without a limit on the daily loss. -/
theorem checkRates_eq (hrate : 0 < limits.maxOrdersPerMinute) (hloss : limits.maxDailyLoss ≤ 0)
    (rm : RiskManager) (now : Int) : rm.checkRates limits now =
      if limits.maxOrdersPerMinute ≤ (prune rm.orderTimestamps (now - minute)).length then
        (.reject, { rm with orderTimestamps := prune rm.orderTimestamps (now - minute) })
      else (.pass, { rm with
        orderTimestamps := prune rm.orderTimestamps (now - minute) ++ [now] }) := by
  simp only [checkRates, countOrder, if_pos hrate, minute, if_neg hloss.not_gt]
  by_cases hfull : limits.maxOrdersPerMinute ≤
    (prune rm.orderTimestamps (now - 60 * second)).length <;>
    simp [hfull]

/-- The times are in order, so that pruning from the front keeps exactly those that are late
enough. -/
theorem prune_eq_filter (hsorted : times.Pairwise (· ≤ ·)) (cutoff : Int) :
    prune times cutoff = times.filter (cutoff ≤ ·) := by
  induction times with
  | nil => rfl
  | cons first rest ih =>
    rw [pairwise_cons] at hsorted
    rw [prune]
    by_cases hfirst : first < cutoff
    · rw [dropWhile_cons_of_pos (by simpa), filter_cons_of_neg (by simpa)]
      exact ih hsorted.2
    · rw [dropWhile_cons_of_neg (by simpa using hfirst), eq_comm, filter_eq_self]
      intro t ht
      have : first ≤ t := by
        rcases mem_cons.1 ht with rfl | ht
        · exact le_rfl
        · exact hsorted.1 t ht
      exact decide_eq_true ((not_lt.1 hfirst).trans this)

/-- Of the times that passed, a check still finds those of the minute before it. -/
structure Rated (limits : RiskLimits) (checks : List Check)
    (s : RiskManager × List Int) : Prop where
  passed : s.2 <+ checks.map Check.now
  kept : ∀ now, (∀ d ∈ checks, d.now ≤ now) →
    prune s.1.orderTimestamps (now - minute) = s.2.filter (now - minute ≤ ·)
  windows : ∀ start, (inMinute start s.2 : Int) ≤ limits.maxOrdersPerMinute

/-- Times pruned at one check are pruned at every later one. -/
theorem prune_filter (hsorted : times.Pairwise (· ≤ ·)) {now later : Int}
    (hle : now ≤ later) : prune (times.filter (now - minute ≤ ·)) (later - minute) =
      times.filter (later - minute ≤ ·) := by
  rw [prune_eq_filter (hsorted.filter _), filter_filter]
  refine filter_congr fun t _ => ?_
  rw [← Bool.decide_and, decide_eq_decide]
  omega

theorem Rated.step (hrate : 0 < limits.maxOrdersPerMinute) (hloss : limits.maxDailyLoss ≤ 0)
    (h : Rated limits checks s) (htimes : ((checks ++ [c]).map Check.now).Pairwise (· ≤ ·)) :
    Rated limits (checks ++ [c]) (step limits s c).2 := by
  have hc : ∀ d ∈ checks, d.now ≤ c.now := fun d hd => by
    rw [map_append, pairwise_append] at htimes
    exact htimes.2.2 _ (mem_map_of_mem hd) _ (by simp)
  have hstay : s.2 <+ (checks ++ [c]).map Check.now := by
    rw [map_append]
    exact h.passed.trans (sublist_append_left _ _)
  have hadd : s.2 ++ [c.now] <+ (checks ++ [c]).map Check.now := by
    rw [map_append]
    exact h.passed.append_right _
  rw [RiskManager.step]
  rcases reaches_or_stopped limits c with hreaches | ⟨a, ha, hstopped⟩
  · rw [hreaches, checkRates_eq hrate hloss, h.kept _ hc]
    by_cases hfull : limits.maxOrdersPerMinute ≤ (s.2.filter (c.now - minute ≤ ·)).length
    · rw [if_pos hfull]
      exact ⟨hstay, fun now hnow => prune_filter (htimes.sublist hstay) (hnow c (by simp)),
        h.windows⟩
    · rw [if_neg hfull]
      refine ⟨hadd, fun now hnow => ?_, fun start => ?_⟩
      · have hself : (s.2 ++ [c.now]).filter (c.now - minute ≤ ·) =
            s.2.filter (c.now - minute ≤ ·) ++ [c.now] := by
          have hlt : c.now - minute ≤ c.now := Int.sub_le_self _ (by decide)
          rw [filter_append, filter_cons_of_pos (by simpa using hlt), filter_nil]
        rw [← hself]
        exact prune_filter (htimes.sublist hadd) (hnow c (by simp))
      · show (inMinute start (s.2 ++ [c.now]) : Int) ≤ _
        have hbefore := h.windows start
        rw [inMinute] at hbefore ⊢
        rw [countP_append, countP_singleton]
        split_ifs with hin
        · -- What such a window holds besides the new order is in the minute before it.
          have hle : s.2.countP (fun t => start ≤ t ∧ t ≤ start + minute) ≤
              s.2.countP (c.now - minute ≤ ·) := by
            refine countP_mono_left fun t _ ht => ?_
            simp only [decide_eq_true_eq] at hin ht ⊢
            omega
          rw [countP_eq_length_filter (p := (c.now - minute ≤ ·))] at hle
          omega
        · exact hbefore
  · rw [hstopped, if_neg ha]
    exact ⟨hstay, fun now hnow => h.kept now fun d hd => hnow d (mem_append_left _ hd), h.windows⟩

theorem rated_run (hrate : 0 < limits.maxOrdersPerMinute) (hloss : limits.maxDailyLoss ≤ 0)
    (htimes : (checks.map Check.now).Pairwise (· ≤ ·)) :
    Rated limits checks (final (step limits) (init, []) checks) := by
  induction checks using reverseRecOn with
  | nil => exact ⟨.refl _, fun _ _ => rfl, fun _ => hrate.le⟩
  | append_singleton checks c ih =>
    rw [final_append]
    refine (ih (htimes.sublist ?_)).step hrate hloss htimes
    exact (sublist_append_left checks [c]).map Check.now

/-- **No minute has more orders than the limit, and an order is refused for the rate only after as
many in the minute before it**, whatever else the checks refuse. -/
theorem rate_limited (limits : RiskLimits) (hrate : 0 < limits.maxOrdersPerMinute)
    (hloss : limits.maxDailyLoss ≤ 0) (checks : List Check)
    (htimes : (checks.map Check.now).Pairwise (· ≤ ·)) :
    let s := final (step limits) (init, []) checks
    (∀ start, (inMinute start s.2 : Int) ≤ limits.maxOrdersPerMinute) ∧
      ∀ c : Check, (∀ d ∈ checks, d.now ≤ c.now) → c.Reaches limits →
        (step limits s c).1 = .reject →
        limits.maxOrdersPerMinute ≤ inMinute (c.now - minute) s.2 := by
  intro s
  have h : Rated limits checks s := rated_run hrate hloss htimes
  refine ⟨h.windows, fun c hc hreaches hreject => ?_⟩
  have hall : inMinute (c.now - minute) s.2 = (s.2.filter (c.now - minute ≤ ·)).length := by
    rw [inMinute, ← countP_eq_length_filter]
    refine countP_congr fun t ht => ?_
    obtain ⟨d, hd, rfl⟩ := mem_map.1 (h.passed.subset ht)
    have := hc d hd
    simp only [decide_eq_true_eq]
    omega
  rw [hall]
  by_contra hroom
  rw [step, hreaches, checkRates_eq hrate hloss, h.kept _ hc, if_neg hroom] at hreject
  cases hreject

/-- A third order within the minute, with a limit of two. -/
theorem rate_limited_two :
    let limits : RiskLimits := { maxOrdersPerMinute := 2 }
    let c : Check := ⟨.new 0 1 "BTC" .limit .buy 1 100 .gtc 0, 0, .init 1000, {}⟩
    let s := final (step limits) (init, []) [c, c]
    (∀ start, (inMinute start s.2 : Int) ≤ 2) ∧ 2 ≤ (inMinute (0 - minute) s.2 : Int) := by
  intro limits c s
  have hreaches : c.Reaches limits :=
    (reaches_or_stopped limits c).resolve_right fun ⟨a, ha, hstopped⟩ =>
    ha ((congrArg Prod.fst (hstopped init)).symm.trans (by decide +kernel))
  have h := rate_limited limits (by decide) (by decide) [c, c] (by decide)
  exact ⟨h.1, h.2 c (by decide) hreaches (by decide +kernel)⟩

end TrueTest.RiskManager
