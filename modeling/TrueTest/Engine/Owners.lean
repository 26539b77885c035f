import TrueTest.Engine.Cancels

/-!
# Whose fill it is

An id belongs to one order for good, and an order keeps its symbol and its side through rounding,
deferral and conversion. An adapter stamps a fill with the symbol and the side that the order was
submitted with. So every fill that the engine applies has the symbol and the side of the order that
was checked under its id, and it is not negative.
-/

namespace TrueTest

open Machine List

def FillEvent.key (f : FillEvent) : Nat × String × OrderSide := (f.orderId, f.symbol, f.side)

theorem FillEvent.key_bare (f : FillEvent) : f.bare.key = f.key := rfl

/-! ## The adapter -/

namespace LocalBook

variable {cfg : LocalBookConfig} {S : Nat × String × OrderSide → Prop} {a b : LocalBook}

/-- The tracked orders and the fills that wait have keys with `S`, and the fills are not
negative. -/
structure Keyed (S : Nat × String × OrderSide → Prop) (a : LocalBook) : Prop where
  resting : ∀ id ri, a.resting.lookup id = some ri → S (id, ri.symbol, ri.side)
  fills : ∀ f ∈ a.pendingFills, S f.key ∧ 0 ≤ f.filledQuantity

/-- The book and the clock do not matter. -/
theorem Keyed.congr (h : Keyed S a) (hresting : b.resting = a.resting)
    (hfills : b.pendingFills = a.pendingFills) : Keyed S b :=
  ⟨hresting ▸ h.resting, hfills ▸ h.fills⟩

theorem Keyed.ite {c : Prop} [Decidable c] (ha : Keyed S a) (hb : Keyed S b) :
    Keyed S (if c then a else b) := by
  split
  · exact ha
  · exact hb

theorem Keyed.emit (h : Keyed S a) {f : FillEvent} (hkey : S f.key) (hqty : 0 ≤ f.filledQuantity) :
    Keyed S (a.emit f) := by
  refine ⟨h.resting, ?_⟩
  rw [emit_pendingFills]
  exact forall_mem_append.2 ⟨h.fills, forall_mem_singleton.2 ⟨hkey, hqty⟩⟩

theorem Keyed.untrack (h : Keyed S a) (id : Nat) : Keyed S (a.untrack id) := by
  refine ⟨fun x ri hx => ?_, h.fills⟩
  rw [untrack_resting] at hx
  exact h.resting x ri (AList.lookup_of_lookup_erase hx).2

theorem Keyed.pull (h : Keyed S a) (id : Nat) : Keyed S (a.pull id) :=
  Keyed.untrack (a := { a with book := a.book.cancelOrder id }) (h.congr rfl rfl) id

theorem Keyed.recordRestingFill (h : Keyed S a) (ts : Int) (ti : TradeInfo) :
    Keyed S (a.recordRestingFill cfg ts ti) := by
  rw [LocalBook.recordRestingFill]
  cases hri : a.resting.lookup ti.orderId with
  | none => exact h
  | some ri =>
    have hqty : 0 ≤ (a.makerFill cfg ts ri ti).filledQuantity :=
      div_nonneg (Nat.cast_nonneg _) cfg.qtyScale_pos.le
    have hemit := h.emit (f := a.makerFill cfg ts ri ti) (h.resting _ ri hri) hqty
    exact .ite (hemit.untrack _) hemit

section

variable (h : Keyed S a) {o : OrderEvent} (ho : S o.key) (p : Nat)
include h ho

theorem Keyed.recordTakerFill (ours counter : TradeInfo) :
    Keyed S (a.recordTakerFill cfg o p ours counter) := by
  rw [LocalBook.recordTakerFill]
  split
  · exact h
  · next hkeep =>
    refine h.emit ho ?_
    show 0 ≤ takerQty cfg ours
    by_cases hfade : 0 < cfg.fadeRate
    · exact (not_le.1 fun hle => hkeep ⟨hfade, hle⟩).le
    · rw [takerQty, if_neg hfade]
      exact div_nonneg (Nat.cast_nonneg _) cfg.qtyScale_pos.le

theorem Keyed.recordTrade (t : Trade) : Keyed S (a.recordTrade cfg o p t) := by
  have hmaker : ∀ {c : Prop} [Decidable c] {ts ti},
      Keyed S (if c then a.recordRestingFill cfg ts ti else a) := .ite (h.recordRestingFill _ _) h
  exact .ite (hmaker.recordTakerFill ho p _ _) hmaker

theorem Keyed.submitOrder (draw : ℚ) : Keyed S (a.submitOrder cfg o draw) := by
  rw [LocalBook.submitOrder]
  split
  · have hplaced : Keyed S (a.place cfg o).2.2 := by
      refine ⟨fun id ri hid => ?_, h.fills⟩
      rw [place_lookup] at hid
      split_ifs at hid with hnew
      · cases hid
        exact hnew.1 ▸ ho
      · exact h.resting id ri hid
    exact foldlRecOn _ _ hplaced fun _ ha t _ => ha.recordTrade ho _ t
  · exact h

end

theorem Keyed.step {w : World} (h : Keyed S w.adapter) (op : Op)
    (hop : ∀ o draw, op = .submit o draw → S o.key) : Keyed S (step cfg w op).2.adapter := by
  cases op with
  | submit o draw => exact h.submitOrder (hop o draw rfl) draw
  | cancel id latency =>
    show Keyed S (w.adapter.cancelOrder cfg id latency)
    rw [cancelOrder]
    split
    · exact h.congr rfl rfl
    · exact h.pull id
  | modify id price qty => exact (h.untrack id).congr rfl rfl
  | advanceTime ts order =>
    exact advanceTime_keeps ts order (h.congr rfl rfl) fun b id hb => (hb.pull id).congr rfl rfl
  | sweep symbol low high ts order =>
    refine sweepRestingRange_keeps cfg ts order symbol low high h
      (fun _ id _ hb _ _ => hb.untrack id)
      fun b id ri hb hri _ _ => (hb.emit (f := b.sweepFill cfg ts id ri)
        (hb.resting id ri hri) ?_).pull id
    exact div_nonneg (Nat.cast_nonneg _) cfg.qtyScale_pos.le
  | replenish live quotes ts =>
    have hbook : Keyed S { w.adapter with
        book := (MarketMaker.replenish w.adapter.book live quotes).2 } := h.congr rfl rfl
    exact foldlRecOn _ _ hbook fun _ ha t _ =>
      (ha.recordRestingFill ts t.bidTrade).recordRestingFill ts t.askTrade
  | poll => exact ⟨h.resting, fun _ hf => absurd hf not_mem_nil⟩
  | setMidPrice price | setL2Seeded seeded => exact h.congr rfl rfl

end LocalBook

namespace Venue

variable {cfg : LocalBookConfig} {S : Nat × String × OrderSide → Prop}

theorem keyed_moves : Moves cfg (fun w => LocalBook.Keyed S w.adapter) (S ·.key) := by
  intro w m h hm
  cases m with
  | adapter op => exact h.step op fun o draw hop => hm o draw (congrArg Move.adapter hop)
  | cancelDay id | l2Snapshot gen bids asks | l2Update gen s price newQty => exact h.congr rfl rfl

/-- The fills of a batch have the keys of orders that were submitted. -/
theorem keyed_polled {moves : List (String × Move)} {fills : List FillEvent}
    (hallowed : Along (step cfg) Allowed init moves)
    (hsubmit : ∀ o, .submit o ∈ calls cfg init moves → S o.key)
    (hpoll : .poll fills ∈ calls cfg init moves) : ∀ f ∈ fills, S f.key ∧ 0 ≤ f.filledQuantity := by
  have hinit : ∀ symbol, LocalBook.Keyed S (init symbol).adapter := fun _ =>
    ⟨fun id ri hid => by simp [init, LocalBook.World.init, LocalBook.init] at hid, nofun⟩
  obtain ⟨w, hw, rfl⟩ := keyed_moves.polled init hinit hallowed hsubmit hpoll
  exact hw.fills

end Venue

/-! ## The engine -/

/-- The order that an act shows to the risk manager or to an adapter. -/
def Act.order? : Act → Option OrderEvent
  | .check o _ => some o
  | .submit o => some o
  | _ => none

namespace Life

variable {b : Bool} {s t : Life} {owner : Nat → String × OrderSide} {a : Option Act}

/-- The owners have the order: its id is theirs, with its symbol and its side. -/
def Own (owner : Nat → String × OrderSide) (next : Nat) (o : OrderEvent) : Prop :=
  o.orderId < next ∧ owner o.orderId = (o.symbol, o.side)

theorem Own.congr {next : Nat} {o o' : OrderEvent} (h : Own owner next o)
    (hkey : o'.key = o.key) : Own owner next o' := by
  obtain ⟨hid, hrest⟩ := Prod.mk.inj hkey
  exact ⟨hid ▸ h.1, hid ▸ h.2.trans hrest.symm⟩

/-- Owners that agree on the ids given so far keep what they own. -/
theorem Own.mono {owner' : Nat → String × OrderSide} {next next' : Nat} {o : OrderEvent}
    (h : Own owner next o) (hnext : next ≤ next') (hagree : ∀ id < next, owner' id = owner id) :
    Own owner' next' o := ⟨h.1.trans_le hnext, (hagree _ h.1).trans h.2⟩

/-- The orders that a step holds and shows afterwards come from those held before, apart from at
most one under the next id. -/
theorem Step.origin (h : Step b s a t) : s.nextOrderId ≤ t.nextOrderId ∧
    ∃ new : Option OrderEvent,
      (∀ n ∈ new, n.orderId = s.nextOrderId ∧ s.nextOrderId < t.nextOrderId) ∧
      ∀ o, o ∈ t.held ∨ a.bind Act.order? = some o → o ∈ new ∨ ∃ o' ∈ s.held, o.key = o'.key := by
  have hheld : ∀ o, o ∈ s.held → ∃ o' ∈ s.held, o.key = o'.key := fun o ho => ⟨o, ho, rfl⟩
  simp only [mem_held] at hheld ⊢
  cases h with
  | idle hidle =>
    rename_i act
    have hnone : act.order? = none := by cases act <;> first | rfl | cases hidle
    refine ⟨le_rfl, none, by simp, fun o ho => ?_⟩
    simpa [hnone] using hheld o (by simpa [hnone] using ho)
  | accept close hhand hplacing hid | unwind hid hbatch =>
    rename_i o
    refine ⟨Nat.le_succ _, some o, by simp [hid], ?_⟩
    simp only [setStatus, Act.order?, Option.bind]
    grind
  | takeIds n => exact ⟨Nat.le_add_right _ n, none, by simp, by simpa using hheld⟩
  | check verdict hhand =>
    refine ⟨by cases verdict <;> exact le_rfl, none, by simp, ?_⟩
    cases verdict <;> simp only [judge, setStatus, Act.order?, Option.bind] <;> grind
  | cancel symbol x ok hbatch hhand hplacing hloose =>
    refine ⟨?_, none, by simp, ?_⟩
    all_goals
      simp only [Life.cancel, setStatus, Act.order?, Option.bind]
      grind
  | _ =>
    refine ⟨le_rfl, none, by simp, ?_⟩
    simp only [setStatus, Act.order?, Option.bind]
    grind

/-- A step gives at most the next id away, and what it holds and shows then is owned. -/
theorem Step.own (h : Step b s a t) (hs : ∀ o ∈ s.held, Own owner s.nextOrderId o) :
    ∃ owner' : Nat → String × OrderSide, (∀ id < s.nextOrderId, owner' id = owner id) ∧
      (∀ o ∈ t.held, Own owner' t.nextOrderId o) ∧
      ∀ o, a.bind Act.order? = some o → Own owner' t.nextOrderId o := by
  obtain ⟨hnext, new, hnew, horigin⟩ := h.origin
  set owner' := fun id => if id < s.nextOrderId then owner id else
    (new.map fun n => (n.symbol, n.side)).getD (owner id) with howner'
  have hagree : ∀ id < s.nextOrderId, owner' id = owner id := fun id hid => if_pos hid
  have hown : ∀ o, o ∈ t.held ∨ a.bind Act.order? = some o → Own owner' t.nextOrderId o := by
    intro o ho
    rcases horigin o ho with ho | ⟨o', ho', hkey⟩
    · obtain ⟨hid, hlt⟩ := hnew o ho
      refine ⟨hid ▸ hlt, ?_⟩
      simp [howner', hid, Option.mem_def.1 ho]
    · exact ((hs o' ho').mono hnext hagree).congr hkey
  exact ⟨owner', hagree, fun o ho => hown o (.inl ho), fun o ho => hown o (.inr ho)⟩

/-- In a run every order that is shown is owned, by owners that agree with those before on the ids
given by then. -/
theorem Run.own {as : List Act} (h : Run b s as t) (hs : ∀ o ∈ s.held, Own owner s.nextOrderId o) :
    ∃ owner' : Nat → String × OrderSide, (∀ id < s.nextOrderId, owner' id = owner id) ∧
      ∀ act ∈ as, ∀ o, act.order? = some o → owner' o.orderId = (o.symbol, o.side) := by
  induction h generalizing owner with
  | nil => exact ⟨owner, fun _ _ => rfl, fun _ ha => absurd ha not_mem_nil⟩
  | @cons s t u a as hstep _ ih =>
    obtain ⟨owner₁, hagree₁, hheld, hshown⟩ := hstep.own hs
    obtain ⟨owner₂, hagree₂, hrest⟩ := ih hheld
    have hnext := hstep.origin.1
    refine ⟨owner₂, fun id hid => (hagree₂ id (hid.trans_le hnext)).trans (hagree₁ id hid), ?_⟩
    intro act hact o ho
    rcases mem_append.1 hact with hact | hact
    · have hown := hshown o (by rw [Option.mem_toList.1 hact]; exact ho)
      exact (hagree₂ _ hown.1).trans hown.2
    · exact hrest act hact o ho

end Life

namespace Engine

/-- **A fill that is applied has the symbol and the side of the order checked under its id**, and is
not negative. -/
theorem exists_owner {cfg : LocalBookConfig} {config : EngineConfig} {ops : List Op}
    {moves : List (String × Venue.Move)} (hpaper : Paper cfg config ops moves) :
    ∃ owner : Nat → String × OrderSide,
      (∀ o verdict, .check o verdict ∈ (final step (init config) ops).acts →
        owner o.orderId = (o.symbol, o.side)) ∧
      ∀ f, .apply .portfolio f ∈ (final step (init config) ops).acts →
        owner f.orderId = (f.symbol, f.side) ∧ 0 ≤ f.filledQuantity := by
  obtain ⟨new, hacts, hrun⟩ :=
    (reaches_run (init config) ops _ (final_mem_states _ _)).run
  obtain rfl : new = (final step (init config) ops).acts := hacts.symm
  have hnone : ∀ o ∈ ((init config).life (init config).rest).held,
      Life.Own (fun _ => ("", .buy)) ((init config).life (init config).rest).nextOrderId o :=
    fun o ho => absurd ho not_mem_nil
  obtain ⟨owner, -, hown⟩ := hrun.own hnone
  refine ⟨owner, fun o verdict ho => hown _ ho o rfl, fun f hf => ?_⟩
  obtain ⟨new, hacts', happlied⟩ := settles_run (init config) ops
  obtain rfl : new = (final step (init config) ops).acts := hacts'.symm
  have hbare : f.bare ∈ appliedFills (.sink .portfolio) (final step (init config) ops).acts :=
    mem_flatMap.2 ⟨_, hf, by simp⟩
  rw [happlied, map_nil, nil_append] at hbare
  obtain ⟨fills, hpoll, g, hg, hfg⟩ := exists_poll_of_mem_polledFills hbare
  rw [← hpaper.calls] at hpoll
  have hkeyed := Venue.keyed_polled (S := fun k => owner k.1 = k.2) hpaper.allowed (fun o ho => by
    rw [hpaper.calls] at ho
    exact hown _ (submit_mem_venueCalls ho) o rfl) hpoll g hg
  have hkey : f.key = g.key := by rw [← f.key_bare, hfg, g.key_bare]
  have hqty : f.filledQuantity = g.filledQuantity := congrArg (·.filledQuantity) hfg
  rw [← hkey, ← hqty] at hkeyed
  exact hkeyed

end Engine

end TrueTest
