import TrueTest.Core.Event

/-!
# Fills and order states

`OrderTracker` of `execution/order_tracker.h`, and the part of `engine::handle_engine_fill` that
decides an order's state from a fill. The engine never looks at the quantities: it reads
`is_partial()`, so the state of an order is as right as the remaining quantity the adapter put on
the fill (`CarriesRemaining`).
-/

namespace TrueTest

open List

inductive OrderStatus
  | pending
  | open
  | partiallyFilled
  | filled
  | cancelled
  | rejected
deriving DecidableEq, Repr

structure OrderTracker where
  statuses : AList fun _ : Nat => OrderStatus

variable (t : OrderTracker)

namespace OrderTracker

def init : OrderTracker := ⟨∅⟩

def setStatus (id : Nat) (status : OrderStatus) : OrderTracker :=
  ⟨t.statuses.insert id status⟩

def getOrderStatus (id : Nat) : OrderStatus :=
  (t.statuses.lookup id).getD .pending

def isActive (id : Nat) : Bool :=
  t.getOrderStatus id = .pending ∨ t.getOrderStatus id = .open ∨
    t.getOrderStatus id = .partiallyFilled

@[simp] theorem getOrderStatus_setStatus_self (id : Nat) (status : OrderStatus) :
    (t.setStatus id status).getOrderStatus id = status := by
  simp [setStatus, getOrderStatus]

end OrderTracker

/-- The state `handle_engine_fill` gives an order. -/
def handleEngineFill (f : FillEvent) : OrderTracker :=
  t.setStatus f.orderId (if f.isPartial then .partiallyFilled else .filled)

def openQty (o : OrderEvent) (fills : List FillEvent) : ℚ := o.quantity - filledQty fills o.orderId

/-- Every fill carries what is open of its order after it. -/
def CarriesRemaining (submitted : List OrderEvent) (fills : List FillEvent) : Prop :=
  ∀ pre f post, fills = pre ++ f :: post → ∀ o ∈ submitted, o.orderId = f.orderId →
    f.remainingQty = openQty o (pre ++ [f])

/-- Every fill carries what is open of its order after it, is partial exactly if something is, and
has the engine mark the order accordingly. -/
def MarksRightly (submitted : List OrderEvent) (fills : List FillEvent) : Prop :=
  ∀ pre f post, fills = pre ++ f :: post → ∀ o ∈ submitted, o.orderId = f.orderId →
    f.remainingQty = openQty o (pre ++ [f]) ∧ (f.isPartial ↔ 0 < openQty o (pre ++ [f])) ∧
      ((pre ++ [f]).foldl handleEngineFill .init).getOrderStatus o.orderId =
        if 0 < openQty o (pre ++ [f]) then .partiallyFilled else .filled

variable {submitted : List OrderEvent} {fills : List FillEvent} {f : FillEvent} {o : OrderEvent}

theorem carriesRemaining_nil (submitted : List OrderEvent) : CarriesRemaining submitted [] := by
  intro pre f post hfills
  exact absurd hfills (by simp)

section

variable (h : CarriesRemaining submitted fills)
include h

theorem CarriesRemaining.marksRightly : MarksRightly submitted fills := by
  intro pre f post hfills o ho hid
  have hrem := h pre f post hfills o ho hid
  have hflag : f.isPartial ↔ 0 < openQty o (pre ++ [f]) := by
    rw [← hrem]
    exact decide_eq_true_iff
  refine ⟨hrem, hflag, ?_⟩
  rw [foldl_append, foldl_cons, foldl_nil, handleEngineFill, hid,
    OrderTracker.getOrderStatus_setStatus_self]
  by_cases hpos : 0 < openQty o (pre ++ [f])
  · rw [if_pos hpos, if_pos (hflag.2 hpos)]
  · rw [if_neg hpos, if_neg fun hp => hpos (hflag.1 hp)]

/-- One more fill. -/
theorem CarriesRemaining.snoc
    (hf : ∀ o ∈ submitted, o.orderId = f.orderId → f.remainingQty = openQty o (fills ++ [f])) :
    CarriesRemaining submitted (fills ++ [f]) := by
  intro pre g post hfills
  rcases eq_nil_or_concat post with rfl | ⟨post, g', rfl⟩
  · obtain ⟨rfl, hg⟩ := append_inj' hfills rfl
    cases hg
    exact hf
  · rw [concat_eq_append, ← cons_append, ← append_assoc] at hfills
    exact h pre g post (append_inj' hfills rfl).1

/-- One more order, under an id that no fill has. -/
theorem CarriesRemaining.submit (ho : ∀ f ∈ fills, f.orderId ≠ o.orderId) :
    CarriesRemaining (submitted ++ [o]) fills := by
  intro pre f post hfills
  refine forall_mem_append.2 ⟨h pre f post hfills, forall_mem_singleton.2 fun hid => ?_⟩
  exact absurd hid.symm (ho f (by rw [hfills]; simp))

/-- An adapter with the orders submitted to it and the fills it has handed out. -/
structure Session (α : Type) where
  adapter : α
  submitted : List OrderEvent
  delivered : List FillEvent

def Session.submittedIds {α : Type} (s : Session α) : List Nat := s.submitted.map OrderEvent.orderId

/-- What remains of an order, in the adapter's records, is what is open of it. -/
def Owed (submitted : List OrderEvent) (fills : List FillEvent) (id : Nat) (remaining : ℚ) : Prop :=
  ∀ o ∈ submitted, o.orderId = id → openQty o fills = remaining

/-- A fill that takes `qty` from what remains and says so. -/
theorem CarriesRemaining.fill {remaining : ℚ} (howed : Owed submitted fills f.orderId remaining)
    (hrem : f.remainingQty = remaining - f.filledQuantity) :
    CarriesRemaining submitted (fills ++ [f]) ∧
      Owed submitted (fills ++ [f]) f.orderId (remaining - f.filledQuantity) := by
  have hopen : ∀ o ∈ submitted, o.orderId = f.orderId →
      openQty o (fills ++ [f]) = remaining - f.filledQuantity := by
    intro o ho hid
    rw [openQty, filledQty_append, filledQty_singleton, if_pos hid.symm, ← sub_sub]
    exact congrArg (· - _) (howed o ho hid)
  exact ⟨h.snoc fun o ho hid => hrem.trans (hopen o ho hid).symm, hopen⟩

end

section Owed

variable {id : Nat} {remaining : ℚ}

/-- The fills of other orders change nothing. -/
theorem Owed.other (h : Owed submitted fills id remaining) {gs : List FillEvent}
    (hne : ∀ g ∈ gs, g.orderId ≠ id) : Owed submitted (fills ++ gs) id remaining := by
  intro o ho hid
  have hzero : filledQty gs o.orderId = 0 := filledQty_eq_zero fun g hg => hid ▸ hne g hg
  rw [openQty, filledQty_append, hzero, add_zero]
  exact h o ho hid

/-- Nor does another order. -/
theorem Owed.submit (h : Owed submitted fills id remaining) (hne : o.orderId ≠ id) :
    Owed (submitted ++ [o]) fills id remaining :=
  forall_mem_append.2 ⟨h, forall_mem_singleton.2 fun hid => absurd hid hne⟩

/-- All of a new order is open. -/
theorem owed_new (hfresh : o.orderId ∉ submitted.map OrderEvent.orderId)
    (hnone : ∀ f ∈ fills, f.orderId ≠ o.orderId) :
    Owed (submitted ++ [o]) fills o.orderId o.quantity := by
  refine forall_mem_append.2 ⟨fun x hx hid => ?_, forall_mem_singleton.2 fun _ => ?_⟩
  · exact absurd (mem_map.2 ⟨x, hx, hid⟩) hfresh
  · rw [openQty, filledQty_eq_zero hnone, sub_zero]

end Owed

end TrueTest
