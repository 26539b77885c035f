import Mathlib.Tactic.Linarith
import TrueTest.Execution.FillStatus
import TrueTest.Util.KeyedSum
import TrueTest.Util.Machine

/-!
# The queue-aware adapter

`QueueAwareBookAdapter` of `execution/queue_aware_book_adapter.h`: limit orders wait behind the
depth that was resting when they joined, and a trade print at their price first consumes that
queue. The cancel heuristic (`IQueueModel`) is a parameter and the sampled cancel latency an
input. The flags the calls return and the receive times are left out.

The fill is built without a remaining quantity, so it carries zero whatever is left of the order.
It is right about what is open only when the print covers the order (`Covers`).
-/

namespace TrueTest

open Machine List AList

structure QueueAwareConfig where
  /-- Takes the size ahead, the level's size and the cancelled size. -/
  queueModel : Option (ℚ → ℚ → ℚ → ℚ)
  /-- Takes side, quantity, price and whether the fill is a taker's. -/
  feeModel : Option (OrderSide → ℚ → ℚ → Bool → ℚ)
  hasLatencyModel : Bool

structure PaperOrder where
  orderId : Nat
  symbol : String
  side : OrderSide
  price : ℚ
  qtyRemaining : ℚ
  sizeAhead : ℚ
  submitTs : Int
  strategyName : String
  openerOrderId : Nat

structure LevelState where
  aggregateSize : ℚ := 0
  tradesSinceUpdate : ℚ := 0

/-- `level_key`: symbol, side and the price in units of 1e-8. -/
abbrev LevelKey := String × OrderSide × Int

structure QueueAware where
  orders : AList fun _ : Nat => PaperOrder
  levels : AList fun _ : LevelKey => LevelState
  pendingFills : List FillEvent
  pendingCancels : AList fun _ : Nat => Int
  currentTime : Int
  midPrice : ℚ

namespace QueueAware

def init : QueueAware where
  orders := ∅
  levels := ∅
  pendingFills := []
  pendingCancels := ∅
  currentTime := 0
  midPrice := 0

def makeKey (symbol : String) (side : OrderSide) (price : ℚ) : LevelKey :=
  (symbol, side, roundHalfAway (price * 10 ^ 8))

/-- `levels_[key]`. -/
def level (a : QueueAware) (key : LevelKey) : LevelState := (a.levels.lookup key).getD {}

/-- Two prices are the same up to the tolerance of the source. -/
def samePrice (p q : ℚ) : Bool := |p - q| < 1 / 10 ^ 12

def submitOrder (a : QueueAware) (o : OrderEvent) : QueueAware :=
  if o.orderType = .limit then
    { a with orders := a.orders.insert o.orderId {
        orderId := o.orderId
        symbol := o.symbol
        side := o.side
        price := o.price
        qtyRemaining := o.quantity
        sizeAhead := (a.level (makeKey o.symbol o.side o.price)).aggregateSize
        submitTs := o.earliestEligibleTs
        strategyName := o.strategyName
        openerOrderId := o.openerOrderId } }
  else a

def pollFills (a : QueueAware) : List FillEvent × QueueAware :=
  (a.pendingFills, { a with pendingFills := [] })

variable (cfg : QueueAwareConfig) (s : Session QueueAware)

def cancelOrder (a : QueueAware) (id : Nat) (latency : Int) : QueueAware :=
  if (a.orders.lookup id).isNone then a
  else if cfg.hasLatencyModel then
    { a with pendingCancels := a.pendingCancels.insert id (a.currentTime + latency) }
  else { a with orders := a.orders.erase id }

def landCancel (ts : Int) (a : QueueAware) (id : Nat) : QueueAware :=
  match a.pendingCancels.lookup id with
  | some due =>
    if due ≤ ts then
      { a with orders := a.orders.erase id, pendingCancels := a.pendingCancels.erase id }
    else a
  | none => a

def advanceTime (a : QueueAware) (ts : Int) (order : IterationOrder Nat) : QueueAware :=
  (order.run a.pendingCancels.keys).foldl (landCancel ts) { a with currentTime := ts }

/-! ## Depth -/

/-- `update_on_cancels` for one order. -/
def advanceQueue (model : ℚ → ℚ → ℚ → ℚ) (symbol : String) (side : OrderSide)
    (price oldSize cancels : ℚ) (a : QueueAware) (id : Nat) : QueueAware :=
  match a.orders.lookup id with
  | none => a
  | some po =>
    if po.symbol = symbol ∧ po.side = side ∧ samePrice po.price price then
      let po := { po with sizeAhead := model po.sizeAhead oldSize cancels }
      { a with orders := a.orders.insert id po }
    else a

/-- Depth that shrank by more than the prints since the last update was cancelled. -/
def onL2Update (a : QueueAware) (symbol : String) (side : OrderSide)
    (price newSize : ℚ) (order : IterationOrder Nat) : QueueAware :=
  let key := makeKey symbol side price
  let lv := a.level key
  let delta := newSize - lv.aggregateSize
  let cancels := max 0 (-delta - lv.tradesSinceUpdate)
  let a := match cfg.queueModel with
    | some model =>
      if delta < 0 ∧ 0 < cancels then
        (order.run a.orders.keys).foldl
          (advanceQueue model symbol side price lv.aggregateSize cancels) a
      else a
    | none => a
  { a with levels := a.levels.insert key ⟨newSize, 0⟩ }

def onL2Snapshot (a : QueueAware) (symbol : String)
    (bids asks : List (ℚ × ℚ)) (order : IterationOrder Nat) : QueueAware :=
  let a := bids.foldl (fun a l => onL2Update cfg a symbol .buy l.1 l.2 order) a
  asks.foldl (fun a l => onL2Update cfg a symbol .sell l.1 l.2 order) a

/-! ## Trade prints -/

/-- The fill for what a print gives an order; the remaining quantity is the default. -/
def queueFill (price : ℚ) (ts : Int) (po : PaperOrder) (qty : ℚ) : FillEvent where
  timestamp := ts
  symbol := po.symbol
  orderId := po.orderId
  side := po.side
  filledQuantity := qty
  fillPrice := price
  commission := match cfg.feeModel with
    | some fee => fee po.side qty price false
    | none => 0
  strategyName := po.strategyName
  openerOrderId := po.openerOrderId

/-- What the queue ahead of an order takes from a print. -/
def consumedAhead (po : PaperOrder) (remaining : ℚ) : ℚ := min remaining po.sizeAhead

/-- Whether a print reaches an order with something left. -/
def reaches (po : PaperOrder) (remaining : ℚ) : Bool :=
  po.sizeAhead - consumedAhead po remaining ≤ 0 ∧ 0 < remaining - consumedAhead po remaining

/-- One iteration of the loop over the orders, with what is left of the print. -/
def tradeOne (symbol : String) (price : ℚ) (ts : Int) (acc : ℚ × QueueAware)
    (id : Nat) : ℚ × QueueAware :=
  let (remaining, a) := acc
  match a.orders.lookup id with
  | none => acc
  | some po =>
    if po.symbol ≠ symbol ∨ ¬ samePrice po.price price then acc
    else
      let left := remaining - consumedAhead po remaining
      let waiting := { po with sizeAhead := po.sizeAhead - consumedAhead po remaining }
      if reaches po remaining then
        let qty := min left po.qtyRemaining
        (left - qty, { a with
          pendingFills := a.pendingFills ++ [queueFill cfg price ts po qty]
          orders := if po.qtyRemaining - qty ≤ 0 then a.orders.erase id
            else a.orders.insert id { waiting with qtyRemaining := po.qtyRemaining - qty } })
      else (left, { a with orders := a.orders.insert id waiting })

/-- The `mark` lambda: the print counts as traded volume of a level. -/
def mark (symbol : String) (price qty : ℚ) (a : QueueAware) (side : OrderSide) : QueueAware :=
  let key := makeKey symbol side price
  let lv := a.level key
  let lv := { lv with tradesSinceUpdate := lv.tradesSinceUpdate + qty }
  { a with levels := a.levels.insert key lv }

def onTrade (a : QueueAware) (symbol : String) (price qty : ℚ) (ts : Int)
    (order : IterationOrder Nat) : QueueAware :=
  if 0 < qty then
    let a := { a with currentTime := ts }
    let (_, a) := (order.run a.orders.keys).foldl (tradeOne cfg symbol price ts) (qty, a)
    mark symbol price qty (mark symbol price qty a .buy) .sell
  else a

/-! ## Runs -/

inductive Op
  | submit (o : OrderEvent)
  | cancel (id : Nat) (latency : Int)
  | advanceTime (ts : Int) (order : IterationOrder Nat)
  | l2Update (symbol : String) (side : OrderSide) (price newSize : ℚ) (order : IterationOrder Nat)
  | l2Snapshot (symbol : String) (bids asks : List (ℚ × ℚ)) (order : IterationOrder Nat)
  | trade (symbol : String) (price qty : ℚ) (ts : Int) (order : IterationOrder Nat)
  | poll
  | setMidPrice (price : ℚ)

def step : Op → Unit × Session QueueAware
  | .submit o => ((), { s with
      adapter := s.adapter.submitOrder o
      submitted := s.submitted ++ [o] })
  | .cancel id latency => ((), { s with adapter := s.adapter.cancelOrder cfg id latency })
  | .advanceTime ts order => ((), { s with adapter := s.adapter.advanceTime ts order })
  | .l2Update symbol side price newSize order =>
    ((), { s with adapter := s.adapter.onL2Update cfg symbol side price newSize order })
  | .l2Snapshot symbol bids asks order =>
    ((), { s with adapter := s.adapter.onL2Snapshot cfg symbol bids asks order })
  | .trade symbol price qty ts order =>
    ((), { s with adapter := s.adapter.onTrade cfg symbol price qty ts order })
  | .poll =>
    let (fills, a) := s.adapter.pollFills
    ((), { s with adapter := a, delivered := s.delivered ++ fills })
  | .setMidPrice price => ((), { s with adapter := { s.adapter with midPrice := price } })

def reported : List FillEvent := s.delivered ++ s.adapter.pendingFills

/-- Going through the orders as the print does, each order it reaches is covered by what is left
of it. -/
def Covers (symbol : String) (price : ℚ) (orders : AList fun _ : Nat => PaperOrder) :
    List Nat → ℚ → Prop
  | [], _ => True
  | id :: ids, remaining =>
    match orders.lookup id with
    | none => Covers symbol price orders ids remaining
    | some po =>
      if po.symbol ≠ symbol ∨ ¬ samePrice po.price price then
        Covers symbol price orders ids remaining
      else
        let left := remaining - consumedAhead po remaining
        if reaches po remaining then
          po.qtyRemaining ≤ left ∧ Covers symbol price orders ids (left - po.qtyRemaining)
        else Covers symbol price orders ids left

instance decidableCovers (symbol : String) (price : ℚ)
    (orders : AList fun _ : Nat => PaperOrder) :
    ∀ (ids : List Nat) (remaining : ℚ), Decidable (Covers symbol price orders ids remaining)
  | [], _ => isTrue trivial
  | id :: ids, remaining => by
    have := decidableCovers symbol price orders ids
    unfold Covers
    cases orders.lookup id <;> dsimp only <;> infer_instance

/-- Ids are submitted once. -/
def Distinct : Op → Prop
  | .submit o => o.orderId ∉ s.submittedIds
  | _ => True

/-- Ids are submitted once, and no print leaves an order partly filled. -/
def Admissible : Op → Prop
  | .submit o => o.orderId ∉ s.submittedIds
  | .trade symbol price qty _ order =>
    Covers symbol price s.adapter.orders (order.run s.adapter.orders.keys) qty
  | _ => True

instance (op : Op) : Decidable (Distinct s op) := by
  cases op <;> unfold Distinct <;> infer_instance

instance (op : Op) : Decidable (Admissible s op) := by
  cases op <;> unfold Admissible <;> infer_instance

/-! ## Remaining quantities -/

variable {cfg : QueueAwareConfig} {submitted : List OrderEvent} {fs : List FillEvent}
  {a b : QueueAware}

/-- The waiting orders and the fills are of submitted orders, and both are right about what is
open. -/
structure Tallied (submitted : List OrderEvent) (fills : List FillEvent)
    (orders : AList fun _ : Nat => PaperOrder) : Prop where
  carries : CarriesRemaining submitted fills
  fills_known : ∀ f ∈ fills, f.orderId ∈ submitted.map OrderEvent.orderId
  orders : ∀ id po, orders.lookup id = some po → po.orderId = id ∧
    id ∈ submitted.map OrderEvent.orderId ∧ Owed submitted fills id po.qtyRemaining

/-- No fill is added, and the orders that stay keep their ids and quantities. -/
structure Keeps (a b : QueueAware) : Prop where
  fills : b.pendingFills = a.pendingFills
  orders : ∀ id po, b.orders.lookup id = some po → ∃ po', a.orders.lookup id = some po' ∧
    po.orderId = po'.orderId ∧ po.qtyRemaining = po'.qtyRemaining

theorem Tallied.mono {fills : List FillEvent} (h : Tallied submitted fills a.orders)
    (hk : Keeps a b) : Tallied submitted fills b.orders := by
  refine ⟨h.carries, h.fills_known, fun id po hpo => ?_⟩
  obtain ⟨po', hpo', hid, hqty⟩ := hk.orders id po hpo
  rw [hid, hqty]
  exact h.orders id po' hpo'

theorem Keeps.refl (a : QueueAware) : Keeps a a := ⟨rfl, fun _ po hpo => ⟨po, hpo, rfl, rfl⟩⟩

theorem Keeps.trans {c : QueueAware} (h₁ : Keeps a b) (h₂ : Keeps b c) : Keeps a c := by
  refine ⟨h₂.fills.trans h₁.fills, fun id po hpo => ?_⟩
  obtain ⟨po', hpo', hid, hqty⟩ := h₂.orders id po hpo
  obtain ⟨po'', hpo'', hid', hqty'⟩ := h₁.orders id po' hpo'
  exact ⟨po'', hpo'', hid.trans hid', hqty.trans hqty'⟩

/-- A loop whose iterations keep the orders. -/
theorem keeps_foldl {α : Type} {f : QueueAware → α → QueueAware} (hf : ∀ b x, Keeps b (f b x))
    (xs : List α) (a : QueueAware) : Keeps a (xs.foldl f a) :=
  foldlRecOn (motive := Keeps a) xs f (.refl a) fun b hb x _ => hb.trans (hf b x)

section

variable {b : QueueAware} {id : Nat} (hfills : b.pendingFills = a.pendingFills)
include hfills

theorem keeps_erase (horders : b.orders = a.orders.erase id) : Keeps a b := by
  refine ⟨hfills, fun x po hpo => ⟨po, ?_, rfl, rfl⟩⟩
  rw [horders] at hpo
  exact (lookup_of_lookup_erase hpo).2

/-- Replacing an order by one that differs in its queue position. -/
theorem keeps_insert {po po' : PaperOrder} (hpo : a.orders.lookup id = some po)
    (horders : b.orders = a.orders.insert id po') (hid : po'.orderId = po.orderId)
    (hqty : po'.qtyRemaining = po.qtyRemaining) : Keeps a b := by
  refine ⟨hfills, ?_⟩
  rw [horders]
  exact forall_lookup_insert ⟨po, hpo, hid, hqty⟩ fun _ y hy => ⟨y, hy, rfl, rfl⟩

end

theorem keeps_landCancel (ts : Int) (a : QueueAware) (id : Nat) : Keeps a (landCancel ts a id) := by
  unfold landCancel
  cases a.pendingCancels.lookup id with
  | none => exact .refl a
  | some due =>
    dsimp only
    split
    · exact keeps_erase rfl rfl
    · exact .refl a

theorem keeps_advanceQueue (model : ℚ → ℚ → ℚ → ℚ) (symbol : String) (side : OrderSide)
    (price oldSize cancels : ℚ) (a : QueueAware) (id : Nat) :
    Keeps a (advanceQueue model symbol side price oldSize cancels a id) := by
  unfold advanceQueue
  cases hpo : a.orders.lookup id with
  | none => exact .refl a
  | some po =>
    dsimp only
    split
    · exact keeps_insert rfl hpo rfl rfl rfl
    · exact .refl a

theorem keeps_onL2Update (a : QueueAware) (symbol : String) (side : OrderSide) (price newSize : ℚ)
    (order : IterationOrder Nat) : Keeps a (onL2Update cfg a symbol side price newSize order) := by
  have hlevels : ∀ b levels, Keeps a b → Keeps a { b with levels := levels } :=
    fun _ _ h => ⟨h.fills, h.orders⟩
  refine hlevels _ _ ?_
  cases cfg.queueModel with
  | none => exact .refl a
  | some model =>
    dsimp only
    split
    · exact keeps_foldl (keeps_advanceQueue model symbol side price _ _) _ a
    · exact .refl a

section Trade

variable {symbol : String} {price remaining : ℚ} {ts : Int} {ids : List Nat}

/-- One iteration of a print that covers the orders it reaches. -/
theorem tradeOne_tallied {id : Nat} (h : Tallied submitted (fs ++ a.pendingFills) a.orders)
    (hcov : Covers symbol price a.orders (id :: ids) remaining) :
    let r := tradeOne cfg symbol price ts (remaining, a) id
    Tallied submitted (fs ++ r.2.pendingFills) r.2.orders ∧
      Covers symbol price a.orders ids r.1 ∧
      ∀ x, x ≠ id → r.2.orders.lookup x = a.orders.lookup x := by
  unfold tradeOne
  rw [Covers] at hcov
  dsimp only
  cases hpo : a.orders.lookup id with
  | none =>
    rw [hpo] at hcov
    exact ⟨h, hcov, fun _ _ => rfl⟩
  | some po =>
    rw [hpo] at hcov
    dsimp only at hcov ⊢
    by_cases hskip : po.symbol ≠ symbol ∨ ¬ samePrice po.price price
    · rw [if_pos hskip] at hcov ⊢
      exact ⟨h, hcov, fun _ _ => rfl⟩
    · rw [if_neg hskip] at hcov ⊢
      by_cases hreach : reaches po remaining
      · rw [if_pos hreach] at hcov ⊢
        obtain ⟨hle, hcov⟩ := hcov
        rw [min_eq_right hle, sub_self, if_pos le_rfl]
        obtain ⟨hid, hknown, howed⟩ := h.orders id po hpo
        have hfid : (queueFill cfg price ts po po.qtyRemaining).orderId = id := hid
        -- The fill says that nothing remains, and that is so.
        have hrem : (queueFill cfg price ts po po.qtyRemaining).remainingQty =
            po.qtyRemaining - (queueFill cfg price ts po po.qtyRemaining).filledQuantity :=
          (sub_self _).symm
        obtain ⟨hcarries, -⟩ := h.carries.fill (hfid ▸ howed) hrem
        refine ⟨⟨?_, fun f hf => ?_, fun x y hy => ?_⟩, hcov, fun x hx => lookup_erase_ne hx⟩
        · rw [← append_assoc]
          exact hcarries
        · rw [← append_assoc] at hf
          rcases mem_append.1 hf with hf | hf
          · exact h.fills_known f hf
          · rw [mem_singleton.1 hf, hfid]
            exact hknown
        · have herase : Keeps a { a with orders := a.orders.erase id } := keeps_erase rfl rfl
          obtain ⟨hyid, hyknown, hyowed⟩ := (h.mono herase).orders x y hy
          refine ⟨hyid, hyknown, ?_⟩
          rw [← append_assoc]
          refine hyowed.other fun f hf he => (lookup_of_lookup_erase hy).1 ?_
          rw [← he, mem_singleton.1 hf, hfid]
      · rw [if_neg hreach] at hcov ⊢
        exact ⟨h.mono (keeps_insert rfl hpo rfl rfl rfl), hcov, fun x hx => lookup_insert_ne hx⟩

theorem Covers.congr {os os' : AList fun _ : Nat => PaperOrder}
    (h : Covers symbol price os ids remaining)
    (heq : ∀ x ∈ ids, os'.lookup x = os.lookup x) : Covers symbol price os' ids remaining := by
  induction ids generalizing remaining with
  | nil => trivial
  | cons id ids ih =>
    obtain ⟨hid, hids⟩ := forall_mem_cons.1 heq
    rw [Covers] at h ⊢
    rw [hid]
    cases hpo : os.lookup id with
    | none =>
      rw [hpo] at h
      exact ih h hids
    | some po =>
      rw [hpo] at h
      dsimp only at h ⊢
      split at h
      · next hskip =>
        rw [if_pos hskip]
        exact ih h hids
      · next hskip =>
        rw [if_neg hskip]
        split at h
        · next hreach =>
          rw [if_pos hreach]
          exact ⟨h.1, ih h.2 hids⟩
        · next hreach =>
          rw [if_neg hreach]
          exact ih h hids

theorem foldl_tradeOne_tallied (hnd : ids.Nodup)
    (h : Tallied submitted (fs ++ a.pendingFills) a.orders)
    (hcov : Covers symbol price a.orders ids remaining) :
    let r := ids.foldl (tradeOne cfg symbol price ts) (remaining, a)
    Tallied submitted (fs ++ r.2.pendingFills) r.2.orders := by
  induction ids generalizing remaining a with
  | nil => exact h
  | cons id ids ih =>
    obtain ⟨hnot, hnd⟩ := nodup_cons.1 hnd
    obtain ⟨h', hcov', hsame⟩ := @tradeOne_tallied cfg _ _ _ _ _ _ ts _ _ h hcov
    refine ih hnd h' (hcov'.congr fun x hx => hsame x fun he => hnot (he ▸ hx))

end Trade

section Steps

variable {s : Session QueueAware}

/-- The session's orders and fills are tallied. -/
def Consistent (s : Session QueueAware) : Prop :=
  Tallied s.submitted (reported s) s.adapter.orders

theorem Consistent.keep {a : QueueAware} (h : Consistent s) (hk : Keeps s.adapter a) :
    Consistent { s with adapter := a } := by
  have hrep : reported { s with adapter := a } = reported s := by rw [reported, hk.fills]; rfl
  rw [Consistent, hrep]
  exact Tallied.mono h hk

/-- Every admissible step keeps the tally. -/
theorem step_consistent (op : Op) (h : Consistent s) (hop : Admissible s op) :
    Consistent (step cfg s op).2 := by
  cases op with
  | submit o =>
    have hfresh : o.orderId ∉ s.submittedIds := hop
    have hnone : ∀ f ∈ reported s, f.orderId ≠ o.orderId := fun f hf he =>
      hfresh (he ▸ h.fills_known f hf)
    have hold : Tallied (s.submitted ++ [o]) (reported s) s.adapter.orders := by
      refine ⟨h.carries.submit hnone, fun f hf => mem_orderIds_snoc.2 (.inl (h.fills_known f hf)),
        fun id po hpo => ?_⟩
      obtain ⟨hid, hknown, howed⟩ := h.orders id po hpo
      exact ⟨hid, mem_orderIds_snoc.2 (.inl hknown), howed.submit fun he => hfresh (he ▸ hknown)⟩
    show Tallied (s.submitted ++ [o]) (s.delivered ++ (s.adapter.submitOrder o).pendingFills)
      (s.adapter.submitOrder o).orders
    unfold submitOrder
    split
    · exact ⟨hold.carries, hold.fills_known,
        forall_lookup_insert ⟨rfl, by simp, owed_new hfresh hnone⟩ hold.orders⟩
    · exact hold
  | cancel id latency =>
    refine h.keep ?_
    unfold cancelOrder
    split
    · exact .refl _
    · split
      · exact ⟨rfl, (Keeps.refl _).orders⟩
      · exact keeps_erase rfl rfl
  | advanceTime ts order =>
    have hclock : Keeps s.adapter { s.adapter with currentTime := ts } :=
      ⟨rfl, (Keeps.refl _).orders⟩
    exact h.keep (hclock.trans (keeps_foldl (keeps_landCancel ts) _ _))
  | l2Update symbol side price newSize order => exact h.keep (keeps_onL2Update ..)
  | l2Snapshot symbol bids asks order =>
    have hside (side : OrderSide) (ls : List (ℚ × ℚ)) (b : QueueAware) :
        Keeps b (ls.foldl (fun b l => onL2Update cfg b symbol side l.1 l.2 order) b) :=
      keeps_foldl (fun b l => keeps_onL2Update b ..) ls b
    exact h.keep ((hside .buy bids _).trans (hside .sell asks _))
  | trade symbol price qty ts order =>
    show Consistent { s with adapter := s.adapter.onTrade cfg symbol price qty ts order }
    unfold onTrade
    split
    · have hnd : (order.run s.adapter.orders.keys).Nodup :=
        (order.perm _).nodup_iff.2 s.adapter.orders.keys_nodup
      exact foldl_tradeOne_tallied hnd h hop
    · exact h
  | poll =>
    have hrep : reported (step cfg s .poll).2 = reported s := append_nil _
    rw [Consistent, hrep]
    exact h
  | setMidPrice price => exact h

/-- In every run whose prints cover the orders they reach, every fill carries what is open of its
order: nothing. -/
theorem carriesRemaining_of_run (cfg : QueueAwareConfig) (ops : List Op)
    (hops : Along (step cfg) Admissible ⟨init, [], []⟩ ops) :
    ∀ s ∈ states (step cfg) ⟨init, [], []⟩ ops, CarriesRemaining s.submitted (reported s) := by
  have hinit : Consistent ⟨init, [], []⟩ := {
    carries := carriesRemaining_nil _
    fills_known := nofun
    orders := fun _ _ hpo => absurd hpo (by simp [init]) }
  intro s hs
  exact (invariant (fun _ op => step_consistent op) hinit hops s hs).carries

end Steps

end QueueAware

end TrueTest
