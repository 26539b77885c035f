import TrueTest.Execution.Tracking
import TrueTest.Orderbook.Kept

/-!
# A book that level-two feeds write to

The adapter enters its limit orders on the symbol's book and follows them by their objects. The
engine's `apply_l2_snapshot` and `apply_l2_update` write to the same book. They know nothing of the
adapter's orders: a snapshot clears the book, and an update removes whatever rests at its side and
price before it puts its own order there. What the feed removed stays in the adapter's table, and a
later bar sweep fills it.

`Leads` is what the table and the book have in common on any run in which the feed does not hit an
order of the table: an order that is followed, has something left and no cancel in flight is on the
book. The book may be crossed here, since a level-two order is not matched when it is put down.
-/

namespace TrueTest.LocalBook

open Arrival Machine List Orderbook World
open AList (lookup_of_lookup_erase)
open Orderbook (Holds Keeps KeepsNew)

variable {cfg : LocalBookConfig} {a b c : LocalBook} {P P' : List Nat} {K M N : Nat → Prop}
  {S : Order → Prop} (o : OrderEvent) (gen : OrderIdGenerator) {book : Orderbook} (p : Nat)
  (ts : Trades)

/-! ## The run -/

/-- What happens on a symbol whose book a level-two feed writes to. The ids of the feed's orders
come from the generator as it stands. `cancel_day_orders`, which takes orders off the book without
the adapter when a run is over, is not among it. -/
inductive SharedOp
  | op (op : Op)
  | l2Snapshot (gen : OrderIdGenerator) (bids asks : List (Int × Nat))
  | l2Update (gen : OrderIdGenerator) (s : Side) (price : Int) (qty : Nat)

/-- The feed writes to the book and leaves the rest of the adapter alone. -/
def sharedStep (cfg : LocalBookConfig) (w : World) : SharedOp → List FillEvent × World
  | .op op => step cfg w op
  | .l2Snapshot gen bids asks =>
    next { w with foreign := w.foreign ++ snapshotIds gen bids asks }
      { w.adapter with book := (w.adapter.book.applyL2Snapshot gen bids asks).1 }
  | .l2Update gen s price qty =>
    next { w with foreign := w.foreign ++ [gen.next.1] }
      { w.adapter with book := (w.adapter.book.applyL2Update gen s price qty).1 }

/-- The order is on the book: in a queue and in the map, as `o`. -/
def OnBook (book : Orderbook) (id : Nat) (o : Order) : Prop :=
  ∃ n ∈ book.queuedNodes, book.orderMap.lookup id = some n ∧ book.orderOf n = o

/-- A followed order with something left and no cancel in flight. -/
def Open (a : LocalBook) (id : Nat) (ri : RestingInfo) : Prop :=
  a.pendingCancels.lookup id = none ∧ 0 < (a.book.orders ri.bookOrder).remainingQuantity

instance (a : LocalBook) (id : Nat) (ri : RestingInfo) : Decidable (a.Open id ri) :=
  inferInstanceAs (Decidable (_ ∧ _))

/-- Every open order of the table is on the book, with the side, price and remaining quantity that
the table leads to. -/
def Present (a : LocalBook) : Prop :=
  ∀ id ri, a.resting.lookup id = some ri → a.Open id ri →
    OnBook a.book id (a.book.orders ri.bookOrder) ∧
      (a.book.orders ri.bookOrder).side = ri.side.book

/-- A sweep fills only what the book holds, for what remains of it. -/
def SweepsHeld (cfg : LocalBookConfig) (w : World) : Prop :=
  ∀ symbol low high ts order, ∀ f ∈ (sharedStep cfg w (.op (.sweep symbol low high ts order))).1,
    ∃ o, OnBook w.adapter.book f.orderId o ∧ f.filledQuantity = o.remainingQuantity / cfg.qtyScale

/-- Ids come from one generator: the feed's are new, as those of all others are. -/
def SharedOp.Distinct (w : World) : SharedOp → Prop
  | .op x => LocalBook.Distinct w x
  | .l2Snapshot gen bids asks => (snapshotIds gen bids asks).Nodup ∧
    ∀ id ∈ snapshotIds gen bids asks, id ∉ w.submittedIds
  | .l2Update gen _ _ _ => gen.next.1 ∉ w.submittedIds ∧ gen.next.1 ∉ w.foreign

/-- The feed does not hit an open order of the table: a snapshot comes when there is none, an update
is for another side or price. -/
def SharedOp.Spares (w : World) : SharedOp → Prop
  | .op _ => True
  | .l2Snapshot _ _ _ => ∀ e ∈ w.adapter.resting.entries, ¬ w.adapter.Open e.1 e.2
  | .l2Update _ s price _ => ∀ e ∈ w.adapter.resting.entries, w.adapter.Open e.1 e.2 →
    ¬ ((w.adapter.book.orders e.2.bookOrder).side = s ∧
      (w.adapter.book.orders e.2.bookOrder).price = price)

instance (w : World) (op : SharedOp) : Decidable (op.Distinct w) :=
  match op with
  | .op x => inferInstanceAs (Decidable (LocalBook.Distinct w x))
  | .l2Snapshot gen bids asks => inferInstanceAs (Decidable
    ((snapshotIds gen bids asks).Nodup ∧
      ∀ id ∈ snapshotIds gen bids asks, id ∉ w.submittedIds))
  | .l2Update gen _ _ _ =>
    inferInstanceAs (Decidable (gen.next.1 ∉ w.submittedIds ∧ gen.next.1 ∉ w.foreign))

instance (w : World) (op : SharedOp) : Decidable (op.Spares w) :=
  match op with
  | .op _ => inferInstanceAs (Decidable True)
  | .l2Snapshot _ _ _ => inferInstanceAs (Decidable (∀ e ∈ w.adapter.resting.entries, _))
  | .l2Update _ _ _ _ => inferInstanceAs (Decidable (∀ e ∈ w.adapter.resting.entries, _))

/-! ## The table against the book -/

/-- What the table leads to. The ids on the book are in `K` and those of the table in `M`. -/
structure Leads (K M : Nat → Prop) (a : LocalBook) (P : List Nat) : Prop where
  holds : Holds a.book P
  known : ∀ r ∈ P, K (a.book.orders r).orderId
  mine : ∀ id ri, a.resting.lookup id = some ri → M id
  bound : ∀ id ri, a.resting.lookup id = some ri → ri.bookOrder < a.book.orderCount
  object : ∀ id ri, a.resting.lookup id = some ri →
    (a.book.orders ri.bookOrder).orderId = id ∧
      (a.book.orders ri.bookOrder).orderType = .goodTillCancel ∧
      (a.book.orders ri.bookOrder).side = ri.side.book
  present : ∀ id ri, a.resting.lookup id = some ri → a.Open id ri → ri.bookOrder ∈ P

theorem Leads.mono {K' M' : Nat → Prop} (h : Leads K M a P) (hK : ∀ id, K id → K' id)
    (hM : ∀ id, M id → M' id) : Leads K' M' a P :=
  ⟨h.holds, fun r hr => hK _ (h.known r hr), fun id ri hri => hM _ (h.mine id ri hri), h.bound,
    h.object, h.present⟩

theorem Leads.known_of_mem (h : Leads K M a P) {id : Nat}
    (hid : id ∈ (P.map a.book.orders).map Order.orderId) : K id := by
  rw [map_map] at hid
  obtain ⟨r, hr, rfl⟩ := mem_map.1 hid
  exact h.known r hr

theorem Leads.onBook (h : Leads K M a P) : a.Present := by
  intro id ri hri hopen
  obtain ⟨hid, -, hside⟩ := h.object id ri hri
  have hr := h.present id ri hri hopen
  obtain ⟨L, F, hrep, rfl⟩ := h.holds
  obtain ⟨n, hn, hnr⟩ := mem_map.1 hr
  have hnode : a.book.orderOf n = a.book.orders ri.bookOrder := by rw [← hnr]; rfl
  refine ⟨⟨n, hrep.perm_queuedNodes.mem_iff.2 hn, ?_, hnode⟩, hside⟩
  rw [← hid, ← hnode]
  exact hrep.lookup_orderId hn

/-- An operation that follows nothing new, on a book that keeps what is still followed. -/
theorem Leads.keeps (h : Leads K M a P) (hk : Keeps S N a.book P b.book P') (hN : ∀ id, N id → K id)
    (hsub : ∀ id ri, b.resting.lookup id = some ri → a.resting.lookup id = some ri)
    (hS : ∀ id ri, b.resting.lookup id = some ri → b.pendingCancels.lookup id = none →
      0 < (a.book.orders ri.bookOrder).remainingQuantity →
      a.pendingCancels.lookup id = none ∧ S (a.book.orders ri.bookOrder)) :
    Leads K M b P' := by
  refine ⟨hk.holds, fun r hr => ?_, fun id ri hri => h.mine id ri (hsub id ri hri),
    fun id ri hri => (h.bound id ri (hsub id ri hri)).trans_le hk.orderCount, fun id ri hri => ?_,
    fun id ri hri hopen => ?_⟩
  · rcases hk.origin r hr with hrP | hnew
    · obtain ⟨q, hq⟩ := hk.object r (h.holds.lt hrP)
      rw [hq]
      exact h.known r hrP
    · exact hN _ hnew
  · obtain ⟨q, hq⟩ := hk.object _ (h.bound id ri (hsub id ri hri))
    rw [hq]
    exact h.object id ri (hsub id ri hri)
  · obtain ⟨hcancel, hrem⟩ := hopen
    obtain ⟨q, hq⟩ := hk.object _ (h.bound id ri (hsub id ri hri))
    have hrem' : 0 < (a.book.orders ri.bookOrder).remainingQuantity := by
      rw [hq, Order.less_remainingQuantity] at hrem
      omega
    obtain ⟨hcancel', hSr⟩ := hS id ri hri hcancel hrem'
    exact hk.stays _ (h.present id ri (hsub id ri hri) ⟨hcancel', hrem'⟩) hSr
      (h.object id ri (hsub id ri hri)).2.1 hrem

/-! ## Entries and sweeps -/

/-- `b` comes from `a` by entries for trades: the book and the cancels in flight are as before, and
nothing new is followed. -/
structure Thins (a b : LocalBook) : Prop where
  book : b.book = a.book
  cancels : b.pendingCancels = a.pendingCancels
  sub : ∀ id ri, b.resting.lookup id = some ri → a.resting.lookup id = some ri

theorem Thins.refl (a : LocalBook) : Thins a a := ⟨rfl, rfl, fun _ _ h => h⟩

theorem Thins.trans (h₁ : Thins a b) (h₂ : Thins b c) : Thins a c :=
  ⟨h₂.book.trans h₁.book, h₂.cancels.trans h₁.cancels, fun id ri h => h₁.sub id ri (h₂.sub id ri h)⟩

theorem Thins.emit (f : FillEvent) : Thins a (a.emit f) := ⟨rfl, rfl, fun _ _ h => h⟩

theorem Thins.untrack (id : Nat) : Thins a (a.untrack id) :=
  ⟨rfl, rfl, fun _ _ h => (lookup_of_lookup_erase h).2⟩

theorem recordRestingFill_thins (ts : Int) (ti : TradeInfo) (a : LocalBook) :
    Thins a (a.recordRestingFill cfg ts ti) := by
  rw [recordRestingFill]
  cases a.resting.lookup ti.orderId with
  | none => exact .refl a
  | some ri =>
    dsimp only
    split
    · exact (Thins.emit _).trans (.untrack _)
    · exact .emit _

theorem recordTrade_thins (a : LocalBook) (t : Trade) : Thins a (recordTrade cfg o p a t) := by
  have htaker : ∀ b ours counter, Thins b (b.recordTakerFill cfg o p ours counter) := by
    intro b ours counter
    rw [recordTakerFill]
    split
    · exact .refl b
    · exact .emit _
  have hmaker : ∀ counter, Thins a (if counter.orderId ≠ o.orderId then
      a.recordRestingFill cfg o.earliestEligibleTs counter else a) := by
    intro counter
    split
    · exact recordRestingFill_thins _ _ _
    · exact .refl a
  have hif : ∀ p [Decidable p] (b c : LocalBook), Thins a b → Thins a c →
      Thins a (if p then b else c) := by
    intro p _ b c hb hc
    split
    · exact hb
    · exact hc
  exact hif _ _ _ ((hmaker _).trans (htaker _ _ _)) (hmaker _)

theorem onBookTrades_thins (time : Int) (a : LocalBook) : Thins a (a.onBookTrades cfg ts time) :=
  foldlRecOn _ _ (.refl a) fun _ hb _ _ =>
    (hb.trans (recordRestingFill_thins _ _ _)).trans (recordRestingFill_thins _ _ _)

/-- The loop over the trades of a submitted order. -/
theorem recordTrades_thins (a : LocalBook) : Thins a (ts.foldl (recordTrade cfg o p) a) :=
  foldlRecOn _ _ (.refl a) fun b hb t _ => hb.trans (recordTrade_thins o p b t)

theorem Leads.thins (h : Leads K M a P) (ht : Thins a b) : Leads K M b P := by
  have hk : Keeps (fun _ => True) (fun _ => False) a.book P b.book P := by
    rw [ht.book]
    exact .refl h.holds
  refine h.keeps hk (fun _ hf => hf.elim) ht.sub fun id ri _ hcancel _ => ⟨?_, trivial⟩
  rw [← ht.cancels]
  exact hcancel

theorem Leads.pull (h : Leads K M a P) (id : Nat) : ∃ P', Leads K M (a.pull id) P' := by
  obtain ⟨P', hk⟩ := Keeps.cancelOrder (N := fun _ => False) h.holds id
  refine ⟨P', h.keeps (b := a.pull id) hk (fun _ hf => hf.elim)
    (fun x ri hri => (lookup_of_lookup_erase hri).2) fun x ri hri hcancel _ => ⟨hcancel, ?_⟩⟩
  obtain ⟨hx, hri'⟩ := lookup_of_lookup_erase hri
  rw [(h.object x ri hri').1]
  exact hx

/-- A cancel that lands takes its order off the book and out of the table. -/
theorem Leads.land (id : Nat) (h : Leads K M a P) :
    ∃ P', Leads K M { a.pull id with pendingCancels := a.pendingCancels.erase id } P' := by
  obtain ⟨P', hk⟩ := Keeps.cancelOrder (N := fun _ => False) h.holds id
  refine ⟨P', h.keeps (b := { a.pull id with pendingCancels := a.pendingCancels.erase id }) hk
    (fun _ hf => hf.elim) (fun x ri hri => (lookup_of_lookup_erase hri).2)
    fun x ri hri hcancel _ => ?_⟩
  obtain ⟨hx, hri'⟩ := lookup_of_lookup_erase hri
  rw [(h.object x ri hri').1]
  rw [AList.lookup_erase_ne hx] at hcancel
  exact ⟨hcancel, hx⟩

/-! ## Submissions and other parties -/

theorem Leads.place {o : OrderEvent} (h : Leads K M a P)
    (hfresh : o.orderId ∉ (P.map a.book.orders).map Order.orderId) (hK : K o.orderId)
    (hM : M o.orderId) : ∃ P', Leads K M (a.place cfg o).2.2 P' := by
  have hadd : ∃ P', KeepsNew (fun _ => True) (· = o.orderId) a.book P (bookOrder cfg a o)
      (a.place cfg o).2.2.book P' := Keeps.addOrder _ _ _ _ h.holds rfl
  obtain ⟨P', hk⟩ := hadd
  obtain ⟨k, hself⟩ := hk.object_self
  -- What the table had, and the new entry.
  have hold : Leads K M { (a.place cfg o).2.2 with resting := a.resting } P' :=
    h.keeps hk.toKeeps (fun id hid => hid ▸ hK)
      (fun _ _ hri => hri) fun _ _ _ hcancel _ => ⟨hcancel, trivial⟩
  have hcases : ∀ id ri, (a.place cfg o).2.2.resting.lookup id = some ri →
      a.resting.lookup id = some ri ∨ id = o.orderId ∧ ri = ⟨a.book.orderCount, o.symbol, o.side⟩ ∧
        bookOrderType o.tif = .goodTillCancel ∧
        0 < ((a.place cfg o).2.2.book.orders a.book.orderCount).remainingQuantity := by
    intro id ri hri
    rw [place_lookup] at hri
    split at hri
    · next hcond =>
      cases hri
      exact .inr ⟨hcond.1.symm, rfl, hcond.2⟩
    · exact .inl hri
  refine ⟨P', hold.holds, hold.known, fun id ri hri => ?_, fun id ri hri => ?_,
    fun id ri hri => ?_, fun id ri hri hopen => ?_⟩
  · rcases hcases id ri hri with hri | ⟨rfl, -⟩
    · exact hold.mine id ri hri
    · exact hM
  · rcases hcases id ri hri with hri | ⟨-, rfl, -⟩
    · exact hold.bound id ri hri
    · exact hk.self_lt
  · rcases hcases id ri hri with hri | ⟨rfl, rfl, htype, -⟩
    · exact hold.object id ri hri
    · rw [hself]
      exact ⟨rfl, htype, rfl⟩
  · rcases hcases id ri hri with hri | ⟨rfl, rfl, htype, hrem⟩
    · exact hold.present id ri hri hopen
    · exact hk.rests hfresh htype hrem

theorem Keeps.cancels (ids : List Nat)
    (h : Holds book P) (hS : ∀ o qty, S o → S (o.less qty)) (hids : ∀ o, S o → o.orderId ∉ ids) :
    ∃ P', Keeps S N book P (ids.foldl Orderbook.cancelOrder book) P' := by
  induction ids generalizing book P with
  | nil => exact ⟨P, .refl h⟩
  | cons id ids ih =>
    obtain ⟨P₁, hk₁⟩ := Keeps.cancelOrder h id
    have hk₁' : Keeps S N book P (book.cancelOrder id) P₁ :=
      hk₁.mono (fun o ho he => hids o ho (he ▸ mem_cons_self)) fun _ hN => hN
    obtain ⟨P₂, hk₂⟩ := ih hk₁.holds fun o ho hm => hids o ho (mem_cons_of_mem _ hm)
    exact ⟨P₂, hk₁'.trans hk₂ h hS⟩

theorem Keeps.addQuotes (quotes : List Quote) (h : Holds book P)
    (hS : ∀ o qty, S o → S (o.less qty))
    (hN : ∀ q ∈ quotes, N q.id) :
    ∃ P', Keeps S N book P (MarketMaker.addQuotes quotes book).2 P' := by
  induction quotes generalizing book P with
  | nil => exact ⟨P, .refl h⟩
  | cons q quotes ih =>
    obtain ⟨hq, hqs⟩ := forall_mem_cons.1 hN
    obtain ⟨P₁, hk₁⟩ := Keeps.addOrder q.orderType q.side q.price q.quantity h hq
    obtain ⟨P₂, hk₂⟩ := ih hk₁.holds hqs
    exact ⟨P₂, hk₁.toKeeps.trans hk₂ h hS⟩

/-! ## What a sweep fills -/

/-- The fill is for what remained of an open order of the table. -/
def FillsOpen (cfg : LocalBookConfig) (a : LocalBook) (f : FillEvent) : Prop :=
  ∃ ri, a.resting.lookup f.orderId = some ri ∧ a.Open f.orderId ri ∧
    f.filledQuantity = (a.book.orders ri.bookOrder).remainingQuantity / cfg.qtyScale

/-- `b` comes from `a` by iterations of the sweep. -/
structure Sweeping (cfg : LocalBookConfig) (a b : LocalBook) : Prop where
  fills : ∃ new, b.pendingFills = a.pendingFills ++ new ∧ ∀ f ∈ new, FillsOpen cfg a f
  holds : ∃ P, Holds b.book P
  orders : b.book.orders = a.book.orders
  cancels : b.pendingCancels = a.pendingCancels
  sub : ∀ id ri, b.resting.lookup id = some ri → a.resting.lookup id = some ri

theorem Sweeping.fill (h : Sweeping cfg a b) {symbol : String} {low high : ℚ} (ts : Int) {id : Nat}
    {ri : RestingInfo} (hri : b.resting.lookup id = some ri)
    (hsweeps : b.sweeps symbol low high id ri)
    (hrem : 0 < (b.book.orders ri.bookOrder).remainingQuantity) :
    Sweeping cfg a ((b.emit (b.sweepFill cfg ts id ri)).pull id) := by
  obtain ⟨⟨new, hnew, hfills⟩, ⟨P, hP⟩, horders, hcancels, hsub⟩ := h
  obtain ⟨P', heff, -⟩ := hP.cancelOrder id
  have hemit : ((b.emit (b.sweepFill cfg ts id ri)).pull id).pendingFills = a.pendingFills ++
      (new ++ [{ b.sweepFill cfg ts id ri with fillId := b.nextFillId }]) := by
    show b.pendingFills ++ [_] = _
    rw [hnew, append_assoc]
  refine ⟨⟨_, hemit, fun f hf => ?_⟩, ⟨P', heff.holds⟩, heff.orders_eq.trans horders,
    hcancels, fun x rx hx => hsub x rx (lookup_of_lookup_erase hx).2⟩
  rcases mem_append.1 hf with hf | hf
  · exact hfills f hf
  · rw [mem_singleton.1 hf]
    have hlive : (b.pendingCancels.lookup id).isNone := by
      rw [sweeps, decide_eq_true_eq] at hsweeps
      exact hsweeps.2.1
    rw [hcancels, Option.isNone_iff_eq_none] at hlive
    rw [horders] at hrem
    refine ⟨ri, hsub id ri hri, ⟨hlive, hrem⟩, ?_⟩
    show (b.book.orders ri.bookOrder).remainingQuantity / cfg.qtyScale = _
    rw [horders]

theorem sweepRestingRange_sweeping (symbol : String) (low high : ℚ) (ts : Int)
    (order : IterationOrder Nat)
    (h : Holds a.book P) : Sweeping cfg a (a.sweepRestingRange cfg symbol low high ts order) := by
  have hrefl : Sweeping cfg a a :=
    ⟨⟨[], by simp, by simp⟩, ⟨P, h⟩, rfl, rfl, fun _ _ hri => hri⟩
  exact sweepRestingRange_keeps cfg ts order symbol low high hrefl
    (fun b id ri hb _ _ => { hb with
      sub := fun x rx hx => hb.sub x rx (lookup_of_lookup_erase hx).2 })
    fun b id ri hb hri hsweeps hrem => hb.fill ts hri hsweeps hrem

/-! ## Runs -/

namespace World

/-- The ids on the book and those of the table, with the table right. -/
structure Led (w : World) : Prop where
  disjoint : ∀ id ∈ w.submittedIds, id ∉ w.foreign
  leads : ∃ P, Leads (fun id => id ∈ w.foreign ∨ id ∈ w.submittedIds) (· ∈ w.submittedIds)
    w.adapter P

theorem led_init : init.Led where
  disjoint := nofun
  leads := by
    refine ⟨[], holds_init, nofun, ?_, ?_, ?_, ?_⟩
    all_goals
      intro id ri hri
      cases hri

variable {w : World}

variable (h : w.Led) (id : Nat)
include h

theorem Led.sweepsHeld : SweepsHeld cfg w := by
  intro symbol low high ts order f hf
  obtain ⟨P, hleads⟩ := h.leads
  obtain ⟨new, hnew, hfills⟩ :=
    (@sweepRestingRange_sweeping cfg w.adapter P symbol low high ts order hleads.holds).fills
  have hf' : f ∈ (w.adapter.sweepRestingRange cfg symbol low high ts order).pendingFills.drop
      w.adapter.pendingFills.length := hf
  rw [hnew, drop_left] at hf'
  obtain ⟨ri, hri, hopen, hqty⟩ := hfills f hf'
  exact ⟨_, (hleads.onBook _ ri hri hopen).1, hqty⟩

/-- A step of the adapter that leaves the ids as they are. -/
theorem Led.withAdapter {a : LocalBook}
    (ha : ∀ K M P, Leads K M w.adapter P → ∃ P', Leads K M a P') :
    { w with adapter := a }.Led := by
  obtain ⟨P, hleads⟩ := h.leads
  exact ⟨h.disjoint, ha _ _ P hleads⟩

theorem Led.submit (draw : ℚ) (hd : Distinct w (.submit o draw)) :
    (step cfg w (.submit o draw)).2.Led := by
  obtain ⟨hnew, hfor⟩ := hd
  obtain ⟨P, hleads⟩ := h.leads
  refine ⟨fun id hid => ?_, ?_⟩
  · rcases mem_orderIds_snoc.1 hid with hid | rfl
    · exact h.disjoint id hid
    · exact hfor
  · have hleads' :
        Leads (fun id => id ∈ w.foreign ∨ id ∈ (w.submitted ++ [o]).map OrderEvent.orderId)
          (· ∈ (w.submitted ++ [o]).map OrderEvent.orderId) w.adapter P :=
      hleads.mono (fun id hid => hid.imp_right fun hm => mem_orderIds_snoc.2 (.inl hm))
        fun id hm => mem_orderIds_snoc.2 (.inl hm)
    show ∃ P', Leads _ _ (w.adapter.submitOrder cfg o draw) P'
    rw [submitOrder]
    split
    · have hfresh : o.orderId ∉ (P.map w.adapter.book.orders).map Order.orderId := fun hm =>
        (hleads.known_of_mem hm).elim hfor hnew
      have hself : o.orderId ∈ (w.submitted ++ [o]).map OrderEvent.orderId :=
        mem_orderIds_snoc.2 (.inr rfl)
      have hplaced : ∃ P', Leads _ _ (w.adapter.place cfg o).2.2 P' :=
        hleads'.place hfresh (.inr hself) hself
      obtain ⟨P', hplace⟩ := hplaced
      exact ⟨P', hplace.thins (recordTrades_thins o _ _ _)⟩
    · exact ⟨P, hleads'⟩

theorem Led.replenish (live : List Nat) (quotes : List Quote) (ts : Int)
    (hd : LocalBook.Distinct w (.replenish live quotes ts)) :
    (step cfg w (.replenish live quotes ts)).2.Led := by
  obtain ⟨hlive, hquotes⟩ := hd
  obtain ⟨P, hleads⟩ := h.leads
  refine ⟨fun id hid hm => ?_, ?_⟩
  · rcases mem_append.1 hm with hm | hm
    · exact h.disjoint id hid hm
    · obtain ⟨q, hq, rfl⟩ := mem_map.1 hm
      exact hquotes q hq hid
  · set K := fun id => id ∈ w.foreign ++ quotes.map Quote.id ∨ id ∈ w.submittedIds
    obtain ⟨P₁, hk₁⟩ := Keeps.cancels live hleads.holds (fun _ _ ho => ho) fun _ ho => ho
    obtain ⟨P₂, hk₂⟩ := Keeps.addQuotes (S := fun o => o.orderId ∉ live) (N := K) quotes hk₁.holds
      (fun _ _ ho => ho) fun q hq => .inl (mem_append_right _ (mem_map_of_mem hq))
    have hleads' : Leads K (· ∈ w.submittedIds) w.adapter P :=
      hleads.mono (fun id hid => hid.imp_left fun hm => mem_append_left _ hm) fun _ hm => hm
    have hbook : Leads K (· ∈ w.submittedIds) { w.adapter with
        book := (MarketMaker.replenish w.adapter.book live quotes).2 } P₂ := by
      refine hleads'.keeps (hk₁.trans hk₂ hleads.holds fun _ _ ho => ho) (fun _ hN => hN)
        (fun _ _ hri => hri) fun id ri hri hcancel _ => ⟨hcancel, ?_⟩
      rw [(hleads.object id ri hri).1]
      exact fun hm => h.disjoint id (hleads.mine id ri hri) (hlive id hm)
    exact ⟨P₂, hbook.thins (onBookTrades_thins _ ts _)⟩

theorem Led.l2Snapshot (bids asks : List (Int × Nat))
    (hd : (SharedOp.l2Snapshot gen bids asks).Distinct w)
    (hs : (SharedOp.l2Snapshot gen bids asks).Spares w) :
    (sharedStep cfg w (.l2Snapshot gen bids asks)).2.Led := by
  obtain ⟨hnodup, hnew⟩ := hd
  obtain ⟨P, hleads⟩ := h.leads
  obtain ⟨P', hk⟩ := Keeps.applyL2Snapshot hleads.holds gen bids asks hnodup
  refine ⟨fun id hid hm => ?_, P', ?_⟩
  · rcases mem_append.1 hm with hm | hm
    · exact h.disjoint id hid hm
    · exact hnew id hm hid
  · refine (hleads.mono (fun id hid => hid.imp_left (mem_append_left _)) fun _ hm => hm).keeps
      hk (fun id hid => .inl (mem_append_right _ hid)) (fun _ _ hri => hri)
      fun id ri hri hcancel hrem => ⟨hcancel, ?_⟩
    exact hs ⟨id, ri⟩ (AList.mem_lookup_iff.1 hri) ⟨hcancel, hrem⟩

theorem Led.l2Update (s : Side) (price : Int) (qty : Nat)
    (hd : (SharedOp.l2Update gen s price qty).Distinct w)
    (hs : (SharedOp.l2Update gen s price qty).Spares w) :
    (sharedStep cfg w (.l2Update gen s price qty)).2.Led := by
  obtain ⟨hsub, hfor⟩ := hd
  obtain ⟨P, hleads⟩ := h.leads
  have hfresh : gen.next.1 ∉ (P.map w.adapter.book.orders).map Order.orderId := fun hm =>
    (hleads.known_of_mem hm).elim hfor hsub
  obtain ⟨P', hk⟩ := Keeps.applyL2Update hleads.holds gen s price qty hfresh
  refine ⟨fun id hid hm => ?_, P', ?_⟩
  · rcases mem_append.1 hm with hm | hm
    · exact h.disjoint id hid hm
    · exact hsub (mem_singleton.1 hm ▸ hid)
  · refine (hleads.mono (fun id hid => hid.imp_left (mem_append_left _)) fun _ hm => hm).keeps
      hk (fun id hid => .inl (mem_append_right _ (mem_singleton.2 hid)))
      (fun _ _ hri => hri) fun id ri hri hcancel hrem => ⟨hcancel, ?_⟩
    exact hs ⟨id, ri⟩ (AList.mem_lookup_iff.1 hri) ⟨hcancel, hrem⟩

theorem Led.cancel (latency : Int) : (step cfg w (.cancel id latency)).2.Led := by
  refine h.withAdapter fun K M P hleads => ?_
  rw [cancelOrder]
  split
  · -- The order stays on the book and in the table; it is no longer open.
    refine ⟨P, hleads.keeps (S := fun _ => True) (N := fun _ => False) (.refl hleads.holds)
      (fun _ hf => hf.elim) (fun _ _ hri => hri) fun x ri _ hcancel _ => ⟨?_, trivial⟩⟩
    have hx : x ≠ id := by
      rintro rfl
      simp at hcancel
    rwa [AList.lookup_insert_ne hx] at hcancel
  · exact hleads.pull id

theorem Led.modify (price qty : ℚ) : (step cfg w (.modify id price qty)).2.Led := by
  have hled : { w with adapter := w.adapter.modifyOrder cfg id price qty }.Led := by
    obtain ⟨P, hleads⟩ := h.leads
    obtain ⟨P', hk⟩ :=
      Keeps.modifyOrder hleads.holds id (priceFromDouble price) (bookQuantity cfg qty)
    refine ⟨h.disjoint, P', hleads.keeps hk
      (fun x hx => hleads.known_of_mem hx) (fun x ri hri => (lookup_of_lookup_erase hri).2)
      fun x ri hri hcancel _ => ⟨hcancel, ?_⟩⟩
    obtain ⟨hx, hri'⟩ := lookup_of_lookup_erase hri
    rw [(hleads.object x ri hri').1]
    exact hx
  show ({ w.noteModify id with adapter := w.adapter.modifyOrder cfg id price qty } : World).Led
  rw [noteModify_eq]
  exact ⟨hled.disjoint, hled.leads⟩

theorem Led.step (op : Op) (hd : Distinct w op) : (step cfg w op).2.Led := by
  cases op with
  | submit o draw => exact h.submit o draw hd
  | cancel id latency => exact h.cancel id latency
  | modify id price qty => exact h.modify id price qty
  | advanceTime ts order =>
    refine h.withAdapter fun K M P hleads => ?_
    exact advanceTime_keeps (I := fun b => ∃ P', Leads K M b P') ts order
      ⟨P, hleads.thins ⟨rfl, rfl, fun _ _ h => h⟩⟩ fun b id ⟨_, hb⟩ => hb.land id
  | sweep symbol low high ts order =>
    obtain ⟨P, hleads⟩ := h.leads
    refine ⟨h.disjoint, ?_⟩
    exact sweepRestingRange_keeps (I := fun b => ∃ P', Leads _ _ b P') cfg ts order symbol low high
      ⟨P, hleads⟩ (fun b id _ ⟨P, hb⟩ _ _ => ⟨P, hb.thins (.untrack id)⟩)
      fun b id _ ⟨_, hb⟩ _ _ _ => (hb.thins (.emit _)).pull id
  | replenish live quotes ts => exact h.replenish live quotes ts hd
  | poll =>
    obtain ⟨P, hleads⟩ := h.leads
    exact ⟨h.disjoint, P, hleads.thins ⟨rfl, rfl, fun _ _ h => h⟩⟩
  | setMidPrice price | setL2Seeded seeded =>
    exact h.withAdapter fun K M P hleads => ⟨P, hleads.thins ⟨rfl, rfl, fun _ _ h => h⟩⟩

end World

/-- **Over every run in which the feed spares the orders of the table, each open order of the table
is on the book as the table has it, and a bar sweep fills only what the book holds.** -/
theorem present_of_spares (cfg : LocalBookConfig) (ops : List SharedOp)
    (hops : Along (sharedStep cfg) (fun w op => op.Distinct w ∧ op.Spares w) World.init ops) :
    ∀ w ∈ states (sharedStep cfg) World.init ops, w.adapter.Present ∧ SweepsHeld cfg w := by
  have hstep : ∀ w op, Led w → op.Distinct w ∧ op.Spares w → (sharedStep cfg w op).2.Led := by
    rintro w op h ⟨hd, hs⟩
    cases op with
    | op x => exact h.step x hd
    | l2Snapshot gen bids asks => exact h.l2Snapshot gen bids asks hd hs
    | l2Update gen s price qty => exact h.l2Update gen s price qty hd hs
  intro w hw
  have hled := Machine.invariant hstep led_init hops w hw
  obtain ⟨P, hleads⟩ := hled.leads
  exact ⟨hleads.onBook, hled.sweepsHeld⟩

/-- Two bids rest. An update comes between them, then the bar sweeps one. -/
def sparedRun : List SharedOp :=
  [.op (.submit (.new 1 1 "BTC" .limit .buy 5 100 .gtc 0) 0),
    .op (.submit (.new 1 2 "BTC" .limit .buy 5 98 .gtc 0) 0),
    .l2Update ⟨10⟩ .buy (priceFromDouble 99) 7,
    .op (.sweep "BTC" 99 101 2 ⟨id, fun _ => .refl _⟩)]

theorem present_of_sparedRun :
    let w := final (sharedStep plainConfig) World.init sparedRun
    w.adapter.resting.keys = [2] ∧ w.adapter.Present ∧ SweepsHeld plainConfig w :=
  ⟨by decide +kernel, present_of_spares plainConfig sparedRun (by decide +kernel) _
    (final_mem_states World.init sparedRun)⟩

/-- A bid rests, and the next message of the feed clears its price. -/
def clearedRun (message : SharedOp) : List SharedOp :=
  [.op (.submit (.new 1 1 "BTC" .limit .buy 5 100 .gtc 0) 0), message]

/-- After a snapshot, or an update at its price, the table has an open order that the book does not
hold, and the next sweep fills it. -/
theorem not_present_of_clearedRun :
    let snapshot := final (sharedStep plainConfig) World.init (clearedRun (.l2Snapshot ⟨10⟩ [] []))
    let update := final (sharedStep plainConfig) World.init
      (clearedRun (.l2Update ⟨10⟩ .buy (priceFromDouble 100) 0))
    (¬ snapshot.adapter.Present ∧ ¬ SweepsHeld plainConfig snapshot) ∧
      ¬ update.adapter.Present ∧ ¬ SweepsHeld plainConfig update := by
  have hnot : ∀ w, (w.adapter.resting.lookup 1).any (fun ri => w.adapter.Open 1 ri) →
      w.adapter.book.orderMap.lookup 1 = none →
      (∃ f ∈ (sharedStep plainConfig w
        (.op (.sweep "BTC" 99 101 2 ⟨id, fun _ => .refl _⟩))).1, f.orderId = 1) →
      ¬ w.adapter.Present ∧ ¬ SweepsHeld plainConfig w := by
    intro w htracked hnone ⟨f, hf, hid⟩
    obtain ⟨ri, hri, hopen⟩ := (Option.any_eq_true _ _).1 htracked
    refine ⟨fun h => ?_, fun h => ?_⟩
    · obtain ⟨⟨n, -, hn, -⟩, -⟩ := h 1 ri hri (of_decide_eq_true hopen)
      rw [hnone] at hn
      cases hn
    · obtain ⟨o, ⟨n, -, hn, -⟩, -⟩ := h _ _ _ _ _ f hf
      rw [hid, hnone] at hn
      cases hn
  exact ⟨hnot _ (by decide +kernel) (by decide +kernel) (by decide +kernel),
    hnot _ (by decide +kernel) (by decide +kernel) (by decide +kernel)⟩

end TrueTest.LocalBook
