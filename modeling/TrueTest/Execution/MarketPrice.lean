import TrueTest.Execution.Tracking

/-!
# The price of a market order's fills

A market order is entered with a limit that crosses (`bookPrice`), and its fills carry the price of
the resting counterparty. The limit itself becomes a fill price when the order rests: then it is in
the table, and the maker path and the sweep report it at its own price. A good-till-cancel market
order is turned into an immediate-or-cancel one by the event's constructor, but a day order is not,
and the adapter enters it as good till cancel. Its remainder rests.
-/

namespace TrueTest.LocalBook

open Arrival Reference World List Orderbook Machine
open Orderbook (Holds Effect)

variable {cfg : LocalBookConfig} {a b c : LocalBook} {P : List Nat} {K : FillEvent → Prop}
  {o : OrderEvent} {f : FillEvent} (ts : Trades)

/-! ## What a call emits -/

/-- `b` comes from `a` by a call that emits fills with `K` and tracks nothing new. -/
structure Emits (K : FillEvent → Prop) (a b : LocalBook) : Prop where
  fills : ∃ new, b.pendingFills = a.pendingFills ++ new ∧ ∀ f ∈ new, K f
  untracked : ∀ id, a.resting.lookup id = none → b.resting.lookup id = none

theorem Emits.of_eq (hfills : b.pendingFills = a.pendingFills)
    (huntracked : ∀ id, a.resting.lookup id = none → b.resting.lookup id = none) : Emits K a b :=
  ⟨⟨[], by simp [hfills], by simp⟩, huntracked⟩

theorem Emits.refl (K : FillEvent → Prop) (a : LocalBook) : Emits K a a :=
  .of_eq rfl fun _ h => h

theorem Emits.trans (h₁ : Emits K a b) (h₂ : Emits K b c) : Emits K a c := by
  obtain ⟨new₁, hnew₁, hK₁⟩ := h₁.fills
  obtain ⟨new₂, hnew₂, hK₂⟩ := h₂.fills
  refine ⟨⟨new₁ ++ new₂, ?_, ?_⟩, fun id hid => h₂.untracked id (h₁.untracked id hid)⟩
  · rw [hnew₂, hnew₁, append_assoc]
  · intro f hf
    rcases mem_append.1 hf with hf | hf
    · exact hK₁ f hf
    · exact hK₂ f hf

theorem Emits.emit (hf : K { f with fillId := a.nextFillId }) : Emits K a (a.emit f) :=
  ⟨⟨_, rfl, by simpa using hf⟩, fun _ h => h⟩

theorem lookup_erase_eq_none {id x : Nat} {m : AList fun _ : Nat => RestingInfo}
    (h : m.lookup x = none) : (m.erase id).lookup x = none := by
  by_cases hx : x = id
  · subst hx
    simp
  · simp [hx, h]

theorem Emits.untrack (id : Nat) : Emits K a (a.untrack id) :=
  .of_eq rfl fun _ => lookup_erase_eq_none

theorem Emits.pull (id : Nat) : Emits K a (a.pull id) :=
  .of_eq rfl fun _ => lookup_erase_eq_none

/-- The fill of an order that was tracked at first. -/
def Tracked (a : LocalBook) (f : FillEvent) : Prop := a.resting.lookup f.orderId ≠ none

theorem recordRestingFill_emits (ts : Int) (ti : TradeInfo)
    (hun : ∀ id, a.resting.lookup id = none → b.resting.lookup id = none)
    (hK : ∀ f, Tracked a f → K f) : Emits K b (b.recordRestingFill cfg ts ti) := by
  unfold recordRestingFill
  cases hl : b.resting.lookup ti.orderId with
  | none => exact .refl K b
  | some ri =>
    have hemit : Emits K b (b.emit (b.makerFill cfg ts ri ti)) := by
      apply Emits.emit
      apply hK
      intro hnone
      have := hun ti.orderId hnone
      simp [hl] at this
    dsimp only
    split
    · exact hemit.trans (.untrack _)
    · exact hemit

theorem onBookTrades_emits (time : Int) : Emits (Tracked a) a (a.onBookTrades cfg ts time) := by
  refine foldlRecOn _ _ (.refl _ a) fun b hb t _ => ?_
  have hbid : Emits (Tracked a) a (b.recordRestingFill cfg time t.bidTrade) :=
    hb.trans (recordRestingFill_emits time t.bidTrade hb.untracked fun _ h => h)
  exact hbid.trans (recordRestingFill_emits time t.askTrade hbid.untracked fun _ h => h)

theorem sweepRestingRange_emits (symbol : String) (low high : ℚ) (ts : Int)
    (order : IterationOrder Nat) :
    Emits (Tracked a) a (a.sweepRestingRange cfg symbol low high ts order) := by
  refine sweepRestingRange_keeps cfg ts order symbol low high (.refl _ a)
    (fun b id ri hb _ _ => hb.trans (.untrack id)) fun b id ri hb hl _ _ => ?_
  refine (hb.trans (.emit fun hnone => ?_)).trans (.pull id)
  have := hb.untracked id hnone
  simp [hl] at this

theorem advanceTime_emits (ts : Int) (order : IterationOrder Nat) :
    Emits K a (a.advanceTime ts order) :=
  advanceTime_keeps ts order (.of_eq rfl fun _ h => h) fun _ _ hb =>
    hb.trans (.of_eq rfl fun _ => lookup_erase_eq_none)

theorem cancelOrder_emits (id : Nat) (latency : Int) :
    Emits K a (a.cancelOrder cfg id latency) := by
  unfold cancelOrder
  split
  · exact .of_eq rfl fun _ h => h
  · exact .pull id

/-- The aggressor's fill for a trade of the list. -/
def TakerOf (o : OrderEvent) (ts : Trades) (f : FillEvent) : Prop :=
  f.orderId = o.orderId ∧ ∃ t ∈ ts,
    (t.bidTrade.orderId = o.orderId ∧ priceToDouble t.askTrade.price = f.fillPrice) ∨
    (t.askTrade.orderId = o.orderId ∧ priceToDouble t.bidTrade.price = f.fillPrice)

theorem recordTrade_emits {ts : Trades} {t : Trade} (p : Nat) (ht : t ∈ ts)
    (hun : ∀ id, a.resting.lookup id = none → b.resting.lookup id = none) :
    Emits (fun f => Tracked a f ∨ TakerOf o ts f) b (b.recordTrade cfg o p t) := by
  set ours := if t.bidTrade.orderId = o.orderId then t.bidTrade else t.askTrade with hours
  set counter := if t.bidTrade.orderId = o.orderId then t.askTrade else t.bidTrade with hcounter
  set b₁ := if counter.orderId ≠ o.orderId then
    b.recordRestingFill cfg o.earliestEligibleTs counter else b with hb₁
  show Emits _ b (if ours.orderId = o.orderId then b₁.recordTakerFill cfg o p ours counter else b₁)
  have hmaker : Emits (fun f => Tracked a f ∨ TakerOf o ts f) b b₁ := by
    rw [hb₁]
    split
    · exact recordRestingFill_emits _ _ hun fun _ h => .inl h
    · exact .refl _ b
  apply hmaker.trans
  split
  · next hid =>
    unfold recordTakerFill
    split
    · exact .refl _ _
    · refine .emit (.inr ⟨rfl, t, ht, ?_⟩)
      by_cases hbid : t.bidTrade.orderId = o.orderId
      · left
        simp [hbid, takerFill, hcounter]
      · right
        rw [hours, if_neg hbid] at hid
        simp [hid, hbid, takerFill, hcounter]
  · exact .refl _ _

theorem submitOrder_emits {draw : ℚ} (hacc : a.accepts cfg o draw) :
    Emits (fun f => Tracked (a.place cfg o).2.2 f ∨ TakerOf o (a.place cfg o).2.1 f)
      (a.place cfg o).2.2 (a.submitOrder cfg o draw) := by
  rw [submitOrder, if_pos hacc]
  exact foldlRecOn _ _ (.refl _ _) fun b hb t ht => hb.trans (recordTrade_emits _ ht hb.untracked)

theorem recordTrade_book (o : OrderEvent) (p : Nat) (t : Trade) :
    (a.recordTrade cfg o p t).book = a.book := by
  have hmaker : ∀ ti, (a.recordRestingFill cfg o.earliestEligibleTs ti).book = a.book := fun ti =>
    (Report.maker o.earliestEligibleTs ti).record_book a
  have htaker : ∀ (b : LocalBook) ours counter, (b.recordTakerFill cfg o p ours counter).book =
    b.book := fun b ours counter => (Report.taker o p ours counter).record_book b
  unfold recordTrade
  dsimp only
  split_ifs <;> simp [hmaker, htaker]

theorem foldl_recordTrade_book {p : Nat} (a : LocalBook) :
    (ts.foldl (recordTrade cfg o p) a).book = a.book := by
  induction ts generalizing a with
  | nil => rfl
  | cons t ts ih => exact (ih _).trans (recordTrade_book o p t)

/-! ## The ids on the book -/

section Ids

variable {book : Orderbook} {K K' : Nat → Prop} (id : Nat)

/-- Every order on the book has an id with `K`. -/
def ListsOnly (K : Nat → Prop) (book : Orderbook) : Prop :=
  ∃ P, Holds book P ∧ ∀ r ∈ P, K (book.orders r).orderId

theorem effect_orderId {book' : Orderbook} {P' : List Nat} {ts : Trades}
    (h : Effect book P ts book' P')
    (r : Nat) : (book'.orders r).orderId = (book.orders r).orderId := by
  by_cases hr : r ∈ P
  · rw [h.object r hr]
    rfl
  · rw [h.frame r hr]

section

variable (h : ListsOnly K book)
include h

theorem ListsOnly.mono (hK : ∀ id, K id → K' id) : ListsOnly K' book := by
  obtain ⟨P, hP, hids⟩ := h
  exact ⟨P, hP, fun r hr => hK _ (hids r hr)⟩

theorem ListsOnly.cancelOrder : ListsOnly K (book.cancelOrder id) := by
  obtain ⟨P, hP, hids⟩ := h
  obtain ⟨P', heff, -⟩ := hP.cancelOrder id
  refine ⟨P', heff.holds, fun r hr => ?_⟩
  rw [effect_orderId heff]
  exact hids r (heff.sublist.subset hr)

theorem ListsOnly.addOrder (type : ObOrderType) {id : Nat} (s : Side) (price : Int) (qty : Nat)
    (hid : K id) :
    ListsOnly K ((book.createOrder type id s price qty).2.addOrder book.orderCount).2 := by
  obtain ⟨P, hP, hids⟩ := h
  obtain ⟨P', heff, -⟩ := (hP.createOrder type id s price qty).addOrder (Nat.lt_succ_self _)
    hP.orderCount_not_mem
  refine ⟨P', heff.holds, fun r hr => ?_⟩
  rw [effect_orderId heff]
  rcases mem_append.1 (heff.sublist.subset hr) with hr | hr
  · rw [createOrder_orders_of_lt type id s price qty (hP.lt hr)]
    exact hids r hr
  · rw [mem_singleton.1 hr, createOrder_orders_self]
    exact hid

theorem ListsOnly.modifyOrder (price : Int) (qty : Nat) :
    ListsOnly K (book.modifyOrder id price qty).2 := by
  cases hn : book.orderMap.lookup id with
  | none =>
    rw [Orderbook.modifyOrder, hn]
    exact h
  | some n =>
    obtain ⟨P, hP, hids⟩ := h
    obtain ⟨P₁, heff, -, hnew⟩ := hP.modifyOrder_of_some hn price qty
    refine ⟨_, hnew.holds, fun r hr => ?_⟩
    rcases mem_append.1 hr with hr | hr
    · rw [hnew.orders_of_lt r (heff.holds.lt hr), effect_orderId heff]
      exact hids r (heff.sublist.subset hr)
    · rw [mem_singleton.1 hr, hnew.orders_self]
      obtain ⟨hmem, hid⟩ := lookup_mem (hP.lookup_eq_some hn)
      obtain ⟨x, hx, hxn⟩ := mem_map.1 hmem
      have hKx := hids x hx
      rwa [hxn, hid] at hKx

theorem ListsOnly.replenish (live : List Nat) {quotes : List Quote}
    (hquotes : ∀ q ∈ quotes, K q.id) :
    ListsOnly K (MarketMaker.replenish book live quotes).2 := by
  have hpulled : ListsOnly K (live.foldl Orderbook.cancelOrder book) :=
    foldlRecOn (motive := ListsOnly K) _ _ h fun _ hbook id _ => hbook.cancelOrder id
  unfold MarketMaker.replenish
  generalize live.foldl Orderbook.cancelOrder book = book₁ at hpulled
  induction quotes generalizing book₁ with
  | nil => exact hpulled
  | cons q quotes ih =>
    obtain ⟨hq, hqs⟩ := forall_mem_cons.1 hquotes
    exact ih hqs _ (hpulled.addOrder q.orderType q.side q.price q.quantity hq)

end

end Ids

/-! ## Market orders stay out of the table -/

/-- Every order on the book and in the table has a known id, and no market order is in the
table. -/
structure World.MarketFree (w : World) : Prop where
  lists : ListsOnly (fun id => id ∈ w.submittedIds ∨ id ∈ w.foreign) w.adapter.book
  tracked : ∀ id, w.adapter.resting.lookup id ≠ none → id ∈ w.submittedIds
  market : ∀ o ∈ w.submitted, o.orderType = .market → w.adapter.resting.lookup o.orderId = none

/-- The price of the fill is the limit of an order resting against side `s`. -/
def AtResting (book : Orderbook) (s : Side) (f : FillEvent) : Prop :=
  ∃ n ∈ book.queuedNodes, (book.orderOf n).side = s.contra ∧
    priceToDouble (book.orderOf n).price = f.fillPrice

/-- The fills of a step for market orders are at the prices of orders that rested against them. -/
def PricedByBook (cfg : LocalBookConfig) (w : World) (op : Op) : Prop :=
  ∀ f ∈ (step cfg w op).1, ∀ o ∈ (step cfg w op).2.submitted, o.orderType = .market →
    o.orderId = f.orderId → AtResting w.adapter.book o.side.book f

/-- A day market order finds its whole quantity within its limit, on a book that is not crossed. -/
def CoversMarket (cfg : LocalBookConfig) (w : World) : Op → Prop
  | .submit o _ => o.orderType = .market → o.tif = .day → w.adapter.book.Sound ∧
      bookQuantity cfg o.quantity ≤
        w.adapter.book.restingAgainst o.side.book (bookPrice cfg w.adapter o)
  | _ => True

instance (w : World) (op : Op) : Decidable (CoversMarket cfg w op) := by
  induction op using Op.casesOn <;> unfold CoversMarket <;> infer_instance

variable {w : World}

/-- A call that emits fills of tracked orders only. -/
theorem next_marketFree {op : Op} (h : w.MarketFree) (w₁ : World)
    (hstep : step cfg w op = w₁.next a) (hsub : w₁.submitted = w.submitted)
    (hadapter : w₁.adapter = w.adapter) (hem : Emits (Tracked w.adapter) w.adapter a)
    (hlists : ListsOnly (fun id => id ∈ w₁.submittedIds ∨ id ∈ w₁.foreign) a.book) :
    (step cfg w op).2.MarketFree ∧ PricedByBook cfg w op := by
  rw [PricedByBook, hstep]
  refine ⟨⟨hlists, fun id hid => ?_, fun o ho hm => ?_⟩, ?_⟩
  · show id ∈ w₁.submitted.map _
    rw [hsub]
    exact h.tracked id fun hnone => hid (hem.untracked id hnone)
  · have ho' : o ∈ w₁.submitted := ho
    rw [hsub] at ho'
    exact hem.untracked _ (h.market o ho' hm)
  · intro f hf o ho hm hid
    obtain ⟨new, hnew, hK⟩ := hem.fills
    have hf' : f ∈ a.pendingFills.drop w₁.adapter.pendingFills.length := hf
    have ho' : o ∈ w₁.submitted := ho
    rw [hadapter, hnew, drop_left] at hf'
    rw [hsub] at ho'
    refine absurd ?_ (hK f hf')
    rw [← hid]
    exact h.market o ho' hm

section

variable {K : Nat → Prop} (h : ListsOnly K a.book) (id : Nat)
include h

/-- What pulling does to the ids on the book. -/
theorem pull_lists : ListsOnly K (a.pull id).book :=
  h.cancelOrder id

theorem cancelOrder_lists (latency : Int) : ListsOnly K (a.cancelOrder cfg id latency).book := by
  unfold cancelOrder
  split
  · exact h
  · exact pull_lists h id

theorem advanceTime_lists (ts : Int) (order : IterationOrder Nat) :
    ListsOnly K (a.advanceTime ts order).book :=
  advanceTime_keeps (I := fun b => ListsOnly K b.book) ts order h fun _ id hb => pull_lists hb id

theorem sweepRestingRange_lists (symbol : String) (low high : ℚ) (ts : Int)
    (order : IterationOrder Nat) :
    ListsOnly K (a.sweepRestingRange cfg symbol low high ts order).book :=
  sweepRestingRange_keeps (I := fun b => ListsOnly K b.book) cfg ts order symbol low high h
    (fun _ _ _ hb _ _ => hb) fun _ id _ hb _ _ _ => pull_lists hb id

end

section Submit

variable {o : OrderEvent} {draw : ℚ} (h : w.MarketFree) (hnew : o.orderId ∉ w.submittedIds)
  (hfor : o.orderId ∉ w.foreign)

/-- An order that the book holds is in a queue. -/
theorem exists_queuedNode {book : Orderbook} (hP : Holds book P) {r : Nat} (hr : r ∈ P) :
    ∃ n ∈ book.queuedNodes, book.orderOf n = book.orders r := by
  obtain ⟨L, F, hrep, rfl⟩ := hP
  obtain ⟨n, hn, rfl⟩ := mem_map.1 hr
  exact ⟨n, hrep.perm_queuedNodes.mem_iff.2 hn, rfl⟩

include h hnew hfor in
/-- The aggressor's fills are at the prices of resting orders. -/
theorem atResting_of_takerOf (hf : TakerOf o (w.adapter.place cfg o).2.1 f) :
    AtResting w.adapter.book o.side.book f := by
  obtain ⟨P, hP, hids⟩ := h.lists
  set book := w.adapter.book
  set p := book.orderCount
  set book₁ := (book.createOrder (bookOrderType o.tif) o.orderId o.side.book
    (bookPrice cfg w.adapter o) (bookQuantity cfg o.quantity)).2
  obtain ⟨P', heff, -⟩ := (hP.createOrder (bookOrderType o.tif) o.orderId o.side.book
    (bookPrice cfg w.adapter o) (bookQuantity cfg o.quantity)).addOrder (Nat.lt_succ_self _)
    hP.orderCount_not_mem
  have hself : book₁.orders p = bookOrder cfg w.adapter o := createOrder_orders_self ..
  have hold : ∀ r ∈ P, book₁.orders r = book.orders r := fun r hr =>
    createOrder_orders_of_lt _ _ _ _ _ (hP.lt hr)
  -- The party with our id is the new object, and the other party is an old one.
  have hours : ∀ r ∈ P ++ [p], o.orderId = (book₁.orders r).orderId → r = p := by
    intro r hr hid
    rcases mem_append.1 hr with hr | hr
    · rw [hold r hr] at hid
      have hknown := hids r hr
      rw [← hid] at hknown
      exact absurd hknown (not_or.2 ⟨hnew, hfor⟩)
    · exact mem_singleton.1 hr
  have hcounter : ∀ r ∈ P ++ [p], (book₁.orders r).side = o.side.book.contra →
      ∃ n ∈ book.queuedNodes, (book.orderOf n).side = o.side.book.contra ∧
        (book.orderOf n).price = (book₁.orders r).price := by
    intro r hr hside
    rcases mem_append.1 hr with hr | hr
    · obtain ⟨n, hn, hnr⟩ := exists_queuedNode hP hr
      rw [hold r hr] at hside ⊢
      rw [← hnr] at hside ⊢
      exact ⟨n, hn, hside, rfl⟩
    · rw [mem_singleton.1 hr, hself] at hside
      exact absurd hside (by show o.side.book ≠ _; cases o.side <;> decide)
  have hsideOf : (book₁.orders p).side = o.side.book := by rw [hself]; rfl
  obtain ⟨-, t, ht, htaker⟩ := hf
  obtain ⟨⟨b, hb, hbside, hbid, hbprice⟩, c, hc, hcside, hcid, hcprice⟩ := heff.parties t ht
  rcases htaker with ⟨hbidder, hprice⟩ | ⟨hasker, hprice⟩
  · have hbp := hours b hb (hbidder.symm.trans hbid)
    rw [hbp, hsideOf] at hbside
    obtain ⟨n, hn, hns, hnp⟩ := hcounter c hc (by rw [hcside, hbside]; rfl)
    exact ⟨n, hn, hns, by rw [hnp, ← hcprice, hprice]⟩
  · have hcp := hours c hc (hasker.symm.trans hcid)
    rw [hcp, hsideOf] at hcside
    obtain ⟨n, hn, hns, hnp⟩ := hcounter b hb (by rw [hbside, hcside]; rfl)
    exact ⟨n, hn, hns, by rw [hnp, ← hbprice, hprice]⟩

include h hnew hfor in
/-- A market order that meets the condition does not rest. -/
theorem place_untracked (hc : CoversMarket cfg w (.submit o draw)) (hm : o.orderType = .market) :
    (w.adapter.place cfg o).2.2.resting.lookup o.orderId = none := by
  rw [place_lookup, if_neg]
  · by_contra hsome
    exact hnew (h.tracked _ hsome)
  · rintro ⟨-, htype, hrem⟩
    have hday : o.tif = .day := by
      have hgtc := o.market_tif hm
      cases htif : o.tif <;> simp [htif, bookOrderType] at htype hgtc ⊢
    obtain ⟨hsound, hqty⟩ := hc hm hday
    obtain ⟨P, hP, hids⟩ := h.lists
    have hquiet := (Models.sound_iff ⟨P, hP, rfl⟩).1 hsound
    have hfresh : o.orderId ∉ (P.map w.adapter.book.orders).map Order.orderId := by
      rw [map_map]
      intro hmem
      obtain ⟨r, hr, hid⟩ := mem_map.1 hmem
      have hknown := hids r hr
      rw [show (w.adapter.book.orders r).orderId = o.orderId from hid] at hknown
      exact absurd hknown (not_or.2 ⟨hnew, hfor⟩)
    have hzero := hP.addOrder_filled hquiet hfresh hqty
    have hbook : (w.adapter.place cfg o).2.2.book =
        ((w.adapter.book.createOrder .goodTillCancel o.orderId o.side.book
          (bookPrice cfg w.adapter o) (bookQuantity cfg o.quantity)).2.addOrder
            w.adapter.book.orderCount).2 := by
      rw [← htype]
      rfl
    rw [hbook, hzero] at hrem
    exact absurd hrem (lt_irrefl 0)

include h hnew hfor in
theorem submit_marketFree (hc : CoversMarket cfg w (.submit o draw)) :
    (step cfg w (.submit o draw)).2.MarketFree ∧ PricedByBook cfg w (.submit o draw) := by
  have hlists : ListsOnly (fun id => id ∈ (w.submitted ++ [o]).map OrderEvent.orderId ∨
      id ∈ w.foreign) w.adapter.book :=
    h.lists.mono fun id hid => hid.imp_left fun hs => mem_orderIds_snoc.2 (.inl hs)
  have hother : ∀ x ∈ w.submitted, x.orderId ≠ o.orderId := fun x hx he =>
    hnew (he ▸ mem_map_of_mem hx)
  by_cases hacc : w.adapter.accepts cfg o draw
  · set a₁ := (w.adapter.place cfg o).2.2
    have hem := submitOrder_emits hacc
    have hlookup : ∀ id, id ≠ o.orderId → a₁.resting.lookup id = w.adapter.resting.lookup id :=
      fun id hid => by rw [place_lookup, if_neg fun hcond => hid hcond.1.symm]
    have hmarket : ∀ x ∈ w.submitted ++ [o], x.orderType = .market →
        a₁.resting.lookup x.orderId = none := by
      refine forall_mem_append.2 ⟨fun x hx hm => ?_,
        forall_mem_singleton.2 (place_untracked h hnew hfor hc)⟩
      rw [hlookup _ (hother x hx)]
      exact h.market x hx hm
    have hbook : (w.adapter.submitOrder cfg o draw).book = a₁.book := by
      rw [submitOrder, if_pos hacc]
      exact foldl_recordTrade_book _ _
    refine ⟨⟨?_, fun id hid => ?_, fun x hx hm => hem.untracked _ (hmarket x hx hm)⟩, ?_⟩
    · show ListsOnly _ (w.adapter.submitOrder cfg o draw).book
      rw [hbook]
      exact hlists.addOrder _ _ _ _ (.inl (mem_orderIds_snoc.2 (.inr rfl)))
    · refine mem_orderIds_snoc.2 ?_
      by_cases hself : id = o.orderId
      · exact .inr hself
      · refine .inl (h.tracked id fun hnone => hid (hem.untracked id ?_))
        rw [hlookup id hself]
        exact hnone
    · intro f hf x hx hm hid
      obtain ⟨new, hnewFills, hK⟩ := hem.fills
      have hf' : f ∈ (w.adapter.submitOrder cfg o draw).pendingFills.drop
          w.adapter.pendingFills.length := hf
      rw [hnewFills, place_pendingFills, drop_left] at hf'
      rcases hK f hf' with htracked | htaker
      · refine absurd ?_ htracked
        rw [← hid]
        exact hmarket x hx hm
      · have hxo : x = o := by
          rcases mem_append.1 hx with hx | hx
          · exact absurd (hid.trans htaker.1) (hother x hx)
          · exact mem_singleton.1 hx
        rw [hxo]
        exact atResting_of_takerOf h hnew hfor htaker
  · -- A market order is never turned away.
    have hlim : o.orderType ≠ .market := by
      intro hm
      apply hacc
      cases hmodel : cfg.fillModel <;> simp [accepts, dropsLimit, hm, hmodel]
    have hadapter : w.adapter.submitOrder cfg o draw = w.adapter := by rw [submitOrder, if_neg hacc]
    refine ⟨⟨?_, fun id hid => ?_, ?_⟩, fun f hf => ?_⟩
    · show ListsOnly _ (w.adapter.submitOrder cfg o draw).book
      rw [hadapter]
      exact hlists
    · have hid' : (w.adapter.submitOrder cfg o draw).resting.lookup id ≠ none := hid
      rw [hadapter] at hid'
      exact mem_orderIds_snoc.2 (.inl (h.tracked id hid'))
    · rw [step_submit, hadapter]
      exact forall_mem_append.2 ⟨h.market, forall_mem_singleton.2 fun hm => absurd hm hlim⟩
    · have hf' : f ∈ (w.adapter.submitOrder cfg o draw).pendingFills.drop
          w.adapter.pendingFills.length := hf
      rw [hadapter, drop_length] at hf'
      cases hf'

end Submit

/-! ## Whole runs -/

/-- One step keeps market orders out of the table and prices their fills by the book. -/
theorem step_marketFree (op : Op) (h : w.MarketFree) (hd : Distinct w op)
    (hc : CoversMarket cfg w op) : (step cfg w op).2.MarketFree ∧ PricedByBook cfg w op := by
  cases op with
  | submit o draw => exact submit_marketFree h hd.1 hd.2 hc
  | cancel id latency =>
    exact next_marketFree h w rfl rfl rfl (cancelOrder_emits id latency)
      (cancelOrder_lists h.lists id latency)
  | modify id price qty =>
    refine next_marketFree h (w.noteModify id) rfl (by rw [noteModify_eq])
      (by rw [noteModify_eq]) ?_ ?_
    · exact .of_eq rfl fun _ => lookup_erase_eq_none
    · rw [noteModify_eq]
      exact h.lists.modifyOrder id _ _
  | advanceTime ts order =>
    exact next_marketFree h w rfl rfl rfl (advanceTime_emits ts order)
      (advanceTime_lists h.lists ts order)
  | sweep symbol low high ts order =>
    exact next_marketFree h _ rfl rfl rfl (sweepRestingRange_emits symbol low high ts order)
      (sweepRestingRange_lists h.lists symbol low high ts order)
  | replenish live quotes ts =>
    set r := MarketMaker.replenish w.adapter.book live quotes
    set b := { w.adapter with book := r.2 }
    have hem := @onBookTrades_emits cfg b r.1 ts
    refine next_marketFree h _ rfl rfl rfl ⟨hem.fills, hem.untracked⟩ ?_
    rw [onBookTrades_eq, recordAll_book]
    refine ListsOnly.replenish (h.lists.mono fun id hid => ?_) live fun q hq => ?_
    · exact hid.imp_right (mem_append_left _)
    · exact .inr (mem_append_right _ (mem_map_of_mem hq))
  | poll =>
    refine ⟨⟨h.lists, h.tracked, h.market⟩, fun f hf => ?_⟩
    have hf' : f ∈ ([] : List FillEvent).drop w.adapter.pendingFills.length := hf
    simp at hf'
  | setMidPrice price | setL2Seeded seeded =>
    exact next_marketFree h w rfl rfl rfl (.of_eq rfl fun _ hid => hid) h.lists

theorem marketFree_init : World.init.MarketFree where
  lists := ⟨[], holds_init, nofun⟩
  tracked := fun _ hid => absurd (by simp [World.init, LocalBook.init]) hid
  market := nofun

/-- **A market order is filled at the prices of resting orders**, in every step of a run in which
day market orders find their whole quantity. -/
theorem market_fills_at_resting (cfg : LocalBookConfig) (ops : List Op)
    (hops : Along (step cfg) (fun w op => Distinct w op ∧ CoversMarket cfg w op)
      World.init ops) :
    Along (step cfg) (PricedByBook cfg) World.init ops :=
  along_of_invariant (fun _ op h hop => step_marketFree op h hop.1 hop.2) marketFree_init hops

/-- A day market order that two asks cover, and an immediate-or-cancel one that finds less than it
asks for. -/
def coveredMarketRun : List Op :=
  [.setMidPrice 100,
    .replenish [] [⟨.goodTillCancel, 2, .sell, 1000000, 4⟩,
      ⟨.goodTillCancel, 3, .sell, 1010000, 8⟩] 0,
    .submit (.new 1 1 "BTC" .market .buy 10 100 .day 0) 0,
    .submit (.new 2 4 "BTC" .market .buy 10 100 .ioc 0) 0, .sweep "BTC" 95 105 3 .id]

theorem market_fills_at_resting_of_coveredMarketRun :
    Along (step plainConfig) (PricedByBook plainConfig) World.init coveredMarketRun :=
  market_fills_at_resting plainConfig coveredMarketRun (by decide +kernel)

/-- A day market order for ten that finds four, and a bar that reaches its own limit. -/
def restingMarketRun : List Op :=
  [.setMidPrice 100, .replenish [] [⟨.goodTillCancel, 2, .sell, 1000000, 4⟩] 0,
    .submit (.new 1 1 "BTC" .market .buy 10 100 .day 0) 0, .sweep "BTC" 95 105 3 .id]

/-- The remainder of six rests at 110, the mid times 1.1, and the sweep fills it there; nobody else
has an order on the book. -/
theorem market_fills_off_resting :
    ¬ ∀ (cfg : LocalBookConfig) (ops : List Op),
      Along (step cfg) Distinct World.init ops →
      Along (step cfg) (PricedByBook cfg) World.init ops := by
  intro h
  obtain ⟨-, -, -, hsweep, -⟩ := h plainConfig restingMarketRun (by decide +kernel)
  obtain ⟨n, hn, hside, -⟩ := hsweep ⟨3, "BTC", 1, .buy, 6, 110, 0, 0, 2, "", 0⟩ (by decide +kernel)
    (.new 1 1 "BTC" .market .buy 10 100 .day 0) (by decide +kernel) rfl rfl
  revert n
  decide +kernel

end TrueTest.LocalBook
