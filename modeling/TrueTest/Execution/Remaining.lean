import TrueTest.Execution.Conservation
import TrueTest.Execution.QueueAware
import TrueTest.Execution.TradeTape

/-!
# The remaining quantity on a fill

The three paper adapters put the remaining quantity on a fill in three ways. The trade-tape adapter
subtracts each fill from what remains and writes the result. The local book adapter reads the order
object after all trades of a walk or a delivered batch, so a fill carries what is open only if it is
the last one for its order in the list. The queue-aware adapter writes nothing, which reads as zero.
-/

namespace TrueTest.LocalBook

open Arrival Reference World List Report Machine
open Orderbook (Holds Activity TradesOnce)

variable {cfg : LocalBookConfig} {a : LocalBook} {P P' : List Nat} {id : Nat} {w : World}
  {ri : RestingInfo} {ts : Trades}

/-! ## The fills of a list of entries -/

section Entries

variable {rs : List Report} {submitted : List OrderEvent} {fs : List FillEvent} (time : Int)
  (ts : Trades)

/-- The order an entry is for. -/
def Report.about : Report → Nat
  | .maker _ ti => ti.orderId
  | .taker o _ _ _ => o.orderId

/-- What an entry executes. -/
def Report.qty : Report → Nat
  | .maker _ ti => ti.quantity
  | .taker _ _ ours _ => ours.quantity

/-- The object an entry reads, if it leads to a fill. -/
def Report.object (a : LocalBook) : Report → Option Nat
  | .maker _ ti => (a.resting.lookup ti.orderId).map RestingInfo.bookOrder
  | .taker _ p _ _ => some p

/-- An entry without an object is skipped. -/
theorem Report.record_of_none {r : Report} (h : r.object a = none) : r.record cfg a = a := by
  cases r with
  | maker ts ti => exact record_maker_of_none (Option.map_eq_none_iff.1 h)
  | taker o p ours counter => cases h

/-- Any other entry appends one fill, which carries what remains of the object. -/
theorem Report.record_of_some (hfade : cfg.fadeRate = 0) {r : Report} {p : Nat}
    (h : r.object a = some p) : ∃ f : FillEvent,
      (r.record cfg a).pendingFills = a.pendingFills ++ [f] ∧ f.orderId = r.about ∧
      f.filledQuantity = r.qty / cfg.qtyScale ∧
      f.remainingQty = (a.book.orders p).remainingQuantity / cfg.qtyScale := by
  cases r with
  | maker ts ti =>
    obtain ⟨ri, hri, rfl⟩ := Option.map_eq_some_iff.1 h
    refine ⟨{ a.makerFill cfg ts ri ti with fillId := a.nextFillId }, ?_, rfl, rfl, rfl⟩
    rw [record_maker_of_some hri]
    split <;> rfl
  | taker o q ours counter =>
    cases h
    refine ⟨{ a.takerFill cfg o p ours counter with fillId := a.nextFillId }, ?_, rfl,
      takerQty_of_fadeRate hfade ours, rfl⟩
    rw [record, recordTakerFill, if_neg fun hc => absurd hc.1 (by rw [hfade]; exact lt_irrefl _)]
    rfl

/-- An entry that leads to a fill after another entry would have led to one before it. -/
theorem Report.object_of_record {r r' : Report} {p : Nat}
    (h : r'.object (r.record cfg a) = some p) :
    r'.object a = some p := by
  cases r' with
  | maker ts ti =>
    obtain ⟨ri, hri, rfl⟩ := Option.map_eq_some_iff.1 h
    rw [r.record_lookup] at hri
    split at hri
    · cases hri
    · exact Option.map_eq_some_iff.2 ⟨ri, hri, rfl⟩
  | taker o q ours counter => exact h

/-- If no order has two entries that lead to fills, every fill carries what is open. -/
theorem recordAll_carries (hfade : cfg.fadeRate = 0)
    (h : CarriesRemaining submitted (fs ++ a.pendingFills))
    (hone : ∀ r ∈ rs, ∀ p, r.object a = some p → rs.countP (fun r' => r'.about = r.about) ≤ 1)
    (howed : ∀ r ∈ rs, ∀ p, r.object a = some p → Owed submitted (fs ++ a.pendingFills) r.about
      (((a.book.orders p).remainingQuantity + r.qty : Nat) / cfg.qtyScale)) :
    CarriesRemaining submitted (fs ++ (a.recordAll cfg rs).pendingFills) := by
  induction rs generalizing a with
  | nil => exact h
  | cons r rs ih =>
    show CarriesRemaining submitted (fs ++ ((r.record cfg a).recordAll cfg rs).pendingFills)
    obtain ⟨howed₁, howeds⟩ := forall_mem_cons.1 howed
    cases hobj : r.object a with
    | none =>
      rw [record_of_none hobj]
      refine ih h (fun r' hr' p hp => ?_) howeds
      exact (sublist_cons_self r rs).countP_le.trans (hone r' (mem_cons_of_mem _ hr') p hp)
    | some p =>
      obtain ⟨f, hfills, hid, hqty, hrem⟩ := @Report.record_of_some cfg a hfade r p hobj
      have hf : f.remainingQty = ((a.book.orders p).remainingQuantity + r.qty : Nat) /
          cfg.qtyScale - f.filledQuantity := by
        rw [hrem, hqty, ← sub_div, Nat.cast_add, add_sub_cancel_right]
      obtain ⟨hcarries, -⟩ := h.fill (hid ▸ howed₁ p hobj) hf
      have hne : ∀ r' ∈ rs, ∀ p', r'.object a = some p' → r'.about ≠ r.about := by
        intro r' hr' p' hp' he
        have hle := hone r' (mem_cons_of_mem _ hr') p' hp'
        have hpos : 0 < rs.countP fun x => x.about = r'.about :=
          countP_pos_iff.2 ⟨r', hr', decide_eq_true rfl⟩
        rw [countP_cons, if_pos (decide_eq_true he.symm)] at hle
        omega
      refine ih ?_ (fun r' hr' p' hp' => ?_) fun r' hr' p' hp' => ?_
      · rw [hfills, ← append_assoc]
        exact hcarries
      · exact (sublist_cons_self r rs).countP_le.trans
          (hone r' (mem_cons_of_mem _ hr') p' (object_of_record hp'))
      · have hp := object_of_record hp'
        rw [hfills, ← append_assoc, r.record_book]
        refine (howeds r' hr' p' hp).other fun g hg he => hne r' hr' p' hp ?_
        rw [← he, mem_singleton.1 hg, hid]

/-- The new fills are for the orders of the entries that lead to fills. -/
theorem recordAll_fills_about (hfade : cfg.fadeRate = 0) {K : Nat → Prop}
    (hold : ∀ f ∈ a.pendingFills, K f.orderId)
    (hnew : ∀ r ∈ rs, ∀ p, r.object a = some p → K r.about) :
    ∀ f ∈ (a.recordAll cfg rs).pendingFills, K f.orderId := by
  induction rs generalizing a with
  | nil => exact hold
  | cons r rs ih =>
    obtain ⟨hnew₁, hnews⟩ := forall_mem_cons.1 hnew
    refine ih ?_ fun r' hr' p hp => hnews r' hr' p (object_of_record hp)
    cases hobj : r.object a with
    | none =>
      rw [record_of_none hobj]
      exact hold
    | some p =>
      obtain ⟨f, hfills, hid, -⟩ := @Report.record_of_some cfg a hfade r p hobj
      rw [hfills]
      exact forall_mem_append.2 ⟨hold, forall_mem_singleton.2 (hid ▸ hnew₁ p hobj)⟩

/-- What an entry adds for an order. -/
def Report.qtyFor (id : Nat) (r : Report) : Nat := r.makerQty id + r.takerQty id

theorem Report.qtyFor_about (r : Report) : r.qtyFor r.about = r.qty := by
  cases r <;> simp [qtyFor, about, qty, makerQty, takerQty]

theorem Report.qtyFor_of_ne {r : Report} (h : r.about ≠ id) : r.qtyFor id = 0 := by
  cases r with
  | maker ts ti => exact if_neg h
  | taker o p ours counter => exact (Nat.zero_add _).trans (if_neg h)

/-- The only entry for an order is what is executed for it. -/
theorem sum_qtyFor_of_count_le_one {r : Report} (hr : r ∈ rs)
    (hone : rs.countP (fun r' => r'.about = r.about) ≤ 1) :
    (rs.map (qtyFor r.about)).sum = r.qty := by
  induction rs with
  | nil => cases hr
  | cons x rs ih =>
    rw [countP_cons] at hone
    rw [map_cons, sum_cons]
    by_cases hx : x.about = r.about
    · rw [if_pos (decide_eq_true hx)] at hone
      have hnone := countP_eq_zero.1 (Nat.le_zero.1 (Nat.le_of_succ_le_succ hone))
      have hrest : (rs.map (qtyFor r.about)).sum = 0 := by
        refine sum_eq_zero fun q hq => ?_
        obtain ⟨y, hy, rfl⟩ := mem_map.1 hq
        exact qtyFor_of_ne fun he => hnone y hy (decide_eq_true he)
      have hrx : r = x := by
        rcases mem_cons.1 hr with rfl | hr
        · rfl
        · exact absurd (decide_eq_true rfl) (hnone r hr)
      rw [hrest, hrx, qtyFor_about, Nat.add_zero]
    · have hr' : r ∈ rs := by
        rcases mem_cons.1 hr with rfl | hr
        · exact absurd rfl hx
        · exact hr
      rw [qtyFor_of_ne hx, Nat.zero_add]
      exact ih hr' (by omega)

theorem countP_about_batchReports (id : Nat) :
    (batchReports time ts).countP (fun r => r.about = id) = hits ts id := by
  rw [← countP_names_batchReports time]
  refine countP_congr fun r hr => ?_
  obtain ⟨t, -, hr⟩ := mem_flatMap.1 hr
  rcases mem_cons.1 hr with rfl | hr
  · rfl
  · rw [mem_singleton.1 hr]
    rfl

theorem sum_qtyFor (rs : List Report) (id : Nat) : (rs.map (qtyFor id)).sum =
    (rs.map (Report.makerQty id)).sum + (rs.map (Report.takerQty id)).sum :=
  sum_map_add

theorem sum_qtyFor_batchReports (id : Nat) :
    ((batchReports time ts).map (Report.qtyFor id)).sum = executed ts id := by
  rw [sum_qtyFor, sum_makerQty_batchReports, sum_takerQty_batchReports, Nat.add_zero]

end Entries

/-- What is executed for an order and reported comes off what is open. -/
theorem owed_less {submitted : List OrderEvent} {fills fills' : List FillEvent} {rem e : Nat}
    (h : Owed submitted fills id (rem / cfg.qtyScale)) (he : e ≤ rem)
    (hfills : filledQty fills' id = filledQty fills id + e / cfg.qtyScale) :
    Owed submitted fills' id ((rem - e : Nat) / cfg.qtyScale) := by
  intro o ho hid
  have hold := h o ho hid
  subst hid
  rw [openQty] at hold ⊢
  rw [hfills, Nat.cast_sub he, sub_div, ← hold]
  ring

/-! ## The invariant -/

/-- The fills so far carry what is open, and so do the tracked orders. -/
structure World.Exact (cfg : LocalBookConfig) (w : World) : Prop where
  carries : CarriesRemaining w.submitted w.reported
  known : ∀ f ∈ w.reported, f.orderId ∈ w.submittedIds
  owed : ∀ id ri, w.adapter.resting.lookup id = some ri → Owed w.submitted w.reported id
    ((w.adapter.book.orders ri.bookOrder).remainingQuantity / cfg.qtyScale)

/-- No new fills, and what is still tracked is as it was. -/
theorem World.Exact.withAdapter (h : w.Exact cfg) (hfills : a.pendingFills = w.adapter.pendingFills)
    (htracked : ∀ id ri, a.resting.lookup id = some ri → w.adapter.resting.lookup id = some ri ∧
      a.book.orders ri.bookOrder = w.adapter.book.orders ri.bookOrder) :
    Exact cfg { w with adapter := a } := by
  have hrep : reported { w with adapter := a } = w.reported := by rw [reported, hfills]; rfl
  refine ⟨?_, ?_, fun id ri hri => ?_⟩
  · rw [hrep]
    exact h.carries
  · rw [hrep]
    exact h.known
  · obtain ⟨hri', hobj⟩ := htracked id ri hri
    rw [hrep]
    rw [hobj]
    exact h.owed id ri hri'

/-- Pulling an order leaves the other tracked ones as they are. -/
theorem pull_tracked (h : w.Consistent P) (id : Nat) (x : Nat) (ri : RestingInfo)
    (hri : (w.adapter.pull id).resting.lookup x = some ri) :
    w.adapter.resting.lookup x = some ri ∧
      (w.adapter.pull id).book.orders ri.bookOrder = w.adapter.book.orders ri.bookOrder := by
  obtain ⟨P', -, hact, -⟩ := h.pull id
  have hx : x ≠ id := fun he => by
    subst he
    simp [pull] at hri
  have hri' : w.adapter.resting.lookup x = some ri := by
    simpa [pull, hx] using hri
  exact ⟨hri', (h.tracks x (h.live hri').1).object hact hx hri'⟩

/-- An object that the adapter has for an order, in its table or in an entry. -/
def ReadsAt (a : LocalBook) (rs : List Report) (id p : Nat) : Prop :=
  (a.resting.lookup id).map RestingInfo.bookOrder = some p ∨
    ∃ r ∈ rs, r.about = id ∧ r.object a = some p

/-- The entries for a list of trades, if no order has two of them and the objects are what is left
after the trades. -/
theorem exact_of_recordAll (hfade : cfg.fadeRate = 0) {rs : List Report}
    (hadapter : w.adapter = a.recordAll cfg rs)
    (hcarries : CarriesRemaining w.submitted (w.delivered ++ a.pendingFills))
    (hknown : ∀ f ∈ w.delivered ++ a.pendingFills, f.orderId ∈ w.submittedIds)
    (hread : ∀ id p, ReadsAt a rs id p → id ∈ w.submittedIds ∧
      rs.countP (fun r => r.about = id) ≤ 1 ∧
      Owed w.submitted (w.delivered ++ a.pendingFills) id
        (((a.book.orders p).remainingQuantity + (rs.map (qtyFor id)).sum : Nat) /
          cfg.qtyScale)) :
    w.Exact cfg := by
  have hentry : ∀ r ∈ rs, ∀ p, r.object a = some p → ReadsAt a rs r.about p :=
    fun r hr p hp => .inr ⟨r, hr, rfl, hp⟩
  refine ⟨?_, ?_, fun id ri hri => ?_⟩
  · rw [reported, hadapter]
    refine recordAll_carries hfade hcarries (fun r hr p hp => (hread _ p (hentry r hr p hp)).2.1)
      fun r hr p hp => ?_
    obtain ⟨-, hone, howed⟩ := hread _ p (hentry r hr p hp)
    rwa [sum_qtyFor_of_count_le_one hr hone] at howed
  · obtain ⟨hdelivered, hpending⟩ := forall_mem_append.1 hknown
    rw [reported, hadapter]
    exact forall_mem_append.2 ⟨hdelivered, recordAll_fills_about hfade
      hpending fun r hr p hp => (hread _ p (hentry r hr p hp)).1⟩
  · rw [hadapter, recordAll_lookup] at hri
    split at hri
    · cases hri
    · obtain ⟨-, hone, howed⟩ := hread id ri.bookOrder (.inl (by rw [hri]; rfl))
      have hnames : rs.countP (names id) ≤ 1 := by
        refine (countP_mono_left fun r _ hn => ?_).trans hone
        cases r with
        | maker ts ti => exact hn
        | taker o p ours counter => cases hn
      have hfills := @recordAll_filledQty cfg a id rs hfade fun _ => hnames
      rw [if_pos (by rw [hri]; rfl), ← sum_qtyFor] at hfills
      rw [reported, hadapter, recordAll_book]
      have hnew : filledQty (w.delivered ++ (a.recordAll cfg rs).pendingFills) id =
          filledQty (w.delivered ++ a.pendingFills) id +
          (rs.map (qtyFor id)).sum / cfg.qtyScale := by
        rw [filledQty_append, filledQty_append, hfills, add_assoc]
      have hless := owed_less howed (Nat.le_add_left _ _) hnew
      rwa [Nat.add_sub_cancel] at hless

/-- What trades took from a tracked order is missing from its object. -/
theorem TracksAt.remaining_add {S : Nat → Prop} {book : Orderbook} (h : TracksAt a P id)
    (hact : Activity S a.book P ts book P') (hS : S id) (hri : a.resting.lookup id = some ri) :
    (book.orders ri.bookOrder).remainingQuantity + executed ts id =
      (a.book.orders ri.bookOrder).remainingQuantity := by
  obtain ⟨hr, hid, -⟩ := h.live ri hri
  have hbound := hact.bound _ hr (hid.symm ▸ hS)
  rw [hid] at hbound
  rw [h.object hact hS hri, Order.less_remainingQuantity]
  exact Nat.sub_add_cancel hbound

/-! ## A submitted order -/

section Placed

variable {o : OrderEvent} {S : Nat → Prop} (hp : Placed S cfg a o P P')
  (hfresh : o.orderId ∉ (P.map a.book.orders).map Order.orderId) {p : Nat}

include hp hfresh in
theorem placed_about_le_one (hlen : (a.place cfg o).2.1.length ≤ 1) (id : Nat) :
    (submitReports o a.book.orderCount (a.place cfg o).2.1).countP (fun r => r.about = id) ≤ 1 := by
  have hcounter := placed_counter hp hfresh
  match hts : (a.place cfg o).2.1, hlen with
  | [], _ => exact Nat.zero_le _
  | [t], _ =>
    have hne := hcounter t (by rw [hts]; exact mem_singleton.2 rfl)
    show countP _ [maker _ _, taker _ _ _ _] ≤ 1
    rw [countP_cons, countP_singleton]
    by_cases hid : o.orderId = id
    · have hmaker : (half o.side.book.contra t).orderId ≠ id := fun he => hne (he.trans hid.symm)
      simp [about, hid, hmaker]
    · by_cases hmaker : (half o.side.book.contra t).orderId = id <;> simp [about, hid, hmaker]

include hp hfresh in
theorem placed_sum_qtyFor (id : Nat) :
    ((submitReports o a.book.orderCount (a.place cfg o).2.1).map (Report.qtyFor id)).sum =
      executed (a.place cfg o).2.1 id := by
  rw [sum_qtyFor, sum_takerQty_submitReports (placed_own hp) (placed_counter hp hfresh)]
  by_cases hid : id = o.orderId
  · subst hid
    rw [sum_makerQty_eq_zero (placed_not_named hp hfresh), if_pos rfl, Nat.zero_add]
  · rw [sum_makerQty_submitReports (placed_own hp) hid, if_neg (Ne.symm hid), Nat.add_zero]

include hp hfresh in
/-- For the submitted order the adapter has the object it created. -/
theorem placed_reads_self (hnone : a.resting.lookup o.orderId = none)
    (h : ReadsAt (a.place cfg o).2.2
      (submitReports o a.book.orderCount (a.place cfg o).2.1) o.orderId p) :
    p = a.book.orderCount := by
  rcases h with hp' | ⟨r, hr, hid, hp'⟩
  · rw [place_lookup, hnone] at hp'
    split at hp' <;> cases hp'
    rfl
  · obtain ⟨t, ht, hr⟩ := mem_flatMap.1 hr
    rcases mem_cons.1 hr with rfl | hr
    · exact absurd hid (placed_counter hp hfresh t ht)
    · rw [mem_singleton.1 hr] at hp'
      cases hp'
      rfl

/-- For other orders it has the objects it had. -/
theorem placed_reads_other (hid : id ≠ o.orderId)
    (h : ReadsAt (a.place cfg o).2.2 (submitReports o a.book.orderCount ts) id p) :
    ∃ ri, a.resting.lookup id = some ri ∧ ri.bookOrder = p := by
  have hlookup : (a.place cfg o).2.2.resting.lookup id = a.resting.lookup id := by
    rw [place_lookup, if_neg fun hc => hid hc.1.symm]
  refine Option.map_eq_some_iff.1 ?_
  rw [← hlookup]
  rcases h with hp | ⟨r, hr, rfl, hp⟩
  · exact hp
  · obtain ⟨t, -, hr⟩ := mem_flatMap.1 hr
    rcases mem_cons.1 hr with rfl | hr
    · exact hp
    · rw [mem_singleton.1 hr] at hid
      exact absurd rfl hid

end Placed

/-! ## One step -/

/-- The condition under which the fills of a step carry what is open: nothing is modified, a
submitted order is a whole number of lots and trades once, and a batch has no tracked order
twice. -/
def TradesSingly (cfg : LocalBookConfig) (w : World) : Op → Prop
  | .submit o draw => w.adapter.accepts cfg o draw →
      bookQuantity cfg o.quantity = o.quantity * cfg.qtyScale ∧
      TradesOnce w.adapter.book o.side.book (bookPrice cfg w.adapter o)
        (bookQuantity cfg o.quantity)
  | .modify .. => False
  | .replenish live quotes _ => ∀ e ∈ w.adapter.resting.entries,
      hits (MarketMaker.replenish w.adapter.book live quotes).1 e.1 ≤ 1
  | _ => True

instance (w : World) (op : Op) : Decidable (TradesSingly cfg w op) := by
  induction op using Op.casesOn <;> unfold TradesSingly <;> infer_instance

theorem TradesSingly.reportable {op : Op} (h : TradesSingly cfg w op) : Reportable cfg w op := by
  cases op with
  | modify id price qty => exact h.elim
  | replenish live quotes ts => exact fun e he _ => h e he
  | _ => trivial

section Steps

variable (h : w.Consistent P) (hex : w.Exact cfg)

include h hex in
theorem cancel_exact (id : Nat) (latency : Int) :
    (step cfg w (.cancel id latency)).2.Exact cfg := by
  show Exact cfg { w with adapter := w.adapter.cancelOrder cfg id latency }
  unfold cancelOrder
  split
  · exact hex.withAdapter rfl fun _ _ hri => ⟨hri, rfl⟩
  · exact hex.withAdapter rfl (pull_tracked h id)

include h hex in
theorem advanceTime_exact (ts : Int) (order : IterationOrder Nat) :
    (step cfg w (.advanceTime ts order)).2.Exact cfg := by
  refine (advanceTime_keeps (I := fun b => (∃ P', Consistent { w with adapter := b } P') ∧
    Exact cfg { w with adapter := b }) ts order ⟨⟨P, h.withAdapter rfl fun _ => rfl⟩,
    hex.withAdapter rfl fun _ _ hri => ⟨hri, rfl⟩⟩ ?_).2
  rintro b id ⟨⟨P', hb⟩, hb'⟩
  obtain ⟨P'', hpull, -⟩ := hb.pull id
  exact ⟨⟨P'', hpull.withAdapter rfl fun _ => rfl⟩, hb'.withAdapter rfl (pull_tracked hb id)⟩

/-- The fill of a sweep leaves nothing of its order. -/
theorem sweepFill_exact {b : LocalBook} (h : Consistent { w with adapter := b } P)
    (hex : Exact cfg { w with adapter := b }) (ts : Int) (hl : b.resting.lookup id = some ri) :
    Exact cfg { w with adapter := (b.emit (b.sweepFill cfg ts id ri)).pull id } := by
  set f := b.sweepFill cfg ts id ri
  obtain ⟨hcarries, -⟩ := hex.carries.fill
    (f := { f with fillId := b.nextFillId }) (hex.owed id ri hl) (sub_self _).symm
  have hrep : reported { w with adapter := (b.emit f).pull id } =
      reported { w with adapter := b } ++ [{ f with fillId := b.nextFillId }] :=
    (append_assoc _ _ _).symm
  have hemit : Consistent { w with adapter := b.emit f } P :=
    h.withAdapter rfl fun _ => rfl
  refine ⟨?_, ?_, fun x rx hx => ?_⟩
  · rw [hrep]
    exact hcarries
  · rw [hrep]
    exact forall_mem_append.2 ⟨hex.known, forall_mem_singleton.2 (h.tracked id (by rw [hl]; rfl)).1⟩
  · obtain ⟨hx', hobj⟩ := pull_tracked hemit id x rx hx
    have hxid : id ≠ x := fun he => by
      subst he
      simp [pull] at hx
    rw [hrep, hobj]
    refine (hex.owed x rx hx').other fun g hg => ?_
    rw [mem_singleton.1 hg]
    exact hxid

include h hex in
theorem sweep_exact (symbol : String) (low high : ℚ) (ts : Int) (order : IterationOrder Nat) :
    (step cfg w (.sweep symbol low high ts order)).2.Exact cfg := by
  obtain ⟨-, hadapter⟩ := sweepRestingRange_keeps
    (I := fun b => (∃ P', Consistent { w with adapter := b } P' ∧ Swept cfg w b) ∧
      Exact cfg { w with adapter := b }) cfg ts order symbol low high
    ⟨⟨P, h, Swept.refl cfg w⟩, hex⟩
    (fun b id ri ⟨⟨_, hb, _⟩, _⟩ hl hzero => absurd hzero (hb.live hl).2.2.2.ne')
    fun b id ri ⟨⟨_, hb, hsw⟩, hb'⟩ hl _ _ =>
      ⟨sweepFill_consistent hb hsw ts hl, sweepFill_exact hb hb' ts hl⟩
  exact ⟨hadapter.carries, hadapter.known, hadapter.owed⟩

include hex in
theorem poll_exact : (step cfg w .poll).2.Exact cfg := by
  have hrep : (step cfg w .poll).2.reported = w.reported := append_nil _
  refine ⟨?_, ?_, ?_⟩
  · rw [hrep]
    exact hex.carries
  · rw [hrep]
    exact hex.known
  · rw [hrep]
    exact hex.owed

include h hex in
theorem replenish_exact (hfade : cfg.fadeRate = 0) (live : List Nat) (quotes : List Quote)
    (ts : Int)
    (hd : Distinct w (.replenish live quotes ts))
    (hs : TradesSingly cfg w (.replenish live quotes ts)) :
    (step cfg w (.replenish live quotes ts)).2.Exact cfg := by
  obtain ⟨hlive, hquotes⟩ := hd
  set r := MarketMaker.replenish w.adapter.book live quotes
  set b := { w.adapter with book := r.2 }
  set rs := batchReports ts r.1
  obtain ⟨P', hact⟩ := replenish_activity h.holds h.quiet
    (fun id hid hs => h.disjoint id hs (hlive id hid)) hquotes
  have hnext : (step cfg w (.replenish live quotes ts)).2 = { w with
      tape := w.tape ++ r.1, foreign := w.foreign ++ quotes.map Quote.id,
      adapter := b.onBookTrades cfg r.1 ts } := rfl
  rw [hnext, onBookTrades_eq]
  refine exact_of_recordAll hfade rfl hex.carries hex.known fun id p hp => ?_
  obtain ⟨ri, hri, rfl⟩ : ∃ ri, w.adapter.resting.lookup id = some ri ∧ ri.bookOrder = p := by
    rcases hp with hp | ⟨x, hx, rfl, hp⟩
    · exact Option.map_eq_some_iff.1 hp
    · obtain ⟨t, -, hx⟩ := mem_flatMap.1 hx
      rcases mem_cons.1 hx with rfl | hx
      · exact Option.map_eq_some_iff.1 hp
      · rw [mem_singleton.1 hx] at hp ⊢
        exact Option.map_eq_some_iff.1 hp
  obtain ⟨hid, hmod⟩ := h.tracked id (Option.isSome_iff_exists.2 ⟨ri, hri⟩)
  have htracks := h.tracks id ⟨h.disjoint id hid, hmod⟩
  have hobj : (r.2.orders ri.bookOrder).remainingQuantity + executed r.1 id =
      (w.adapter.book.orders ri.bookOrder).remainingQuantity := htracks.remaining_add hact hid hri
  refine ⟨hid, ?_, ?_⟩
  · rw [countP_about_batchReports]
    exact hs ⟨id, ri⟩ (AList.mem_lookup_iff.1 hri)
  · rw [sum_qtyFor_batchReports, hobj]
    exact hex.owed id ri hri

include h hex in
theorem submit_exact (hfade : cfg.fadeRate = 0) (o : OrderEvent) (draw : ℚ)
    (hd : Distinct w (.submit o draw)) (hs : TradesSingly cfg w (.submit o draw)) :
    (step cfg w (.submit o draw)).2.Exact cfg := by
  obtain ⟨hnew, hfor⟩ := hd
  obtain ⟨hfresh, hmod, hnone⟩ := h.fresh hnew hfor
  have hunused : ∀ f ∈ w.reported, f.orderId ≠ o.orderId := fun f hf he =>
    hnew (he ▸ hex.known f hf)
  have hne : ∀ id ri, w.adapter.resting.lookup id = some ri → o.orderId ≠ id :=
    fun id ri hri he => by
    rw [← he, hnone] at hri
    cases hri
  have hcarries := hex.carries.submit hunused
  have hknown : ∀ f ∈ w.reported, f.orderId ∈ (w.submitted ++ [o]).map OrderEvent.orderId :=
    fun f hf => mem_orderIds_snoc.2 (.inl (hex.known f hf))
  rw [step_submit]
  by_cases hacc : w.adapter.accepts cfg o draw
  · obtain ⟨hlots, honce⟩ := hs hacc
    obtain ⟨P', hp⟩ : ∃ P',
      Placed (fun id => w.Followed id ∧ id ≠ o.orderId) cfg w.adapter o P P' :=
      h.holds.added _ _ _ _ h.quiet hfresh fun hs => hs.2 rfl
    rw [submitOrder_eq hp hfresh hacc]
    refine exact_of_recordAll hfade rfl hcarries hknown fun id p hread => ?_
    have hcount := placed_about_le_one hp hfresh (h.holds.length_trades_le_one h.quiet _ honce) id
    rw [placed_sum_qtyFor hp hfresh]
    by_cases hid : id = o.orderId
    · rw [hid] at hread ⊢
      have hself : p = w.adapter.book.orderCount := placed_reads_self hp hfresh hnone hread
      refine ⟨mem_orderIds_snoc.2 (.inr rfl), hid ▸ hcount, ?_⟩
      have hrem : ((w.adapter.place cfg o).2.2.book.orders p).remainingQuantity +
          executed (w.adapter.place cfg o).2.1 o.orderId = bookQuantity cfg o.quantity := by
        rw [hself, hp.object_self]
        exact Nat.sub_add_cancel hp.bound_self
      rw [hrem, hlots, mul_div_cancel_right₀ _ cfg.qtyScale_pos.ne']
      exact owed_new hnew hunused
    · obtain ⟨ri, hri, rfl⟩ := placed_reads_other hid hread
      have hfol := (h.live hri).1
      have hsub := (h.tracked id (Option.isSome_iff_exists.2 ⟨ri, hri⟩)).1
      refine ⟨mem_orderIds_snoc.2 (.inl hsub), hcount, ?_⟩
      rw [(h.tracks id hfol).remaining_add hp.toActivity ⟨hfol, hid⟩ hri]
      exact (hex.owed id ri hri).submit (hne id ri hri)
  · rw [submitOrder, if_neg hacc]
    exact ⟨hcarries, hknown, fun id ri hri => (hex.owed id ri hri).submit (hne id ri hri)⟩

include h hex in
theorem step_exact (hfade : cfg.fadeRate = 0) (op : Op) (hd : Distinct w op)
    (hs : TradesSingly cfg w op) : (step cfg w op).2.Exact cfg := by
  cases op with
  | submit o draw => exact submit_exact h hex hfade o draw hd hs
  | cancel id latency => exact cancel_exact h hex id latency
  | modify id price qty => exact hs.elim
  | advanceTime ts order => exact advanceTime_exact h hex ts order
  | sweep symbol low high ts order => exact sweep_exact h hex symbol low high ts order
  | replenish live quotes ts => exact replenish_exact h hex hfade live quotes ts hd hs
  | poll => exact poll_exact hex
  | setMidPrice price | setL2Seeded seeded => exact hex.withAdapter rfl fun _ _ hri => ⟨hri, rfl⟩

end Steps

/-! ## Whole runs -/

theorem carriesRemaining_of_run (cfg : LocalBookConfig) (hfade : cfg.fadeRate = 0) (ops : List Op)
    (hops : Along (step cfg) (fun w op => Distinct w op ∧ TradesSingly cfg w op)
      World.init ops) :
    ∀ w ∈ states (step cfg) World.init ops, CarriesRemaining w.submitted w.reported := by
  have hinit : World.init.Exact cfg := {
    carries := carriesRemaining_nil _
    known := fun _ hf => absurd hf not_mem_nil
    owed := fun _ _ hri => absurd hri (by simp [World.init, LocalBook.init]) }
  have hcons : World.init.Conserves cfg := fun id _ => by
    simp [reported, World.init, LocalBook.init, counted, taken]
  have hstep : ∀ w op, ((∃ P, w.Consistent P) ∧ w.Conserves cfg) ∧ w.Exact cfg →
      Distinct w op ∧ TradesSingly cfg w op →
      ((∃ P, (step cfg w op).2.Consistent P) ∧ (step cfg w op).2.Conserves cfg) ∧
        (step cfg w op).2.Exact cfg := by
    rintro w op ⟨hc, hex⟩ ⟨hd, hs⟩
    obtain ⟨P, h⟩ := hc.1
    exact ⟨step_conserves hfade op hc hd hs.reportable, step_exact h hex hfade op hd hs⟩
  intro w hw
  exact (invariant hstep ⟨⟨⟨[], consistent_init⟩, hcons⟩, hinit⟩ hops w hw).2.carries

end TrueTest.LocalBook

namespace TrueTest

/-- A bid that others hit twice, a market order that takes one ask, and a bid that is swept. -/
def singlyRun : List LocalBook.Op :=
  [.submit (.new 0 1 "BTC" .limit .buy 5 10 .gtc 0) 0,
    .replenish [] [⟨.goodTillCancel, 2, .sell, 90000, 2⟩] 1, .poll,
    .replenish [2] [⟨.goodTillCancel, 3, .sell, 90000, 8⟩] 2,
    .setMidPrice 9, .submit (.new 3 4 "BTC" .market .buy 2 9 .ioc 0) 0,
    .submit (.new 4 5 "BTC" .limit .buy 2 8 .gtc 0) 0, .sweep "BTC" 7 12 5 .id]

def plainQueue : QueueAwareConfig := ⟨none, none, false⟩

/-- A bid behind a queue of three, a print for part of the queue, and one that covers the rest and
the bid. -/
def coveredRun : List QueueAware.Op :=
  [.l2Update "BTC" .buy 10 3 .id, .submit (.new 0 1 "BTC" .limit .buy 5 10 .gtc 0),
    .trade "BTC" 10 2 1 .id, .trade "BTC" 10 6 2 .id]

def plainTape : TradeTapeConfig := ⟨none, false, false, .exact⟩

/-- A bid that two prints fill. -/
def tapeRun : List TradeTape.Op :=
  [.submit (.new 0 1 "BTC" .limit .buy 5 10 .gtc 0) 0 0, .trade "BTC" 10 2 1,
    .trade "BTC" 9 6 2]

/-- Two asks and a bid that takes both of them. -/
def walkingRun : List LocalBook.Op :=
  [.replenish [] [⟨.goodTillCancel, 2, .sell, 100000, 3⟩, ⟨.goodTillCancel, 3, .sell, 100000, 4⟩] 0,
    .submit (.new 1 1 "BTC" .limit .buy 7 10 .gtc 0) 0]

/-- A bid of five that a print reaches with two. -/
def reachedRun : List QueueAware.Op :=
  [.submit (.new 0 1 "BTC" .limit .buy 5 10 .gtc 0), .trade "BTC" 10 2 1 .id]

end TrueTest
