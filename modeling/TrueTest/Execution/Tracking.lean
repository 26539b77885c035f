import TrueTest.Execution.LocalBook
import TrueTest.Orderbook.Incoming

/-!
# The side table of resting orders

The adapter follows its resting orders in a side table and reports the trades that others cause
from that table. `TracksAt` says that the table is right about an id: it has the id exactly when
an order with that id is live and not filled. It stays right over any activity on the book whose
trades are entered (`TracksAt.record`), and what the entries add up to is `recordAll_filledQty`.
-/

namespace TrueTest.LocalBook

open Arrival Reference List MarketMaker
open Orderbook (Holds Activity)

variable {cfg : LocalBookConfig} {a a₁ : LocalBook} {P P' : List Nat} {id : Nat}
  {ri : RestingInfo} {ti : TradeInfo} {ts : Int}

/-! ## Reports -/

/-- One entry that the adapter makes for a trade: a resting order's fill or the aggressor's. -/
inductive Report
  | maker (ts : Int) (ti : TradeInfo)
  | taker (o : OrderEvent) (p : Nat) (ours counter : TradeInfo)

variable (r : Report) (time : Int)

namespace Report

def record (cfg : LocalBookConfig) (a : LocalBook) : Report → LocalBook
  | .maker ts ti => a.recordRestingFill cfg ts ti
  | .taker o p ours counter => a.recordTakerFill cfg o p ours counter

/-- The entry is for a resting order with this id. -/
def names (id : Nat) : Report → Bool
  | .maker _ ti => ti.orderId = id
  | .taker .. => false

def makerQty (id : Nat) : Report → Nat
  | .maker _ ti => if ti.orderId = id then ti.quantity else 0
  | .taker .. => 0

def takerQty (id : Nat) : Report → Nat
  | .maker .. => 0
  | .taker o _ ours _ => if o.orderId = id then ours.quantity else 0

end Report

theorem sum_makerQty_eq_zero {rs : List Report} (h : ∀ r ∈ rs, ¬ r.names id) :
    (rs.map (Report.makerQty id)).sum = 0 := by
  refine sum_eq_zero fun q hq => ?_
  obtain ⟨r, hr, rfl⟩ := mem_map.1 hq
  cases r with
  | maker ts ti => exact if_neg fun hid => h _ hr (decide_eq_true hid)
  | taker o p ours counter => rfl

def recordAll (cfg : LocalBookConfig) (a : LocalBook) (rs : List Report) : LocalBook :=
  rs.foldl (Report.record cfg) a

def tracksFilled (a : LocalBook) (id : Nat) : Bool :=
  (a.resting.lookup id).any fun ri => (a.book.orders ri.bookOrder).isFilled

theorem filledQty_emit (a : LocalBook) (f : FillEvent) (id : Nat) :
    filledQty (a.emit f).pendingFills id =
      filledQty a.pendingFills id + if f.orderId = id then f.filledQuantity else 0 := by
  rw [emit_pendingFills, filledQty_append, filledQty_singleton]

theorem takerQty_of_fadeRate (hfade : cfg.fadeRate = 0) (ours : TradeInfo) :
    takerQty cfg ours = ours.quantity / cfg.qtyScale := by
  simp [takerQty, hfade]

namespace Report

/-- What an entry does, by whether the order it names is tracked. -/
theorem record_maker_of_none (h : a.resting.lookup ti.orderId = none) :
    (maker ts ti).record cfg a = a := by
  simp [record, recordRestingFill, h]

theorem record_maker_of_some (h : a.resting.lookup ti.orderId = some ri) :
    (maker ts ti).record cfg a =
      if (a.book.orders ri.bookOrder).isFilled then
        (a.emit (a.makerFill cfg ts ri ti)).untrack ti.orderId
      else a.emit (a.makerFill cfg ts ri ti) := by
  simp [record, recordRestingFill, h]

theorem record_book (a : LocalBook) : (r.record cfg a).book = a.book := by
  cases r with
  | maker ts ti =>
    cases h : a.resting.lookup ti.orderId with
    | none => rw [record_maker_of_none h]
    | some ri =>
      rw [record_maker_of_some h]
      split <;> rfl
  | taker o p ours counter =>
    rw [record, recordTakerFill]
    split <;> rfl

/-- A maker's entry for a filled order drops it from the table. -/
theorem record_lookup (a : LocalBook) (id : Nat) :
    (r.record cfg a).resting.lookup id =
      if r.names id ∧ a.tracksFilled id then none else a.resting.lookup id := by
  cases r with
  | maker ts ti =>
    by_cases hid : ti.orderId = id
    · subst hid
      cases h : a.resting.lookup ti.orderId with
      | none =>
        rw [record_maker_of_none h]
        simp [h]
      | some ri =>
        rw [record_maker_of_some h]
        by_cases hf : (a.book.orders ri.bookOrder).isFilled <;> simp [hf, h, names, tracksFilled]
    · have hne : id ≠ ti.orderId := Ne.symm hid
      cases h : a.resting.lookup ti.orderId with
      | none => simp [record_maker_of_none h, names, hid]
      | some ri =>
        rw [record_maker_of_some h]
        split <;> simp [names, hid, hne]
  | taker o p ours counter =>
    rw [record, recordTakerFill]
    split <;> simp [names]

/-- What an entry adds for an order. -/
theorem record_filledQty (hfade : cfg.fadeRate = 0) (r : Report) (a : LocalBook) (id : Nat) :
    filledQty (r.record cfg a).pendingFills id = filledQty a.pendingFills id +
      ((if (a.resting.lookup id).isSome then r.makerQty id else 0) + r.takerQty id : Nat) /
        cfg.qtyScale := by
  cases r with
  | maker ts ti =>
    cases h : a.resting.lookup ti.orderId with
    | none =>
      rw [record_maker_of_none h]
      by_cases hid : ti.orderId = id
      · subst hid
        simp [h, takerQty]
      · simp [makerQty, takerQty, hid]
    | some ri =>
      have hfills : ((maker ts ti).record cfg a).pendingFills =
          (a.emit (a.makerFill cfg ts ri ti)).pendingFills := by
        rw [record_maker_of_some h]
        split <;> rfl
      rw [hfills, filledQty_emit]
      by_cases hid : ti.orderId = id
      · subst hid
        simp [makerFill, makerQty, takerQty, h]
      · simp [makerFill, makerQty, takerQty, hid]
  | taker o p ours counter =>
    rw [record, recordTakerFill, if_neg fun hc => absurd hc.1 (by rw [hfade]; exact lt_irrefl _),
      filledQty_emit]
    by_cases hid : o.orderId = id <;>
      simp [takerFill, takerQty_of_fadeRate hfade, makerQty, takerQty, hid]

end Report

section RecordAll

variable {rs : List Report}

theorem recordAll_book (rs : List Report) (a : LocalBook) : (a.recordAll cfg rs).book = a.book := by
  induction rs generalizing a with
  | nil => rfl
  | cons r rs ih => exact (ih _).trans (r.record_book a)

theorem record_tracksFilled (a : LocalBook) (id : Nat) :
    (r.record cfg a).tracksFilled id = (a.tracksFilled id && !r.names id) := by
  unfold tracksFilled
  rw [r.record_lookup, r.record_book]
  by_cases hn : r.names id
  · by_cases hf : a.tracksFilled id
    · simp [hn, hf]
    · have hf' := hf
      unfold tracksFilled at hf'
      simp [hn, hf, hf']
  · simp [hn]

/-- After all entries, a filled order that one of them names is no longer tracked. -/
theorem recordAll_lookup (rs : List Report) (a : LocalBook) (id : Nat) :
    (a.recordAll cfg rs).resting.lookup id =
      if rs.any (Report.names id) ∧ a.tracksFilled id then none else a.resting.lookup id := by
  induction rs generalizing a with
  | nil => simp [recordAll]
  | cons r rs ih =>
    have hstep : (a.recordAll cfg (r :: rs)).resting.lookup id =
        ((r.record cfg a).recordAll cfg rs).resting.lookup id := rfl
    rw [hstep, ih, record_tracksFilled, r.record_lookup]
    by_cases hn : r.names id <;> by_cases hf : a.tracksFilled id <;> simp [hn, hf]

/-- The entries for a tracked order are all reported, unless the order is filled and several of
them name it. -/
theorem recordAll_filledQty (hfade : cfg.fadeRate = 0)
    (hone : a.tracksFilled id → rs.countP (Report.names id) ≤ 1) :
    filledQty (a.recordAll cfg rs).pendingFills id = filledQty a.pendingFills id +
      ((if (a.resting.lookup id).isSome then (rs.map (Report.makerQty id)).sum else 0) +
        (rs.map (Report.takerQty id)).sum : Nat) / cfg.qtyScale := by
  induction rs generalizing a with
  | nil => simp [recordAll]
  | cons r rs ih =>
    have hstep : filledQty (a.recordAll cfg (r :: rs)).pendingFills id =
        filledQty ((r.record cfg a).recordAll cfg rs).pendingFills id := rfl
    have hone' : (r.record cfg a).tracksFilled id → rs.countP (Report.names id) ≤ 1 := by
      intro hf
      rw [record_tracksFilled, Bool.and_eq_true] at hf
      have := hone hf.1
      rw [countP_cons] at this
      omega
    rw [hstep, ih hone', r.record_filledQty hfade, r.record_lookup]
    by_cases hdrop : r.names id ∧ a.tracksFilled id
    · -- The order leaves the table; no later entry names it.
      have hcount := hone hdrop.2
      rw [countP_cons, if_pos hdrop.1] at hcount
      have hrest : (rs.map (Report.makerQty id)).sum = 0 :=
        sum_makerQty_eq_zero (countP_eq_zero.1 (by omega))
      rw [if_pos hdrop, map_cons, map_cons, sum_cons, sum_cons, hrest, Nat.add_zero]
      push_cast
      simp only [Option.isSome_none, Bool.false_eq_true, if_false]
      ring
    · rw [if_neg hdrop, map_cons, map_cons, sum_cons, sum_cons]
      split <;> push_cast <;> ring

end RecordAll

/-! ## The side table -/

/-- The table has an id exactly when an order with that id and something remaining is live, and
then leads to its object. -/
structure TracksAt (a : LocalBook) (P : List Nat) (id : Nat) : Prop where
  live : ∀ ri, a.resting.lookup id = some ri → ri.bookOrder ∈ P ∧
    (a.book.orders ri.bookOrder).orderId = id ∧ 0 < (a.book.orders ri.bookOrder).remainingQuantity
  covers : ∀ r ∈ P, (a.book.orders r).orderId = id → 0 < (a.book.orders r).remainingQuantity →
    (a.resting.lookup id).isSome

theorem TracksAt.congr (h : TracksAt a P id) (hbook : a₁.book = a.book)
    (hlookup : a₁.resting.lookup id = a.resting.lookup id) : TracksAt a₁ P id := by
  obtain ⟨hlive, hcovers⟩ := h
  refine ⟨fun ri hri => ?_, fun r hr hid hrem => ?_⟩
  · rw [hbook]
    exact hlive ri (hlookup ▸ hri)
  · rw [hbook] at hid hrem
    rw [hlookup]
    exact hcovers r hr hid hrem

section Record

variable {S : Nat → Prop} {ts : Trades} {book : Orderbook} {rs : List Report}

/-- What is executed for an order outside the table is nothing. -/
theorem TracksAt.executed_eq_zero (h : TracksAt a P id) (hact : Activity S a.book P ts book P')
    (hS : S id) (hnone : a.resting.lookup id = none) : executed ts id = 0 := by
  by_cases hlive : ∃ r ∈ P, (a.book.orders r).orderId = id
  · obtain ⟨r, hr, rfl⟩ := hlive
    have hbound := hact.bound r hr hS
    by_contra hpos
    have hsome := h.covers r hr rfl (by omega)
    rw [hnone] at hsome
    cases hsome
  · exact hact.absent id hS fun r hr hid => hlive ⟨r, hr, hid⟩

theorem TracksAt.object (h : TracksAt a P id) (hact : Activity S a.book P ts book P') (hS : S id)
    (hri : a.resting.lookup id = some ri) : book.orders ri.bookOrder =
      (a.book.orders ri.bookOrder).less (executed ts id) := by
  obtain ⟨hr, hid, -⟩ := h.live ri hri
  rw [hact.object _ hr (hid ▸ hS), hid]

variable (h : TracksAt a P id) (hholds : Holds a.book P)
include h hholds

/-- The table stays right if it drops the orders that activity filled, and only those. -/
theorem TracksAt.update (hact : Activity S a.book P ts book P') (hS : S id) (hbook : a₁.book = book)
    (hlookup : a₁.resting.lookup id =
      (a.resting.lookup id).filter fun ri => !(book.orders ri.bookOrder).isFilled) :
    TracksAt a₁ P' id := by
  refine ⟨fun ri hri => ?_, fun r hr hid hrem => ?_⟩
  · rw [hlookup, Option.filter_eq_some_iff] at hri
    obtain ⟨hri, hopen⟩ := hri
    obtain ⟨hr, hid, -⟩ := h.live ri hri
    have hobject := h.object hact hS hri
    rw [hbook, hobject]
    have hlt : 0 < (a.book.orders ri.bookOrder).remainingQuantity - executed ts id := by
      rw [hobject, Bool.not_eq_true', Order.isFilled_eq_false_iff] at hopen
      exact hopen
    exact ⟨hact.stays _ hr (hid ▸ hS) (by rw [hid]; omega), hid, hlt⟩
  · rw [hbook] at hid hrem
    have hrP := hact.origin r hr (hid ▸ hS)
    have hid' : (a.book.orders r).orderId = id := by
      rw [← hact.orderId r (hholds.lt hrP)]
      exact hid
    have hle : (book.orders r).remainingQuantity ≤ (a.book.orders r).remainingQuantity := by
      rw [hact.object r hrP (hid' ▸ hS)]
      exact Nat.sub_le _ _
    obtain ⟨ri, hri⟩ := Option.isSome_iff_exists.1 (h.covers r hrP hid' (hrem.trans_le hle))
    obtain ⟨hr', hid'', -⟩ := h.live ri hri
    have heq := hholds.eq_of_orderId_eq hr' hrP (hid''.trans hid'.symm)
    rw [hlookup, hri, Option.filter_some_pos]
    · rfl
    · rw [heq, Order.isFilled_eq_false_iff.2 hrem]
      rfl

/-- The table stays right over activity without trades. -/
theorem TracksAt.of_activity (hact : Activity S a.book P [] book P') (hS : S id)
    (hbook : a₁.book = book)
    (hlookup : a₁.resting.lookup id = a.resting.lookup id) : TracksAt a₁ P' id := by
  refine h.update hholds hact hS hbook ?_
  rw [hlookup]
  cases hri : a.resting.lookup id with
  | none => rfl
  | some ri =>
    have hrem := (h.live ri hri).2.2
    have hobject : book.orders ri.bookOrder = a.book.orders ri.bookOrder := h.object hact hS hri
    rw [Option.filter_some_pos]
    rw [hobject, Order.isFilled_eq_false_iff.2 hrem]
    rfl

/-- The table stays right over activity whose trades are all entered. -/
theorem TracksAt.record (hact : Activity S a.book P ts book P') (hS : S id) (hbook : a₁.book = book)
    (hlookup : a₁.resting.lookup id = a.resting.lookup id)
    (hqty : (rs.map (Report.makerQty id)).sum = executed ts id) :
    TracksAt (a₁.recordAll cfg rs) P' id := by
  refine h.update hholds hact hS ((recordAll_book rs a₁).trans hbook) ?_
  rw [recordAll_lookup, tracksFilled, hlookup, hbook]
  cases hri : a.resting.lookup id with
  | none => simp
  | some ri =>
    by_cases hf : (book.orders ri.bookOrder).isFilled
    · -- An order that was filled was named by an entry.
      have hany : rs.any (Report.names id) := by
        by_contra hno
        have hzero := sum_makerQty_eq_zero fun r hr hn => hno (any_eq_true.2 ⟨r, hr, hn⟩)
        have hrem := (h.live ri hri).2.2
        rw [h.object hact hS hri, ← hqty, hzero, Order.isFilled_iff] at hf
        exact hrem.ne' hf
      rw [Option.filter_some_neg (by simp [hf])]
      simp [hf, hany]
    · rw [Option.filter_some_pos (by simp [hf])]
      simp [hf]

end Record

/-! ## The entries for a trade list -/

section Entries

variable {o : OrderEvent} {p : Nat} {ts : Trades}

/-- The entries for the trades of a submitted order. -/
def submitReports (o : OrderEvent) (p : Nat) (ts : Trades) : List Report :=
  ts.flatMap fun t => [.maker o.earliestEligibleTs (half o.side.book.contra t),
    .taker o p (half o.side.book t) (half o.side.book.contra t)]

/-- The entries for trades that others caused. -/
def batchReports (time : Int) (ts : Trades) : List Report :=
  ts.flatMap fun t => [.maker time t.bidTrade, .maker time t.askTrade]

theorem onBookTrades_eq (a : LocalBook) (ts : Trades) (time : Int) :
    a.onBookTrades cfg ts time = a.recordAll cfg (batchReports time ts) := by
  induction ts generalizing a with
  | nil => rfl
  | cons t ts ih => exact ih _

theorem sum_makerQty_batchReports (ts : Trades) (id : Nat) :
    ((batchReports time ts).map (Report.makerQty id)).sum = executed ts id := by
  induction ts with
  | nil => rfl
  | cons t ts ih =>
    rw [executed_cons, ← ih]
    simp [batchReports, Report.makerQty, Nat.add_assoc]

/-- How often an order trades in a list of trades. -/
def hits (ts : Trades) (id : Nat) : Nat :=
  (ts.countP fun t => t.bidTrade.orderId = id) + ts.countP fun t => t.askTrade.orderId = id

theorem countP_names_batchReports (ts : Trades) (id : Nat) :
    (batchReports time ts).countP (Report.names id) = hits ts id := by
  induction ts with
  | nil => rfl
  | cons t ts ih =>
    have hcons : batchReports time (t :: ts) =
        .maker time t.bidTrade :: .maker time t.askTrade :: batchReports time ts := rfl
    rw [hcons, countP_cons, countP_cons, ih, hits, hits, countP_cons, countP_cons]
    change _ + (if decide (t.askTrade.orderId = id) = true then 1 else 0) +
      (if decide (t.bidTrade.orderId = id) = true then 1 else 0) = _
    omega

theorem sum_takerQty_batchReports (ts : Trades) (id : Nat) :
    ((batchReports time ts).map (Report.takerQty id)).sum = 0 := by
  induction ts with
  | nil => rfl
  | cons t ts ih => simpa [batchReports, Report.takerQty] using ih

section

variable (hown : ∀ t ∈ ts, (half o.side.book t).orderId = o.orderId)
include hown

theorem sum_makerQty_submitReports (hid : id ≠ o.orderId) :
    ((submitReports o p ts).map (Report.makerQty id)).sum = executed ts id := by
  induction ts with
  | nil => rfl
  | cons t ts ih =>
    obtain ⟨hown, howns⟩ := forall_mem_cons.1 hown
    rw [executed_cons_half o.side.book, ← ih howns, hown, if_neg (Ne.symm hid)]
    simp [submitReports, Report.makerQty]

variable (hcounter : ∀ t ∈ ts, (half o.side.book.contra t).orderId ≠ o.orderId)
include hcounter

theorem foldl_recordTrade (a : LocalBook) :
    ts.foldl (recordTrade cfg o p) a = a.recordAll cfg (submitReports o p ts) := by
  induction ts generalizing a with
  | nil => rfl
  | cons t ts ih =>
    obtain ⟨hown, howns⟩ := forall_mem_cons.1 hown
    obtain ⟨hcounter, hcounters⟩ := forall_mem_cons.1 hcounter
    rw [foldl_cons, ih howns hcounters]
    suffices hstep : recordTrade cfg o p a t =
        (a.recordRestingFill cfg o.earliestEligibleTs (half o.side.book.contra t)).recordTakerFill
          cfg o p (half o.side.book t) (half o.side.book.contra t) by
      rw [hstep]
      rfl
    unfold recordTrade
    cases hs : o.side with
    | buy | sell =>
      rw [hs] at hown hcounter
      simp only [half, OrderSide.book, Side.contra] at hown hcounter ⊢
      simp [hown, hcounter]

theorem sum_takerQty_submitReports (id : Nat) :
    ((submitReports o p ts).map (Report.takerQty id)).sum =
      if o.orderId = id then executed ts id else 0 := by
  induction ts with
  | nil => simp [submitReports]
  | cons t ts ih =>
    obtain ⟨hown, howns⟩ := forall_mem_cons.1 hown
    obtain ⟨hcounter, hcounters⟩ := forall_mem_cons.1 hcounter
    have hrest := ih howns hcounters
    rw [executed_cons_half o.side.book, hown]
    by_cases hid : o.orderId = id
    · subst hid
      rw [if_pos rfl] at hrest
      rw [if_pos rfl, if_pos rfl, if_neg hcounter, ← hrest]
      simp [submitReports, Report.takerQty]
    · rw [if_neg hid] at hrest
      rw [if_neg hid, ← hrest]
      simp [submitReports, Report.takerQty, hid]

end

theorem countP_names_submitReports (id : Nat) :
    (submitReports o p ts).countP (Report.names id) =
      (ts.map fun t => (half o.side.book.contra t).orderId).count id := by
  induction ts with
  | nil => rfl
  | cons t ts ih =>
    rw [map_cons, count_cons, ← ih]
    simp [submitReports, Report.names, countP_cons]

end Entries

/-! ## Other parties -/

section Others

variable {S : Nat → Prop} {book : Orderbook}

variable (h : Holds book P) (hq : Quiet (P.map book.orders)) {quotes : List Quote}
include h hq

theorem addQuotes_activity (hS : ∀ q ∈ quotes, ¬ S q.id) :
    ∃ P', Activity S book P (addQuotes quotes book).1
      (addQuotes quotes book).2 P' := by
  induction quotes generalizing book P with
  | nil => exact ⟨P, Activity.refl h hq⟩
  | cons q quotes ih =>
    obtain ⟨hq₁, hqs⟩ := forall_mem_cons.1 hS
    obtain ⟨P₁, hact₁⟩ := Activity.addOrder q.orderType q.side q.price q.quantity h hq hq₁
    obtain ⟨P₂, hact₂⟩ := ih hact₁.holds hact₁.quiet hqs
    exact ⟨P₂, hact₁.trans hact₂ h⟩

theorem cancels_activity {ids : List Nat} (hS : ∀ id ∈ ids, ¬ S id) :
    ∃ P', Activity S book P [] (ids.foldl Orderbook.cancelOrder book) P' := by
  induction ids generalizing book P with
  | nil => exact ⟨P, Activity.refl h hq⟩
  | cons id ids ih =>
    obtain ⟨hid, hids⟩ := forall_mem_cons.1 hS
    obtain ⟨P₁, hact₁, -⟩ := Activity.cancelOrder h hq hid
    obtain ⟨P₂, hact₂⟩ := ih hact₁.holds hact₁.quiet hids
    exact ⟨P₂, hact₁.trans hact₂ h⟩

/-- A re-quote by a party whose ids are all outside `S`. -/
theorem replenish_activity {live : List Nat} (hlive : ∀ id ∈ live, ¬ S id)
    (hS : ∀ q ∈ quotes, ¬ S q.id) : ∃ P', Activity S book P (replenish book live quotes).1
      (replenish book live quotes).2 P' := by
  obtain ⟨P₁, hact₁⟩ := cancels_activity h hq hlive
  obtain ⟨P₂, hact₂⟩ := addQuotes_activity hact₁.holds hact₁.quiet hS
  exact ⟨P₂, hact₁.trans hact₂ h⟩

end Others

end TrueTest.LocalBook
