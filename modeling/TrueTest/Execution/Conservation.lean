import TrueTest.Execution.Tracking

/-!
# Every execution is reported once

Five operations keep the table of resting orders in step with the book: it holds exactly the live
orders that were submitted and not modified. So the fills reported for an order add up to what the
book executed for it and what sweeps removed.

A modified order leaves the table, because the book replaces its object; its fills stop there.
-/

namespace TrueTest.LocalBook

open Arrival Reference List MarketMaker Machine LocalBook
open Orderbook (Holds Activity Added StaysBehind)

variable {cfg : LocalBookConfig} {a : LocalBook} {P P' : List Nat} {id : Nat}

/-! ## The invariant -/

namespace World

/-- The adapter's own orders that no modification replaced, and ids that are still unused. -/
def Followed (w : World) (id : Nat) : Prop := id ∉ w.foreign ∧ w.modified.lookup id = none

/-- What has to be reported for an order: everything taken from it, up to its modification. -/
def counted (w : World) (id : Nat) : Nat := (w.modified.lookup id).getD (w.taken id)

/-- The book holds the objects `P`, whose ids are known, and the table is right. -/
structure Consistent (w : World) (P : List Nat) : Prop where
  holds : Holds w.adapter.book P
  quiet : Quiet (P.map w.adapter.book.orders)
  known : ∀ r ∈ P, (w.adapter.book.orders r).orderId ∈ w.submittedIds ∨
    (w.adapter.book.orders r).orderId ∈ w.foreign
  disjoint : ∀ id ∈ w.submittedIds, id ∉ w.foreign
  modified_known : ∀ id, w.modified.lookup id ≠ none → id ∈ w.submittedIds ∨ id ∈ w.foreign
  tracked : ∀ id, (w.adapter.resting.lookup id).isSome →
    id ∈ w.submittedIds ∧ w.modified.lookup id = none
  tracks : ∀ id, w.Followed id → TracksAt w.adapter P id

/-- The fills add up. -/
def Conserves (cfg : LocalBookConfig) (w : World) : Prop :=
  ∀ id, id ∉ w.foreign → filledQty w.reported id = w.counted id / cfg.qtyScale

end World

open World

variable {w : World} {ri : RestingInfo} {ts : Trades}

theorem World.Consistent.fresh (h : w.Consistent P) (hsub : id ∉ w.submittedIds)
    (hfor : id ∉ w.foreign) : id ∉ (P.map w.adapter.book.orders).map Order.orderId ∧
      w.modified.lookup id = none ∧ w.adapter.resting.lookup id = none := by
  have hunknown : ¬ (id ∈ w.submittedIds ∨ id ∈ w.foreign) := not_or.2 ⟨hsub, hfor⟩
  refine ⟨fun hmem => ?_, ?_, ?_⟩
  · rw [map_map] at hmem
    obtain ⟨r, hr, rfl⟩ := mem_map.1 hmem
    exact hunknown (h.known r hr)
  · by_contra hm
    exact hunknown (h.modified_known id hm)
  · by_contra hl
    exact hsub (h.tracked id (Option.isSome_iff_ne_none.2 hl)).1

/-- What is tracked is followed, and something remains of it. -/
theorem World.Consistent.live (h : w.Consistent P)
    (hl : w.adapter.resting.lookup id = some ri) : w.Followed id ∧ ri.bookOrder ∈ P ∧
      (w.adapter.book.orders ri.bookOrder).orderId = id ∧
      0 < (w.adapter.book.orders ri.bookOrder).remainingQuantity := by
  obtain ⟨hsub, hmod⟩ := h.tracked id (by rw [hl]; rfl)
  exact ⟨⟨h.disjoint id hsub, hmod⟩, (h.tracks id ⟨h.disjoint id hsub, hmod⟩).live ri hl⟩

/-- Activity after which every live order has a known id. -/
theorem World.Consistent.known_of_activity {S : Nat → Prop} {book : Orderbook}
    {K : Nat → Prop} (h : w.Consistent P) (hact : Activity S w.adapter.book P ts book P')
    (hK : ∀ id, id ∈ w.submittedIds ∨ id ∈ w.foreign → K id)
    (hnot : ∀ r ∈ P', ¬ S (book.orders r).orderId → K (book.orders r).orderId) :
    ∀ r ∈ P', K (book.orders r).orderId := by
  intro r hr
  by_cases hS : S (book.orders r).orderId
  · have hrP := hact.origin r hr hS
    rw [hact.orderId r (h.holds.lt hrP)]
    exact hK _ (h.known r hrP)
  · exact hnot r hr hS

/-- The invariant looks at the book and the table only. -/
theorem World.Consistent.withAdapter (h : w.Consistent P) (hbook : a.book = w.adapter.book)
    (hlookup : ∀ id, a.resting.lookup id = w.adapter.resting.lookup id) :
    Consistent { w with adapter := a } P where
  holds := by rw [hbook]; exact h.holds
  quiet := by rw [hbook]; exact h.quiet
  known := by rw [hbook]; exact h.known
  disjoint := h.disjoint
  modified_known := h.modified_known
  tracked := fun id hid => h.tracked id (by rwa [hlookup] at hid)
  tracks := fun id hid => (h.tracks id hid).congr hbook (hlookup id)

theorem World.Conserves.withAdapter (h : w.Conserves cfg)
    (hfills : a.pendingFills = w.adapter.pendingFills) : Conserves cfg { w with adapter := a } := by
  intro id hid
  rw [reported, hfills]
  exact h id hid

/-- A step that takes `δ` from the orders and reports it for those that are followed. -/
theorem World.Conserves.add (h : w.Conserves cfg) {w' : World} (hfor : w.foreign ⊆ w'.foreign)
    (hmod : w'.modified = w.modified) (hdel : w'.delivered = w.delivered) (δ : Nat → Nat)
    (htaken : ∀ id, w'.taken id = w.taken id + δ id)
    (hfollowed : ∀ id, id ∉ w'.foreign → w.modified.lookup id = none →
      filledQty w'.adapter.pendingFills id =
        filledQty w.adapter.pendingFills id + δ id / cfg.qtyScale)
    (hmodified : ∀ id, w.modified.lookup id ≠ none →
      filledQty w'.adapter.pendingFills id = filledQty w.adapter.pendingFills id) :
    w'.Conserves cfg := by
  intro id hid
  have hold := h id fun hmem => hid (hfor hmem)
  rw [reported, filledQty_append, counted] at hold
  rw [reported, filledQty_append, hdel, counted, hmod]
  by_cases hm : w.modified.lookup id = none
  · rw [hm, Option.getD_none] at hold ⊢
    rw [hfollowed id hid hm, ← add_assoc, hold, htaken, Nat.cast_add, add_div]
  · obtain ⟨q, hq⟩ := Option.ne_none_iff_exists'.1 hm
    rw [hq, Option.getD_some] at hold ⊢
    rw [hmodified id hm, hold]

/-! ## Pulling an order -/

/-- Pulling an order from the book and the table keeps both right. -/
theorem World.Consistent.pull (h : w.Consistent P) (id : Nat) :
    ∃ P', Consistent { w with adapter := w.adapter.pull id } P' ∧
      Activity (· ≠ id) w.adapter.book P [] (w.adapter.pull id).book P' ∧
      ∀ r ∈ P', ((w.adapter.pull id).book.orders r).orderId ≠ id := by
  obtain ⟨P', hact, hgone⟩ :=
    Activity.cancelOrder (S := (· ≠ id)) h.holds h.quiet fun hne => hne rfl
  refine ⟨P', ⟨hact.holds, hact.quiet, ?_, h.disjoint, h.modified_known, fun x hx => ?_,
    fun x hx => ?_⟩, hact, hgone⟩
  · exact h.known_of_activity hact (fun _ hk => hk) fun r hr hne => absurd (hgone r hr) hne
  · refine h.tracked x ?_
    by_cases hxid : x = id
    · subst hxid
      simp [LocalBook.pull] at hx
    · simpa [LocalBook.pull, hxid] using hx
  · by_cases hxid : x = id
    · subst hxid
      refine ⟨fun ri hri => ?_, fun r hr hrid => absurd hrid (hgone r hr)⟩
      simp [LocalBook.pull] at hri
    · have hlookup : (w.adapter.pull id).resting.lookup x = w.adapter.resting.lookup x := by
        simp [LocalBook.pull, hxid]
      exact (h.tracks x hx).of_activity h.holds hact hxid rfl hlookup

/-! ## Sweeping -/

section Live

variable {book book' : Orderbook} {S : Nat → Prop}

theorem liveQty_of_mem (h : Holds book P) {r : Nat} (hr : r ∈ P) :
    liveQty book (book.orders r).orderId = (book.orders r).remainingQuantity := by
  unfold liveQty
  cases hn : book.orderMap.lookup (book.orders r).orderId with
  | none =>
    exact absurd (mem_map_of_mem (mem_map_of_mem hr)) (h.lookup_eq_none.1 hn)
  | some n =>
    obtain ⟨hmem, hid⟩ := lookup_mem (h.lookup_eq_some hn)
    exact congrArg Order.remainingQuantity
      (Orderbook.eq_of_orderId_eq h.idsNodup hmem (mem_map_of_mem hr) hid)

theorem liveQty_of_absent (h : Holds book P) (hno : ∀ r ∈ P, (book.orders r).orderId ≠ id) :
    liveQty book id = 0 := by
  have hn : book.orderMap.lookup id = none := by
    rw [h.lookup_eq_none, map_map]
    intro hmem
    obtain ⟨r, hr, hid⟩ := mem_map.1 hmem
    exact hno r hr hid
  rw [liveQty, hn]

/-- What activity executes for an order is what its live quantity loses. -/
theorem liveQty_add_executed (h : Holds book P) (hact : Activity S book P ts book' P')
    (hS : S id) : liveQty book' id + executed ts id = liveQty book id := by
  by_cases hlive : ∃ r ∈ P, (book.orders r).orderId = id
  · obtain ⟨r, hr, rfl⟩ := hlive
    have hobject := hact.object r hr hS
    have hbound := hact.bound r hr hS
    rw [liveQty_of_mem h hr]
    by_cases hr' : r ∈ P'
    · have hqty := liveQty_of_mem hact.holds hr'
      rw [hobject, Order.less_orderId, Order.less_remainingQuantity] at hqty
      rw [hqty, Nat.sub_add_cancel hbound]
    · -- Only an order with nothing remaining may have left.
      have hall : ¬ executed ts (book.orders r).orderId < (book.orders r).remainingQuantity :=
        fun hlt => hr' (hact.stays r hr hS hlt)
      rw [liveQty_of_absent hact.holds fun x hx hid => hr' ?_]
      · omega
      · have hxP := hact.origin x hx (hid ▸ hS)
        rw [hact.orderId x (h.lt hxP)] at hid
        rwa [h.eq_of_orderId_eq hxP hr hid] at hx
  · have hno : ∀ r ∈ P, (book.orders r).orderId ≠ id := fun r hr hid => hlive ⟨r, hr, hid⟩
    rw [liveQty_of_absent h hno, hact.absent id hS hno, Nat.add_zero]
    refine liveQty_of_absent hact.holds fun x hx hid => ?_
    have hxP := hact.origin x hx (hid ▸ hS)
    exact hno x hxP ((hact.orderId x (h.lt hxP)).symm.trans hid)

/-- Without trades, activity leaves the live quantity of an order. -/
theorem liveQty_of_activity (h : Holds book P) (hact : Activity S book P [] book' P') (hS : S id) :
    liveQty book' id = liveQty book id :=
  liveQty_add_executed h hact hS

end Live

/-- A sweep turns live quantity into fills, and touches only orders that are followed. -/
structure Swept (cfg : LocalBookConfig) (w : World) (a : LocalBook) : Prop where
  le : ∀ id, liveQty a.book id ≤ liveQty w.adapter.book id
  fills : ∀ id, w.Followed id → filledQty a.pendingFills id =
    filledQty w.adapter.pendingFills id +
      (liveQty w.adapter.book id - liveQty a.book id : Nat) / cfg.qtyScale
  others : ∀ id, ¬ w.Followed id → filledQty a.pendingFills id = filledQty w.adapter.pendingFills id

theorem Swept.refl (cfg : LocalBookConfig) (w : World) : Swept cfg w w.adapter where
  le := fun _ => le_rfl
  fills := fun id _ => by simp
  others := fun _ _ => rfl

/-- One order is swept. -/
theorem sweepFill_consistent {b : LocalBook} (h : Consistent { w with adapter := b } P)
    (hsw : Swept cfg w b) (ts : Int) (hl : b.resting.lookup id = some ri) :
    ∃ P', Consistent { w with adapter := (b.emit (b.sweepFill cfg ts id ri)).pull id } P' ∧
      Swept cfg w ((b.emit (b.sweepFill cfg ts id ri)).pull id) := by
  obtain ⟨hfol, hr, hrid, -⟩ := h.live hl
  have hemit : Consistent { w with adapter := b.emit (b.sweepFill cfg ts id ri) } P :=
    h.withAdapter rfl fun _ => rfl
  obtain ⟨P', hpull, hact, hgone⟩ := hemit.pull id
  have hlive : liveQty b.book id = (b.book.orders ri.bookOrder).remainingQuantity := by
    have := liveQty_of_mem h.holds hr
    rwa [hrid] at this
  have hlive' : liveQty (b.pull id).book id = 0 := liveQty_of_absent hact.holds hgone
  have hother : ∀ x, x ≠ id → liveQty (b.pull id).book x = liveQty b.book x := fun x hx =>
    liveQty_of_activity h.holds hact hx
  have hfid : (b.sweepFill cfg ts id ri).orderId = id := rfl
  refine ⟨P', hpull, fun x => ?_, fun x hx => ?_, fun x hx => ?_⟩
  · by_cases hxid : x = id
    · subst hxid
      exact hlive'.le.trans (Nat.zero_le _)
    · exact (hother x hxid).le.trans (hsw.le x)
  · have hfill := hsw.fills x hx
    have hle := hsw.le x
    show filledQty (b.emit _).pendingFills x =
      _ + ((_ - liveQty (b.pull id).book x : Nat) : ℚ) / _
    rw [filledQty_emit, hfid, hfill]
    by_cases hxid : x = id
    · subst hxid
      have hq : (b.sweepFill cfg ts x ri).filledQuantity = liveQty b.book x / cfg.qtyScale := by
        rw [hlive]
        rfl
      rw [if_pos rfl, hq, hlive', add_assoc, ← add_div, ← Nat.cast_add, Nat.sub_add_cancel hle]
      rfl
    · rw [if_neg (Ne.symm hxid), hother x hxid, add_zero]
  · show filledQty (b.emit _).pendingFills x = _
    have hxid : id ≠ x := fun he => hx (he ▸ hfol)
    rw [filledQty_emit, hfid, if_neg hxid, add_zero]
    exact hsw.others x hx

/-! ## One step -/

section Steps

variable (h : w.Consistent P) (hc : w.Conserves cfg)

/-- The conditions under which the entries of a step are complete: no modification sets a price
that reaches the other side, and no batch fills a tracked order over several of its trades. -/
def Reportable (cfg : LocalBookConfig) (w : World) : Op → Prop
  | .modify id price qty =>
    StaysBehind w.adapter.book (.modify id (priceFromDouble price) (bookQuantity cfg qty))
  | .replenish live quotes _ => ∀ e ∈ w.adapter.resting.entries,
      ((replenish w.adapter.book live quotes).2.orders e.2.bookOrder).isFilled →
        hits (replenish w.adapter.book live quotes).1 e.1 ≤ 1
  | _ => True

instance (w : World) (op : Op) : Decidable (Reportable cfg w op) := by
  induction op using Op.casesOn <;> unfold Reportable <;> infer_instance

include h hc in
theorem cancel_step (id : Nat) (latency : Int) :
    (∃ P', (step cfg w (.cancel id latency)).2.Consistent P') ∧
      (step cfg w (.cancel id latency)).2.Conserves cfg := by
  show (∃ P', Consistent { w with adapter := w.adapter.cancelOrder cfg id latency } P') ∧
    Conserves cfg { w with adapter := w.adapter.cancelOrder cfg id latency }
  unfold cancelOrder
  split
  · exact ⟨⟨P, h.withAdapter rfl fun _ => rfl⟩, hc.withAdapter rfl⟩
  · obtain ⟨P', hpull, -⟩ := h.pull id
    exact ⟨⟨P', hpull⟩, hc.withAdapter rfl⟩

include h hc in
theorem advanceTime_step (ts : Int) (order : IterationOrder Nat) :
    (∃ P', (step cfg w (.advanceTime ts order)).2.Consistent P') ∧
      (step cfg w (.advanceTime ts order)).2.Conserves cfg := by
  refine advanceTime_keeps (I := fun b => (∃ P', Consistent { w with adapter := b } P') ∧
    Conserves cfg { w with adapter := b }) ts order
    ⟨⟨P, h.withAdapter rfl fun _ => rfl⟩, hc.withAdapter rfl⟩ ?_
  rintro b id ⟨⟨P', hb⟩, hcb⟩
  obtain ⟨P'', hpull, -⟩ := hb.pull id
  exact ⟨⟨P'', hpull.withAdapter rfl fun _ => rfl⟩, hcb.withAdapter rfl⟩

include h hc in
theorem sweep_step (symbol : String) (low high : ℚ) (ts : Int) (order : IterationOrder Nat) :
    (∃ P', (step cfg w (.sweep symbol low high ts order)).2.Consistent P') ∧
      (step cfg w (.sweep symbol low high ts order)).2.Conserves cfg := by
  obtain ⟨P', hcons, hsw⟩ := sweepRestingRange_keeps
    (I := fun b => ∃ P', Consistent { w with adapter := b } P' ∧ Swept cfg w b) cfg ts order symbol
    low high ⟨P, h, Swept.refl cfg w⟩
    (fun b id ri ⟨_, hb, _⟩ hl hzero => absurd hzero (hb.live hl).2.2.2.ne')
    fun b id ri ⟨_, hb, hsw⟩ hl _ _ => sweepFill_consistent hb hsw ts hl
  refine ⟨⟨P', hcons.holds, hcons.quiet, hcons.known, hcons.disjoint, hcons.modified_known,
    hcons.tracked, hcons.tracks⟩, ?_⟩
  refine hc.add (Subset.refl _) rfl rfl _ (fun id => ?_)
    (fun id hid hm => hsw.fills id ⟨hid, hm⟩) (fun id hm => hsw.others id fun hf => hm hf.2)
  rw [taken, taken, Nat.add_assoc]
  rfl

include h hc in
theorem poll_step : (∃ P', (step cfg w .poll).2.Consistent P') ∧
    (step cfg w .poll).2.Conserves cfg := by
  have hcons : Consistent { w with adapter := w.adapter.pollFills.2 } P :=
    h.withAdapter rfl fun _ => rfl
  refine ⟨⟨P, hcons.holds, hcons.quiet, hcons.known, hcons.disjoint, hcons.modified_known,
    hcons.tracked, hcons.tracks⟩, fun id hid => ?_⟩
  show filledQty (w.delivered ++ w.adapter.pendingFills ++ []) id = _
  rw [append_nil]
  exact hc id hid

/-- After a modification of a live order its id is noted, and the counts stand as they did. -/
theorem noteModify_lookup (hlive : (w.adapter.book.orderMap.lookup id).isSome) (x : Nat) :
    (w.noteModify id).modified.lookup x =
      if x = id then some (w.counted id) else w.modified.lookup x := by
  unfold noteModify counted
  cases hm : w.modified.lookup id with
  | none =>
    rw [if_pos ⟨hlive, rfl⟩]
    by_cases hx : x = id
    · subst hx
      simp
    · simp [hx]
  | some q =>
    rw [if_neg fun hc => by cases hc.2]
    by_cases hx : x = id
    · subst hx
      simp [hm]
    · simp [hx]

include h in
theorem mem_known_of_live {n : Nat} (hn : w.adapter.book.orderMap.lookup id = some n) :
    id ∈ w.submittedIds ∨ id ∈ w.foreign := by
  have hmem : id ∈ (P.map w.adapter.book.orders).map Order.orderId := by
    by_contra hno
    rw [h.holds.lookup_eq_none.2 hno] at hn
    cases hn
  rw [map_map] at hmem
  obtain ⟨r, hr, rfl⟩ := mem_map.1 hmem
  exact h.known r hr

include h hc in
theorem modify_step (id : Nat) (price qty : ℚ) (hr : Reportable cfg w (.modify id price qty)) :
    (∃ P', (step cfg w (.modify id price qty)).2.Consistent P') ∧
      (step cfg w (.modify id price qty)).2.Conserves cfg := by
  set a := w.adapter.modifyOrder cfg id price qty with ha
  have hne : ∀ x, x ≠ id → a.resting.lookup x = w.adapter.resting.lookup x := fun x hx => by
    simp [ha, modifyOrder, hx]
  show (∃ P', Consistent { w.noteModify id with adapter := a } P') ∧
    Conserves cfg { w.noteModify id with adapter := a }
  cases hn : w.adapter.book.orderMap.lookup id with
  | none =>
    -- The book does not have the order, so the table does not either.
    have hbook : a.book = w.adapter.book := by
      simp [ha, modifyOrder, Orderbook.modifyOrder, hn]
    have hnone : w.adapter.resting.lookup id = none := by
      by_contra hsome
      obtain ⟨ri, hri⟩ := Option.ne_none_iff_exists'.1 hsome
      obtain ⟨-, hrP, hrid, -⟩ := h.live hri
      refine h.holds.lookup_eq_none.1 hn (mem_map.2 ⟨_, mem_map_of_mem hrP, hrid⟩)
    have hnote : w.noteModify id = w := if_neg fun hlive => by rw [hn] at hlive; cases hlive.1
    rw [hnote]
    refine ⟨⟨P, h.withAdapter hbook fun x => ?_⟩, hc.withAdapter rfl⟩
    by_cases hx : x = id
    · subst hx
      rw [hnone]
      simp [ha, modifyOrder]
    · exact hne x hx
  | some n =>
    obtain ⟨P', hact⟩ := Activity.modifyOrder (S := (· ≠ id)) h.holds h.quiet
      (fun hx => hx rfl) hn (bookQuantity cfg qty) (hr n hn)
    have hlive : (w.adapter.book.orderMap.lookup id).isSome := by rw [hn]; rfl
    have hknown := mem_known_of_live h hn
    have hlookup := fun x => @noteModify_lookup id w hlive x
    rw [noteModify_eq]
    set M := (w.noteModify id).modified
    refine ⟨⟨P', hact.holds, hact.quiet, ?_, h.disjoint, fun x hx => ?_, fun x hx => ?_,
      fun x hx => ?_⟩, fun x hx => ?_⟩
    · refine h.known_of_activity hact (fun _ hk => hk) fun r _ hid => ?_
      rw [not_not.1 hid]
      exact hknown
    · by_cases hxid : x = id
      · subst hxid
        exact hknown
      · refine h.modified_known x ?_
        have hx' : M.lookup x ≠ none := hx
        rwa [hlookup, if_neg hxid] at hx'
    · have hxid : x ≠ id := fun he => by
        subst he
        simp [ha, modifyOrder] at hx
      obtain ⟨hsub, hmod⟩ := h.tracked x (by rwa [← hne x hxid])
      exact ⟨hsub, by rw [hlookup, if_neg hxid]; exact hmod⟩
    · obtain ⟨hfor, hmod⟩ := hx
      have hmod' : M.lookup x = none := hmod
      rw [hlookup] at hmod'
      by_cases hxid : x = id
      · rw [if_pos hxid] at hmod'
        cases hmod'
      · rw [if_neg hxid] at hmod'
        exact (h.tracks x ⟨hfor, hmod'⟩).of_activity h.holds hact hxid rfl (hne x hxid)
    · have hcounted : counted { w with modified := M, adapter := a } x = w.counted x := by
        show (M.lookup x).getD (w.taken x) = w.counted x
        rw [hlookup]
        split_ifs with hxid
        · rw [hxid]
          rfl
        · rfl
      rw [hcounted]
      exact hc x hx

section Replenish

variable (live : List Nat) (quotes : List Quote) (ts : Int)
  (hd : Distinct w (.replenish live quotes ts))

include h hd in
/-- A re-quote leaves alone what is followed after the quotes' ids became known. -/
theorem replenish_followed : ∃ P', Activity
    (fun id => id ∉ w.foreign ++ quotes.map Quote.id ∧ w.modified.lookup id = none) w.adapter.book P
    (replenish w.adapter.book live quotes).1
    (replenish w.adapter.book live quotes).2 P' :=
  replenish_activity h.holds h.quiet (fun id hid hs => hs.1 (mem_append_left _ (hd.1 id hid)))
    (fun _ hq hs => hs.1 (mem_append_right _ (mem_map_of_mem hq)))

include h hd in
theorem replenish_consistent : ∃ P', (step cfg w (.replenish live quotes ts)).2.Consistent P' := by
  obtain ⟨P', hact⟩ := replenish_followed h live quotes ts hd
  set foreign := w.foreign ++ quotes.map Quote.id
  set r := replenish w.adapter.book live quotes
  set b := { w.adapter with book := r.2 }
  have hsub : ∀ id ∈ w.submittedIds, id ∉ foreign := by
    intro id hid hmem
    rcases mem_append.1 hmem with hmem | hmem
    · exact h.disjoint id hid hmem
    · obtain ⟨q, hq, rfl⟩ := mem_map.1 hmem
      exact hd.2 q hq hid
  have hknow : ∀ id, id ∈ w.submittedIds ∨ id ∈ w.foreign → id ∈ w.submittedIds ∨ id ∈ foreign :=
    fun id => Or.imp_right (mem_append_left _)
  have hnext : (step cfg w (.replenish live quotes ts)).2 = { w with
      tape := w.tape ++ r.1, foreign := foreign, adapter := b.onBookTrades cfg r.1 ts } := rfl
  rw [hnext, onBookTrades_eq]
  refine ⟨P', ?_, ?_, ?_, hsub, fun id hm => hknow id (h.modified_known id hm), fun id hid => ?_,
    fun id hid => ?_⟩
  · rw [recordAll_book]
    exact hact.holds
  · rw [recordAll_book]
    exact hact.quiet
  · rw [recordAll_book]
    refine h.known_of_activity hact hknow fun x _ hs => ?_
    by_cases hfor : (r.2.orders x).orderId ∈ foreign
    · exact .inr hfor
    · exact hknow _ (h.modified_known _ fun hm => hs ⟨hfor, hm⟩)
  · rw [recordAll_lookup] at hid
    split at hid
    · cases hid
    · exact h.tracked id hid
  · have hfol : w.Followed id := ⟨fun hmem => hid.1 (mem_append_left _ hmem), hid.2⟩
    exact (h.tracks id hfol).record h.holds hact hid rfl rfl (sum_makerQty_batchReports ts r.1 id)

include h hd in
/-- What the delivered trades add for an order. A maker's fill does not fade, so the fill model does
not matter. -/
theorem replenish_filledQty (hr : Reportable cfg w (.replenish live quotes ts))
    (hid : w.modified.lookup id = none → id ∉ w.foreign ++ quotes.map Quote.id) :
    filledQty (step cfg w (.replenish live quotes ts)).2.adapter.pendingFills id =
      filledQty w.adapter.pendingFills id + (if w.modified.lookup id = none then
        executed (replenish w.adapter.book live quotes).1 id else 0 : Nat) /
          cfg.qtyScale := by
  obtain ⟨P', hact⟩ := replenish_followed h live quotes ts hd
  set r := replenish w.adapter.book live quotes
  set b := { w.adapter with book := r.2 }
  have hone : b.tracksFilled id → (batchReports ts r.1).countP (Report.names id) ≤ 1 := by
    intro hf
    rw [countP_names_batchReports]
    obtain ⟨ri, hri, hfill⟩ := (Option.any_eq_true _ _).1 hf
    exact hr ⟨id, ri⟩ (AList.mem_lookup_iff.1 hri) hfill
  have hfills := @recordAll_filledQty { cfg with fillModel := none } b id _ rfl hone
  rw [← onBookTrades_eq, sum_makerQty_batchReports, sum_takerQty_batchReports,
    Nat.add_zero] at hfills
  refine hfills.trans ?_
  congr 3
  by_cases hm : w.modified.lookup id = none
  · have hfol : w.Followed id := ⟨fun hmem => hid hm (mem_append_left _ hmem), hm⟩
    rw [if_pos hm]
    by_cases hsome : (b.resting.lookup id).isSome
    · rw [if_pos hsome]
    · rw [if_neg hsome, (h.tracks id hfol).executed_eq_zero hact ⟨hid hm, hm⟩
        (Option.not_isSome_iff_eq_none.1 hsome)]
  · rw [if_neg hm, if_neg fun hsome => hm (h.tracked id hsome).2]

include h hc hd in
theorem replenish_step (hr : Reportable cfg w (.replenish live quotes ts)) :
    (∃ P', (step cfg w (.replenish live quotes ts)).2.Consistent P') ∧
      (step cfg w (.replenish live quotes ts)).2.Conserves cfg := by
  refine ⟨replenish_consistent h live quotes ts hd, hc.add (subset_append_left _ _) rfl rfl
    (executed (replenish w.adapter.book live quotes).1) (fun id => ?_)
    (fun id hid hm => ?_) fun id hm => ?_⟩
  · show executed (w.tape ++ (replenish w.adapter.book live quotes).1) id + w.swept id = _
    rw [executed_append, taken]
    omega
  · rw [replenish_filledQty h live quotes ts hd hr fun _ => hid, if_pos hm]
  · rw [replenish_filledQty h live quotes ts hd hr fun hn => absurd hn hm, if_neg hm]
    simp

end Replenish

end Steps

/-! ## Submitting -/

section Submit

variable {o : OrderEvent} {draw : ℚ} {S : Nat → Prop}

/-- What the book did with a submitted order. -/
def Placed (S : Nat → Prop) (cfg : LocalBookConfig) (a : LocalBook) (o : OrderEvent)
    (P P' : List Nat) : Prop :=
  Added S a.book P (bookOrder cfg a o) (a.place cfg o).2.1 (a.place cfg o).2.2.book P'

variable (hp : Placed S cfg a o P P')
  (hfresh : o.orderId ∉ (P.map a.book.orders).map Order.orderId)

include hp in
theorem placed_own : ∀ t ∈ (a.place cfg o).2.1, (half o.side.book t).orderId = o.orderId :=
  hp.takes.own

include hp hfresh in
theorem placed_counter :
    ∀ t ∈ (a.place cfg o).2.1, (half o.side.book.contra t).orderId ≠ o.orderId := by
  intro t ht he
  obtain ⟨c, hc, hid⟩ := hp.takes.counter t ht
  exact hfresh (mem_map.2 ⟨c, hc, hid.symm.trans he⟩)

include hp hfresh in
/-- The loop over the trades makes the entries for them. -/
theorem submitOrder_eq (hacc : a.accepts cfg o draw) : a.submitOrder cfg o draw =
    (a.place cfg o).2.2.recordAll cfg
      (submitReports o a.book.orderCount (a.place cfg o).2.1) := by
  rw [submitOrder, if_pos hacc]
  exact foldl_recordTrade (placed_own hp) (placed_counter hp hfresh) _

include hp hfresh in
theorem placed_not_named : ∀ r ∈ submitReports o a.book.orderCount (a.place cfg o).2.1,
    ¬ r.names o.orderId := by
  intro r hr
  obtain ⟨t, ht, hr⟩ := mem_flatMap.1 hr
  rcases mem_cons.1 hr with rfl | hr
  · exact fun hn => placed_counter hp hfresh t ht (of_decide_eq_true hn)
  · rw [mem_singleton.1 hr]
    exact Bool.noConfusion

include hp in
/-- No resting order is entered twice. -/
theorem placed_count_le_one (id : Nat) :
    (submitReports o a.book.orderCount (a.place cfg o).2.1).countP (Report.names id) ≤ 1 := by
  rw [countP_names_submitReports]
  exact nodup_iff_count_le_one.1 hp.takes.nodup id

include hp hfresh in
/-- The table is right about the submitted order: its good-till-cancel remainder is tracked. -/
theorem placed_tracks_self (hholds : Holds a.book P) (hnone : a.resting.lookup o.orderId = none) :
    TracksAt ((a.place cfg o).2.2.recordAll cfg
      (submitReports o a.book.orderCount (a.place cfg o).2.1)) P' o.orderId := by
  set a₁ := (a.place cfg o).2.2
  set ts := (a.place cfg o).2.1
  have hself : a₁.book.orders a.book.orderCount =
      (bookOrder cfg a o).less (executed ts o.orderId) := hp.object_self
  have hlookup : (a₁.recordAll cfg (submitReports o a.book.orderCount ts)).resting.lookup
      o.orderId = a₁.resting.lookup o.orderId := by
    rw [recordAll_lookup, if_neg]
    rintro ⟨hany, -⟩
    obtain ⟨r, hr, hn⟩ := any_eq_true.1 hany
    exact placed_not_named hp hfresh r hr hn
  refine ⟨fun ri hri => ?_, fun r hr hid hrem => ?_⟩
  · rw [hlookup, place_lookup, hnone] at hri
    split at hri
    · next hcond =>
      obtain ⟨-, htype, hrem⟩ := hcond
      cases hri
      rw [recordAll_book]
      refine ⟨hp.rests htype ?_, congrArg Order.orderId hself, hrem⟩
      have hrem' : 0 < (a₁.book.orders a.book.orderCount).remainingQuantity := hrem
      rw [hself, Order.less_remainingQuantity] at hrem'
      have hlt : executed ts o.orderId < (bookOrder cfg a o).remainingQuantity := by omega
      exact hlt
    · cases hri
  · rw [recordAll_book] at hid hrem
    rcases mem_append.1 (hp.subset hr) with hrP | hrp
    · have hid' : (a.book.orders r).orderId = o.orderId := by
        rw [← hp.orderId r (hholds.lt hrP)]
        exact hid
      exact absurd (mem_map.2 ⟨_, mem_map_of_mem hrP, hid'⟩) hfresh
    · rw [mem_singleton.1 hrp] at hr hrem
      have htype := hp.quiet.gtc _ (mem_map_of_mem hr)
      have htype' : bookOrderType o.tif = .goodTillCancel := by
        rw [hp.object_self] at htype
        exact htype
      rw [hlookup, place_lookup, if_pos ⟨rfl, htype', hrem⟩]
      rfl

include hp hfresh in
/-- What the entries add for each order. -/
theorem placed_filledQty (hfade : cfg.fadeRate = 0) (id : Nat) :
    filledQty ((a.place cfg o).2.2.recordAll cfg
      (submitReports o a.book.orderCount (a.place cfg o).2.1)).pendingFills id =
    filledQty a.pendingFills id + ((if id = o.orderId ∨ (a.resting.lookup id).isSome then
      executed (a.place cfg o).2.1 id else 0 : Nat) : ℚ) / cfg.qtyScale := by
  rw [recordAll_filledQty hfade fun _ => placed_count_le_one hp id, place_pendingFills,
    sum_takerQty_submitReports (placed_own hp) (placed_counter hp hfresh)]
  by_cases hid : id = o.orderId
  · rw [hid, sum_makerQty_eq_zero (placed_not_named hp hfresh)]
    simp
  · have hlookup : (a.place cfg o).2.2.resting.lookup id = a.resting.lookup id := by
      rw [place_lookup, if_neg fun hc => hid hc.1.symm]
    rw [hlookup, sum_makerQty_submitReports (placed_own hp) hid, if_neg (Ne.symm hid)]
    simp [hid]

end Submit

/-- The order an adapter accepts goes to a book that follows the other orders. -/
theorem submit_placed (h : w.Consistent P) {o : OrderEvent} {draw : ℚ}
    (hd : Distinct w (.submit o draw)) :
    ∃ P', Placed (fun id => w.Followed id ∧ id ≠ o.orderId) cfg w.adapter o P P' :=
  h.holds.added _ _ _ _ h.quiet (h.fresh hd.1 hd.2).1 fun hs => hs.2 rfl

theorem submit_consistent (h : w.Consistent P) (o : OrderEvent) (draw : ℚ)
    (hd : Distinct w (.submit o draw)) : ∃ P', (step cfg w (.submit o draw)).2.Consistent P' := by
  obtain ⟨P', hp⟩ := @submit_placed cfg P w h o draw hd
  obtain ⟨hnew, hfor⟩ := hd
  obtain ⟨hfresh, hmod, hnone⟩ := h.fresh hnew hfor
  have hsub : ∀ id ∈ (w.submitted ++ [o]).map OrderEvent.orderId, id ∉ w.foreign := by
    intro id hid
    rcases mem_orderIds_snoc.1 hid with hid | rfl
    · exact h.disjoint id hid
    · exact hfor
  have hknow : ∀ id, id ∈ w.submittedIds ∨ id ∈ w.foreign →
      id ∈ (w.submitted ++ [o]).map OrderEvent.orderId ∨ id ∈ w.foreign :=
    fun id => Or.imp_left fun hid => mem_orderIds_snoc.2 (.inl hid)
  rw [step_submit]
  by_cases hacc : w.adapter.accepts cfg o draw
  · rw [submitOrder_eq hp hfresh hacc]
    set a₁ := (w.adapter.place cfg o).2.2
    have hlookup : ∀ id, id ≠ o.orderId → a₁.resting.lookup id = w.adapter.resting.lookup id :=
      fun id hid => (place_lookup cfg w.adapter o id).trans (if_neg fun hcond => hid hcond.1.symm)
    refine ⟨P', ?_, ?_, ?_, hsub, fun id hm => hknow id (h.modified_known id hm), fun id hid => ?_,
      fun id hid => ?_⟩
    · rw [recordAll_book]
      exact hp.holds
    · rw [recordAll_book]
      exact hp.quiet
    · rw [recordAll_book]
      refine h.known_of_activity hp.toActivity hknow fun r _ hs => ?_
      by_cases hid : (a₁.book.orders r).orderId = o.orderId
      · exact .inl (mem_orderIds_snoc.2 (.inr hid))
      · by_cases hf : (a₁.book.orders r).orderId ∈ w.foreign
        · exact .inr hf
        · exact hknow _ (h.modified_known _ fun hm => hs ⟨⟨hf, hm⟩, hid⟩)
    · rw [recordAll_lookup] at hid
      split at hid
      · cases hid
      · by_cases hself : id = o.orderId
        · exact ⟨mem_orderIds_snoc.2 (.inr hself), hself ▸ hmod⟩
        · rw [hlookup id hself] at hid
          obtain ⟨hsubm, hm⟩ := h.tracked id hid
          exact ⟨mem_orderIds_snoc.2 (.inl hsubm), hm⟩
    · by_cases hself : id = o.orderId
      · subst hself
        exact placed_tracks_self hp hfresh h.holds hnone
      · exact (h.tracks id hid).record h.holds hp.toActivity ⟨hid, hself⟩ rfl (hlookup id hself)
          (sum_makerQty_submitReports (placed_own hp) hself)
  · -- The order is dropped; only its id is used up.
    rw [submitOrder, if_neg hacc]
    refine ⟨P, h.holds, h.quiet, fun r hr => hknow _ (h.known r hr), hsub,
      fun id hm => hknow id (h.modified_known id hm), fun id hid => ?_, h.tracks⟩
    obtain ⟨hid, hm⟩ := h.tracked id hid
    exact ⟨mem_orderIds_snoc.2 (.inl hid), hm⟩

theorem submit_step (hfade : cfg.fadeRate = 0) (h : w.Consistent P) (hc : w.Conserves cfg)
    (o : OrderEvent) (draw : ℚ) (hd : Distinct w (.submit o draw)) :
    (∃ P', (step cfg w (.submit o draw)).2.Consistent P') ∧
      (step cfg w (.submit o draw)).2.Conserves cfg := by
  refine ⟨submit_consistent h o draw hd, ?_⟩
  obtain ⟨P', hp⟩ := @submit_placed cfg P w h o draw hd
  obtain ⟨hfresh, hmod, -⟩ := h.fresh hd.1 hd.2
  rw [step_submit, submitTrades]
  by_cases hacc : w.adapter.accepts cfg o draw
  · rw [if_pos hacc, submitOrder_eq hp hfresh hacc]
    set ts := (w.adapter.place cfg o).2.1
    refine hc.add (Subset.refl _) rfl rfl (executed ts) (fun id => ?_)
      (fun id hid hm => ?_) fun id hm => ?_
    · show executed (w.tape ++ ts) id + w.swept id = w.taken id + executed ts id
      rw [executed_append, taken]
      omega
    · rw [placed_filledQty hp hfresh hfade id]
      by_cases hcond : id = o.orderId ∨ (w.adapter.resting.lookup id).isSome
      · rw [if_pos hcond]
      · obtain ⟨hself, hun⟩ := not_or.1 hcond
        rw [if_neg hcond, (h.tracks id ⟨hid, hm⟩).executed_eq_zero hp.toActivity
          ⟨⟨hid, hm⟩, hself⟩ (Option.not_isSome_iff_eq_none.1 hun)]
    · have hcond : ¬ (id = o.orderId ∨ (w.adapter.resting.lookup id).isSome) := by
        rintro (rfl | hsome)
        · exact hm hmod
        · exact hm (h.tracked id hsome).2
      rw [placed_filledQty hp hfresh hfade id, if_neg hcond]
      simp
  · rw [submitOrder, if_neg hacc, if_neg hacc]
    intro id hid
    have hold := hc id hid
    rw [counted, taken] at hold ⊢
    rw [append_nil]
    exact hold

/-! ## Whole runs -/

theorem consistent_init : World.init.Consistent [] where
  holds := Orderbook.holds_init
  quiet := quiet_nil
  known := nofun
  disjoint := nofun
  modified_known := fun _ hm => absurd rfl hm
  tracked := fun _ hid => by cases hid
  tracks := fun _ _ =>
    ⟨fun _ hri => absurd hri (by simp [World.init, init]),
      nofun⟩

/-- One step keeps the table right and the fills complete. -/
theorem step_conserves (hfade : cfg.fadeRate = 0) (op : Op)
    (h : (∃ P, w.Consistent P) ∧ w.Conserves cfg) (hd : Distinct w op) (hr : Reportable cfg w op) :
    (∃ P, (step cfg w op).2.Consistent P) ∧ (step cfg w op).2.Conserves cfg := by
  obtain ⟨⟨P, h⟩, hc⟩ := h
  cases op with
  | submit o draw => exact submit_step hfade h hc o draw hd
  | cancel id latency => exact cancel_step h hc id latency
  | modify id price qty => exact modify_step h hc id price qty hr
  | advanceTime ts order => exact advanceTime_step h hc ts order
  | sweep symbol low high ts order => exact sweep_step h hc symbol low high ts order
  | replenish live quotes ts => exact replenish_step h hc live quotes ts hd hr
  | poll => exact poll_step h hc
  | setMidPrice price | setL2Seeded seeded =>
    exact ⟨⟨P, h.withAdapter rfl fun _ => rfl⟩, hc.withAdapter rfl⟩

/-- **The fills of an order add up to what was executed and swept for it, up to its
modification.** -/
theorem filledQty_reported_eq (cfg : LocalBookConfig) (hfade : cfg.fadeRate = 0) (ops : List Op)
    (hops : Along (step cfg) (fun w op => Distinct w op ∧ Reportable cfg w op)
      World.init ops) :
    ∀ w ∈ states (step cfg) World.init ops, ∀ o ∈ w.submitted,
      filledQty w.reported o.orderId = w.counted o.orderId / cfg.qtyScale := by
  have hinit : (∃ P, World.init.Consistent P) ∧ World.init.Conserves cfg :=
    ⟨⟨[], consistent_init⟩, fun id _ => by
      simp [reported, World.init, init, counted, taken]⟩
  intro w hw o ho
  obtain ⟨⟨P, h⟩, hc⟩ := invariant (I := fun w => (∃ P, w.Consistent P) ∧ w.Conserves cfg)
    (fun w op hw hop => step_conserves hfade op hw hop.1 hop.2) hinit hops w hw
  exact hc _ (h.disjoint _ (mem_map_of_mem ho))

/-- A bid that another party hits, that is modified, hit again and cancelled, and one that is
swept. -/
def exampleRun : List Op :=
  [.submit (.new 0 1 "BTC" .limit .buy 5 10 .gtc 0) 0,
    .replenish [] [⟨.goodTillCancel, 2, .sell, 90000, 2⟩] 1,
    .modify 1 9 4,
    .submit (.new 2 3 "BTC" .limit .buy 7 10 .gtc 0) 0,
    .replenish [2] [⟨.goodTillCancel, 4, .sell, 90000, 8⟩] 3,
    .cancel 1 0,
    .submit (.new 4 5 "BTC" .limit .buy 2 8 .gtc 0) 0,
    .sweep "BTC" 7 12 5 .id]

theorem filledQty_reported_of_exampleRun :
    let w := final (step plainConfig) World.init exampleRun
    0 < w.counted 3 ∧ filledQty w.reported 3 = w.counted 3 / plainConfig.qtyScale := by
  intro w
  have hsubmitted : ∃ o ∈ w.submitted, o.orderId = 3 := by decide +kernel
  obtain ⟨o, ho, hid⟩ := hsubmitted
  have heq := filledQty_reported_eq plainConfig rfl exampleRun (by decide +kernel) w
    (final_mem_states _ _) o ho
  rw [hid] at heq
  exact ⟨by decide +kernel, heq⟩

/-- A bid that is modified and then hit. -/
def modifiedRun : List Op :=
  [.submit (.new 0 1 "BTC" .limit .buy 5 10 .gtc 0) 0, .modify 1 10 5,
    .replenish [] [⟨.goodTillCancel, 2, .sell, 90000, 3⟩] 1]

/-- Three units are executed for the modified bid, and none is reported. -/
theorem filledQty_reported_ne_of_modifiedRun :
    ¬ ∀ cfg : LocalBookConfig, cfg.fadeRate = 0 → ∀ ops : List Op,
      Along (step cfg) Distinct World.init ops →
      ∀ w ∈ states (step cfg) World.init ops, ∀ o ∈ w.submitted,
        filledQty w.reported o.orderId = w.taken o.orderId / cfg.qtyScale := by
  intro h
  have hlast := h plainConfig rfl modifiedRun (by decide +kernel) _
    (final_mem_states World.init modifiedRun) (.new 0 1 "BTC" .limit .buy 5 10 .gtc 0)
    (by decide +kernel)
  exact absurd hlast (by decide +kernel)

end TrueTest.LocalBook
