import TrueTest.Execution.Conservation
import TrueTest.Execution.SharedBook

/-!
# Orders that reached the book

The adapter's fills fade under a fill model, so they do not add up to what the book executed. The
live quantity does: an order that reached the book and was not cancelled is live for what was not
executed of it (`Booked`). This holds over submissions, cancels and quotes of others, and over
clearing the book while nothing of the adapter rests there.
-/

namespace TrueTest.LocalBook

open Arrival List MarketMaker
open Orderbook (Holds Activity)

/-! ## What a submission leaves live -/

variable {cfg : LocalBookConfig} {w : World} {P : List Nat} {o : OrderEvent} {draw : ℚ}
  {book : Orderbook}

theorem submitOrder_book (cfg : LocalBookConfig) (a : LocalBook) (o : OrderEvent) (draw : ℚ) :
    (a.submitOrder cfg o draw).book =
      if a.accepts cfg o draw then (a.place cfg o).2.2.book else a.book := by
  rw [submitOrder]
  split
  · exact (recordTrades_thins o _ _ _).book
  · rfl

section

variable (h : w.Consistent P) (hd : LocalBook.Distinct w (.submit o draw)) {id : Nat}
include h hd

theorem liveQty_submitOrder (hid : w.Followed id) (hne : id ≠ o.orderId) :
    liveQty (w.adapter.submitOrder cfg o draw).book id +
      executed (submitTrades cfg w.adapter o draw) id = liveQty w.adapter.book id := by
  obtain ⟨P', hp⟩ := @submit_placed cfg P w h o draw hd
  rw [submitOrder_book, submitTrades]
  split
  · exact liveQty_add_executed h.holds hp.toActivity ⟨hid, hne⟩
  · rfl

/-- The submitted order is live for what was not executed of it. -/
theorem liveQty_submitOrder_self (hacc : w.adapter.accepts cfg o draw)
    (htype : bookOrderType o.tif = .goodTillCancel) :
    liveQty (w.adapter.submitOrder cfg o draw).book o.orderId +
      executed (submitTrades cfg w.adapter o draw) o.orderId = bookQuantity cfg o.quantity := by
  obtain ⟨P', hp⟩ := @submit_placed cfg P w h o draw hd
  obtain ⟨hfresh, -, -⟩ := h.fresh hd.1 hd.2
  rw [submitOrder_book, submitTrades, if_pos hacc, if_pos hacc]
  set a := w.adapter
  set ts := (a.place cfg o).2.1
  have hself : (a.place cfg o).2.2.book.orders a.book.orderCount =
      (bookOrder cfg a o).less (executed ts o.orderId) := hp.object_self
  have hbound : executed ts o.orderId ≤ bookQuantity cfg o.quantity := hp.bound_self
  by_cases hmem : a.book.orderCount ∈ P'
  · have hqty := liveQty_of_mem hp.holds hmem
    rw [hself, Order.less_orderId, Order.less_remainingQuantity] at hqty
    have hqty' : liveQty (a.place cfg o).2.2.book o.orderId =
        bookQuantity cfg o.quantity - executed ts o.orderId := hqty
    rw [hqty', Nat.sub_add_cancel hbound]
  · -- An order that does not rest was executed in full.
    have hall : ¬ executed ts o.orderId < bookQuantity cfg o.quantity := fun hlt =>
      hmem (hp.rests htype hlt)
    rw [liveQty_of_absent hp.holds fun r hr hid => ?_]
    · omega
    · rcases mem_append.1 (hp.subset hr) with hrP | hrp
      · refine hfresh (mem_map.2 ⟨_, mem_map_of_mem hrP, ?_⟩)
        rw [← hp.orderId r (h.holds.lt hrP)]
        exact hid
      · exact hmem (mem_singleton.1 hrp ▸ hr)

/-- An unused id is in none of the trades. -/
theorem executed_submitTrades_eq_zero (hsub : id ∉ w.submittedIds) (hfor : id ∉ w.foreign)
    (hne : id ≠ o.orderId) : executed (submitTrades cfg w.adapter o draw) id = 0 := by
  obtain ⟨hfresh, hmod, -⟩ := h.fresh hsub hfor
  have hlive := @liveQty_submitOrder cfg w P o draw h hd id ⟨hfor, hmod⟩ hne
  have hzero : liveQty w.adapter.book id = 0 := by
    refine liveQty_of_absent h.holds fun r hr hid => hfresh ?_
    exact mem_map.2 ⟨_, mem_map_of_mem hr, hid⟩
  omega

end

theorem onBook_of_liveQty {id : Nat} (h : Holds book P) (hpos : 0 < liveQty book id) :
    ∃ held, OnBook book id held ∧ held.remainingQuantity = liveQty book id := by
  rw [liveQty] at hpos ⊢
  cases hn : book.orderMap.lookup id with
  | none =>
    rw [hn] at hpos
    exact absurd hpos (lt_irrefl 0)
  | some n =>
    obtain ⟨L, F, hrep, -⟩ := h
    have hnL := ((hrep.map id n).1 hn).1
    exact ⟨book.orderOf n, ⟨n, hrep.perm_queuedNodes.mem_iff.2 hnL, hn, rfl⟩, rfl⟩

/-! ## Orders that reached the book -/

/-- The adapter's table is right, and each order that reached the book is live for what was not
executed of it. -/
structure Booked (cfg : LocalBookConfig) (w : World) (entered : List OrderEvent)
    (cancelled : List Nat) : Prop where
  consistent : ∃ P, w.Consistent P
  unmodified : w.modified = ∅
  submitted : ∀ o ∈ entered, o.orderId ∈ w.submittedIds
  unused : ∀ id, id ∉ w.submittedIds → id ∉ w.foreign → executed w.tape id = 0
  live : ∀ o ∈ entered, bookOrderType o.tif = .goodTillCancel → o.orderId ∉ cancelled →
    liveQty w.adapter.book o.orderId + executed w.tape o.orderId = bookQuantity cfg o.quantity

variable {entered : List OrderEvent} {cancelled : List Nat} {a : LocalBook} {quotes : List Quote}

section

variable (h : Booked cfg w entered cancelled)
include h

theorem Booked.followed (ho : o ∈ entered) : w.Followed o.orderId := by
  obtain ⟨P, hcons⟩ := h.consistent
  exact ⟨hcons.disjoint _ (h.submitted o ho), by rw [h.unmodified]; rfl⟩

theorem Booked.withAdapter (hbook : a.book = w.adapter.book)
    (hresting : a.resting = w.adapter.resting) :
    Booked cfg { w with adapter := a } entered cancelled := by
  obtain ⟨P, hcons⟩ := h.consistent
  refine ⟨⟨P, hcons.withAdapter hbook fun _ => by rw [hresting]⟩, h.unmodified, h.submitted,
    h.unused, ?_⟩
  rw [hbook]
  exact h.live

theorem Booked.submit (hd : Distinct w (.submit o draw)) :
    Booked cfg (step cfg w (.submit o draw)).2
      (if w.adapter.accepts cfg o draw then entered ++ [o] else entered) cancelled := by
  obtain ⟨P, hcons⟩ := h.consistent
  have hids : ∀ id, id ∈ (step cfg w (.submit o draw)).2.submittedIds ↔
      id ∈ w.submittedIds ∨ id = o.orderId := fun id => by
    simp [World.submittedIds, step, World.next]
  have hcases : ∀ o' ∈ if w.adapter.accepts cfg o draw then entered ++ [o] else entered,
      o' ∈ entered ∨ w.adapter.accepts cfg o draw ∧ o' = o := by
    intro o' ho'
    split at ho'
    · next hacc => exact (mem_append.1 ho').imp_right fun hm => ⟨hacc, mem_singleton.1 hm⟩
    · exact .inl ho'
  refine ⟨submit_consistent hcons o draw hd, h.unmodified, fun o' ho' => ?_, fun id hsub hfor => ?_,
    fun o' ho' htype hcancel => ?_⟩
  · refine (hids _).2 ?_
    rcases hcases o' ho' with ho' | ⟨-, rfl⟩
    · exact .inl (h.submitted o' ho')
    · exact .inr rfl
  · obtain ⟨hold, hne⟩ := not_or.1 fun hor => hsub ((hids id).2 hor)
    show executed (w.tape ++ _) id = 0
    rw [executed_append, h.unused id hold hfor]
    exact (Nat.zero_add _).trans (executed_submitTrades_eq_zero hcons hd hold hfor hne)
  · show liveQty (w.adapter.submitOrder cfg o draw).book o'.orderId +
      executed (w.tape ++ submitTrades cfg w.adapter o draw) o'.orderId = _
    rw [executed_append]
    rcases hcases o' ho' with ho' | ⟨hacc, rfl⟩
    · have hne : o'.orderId ≠ o.orderId := fun he => hd.1 (he ▸ h.submitted o' ho')
      have hkeep := @liveQty_submitOrder cfg w P o draw hcons hd _ (h.followed ho') hne
      have hlive := h.live o' ho' htype hcancel
      omega
    · rw [h.unused _ hd.1 hd.2, Nat.zero_add]
      exact liveQty_submitOrder_self hcons hd hacc htype

theorem Booked.pull (id : Nat) :
    Booked cfg { w with adapter := w.adapter.pull id } entered (cancelled ++ [id]) := by
  obtain ⟨P, hcons⟩ := h.consistent
  obtain ⟨P', hpull, hact, -⟩ := hcons.pull id
  refine ⟨⟨P', hpull⟩, h.unmodified, h.submitted, h.unused, fun o ho htype hcancel => ?_⟩
  obtain ⟨hold, hne⟩ := not_or.1 fun hor => hcancel (mem_append.2 hor)
  have hkeep := liveQty_of_activity hcons.holds hact fun he => hne (mem_singleton.2 he)
  rw [hkeep]
  exact h.live o ho htype hold

/-- Other parties' activity under ids of their own. -/
theorem Booked.activity {foreign : List Nat} {ts : Trades} {P P' : List Nat}
    (hcons : w.Consistent P)
    (hact : Activity (fun id => id ∉ w.foreign ++ foreign ∧ w.modified.lookup id = none)
      w.adapter.book P ts a.book P')
    (hforeign : ∀ id ∈ foreign, id ∉ w.submittedIds)
    (hcons' : ∃ P', World.Consistent
      { w with tape := w.tape ++ ts, foreign := w.foreign ++ foreign, adapter := a } P') :
    Booked cfg { w with tape := w.tape ++ ts, foreign := w.foreign ++ foreign, adapter := a }
      entered cancelled := by
  have hS : ∀ id, id ∉ w.foreign ++ foreign →
      liveQty a.book id + executed ts id = liveQty w.adapter.book id := fun id hid =>
    liveQty_add_executed hcons.holds hact ⟨hid, by rw [h.unmodified]; rfl⟩
  refine ⟨hcons', h.unmodified, h.submitted, fun id hsub hfor => ?_, fun o ho htype hcancel => ?_⟩
  · have hfor' : id ∉ w.foreign := fun hm => hfor (mem_append_left _ hm)
    have hzero : liveQty w.adapter.book id = 0 := by
      refine liveQty_of_absent hcons.holds fun r hr hid => (hcons.fresh hsub hfor').1 ?_
      exact mem_map.2 ⟨_, mem_map_of_mem hr, hid⟩
    have hkeep := hS id hfor
    rw [executed_append, h.unused id hsub hfor']
    omega
  · have hkeep := hS o.orderId fun hm => (mem_append.1 hm).elim
      (hcons.disjoint _ (h.submitted o ho)) fun hm => hforeign _ hm (h.submitted o ho)
    have hlive := h.live o ho htype hcancel
    show liveQty a.book o.orderId + executed (w.tape ++ ts) o.orderId = _
    rw [executed_append]
    omega

theorem Booked.replenish {live : List Nat} {ts : Int}
    (hd : Distinct w (.replenish live quotes ts)) :
    Booked cfg (step cfg w (.replenish live quotes ts)).2 entered cancelled := by
  obtain ⟨P, hcons⟩ := h.consistent
  obtain ⟨P', hact⟩ := replenish_followed hcons live quotes ts hd
  set r := MarketMaker.replenish w.adapter.book live quotes
  have hbook : ({ w.adapter with book := r.2 }.onBookTrades cfg r.1 ts).book = r.2 :=
    (onBookTrades_thins r.1 ts { w.adapter with book := r.2 }).book
  rw [← hbook] at hact
  refine h.activity hcons hact (fun id hid => ?_) (replenish_consistent hcons live quotes ts hd)
  obtain ⟨q, hq, rfl⟩ := mem_map.1 hid
  exact hd.2 q hq

end

/-- Clearing the book is activity of others if nothing that they see rests. -/
theorem clear_activity {S : Nat → Prop} (h : Holds book P)
    (hS : ∀ r ∈ P, S (book.orders r).orderId → (book.orders r).remainingQuantity = 0) :
    Activity S book P [] book.clear [] := by
  have heff := h.clear
  have horders := heff.orders_eq
  exact {
    holds := heff.holds
    quiet := Reference.quiet_nil
    orderCount := heff.orderCount.ge
    orderId := fun r _ => by rw [horders]
    object := fun r _ _ => by rw [horders]; rfl
    bound := fun _ _ _ => Nat.zero_le _
    frame := fun r _ _ => by rw [horders]
    stays := fun r hr hSr hlt => by
      rw [hS r hr hSr] at hlt
      exact absurd hlt (Nat.not_lt_zero _)
    members := nofun
    origin := nofun
    absent := fun _ _ _ => rfl }

/-- Clearing the book and seeding it anew, when no order of the table has anything left. -/
theorem Booked.clear (h : Booked cfg w entered cancelled)
    (hquotes : ∀ q ∈ quotes, q.id ∉ w.submittedIds) (hnone : ∀ e ∈ w.adapter.resting.entries,
      (w.adapter.book.orders e.2.bookOrder).remainingQuantity = 0) :
    Booked cfg { w with
      tape := w.tape ++ (addQuotes quotes w.adapter.book.clear).1
      foreign := w.foreign ++ quotes.map Quote.id
      adapter := { w.adapter with
        book := (addQuotes quotes w.adapter.book.clear).2 } } entered cancelled ∧
    ∀ id, id ∉ w.foreign ++ quotes.map Quote.id →
      executed (addQuotes quotes w.adapter.book.clear).1 id = 0 := by
  obtain ⟨P, hcons⟩ := h.consistent
  set foreign := w.foreign ++ quotes.map Quote.id
  set S := fun id => id ∉ foreign ∧ w.modified.lookup id = none
  have hmod : ∀ id, w.modified.lookup id = none := fun id => by rw [h.unmodified]; rfl
  have hfol : ∀ id, id ∉ foreign → w.Followed id := fun id hid =>
    ⟨fun hm => hid (mem_append_left _ hm), hmod id⟩
  -- The table is empty, since what it follows has something left.
  have huntracked : ∀ id, w.adapter.resting.lookup id = none := by
    intro id
    by_contra hsome
    obtain ⟨ri, hri⟩ := Option.ne_none_iff_exists'.1 hsome
    obtain ⟨hsub, hm⟩ := hcons.tracked id (by rw [hri]; rfl)
    have hrem := ((hcons.tracks id ⟨hcons.disjoint id hsub, hm⟩).live ri hri).2.2
    exact hrem.ne' (hnone ⟨id, ri⟩ (AList.mem_lookup_iff.1 hri))
  have hempty : ∀ r ∈ P, S (w.adapter.book.orders r).orderId →
      (w.adapter.book.orders r).remainingQuantity = 0 := by
    intro r hr hSr
    by_contra hpos
    have hsome := (hcons.tracks _ (hfol _ hSr.1)).covers r hr rfl (Nat.pos_of_ne_zero hpos)
    rw [huntracked] at hsome
    cases hsome
  have hclear := clear_activity hcons.holds hempty
  have hS : ∀ q ∈ quotes, ¬ S q.id := fun q hq hs =>
    hs.1 (mem_append_right _ (mem_map_of_mem hq))
  obtain ⟨P', hadd⟩ := addQuotes_activity hclear.holds hclear.quiet hS
  have hact := hclear.trans hadd hcons.holds
  rw [nil_append] at hact
  have hzero : ∀ id, id ∉ foreign →
      executed (addQuotes quotes w.adapter.book.clear).1 id = 0 := fun id hid =>
    (hcons.tracks id (hfol id hid)).executed_eq_zero hact ⟨hid, hmod id⟩ (huntracked id)
  have hsub : ∀ id ∈ quotes.map Quote.id, id ∉ w.submittedIds := by
    intro id hid
    obtain ⟨q, hq, rfl⟩ := mem_map.1 hid
    exact hquotes q hq
  refine ⟨h.activity (a := { w.adapter with
    book := (addQuotes quotes w.adapter.book.clear).2 }) hcons hact hsub
    ⟨P', hact.holds, hact.quiet, ?_, ?_, ?_, ?_, ?_⟩, hzero⟩
  · refine hcons.known_of_activity hact (fun id => Or.imp_right (mem_append_left _))
      fun r _ hs => .inr ?_
    by_contra hno
    exact hs ⟨hno, hmod _⟩
  · intro id hid hm
    rcases mem_append.1 hm with hm | hm
    · exact hcons.disjoint id hid hm
    · exact hsub id hm hid
  · exact fun id hm => absurd (hmod id) hm
  · intro id hid
    have hid' : (w.adapter.resting.lookup id).isSome := hid
    rw [huntracked] at hid'
    cases hid'
  · intro id hid
    refine (hcons.tracks id (hfol id hid.1)).update hcons.holds hact hid rfl ?_
    rw [huntracked]
    rfl

end TrueTest.LocalBook
