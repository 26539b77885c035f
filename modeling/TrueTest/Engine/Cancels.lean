import TrueTest.Engine.Venue

/-!
# Cancelled orders

An order that the engine cancels rests in the book, waits for its trigger in `pending_stops_`, or
waits for its time in `pending_orders_`. `cancel_order` asks the adapter first and looks at the
stops only if the adapter refuses; the paper adapter never does, and nothing looks at the deferred
orders. So a cancel is final for an order that waits nowhere: the adapter forgets it, and the
engine, which places only ids that are new or that wait, does not place it again.
-/

namespace TrueTest

open Machine List LocalBook

/-! ## The adapter -/

variable {o : OrderEvent} {f : FillEvent} {fills : List FillEvent} {symbol : String}
  {ok : OrderEvent → Prop} {acts : List Act}

namespace Venue

variable (v : Venue) {cfg : LocalBookConfig} {w : World} {I : World → Prop} {id : Nat}
  {moves : List (String × Move)}

/-- The adapter will not report a fill of the order: it tracks it no longer, and none is waiting. -/
structure Dead (id : Nat) (w : World) : Prop where
  untracked : w.adapter.resting.lookup id = none
  fills : ∀ f ∈ w.adapter.pendingFills, f.orderId ≠ id

theorem Dead.emits {K : FillEvent → Prop} {w' : World} (h : Dead id w)
    (hemits : Emits K w.adapter w'.adapter) (hK : ∀ f, K f → f.orderId ≠ id) : Dead id w' := by
  obtain ⟨new, hnew, hall⟩ := hemits.fills
  refine ⟨hemits.untracked id h.untracked, fun f hf => ?_⟩
  rw [hnew] at hf
  rcases mem_append.1 hf with hf | hf
  · exact h.fills f hf
  · exact hK f (hall f hf)

theorem Dead.not_tracked (h : Dead id w) (hf : Tracked w.adapter f) : f.orderId ≠ id := by
  intro heq
  exact hf (heq ▸ h.untracked)

theorem Dead.submit (h : Dead id w) (draw : ℚ) (ho : o.orderId ≠ id) :
    Dead id (LocalBook.step cfg w (.submit o draw)).2 := by
  have hadapter : (LocalBook.step cfg w (.submit o draw)).2.adapter =
    w.adapter.submitOrder cfg o draw := rfl
  cases hacc : w.adapter.accepts cfg o draw with
  | false =>
    have hsame : (LocalBook.step cfg w (.submit o draw)).2.adapter = w.adapter := by
      rw [hadapter, LocalBook.submitOrder, hacc]
      rfl
    exact ⟨hsame ▸ h.untracked, hsame ▸ h.fills⟩
  | true =>
    have hlookup : (w.adapter.place cfg o).2.2.resting.lookup id = none := by
      rw [LocalBook.place_lookup, if_neg fun hc => ho hc.1]
      exact h.untracked
    have hplaced : Dead id { w with adapter := (w.adapter.place cfg o).2.2 } := ⟨hlookup, h.fills⟩
    refine hplaced.emits (hadapter ▸ LocalBook.submitOrder_emits hacc) fun f hf => ?_
    rcases hf with hf | hf
    · exact hplaced.not_tracked hf
    · exact fun heq => ho (hf.1.symm.trans heq)

/-- Only a submit of the order itself brings it back. -/
theorem Dead.move (h : Dead id w) (m : Move)
    (hm : ∀ o draw, m = .adapter (.submit o draw) → o.orderId ≠ id) : Dead id (move cfg w m) := by
  cases m with
  | adapter op =>
    cases op with
    | submit o draw => exact h.submit draw (hm o draw rfl)
    | cancel x latency =>
      exact h.emits (K := fun _ => False) (cancelOrder_emits x latency) fun _ hf => hf.elim
    | modify x price qty =>
      exact ⟨lookup_erase_eq_none h.untracked, h.fills⟩
    | advanceTime ts order =>
      exact h.emits (K := fun _ => False) (advanceTime_emits ts order) fun _ hf => hf.elim
    | sweep symbol low high ts order =>
      exact h.emits (sweepRestingRange_emits symbol low high ts order) fun _ hf => h.not_tracked hf
    | replenish live quotes ts =>
      set traded := MarketMaker.replenish w.adapter.book live quotes
      have hbook : Dead id { w with adapter := { w.adapter with book := traded.2 } } :=
        ⟨h.untracked, h.fills⟩
      exact hbook.emits (onBookTrades_emits traded.1 ts) fun _ hf => hbook.not_tracked hf
    | poll => exact ⟨h.untracked, nofun⟩
    | setMidPrice price | setL2Seeded seeded => exact ⟨h.untracked, h.fills⟩
  | _ => exact ⟨h.untracked, h.fills⟩

theorem dead_init (id : Nat) (symbol : String) : Dead id (init symbol) :=
  ⟨AList.lookup_empty id, nofun⟩

/-- After a cancel that finds no fill waiting. -/
theorem dead_cancel (w : World) (id : Nat) (latency : Int) (hlatency : cfg.hasLatencyModel = false)
    (hfills : w.adapter.pendingFills = []) :
    Dead id (LocalBook.step cfg w (.cancel id latency)).2 := by
  have hpull : w.adapter.cancelOrder cfg id latency = w.adapter.pull id := by
    simp [cancelOrder, hlatency]
  show Dead id { w with adapter := w.adapter.cancelOrder cfg id latency }
  rw [hpull]
  refine ⟨AList.lookup_erase _ _, fun f hf => ?_⟩
  rw [show (w.adapter.pull id).pendingFills = [] from hfills] at hf
  cases hf

/-- The moves at other symbols leave an adapter alone. -/
theorem step_of_ne (m : String × Move) (h : symbol ≠ m.1) :
    (step cfg v m).2 symbol = v symbol := Function.update_of_ne h _ v

/-- The moves keep `I` at every symbol as long as the orders that are submitted are `ok`. -/
def Moves (cfg : LocalBookConfig) (I : World → Prop) (ok : OrderEvent → Prop) : Prop :=
  ∀ w m, I w → (∀ o draw, m = .adapter (.submit o draw) → ok o) → I (move cfg w m)

/-- What the moves keep holds through a run at the symbols in `S`. -/
theorem Moves.run (hmoves : Moves cfg I ok) {S : String → Prop} (v : Venue)
    (moves : List (String × Move))
    (hv : ∀ symbol, S symbol → I (v symbol)) (hallowed : Along (step cfg) Allowed v moves)
    (hsubmit : ∀ o, .submit o ∈ calls cfg v moves → S o.symbol → ok o) :
    ∀ symbol, S symbol → I (final (step cfg) v moves symbol) := by
  induction moves generalizing v with
  | nil => exact hv
  | cons m moves ih =>
    have hcalls : calls cfg v (m :: moves) =
        (step cfg v m).1.toList ++ calls cfg (step cfg v m).2 moves := visible_cons v m moves
    refine ih (step cfg v m).2 (fun symbol hsymbol => ?_) hallowed.2 fun o ho =>
      hsubmit o (hcalls ▸ mem_append_right _ ho)
    by_cases hsame : symbol = m.1
    · subst hsame
      have hmoved : (step cfg v m).2 m.1 = move cfg (v m.1) m.2 := Function.update_self m.1 _ v
      rw [hmoved]
      refine hmoves _ m.2 (hv m.1 hsymbol) fun o draw hm => ?_
      have hcall : (step cfg v m).1 = some (.submit o) := by simp [step, call?, hm]
      have hhere : o.symbol = m.1 := by simpa [Allowed, hm] using hallowed.1
      refine hsubmit o ?_ (hhere ▸ hsymbol)
      rw [hcalls, hcall]
      exact mem_cons_self
    · rw [step_of_ne v m hsame]
      exact hv symbol hsymbol

/-- A batch that is polled comes from an adapter in a state that the moves before it lead to. -/
theorem poll_mem_calls (h : .poll fills ∈ calls cfg v moves) :
    ∃ before m after, moves = before ++ m :: after ∧
      fills = (final (step cfg) v before m.1).adapter.pendingFills := by
  obtain ⟨cs, ds, hsplit⟩ := append_of_mem h
  obtain ⟨js, ks, rfl, -, hks⟩ := visible_eq_append hsplit
  obtain ⟨silent, m, after, rfl, -, hcall, -⟩ := visible_eq_cons hks
  refine ⟨js ++ silent, m, after, by simp, ?_⟩
  rw [final_append]
  obtain ⟨symbol, move⟩ := m
  generalize final (step cfg) (final (step cfg) v js) silent = v' at hcall ⊢
  cases move with
  | adapter op => cases op <;> simp_all [step, call?]
  | _ => simp [step, call?] at hcall

/-- What the moves keep holds of the adapter that a batch is polled from. -/
theorem Moves.polled (hmoves : Moves cfg I ok) (v : Venue) (hv : ∀ symbol, I (v symbol))
    (hallowed : Along (step cfg) Allowed v moves)
    (hsubmit : ∀ o, .submit o ∈ calls cfg v moves → ok o)
    (hpoll : .poll fills ∈ calls cfg v moves) : ∃ w, I w ∧ fills = w.adapter.pendingFills := by
  obtain ⟨before, m, after, rfl, hfills⟩ := poll_mem_calls v hpoll
  have hcalls : calls cfg v (before ++ m :: after) =
      calls cfg v before ++ calls cfg (final (step cfg) v before) (m :: after) :=
    visible_append v before _
  exact ⟨_, hmoves.run (S := fun _ => True) v before (fun symbol _ => hv symbol)
    ((along_append v before _).1 hallowed).1
    (fun o ho _ => hsubmit o (hcalls ▸ mem_append_left _ ho)) m.1 trivial, hfills⟩

/-- After a cancel at the symbol of an order that is not submitted again, no fill of it is
polled. -/
theorem not_polled_after_cancel {ok : Bool} {before after : List VenueCall}
    (hlatency : cfg.hasLatencyModel = false) (hallowed : Along (step cfg) Allowed init moves)
    (hcalls : calls cfg init moves = before ++ .cancel symbol id ok :: after)
    (hbefore : ∀ o, .submit o ∈ before → o.orderId = id → o.symbol = symbol)
    (hafter : ∀ o, .submit o ∈ after → o.orderId ≠ id) :
    ∀ fills, .poll fills ∈ after → ∀ f ∈ fills, f.orderId ≠ id := by
  obtain ⟨first, rest, rfl, hfirst, hrest⟩ := visible_eq_append hcalls
  obtain ⟨silent, ⟨place, m⟩, last, rfl, hsilent, hcall, hlast⟩ := visible_eq_cons hrest
  obtain ⟨hallowed₁, hallowed₂⟩ := (along_append _ _ _).1 hallowed
  obtain ⟨hallowed₂, hallowedm, hallowed₃⟩ := (along_append _ _ _).1 hallowed₂
  have hmoves : Moves cfg (Dead id) (·.orderId ≠ id) := fun _ m h hm => h.move m hm
  -- At the other symbols the order has never been submitted.
  have helsewhere : ∀ s, s ≠ symbol →
      Dead id (final (step cfg) (final (step cfg) init first) silent s) := by
    refine hmoves.run _ silent ?_ hallowed₂ fun o ho => ?_
    · refine hmoves.run _ first (fun s _ => dead_init id s) hallowed₁ ?_
      intro o ho hne heq
      exact hne (hbefore o (hfirst ▸ ho) heq)
    · rw [show calls cfg (final (step cfg) init first) silent = [] from hsilent] at ho
      cases ho
  generalize final (step cfg) (final (step cfg) init first) silent = v at *
  have hmove : place = symbol ∧ ∃ latency, m = .adapter (.cancel id latency) := by
    cases m with
    | adapter op => cases op <;> simp_all [step, call?]
    | _ => simp [step, call?] at hcall
  obtain ⟨rfl, latency, rfl⟩ := hmove
  have hhere : Dead id ((step cfg v (place, .adapter (.cancel id latency))).2 place) := by
    rw [show (step cfg v (place, .adapter (.cancel id latency))).2 place = _ from
      Function.update_self place _ v]
    exact dead_cancel (v place) id latency hlatency hallowedm
  have hdead : ∀ s, Dead id ((step cfg v (place, .adapter (.cancel id latency))).2 s) := by
    intro s
    by_cases hs : s = place
    · exact hs ▸ hhere
    · rw [step_of_ne v _ hs]
      exact helsewhere s hs
  subst hlast
  intro fills hpoll
  obtain ⟨w, hw, rfl⟩ := hmoves.polled _ hdead hallowed₃ hafter hpoll
  exact hw.fills

end Venue

/-! ## The engine -/

namespace Life

variable {b : Bool} {s t : Life} {id : Nat}

/-- The orders that wait, the order at hand and the order that is being submitted. -/
def held (s : Life) : List OrderEvent := s.orders ++ s.stops ++ s.hand.toList ++ s.placing.toList

/-- An id under which an order may still be submitted: not given yet, or of an order that is
held. -/
def Unplaced (s : Life) (id : Nat) : Prop := s.nextOrderId ≤ id ∨ ∃ o ∈ s.held, o.orderId = id

@[grind =] theorem mem_held :
    o ∈ s.held ↔ o ∈ s.orders ∨ o ∈ s.stops ∨ s.hand = some o ∨ s.placing = some o := by
  simp [held]

theorem Step.unplaced {a : Option Act} (h : Step b s a t) (ht : t.Unplaced id) : s.Unplaced id := by
  simp only [Unplaced, mem_held] at ht ⊢
  cases h with
  | accept close hhand hplacing hid | reject why hhand hkey | unwind hid _ =>
    simp only [setStatus] at ht
    grind
  | takeIds n | sent | defer hhand _ horders | holdStop hhand _ | takeOrder hhand _ horders => grind
  | revise hhand hkey | takeStop hhand _ _ _ hstop hkey =>
    have hid := OrderEvent.orderId_eq_of_key hkey
    grind
  | check verdict hhand =>
    cases verdict <;> simp only [judge, setStatus] at ht <;> grind
  | dropStop hhand _ _ hstops | lose _ | clear hhand => grind
  | cancel symbol x ok _ _ _ _ =>
    simp only [Life.cancel, setStatus] at ht
    grind
  | _ => exact ht

theorem Step.submit_unplaced (h : Step b s (some (.submit o)) t) : s.Unplaced o.orderId := by
  cases h with
  | idle ha => cases ha
  | submit hplacing _ => exact .inr ⟨o, mem_held.2 (.inr (.inr (.inr hplacing))), rfl⟩
  | unwind hid _ => exact .inl hid.ge

/-- Only unplaced orders are submitted in a run, and no others become unplaced. -/
theorem Run.unplaced {as : List Act} (h : Run b s as t) :
    (∀ id, t.Unplaced id → s.Unplaced id) ∧ ∀ o, .submit o ∈ as → s.Unplaced o.orderId := by
  induction h with
  | nil => exact ⟨fun _ hid => hid, nofun⟩
  | @cons s t u a as hstep _ ih =>
    refine ⟨fun id hid => hstep.unplaced (ih.1 id hid), fun o ho => ?_⟩
    rcases mem_append.1 ho with ho | ho
    · rw [Option.mem_toList.1 ho] at hstep
      exact hstep.submit_unplaced
    · exact hstep.unplaced (ih.2 o ho)

end Life

namespace Engine

variable (e : Engine)

/-- The ids of the deferred orders and the stops. -/
def waiting (e : Engine) : List Nat := (e.pendingOrders ++ e.pendingStops).map OrderEvent.orderId

theorem unplaced_iff (id : Nat) :
    (e.life e.rest).Unplaced id ↔ e.nextOrderId ≤ id ∨ id ∈ e.waiting := by
  simp only [Life.Unplaced, Life.mem_held, life, rest, waiting, mem_map, mem_append]
  grind

theorem settles_run (ops : List Op) : Settles [] e (final step e ops) :=
  invariant_of_step (fun e' op h => h.trans (settles_perform e' op))
    (Settles.refl e) ops _ (final_mem_states e ops)

/-- **No order is submitted again**: what is submitted was waiting or is new. -/
theorem submits_waiting (ops : List Op) : ∃ new, (final step e ops).acts = e.acts ++ new ∧
    ∀ o, .submit o ∈ new → e.nextOrderId ≤ o.orderId ∨ o.orderId ∈ e.waiting := by
  obtain ⟨new, hacts, hrun⟩ := (reaches_run e ops _ (final_mem_states e ops)).run
  exact ⟨new, hacts, fun o ho => (unplaced_iff e _).1 (hrun.unplaced.2 o ho)⟩

/-- A cancel calls the adapter once, and does nothing else to it. -/
theorem venueCalls_cancelOrder (symbol : String) (id : Nat)
    (results : List SubmitResult) (adapterCancels dropped : Bool) :
    venueCalls (e.cancelOrder symbol id results adapterCancels dropped).acts =
      venueCalls e.acts ++ [.cancel symbol id adapterCancels] := by
  have hpublish :
      ∀ (e : Engine) dropped, venueCalls (e.publish dropped).acts = venueCalls e.acts := by
    intro e dropped
    unfold publish
    split
    · exact (venueCalls_append e.acts [.triggerHalt]).trans (append_nil _)
    · rfl
  have hdrainOne : ∀ (e : Engine) r, venueCalls (e.drainOne r).acts = venueCalls e.acts := by
    intro e r
    have hanswer : venueCalls (e.act (.answer r)).acts = venueCalls e.acts :=
      (venueCalls_append e.acts [.answer r]).trans (append_nil _)
    rw [drainOne]
    split_ifs <;> first | exact hanswer | exact (hpublish _ _).trans hanswer
  have hdrain : venueCalls (e.drainAsyncSubmitResults results).acts = venueCalls e.acts := by
    induction results generalizing e with
    | nil => rfl
    | cons r results ih => exact (ih (e.drainOne r)).trans (hdrainOne e r)
  set e₁ := (e.drainAsyncSubmitResults results).act (.cancel symbol id adapterCancels) with he₁
  have hcall : venueCalls e₁.acts = venueCalls e.acts ++ [.cancel symbol id adapterCancels] := by
    rw [← hdrain]
    exact venueCalls_append (e.drainAsyncSubmitResults results).acts [_]
  unfold cancelOrder
  rw [← he₁]
  dsimp only
  split_ifs
  · exact hcall
  · exact (hpublish _ _).trans hcall
  · exact (hpublish _ _).trans hcall
  · exact hcall

theorem mem_due {fills : List (FillEvent × Bool)} (h : f ∈ due fills) : f ∈ fills.map Prod.fst := by
  induction fills with
  | nil => exact h
  | cons x fills ih =>
    obtain ⟨g, halts⟩ := x
    rw [due, mem_cons] at h
    rcases h with rfl | h
    · exact mem_cons_self
    · cases halts with
      | true => cases h
      | false => exact mem_cons_of_mem _ (ih h)

/-- A fill that is due comes from a batch that an adapter handed out. -/
theorem exists_poll_of_mem_polledFills (h : f ∈ polledFills acts) :
    ∃ fills, VenueCall.poll fills ∈ venueCalls acts ∧ ∃ g ∈ fills, f = g.bare := by
  obtain ⟨a, ha, hf⟩ := mem_flatMap.1 h
  cases a with
  | poll fills =>
    obtain ⟨g, hg, rfl⟩ := mem_map.1 hf
    exact ⟨fills.map Prod.fst, mem_filterMap.2 ⟨_, ha, rfl⟩, g, mem_due hg, rfl⟩
  | _ => cases hf

/-! ## Whole runs -/

/-- If the act submits an order with the id, it is one of the symbol. -/
def SubmitsAt (symbol : String) (id : Nat) : Act → Prop
  | .submit o => o.orderId = id → o.symbol = symbol
  | _ => True

instance (symbol : String) (id : Nat) : DecidablePred (SubmitsAt symbol id) := fun a => by
  cases a <;> unfold SubmitsAt <;> infer_instance

/-- The id is given, and no order of another symbol has been submitted or waits under it. -/
def OrderOf (e : Engine) (symbol : String) (id : Nat) : Prop :=
  id < e.nextOrderId ∧ (∀ a ∈ e.acts, SubmitsAt symbol id a) ∧
    ∀ o ∈ e.pendingOrders ++ e.pendingStops, o.orderId = id → o.symbol = symbol

instance (e : Engine) (symbol : String) (id : Nat) : Decidable (e.OrderOf symbol id) :=
  inferInstanceAs (Decidable (_ ∧ _ ∧ _))

theorem submit_mem_venueCalls (h : VenueCall.submit o ∈ venueCalls acts) : Act.submit o ∈ acts := by
  obtain ⟨a, ha, hcall⟩ := mem_filterMap.1 h
  cases a with
  | submit o' =>
    cases hcall
    exact ha
  | cancel | poll => cases hcall
  | _ => cases hcall

/-- **A cancel is final** for an order that waits neither for its trigger nor for its time: no fill
of the order is applied after it. -/
theorem no_fill_after_cancel (cfg : LocalBookConfig) (config : EngineConfig)
    (before after : List Op)
    (symbol : String) (id : Nat) (results : List SubmitResult) (adapterCancels dropped : Bool)
    (moves : List (String × Venue.Move))
    (hpaper : Paper cfg config
      (before ++ .cancelOrder symbol id results adapterCancels dropped :: after) moves)
    (horder : (final step (init config) before).OrderOf symbol id)
    (hidle : id ∉ (final step (init config) before).waiting) :
    let cancelled := (final step (init config) before).cancelOrder symbol id results adapterCancels
      dropped
    ∀ receiver, ∀ f ∈ appliedFills receiver
      ((final step cancelled after).acts.drop cancelled.acts.length), f.orderId ≠ id := by
  intro cancelled receiver f hf
  set e := final step (init config) before
  have hrun : final step (init config)
      (before ++ .cancelOrder symbol id results adapterCancels dropped :: after) =
      final step cancelled after := by
    rw [final_append]
    rfl
  -- The engine: nothing is submitted under the id any more, and what is applied was polled.
  have hcancel : Reaches false e.rest e cancelled.rest cancelled :=
    reaches_perform (.cancelOrder symbol id results adapterCancels dropped) nofun
  have hgone : ¬ (cancelled.life cancelled.rest).Unplaced id := by
    obtain ⟨_, -, hrun⟩ := hcancel.run
    intro h
    rcases (unplaced_iff e id).1 (hrun.unplaced.1 id h) with h | h
    · exact absurd horder.1 (not_lt.2 h)
    · exact hidle h
  obtain ⟨new, hacts, hafter⟩ := (reaches_run cancelled after _ (final_mem_states _ _)).run
  obtain ⟨new', hacts', happlied⟩ := settles_run cancelled after
  obtain rfl : new' = new := append_cancel_left (hacts'.symm.trans hacts)
  rw [hacts, drop_left, happlied, map_nil, nil_append] at hf
  obtain ⟨fills, hpoll, g, hg, rfl⟩ := exists_poll_of_mem_polledFills hf
  -- The venue: the calls up to the cancel, and from there on.
  have hcalls : Venue.calls cfg Venue.init moves =
      venueCalls e.acts ++ (.cancel symbol id adapterCancels :: venueCalls new') := by
    rw [hpaper.calls, hrun, hacts, venueCalls_append]
    exact (congrArg (· ++ _)
      (venueCalls_cancelOrder e symbol id results adapterCancels dropped)).trans
      (append_assoc _ _ _)
  refine Venue.not_polled_after_cancel hpaper.latency hpaper.allowed hcalls (fun o ho heq => ?_)
    (fun o ho heq => ?_) fills hpoll g hg
  · exact horder.2.1 _ (submit_mem_venueCalls ho) heq
  · exact hgone (heq ▸ hafter.unplaced.2 o (submit_mem_venueCalls ho))

/-- A fill as the adapter hands it out, which leaves the position open. -/
def handed (f : FillEvent) : FillReply := { deliver 1 .buy 10 100 0 with
  delivery := { (deliver 1 .buy 10 100 0).delivery with fill := f } }

def sellQuote : Quote := ⟨.goodTillCancel, 50, .sell, 1010000, 10⟩

/-- An order that rests is cancelled, and a quote then crosses its price. -/
def restingCancelRun : List Op :=
  [.startWorkers, .strategyOrder "s" { entryOrder with price := 102 } [] 0 0 false .quiet,
    .cancelOrder "BTC" 1 [] true false, .adapterFills []]

def restingCancelMoves : List (String × Venue.Move) :=
  [("BTC", .adapter (.submit { entryOrder with orderId := 1, price := 102 } 0)),
    ("BTC", .adapter .poll),
    ("BTC", .adapter (.cancel 1 0)), ("BTC", .adapter (.replenish [] [sellQuote] 1)),
    ("BTC", .adapter .poll)]

theorem no_fill_after_cancel_of_restingCancelRun :
    let e := final step (init plainExits) (restingCancelRun.take 2)
    let cancelled := e.cancelOrder "BTC" 1 [] true false
    Paper plainConfig plainExits restingCancelRun restingCancelMoves ∧
      e.OrderOf "BTC" 1 ∧ 1 ∉ e.waiting ∧
      ∀ f ∈ appliedFills (.sink .portfolio)
        ((final step cancelled [.adapterFills []]).acts.drop cancelled.acts.length),
        f.orderId ≠ 1 := by
  intro e cancelled
  have hpaper : Paper plainConfig plainExits restingCancelRun restingCancelMoves :=
    ⟨⟨rfl, rfl, rfl⟩, rfl, by decide +kernel, by decide +kernel⟩
  have horder : e.OrderOf "BTC" 1 := by decide +kernel
  have hidle : 1 ∉ e.waiting := by decide +kernel
  exact ⟨hpaper, horder, hidle, no_fill_after_cancel _ _ (restingCancelRun.take 2)
    [.adapterFills []] "BTC" 1 [] true false _ hpaper horder hidle (.sink .portfolio)⟩

/-- The fill of order 1 at the quote, from an order that is processed at time `ts`. -/
def quoteFill (ts : Int) : FillEvent where
  timestamp := ts
  symbol := "BTC"
  orderId := 1
  side := .buy
  filledQuantity := 10
  fillPrice := 101
  commission := 0
  fillId := 1

def stopOrder : OrderEvent :=
  { entryOrder with orderType := .stop, stopPrice := 100, market_tif := nofun }

/-- A stop is cancelled while it waits for its trigger, and the next bar triggers it. -/
def stopCancelRun : List Op :=
  [.startWorkers, .strategyOrder "s" stopOrder [] 0 0 false .quiet,
    .cancelOrder "BTC" 1 [] true false,
    .checkPendingStops 105 95 1 [{ Replies.quiet with fills := [handed (quoteFill 1)] }]]

def stopCancelMoves : List (String × Venue.Move) :=
  [("BTC", .adapter (.cancel 1 0)), ("BTC", .adapter (.replenish [] [sellQuote] 1)),
    ("BTC", .adapter .poll),
    ("BTC", .adapter (.submit (convertStop 1 { stopOrder with orderId := 1 }) 0)),
    ("BTC", .adapter .poll)]

/-- An order is cancelled while it waits for the next bar, which then drains it. -/
def deferredCancelRun : List Op :=
  [.startWorkers, .strategyOrder "s" { entryOrder with price := 102 } [] 0 0 false .quiet,
    .cancelOrder "BTC" 1 [] true false,
    .drainPending (some 1) [{ Replies.quiet with fills := [handed (quoteFill 1)] }]]

def deferredCancelMoves : List (String × Venue.Move) :=
  [("BTC", .adapter (.cancel 1 0)), ("BTC", .adapter (.replenish [] [sellQuote] 1)),
    ("BTC", .adapter (.submit { entryOrder with
        orderId := 1, price := 102, earliestEligibleTs := 1 } 0)),
    ("BTC", .adapter .poll)]

/-- The cancel sets the status and leaves the order where it waits; it is placed and filled
later. -/
theorem fill_after_cancel_of_waiting :
    let deferring := { plainExits with executionBarDelay := 1 }
    let stopped := final step (init plainExits) stopCancelRun
    let deferred := final step (init deferring) deferredCancelRun
    (Paper plainConfig plainExits stopCancelRun stopCancelMoves ∧
      (final step (init plainExits) (stopCancelRun.take 2)).OrderOf "BTC" 1 ∧
      (final step (init plainExits) (stopCancelRun.take 3)).orderTracker.getOrderStatus 1 =
        .cancelled ∧
      (appliedFills (.sink .portfolio) stopped.acts).map FillEvent.orderId = [1]) ∧
    (Paper plainConfig deferring deferredCancelRun deferredCancelMoves ∧
      (final step (init deferring) (deferredCancelRun.take 2)).OrderOf "BTC" 1 ∧
      (final step (init deferring) (deferredCancelRun.take 3)).orderTracker.getOrderStatus 1 =
        .cancelled ∧
      (appliedFills (.sink .portfolio) deferred.acts).map FillEvent.orderId = [1]) := by
  refine ⟨⟨⟨⟨rfl, rfl, rfl⟩, rfl, ?_, ?_⟩, ?_, ?_, ?_⟩, ⟨⟨rfl, rfl, rfl⟩, rfl, ?_, ?_⟩, ?_, ?_,
    ?_⟩ <;>
    decide +kernel

end Engine

end TrueTest
