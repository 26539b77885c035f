import TrueTest.Execution.Booked

/-!
# The hybrid executors

`HybridExecutor` of the Binance provider and `BitgetHybridExecutor`: a market order fills at the
last price, a limit order goes to a local book adapter. Without venue depth the book is seeded from
the mid price: each update puts ten synthetic quotes on either side of it. The two executors differ
in how they make room for them. The Binance one pulls the quotes it entered before, and hands the
trades of the new ones to the adapter. The Bitget one clears the book, and drops the trades.

The model is the configuration without a maker queue model. With one, limit orders never reach the
executor's book.
-/

namespace TrueTest

open Arrival Machine LocalBook List MarketMaker
open Orderbook (Holds Activity)

inductive HybridKind
  | binance
  | bitget
deriving DecidableEq

/-- The constructor arguments. The adapter inside is built without a latency model: `hasLatency` is
about the executor's own. -/
structure HybridConfig where
  kind : HybridKind
  inner : LocalBookConfig
  paperFee : Option (OrderSide → ℚ → ℚ → ℚ)
  qtyScale : ℚ
  spreadStepFactor : ℚ
  hasLatency : Bool
  inner_hasLatencyModel : inner.hasLatencyModel = false

/-! ## The paper executor -/

structure PaperExecutor where
  lastPrice : ℚ
  pendingFills : List FillEvent

/-- Market orders fill at the last price. -/
def PaperExecutor.submitOrder (fee : Option (OrderSide → ℚ → ℚ → ℚ)) (p : PaperExecutor)
    (o : OrderEvent) : PaperExecutor :=
  if o.orderType = .market ∧ 0 < p.lastPrice then
    let commission := match fee with
      | some fee => fee o.side o.quantity p.lastPrice
      | none => 0
    { p with pendingFills := p.pendingFills ++ [{
        timestamp := o.earliestEligibleTs
        symbol := o.symbol
        orderId := o.orderId
        side := o.side
        filledQuantity := o.quantity
        fillPrice := p.lastPrice
        commission := commission }] }
  else p

/-! ## The executor -/

structure DelayedFill where
  fill : FillEvent
  releaseTs : Int

structure Hybrid where
  paper : PaperExecutor
  /-- The adapter for limit orders; its book is the executor's. -/
  adapter : LocalBook
  /-- The ids of our own synthetic quotes; only the Binance executor has them. -/
  quoteIds : List Nat
  orderLatencies : AList fun _ : Nat => Int
  delayed : List DelayedFill
  nowProxy : Int

variable (cfg : HybridConfig)

namespace Hybrid

def init : Hybrid where
  paper := ⟨0, []⟩
  adapter := LocalBook.init
  quoteIds := []
  orderLatencies := ∅
  delayed := []
  nowProxy := 0

/-- The fills that the next poll takes from the two executors inside. -/
def fresh (h : Hybrid) : List FillEvent := h.paper.pendingFills ++ h.adapter.pendingFills

def submitOrder (h : Hybrid) (o : OrderEvent) (draw : ℚ) (latency : Int) : Hybrid :=
  let h := { h with
    nowProxy := max h.nowProxy o.earliestEligibleTs
    orderLatencies := if cfg.hasLatency then h.orderLatencies.insert o.orderId latency
      else h.orderLatencies }
  if o.orderType = .market then { h with paper := h.paper.submitOrder cfg.paperFee o }
  else { h with adapter := h.adapter.submitOrder cfg.inner o draw }

/-- The adapter always answers that it cancelled, so the paper executor is never asked. -/
def cancelOrder (h : Hybrid) (id : Nat) : Hybrid :=
  { h with
    adapter := h.adapter.cancelOrder cfg.inner id 0
    orderLatencies := h.orderLatencies.erase id
    delayed := h.delayed.filter fun d => d.fill.orderId ≠ id }

/-- A fill is held back by the latency of its order. -/
def delay (h : Hybrid) (f : FillEvent) : DelayedFill :=
  ⟨f, f.timestamp + (h.orderLatencies.lookup f.orderId).getD 0⟩

def pollFills (h : Hybrid) : List FillEvent × Hybrid :=
  let emptied := { h with
    paper := { h.paper with pendingFills := [] }
    adapter := { h.adapter with pendingFills := [] } }
  if cfg.hasLatency then
    let delayed := h.delayed ++ h.fresh.map h.delay
    ((delayed.filter fun d => d.releaseTs ≤ h.nowProxy).map DelayedFill.fill,
      { emptied with delayed := delayed.filter fun d => ¬ d.releaseTs ≤ h.nowProxy })
  else (h.fresh, emptied)

/-- The quotes at the given distances from the mid, a bid and an ask at each. -/
def synthQuotes (cfg : HybridConfig) (mid : ℚ) : List Nat → OrderIdGenerator → List Quote
  | [], _ => []
  | i :: is, gen =>
    let step := mid * cfg.spreadStepFactor
    let qty := ⌊cfg.qtyScale⌋.toNat
    let (bidId, gen) := gen.next
    let (askId, gen) := gen.next
    ⟨.goodTillCancel, bidId, .buy, priceFromDouble (mid - i * step), qty⟩ ::
      ⟨.goodTillCancel, askId, .sell, priceFromDouble (mid + i * step), qty⟩ ::
      synthQuotes cfg mid is gen

def midQuotes (mid : ℚ) (gen : OrderIdGenerator) : List Quote :=
  synthQuotes cfg mid [1, 2, 3, 4, 5, 6, 7, 8, 9, 10] gen

/-- The re-seeding of the book, with the trades of the new quotes. -/
def reseed (h : Hybrid) (quotes : List Quote) : Trades × Orderbook :=
  match cfg.kind with
  | .binance => replenish h.adapter.book h.quoteIds quotes
  | .bitget => addQuotes quotes h.adapter.book.clear

/-- The body of `on_mid_price`, for the quotes around the mid. -/
def seed (h : Hybrid) (mid : ℚ) (quotes : List Quote) : Hybrid :=
  let (crossed, book) := h.reseed cfg quotes
  let adapter := { h.adapter with book := book }
  let h := match cfg.kind with
    | .binance => { h with
        quoteIds := quotes.map Quote.id
        adapter := adapter.onBookTrades cfg.inner crossed h.nowProxy }
    | .bitget => { h with adapter := adapter }
  { h with
    adapter := { h.adapter with midPrice := mid }
    paper := { h.paper with lastPrice := mid } }

def onMidPrice (h : Hybrid) (mid : ℚ) (gen : OrderIdGenerator) : Hybrid :=
  if ¬ 0 < mid then h else h.seed cfg mid (midQuotes cfg mid gen)

end Hybrid

/-! ## Runs -/

/-- The executor, and what an observer of it and its book has seen. -/
structure HybridWorld where
  exec : Hybrid
  /-- All trades of the book. -/
  tape : Trades
  /-- The trades of the synthetic quotes. -/
  crossed : Trades
  /-- The orders that went to the adapter, and those of them that reached the book. -/
  submitted : List OrderEvent
  entered : List OrderEvent
  cancelled : List Nat
  foreign : List Nat
  /-- What the submissions have filled of each order. -/
  offered : Nat → ℚ
  delivered : List FillEvent

variable (w : HybridWorld)

inductive HybridOp
  | submit (o : OrderEvent) (draw : ℚ) (latency : Int)
  | cancel (id : Nat)
  | midPrice (mid : ℚ) (gen : OrderIdGenerator)
  | poll

namespace HybridWorld

def init : HybridWorld where
  exec := Hybrid.init
  tape := []
  crossed := []
  submitted := []
  entered := []
  cancelled := []
  foreign := []
  offered := fun _ => 0
  delivered := []

/-- A re-seeding of the book; its quotes are not the strategy's. -/
def seed (mid : ℚ) (quotes : List Quote) : HybridWorld :=
  let trades := (w.exec.reseed cfg quotes).1
  { w with
    exec := w.exec.seed cfg mid quotes
    tape := w.tape ++ trades
    crossed := w.crossed ++ trades
    foreign := w.foreign ++ quotes.map Quote.id }

/-- One call, with the fills it hands out. -/
def step : HybridOp → List FillEvent × HybridWorld
  | .submit o draw latency =>
    let exec := w.exec.submitOrder cfg o draw latency
    let seen := { w with
      exec := exec
      offered := fun id => w.offered id + (filledQty exec.fresh id - filledQty w.exec.fresh id) }
    if o.orderType = .market then ([], seen)
    else ([], { seen with
      tape := w.tape ++ submitTrades cfg.inner w.exec.adapter o draw
      submitted := w.submitted ++ [o]
      entered := if w.exec.adapter.accepts cfg.inner o draw then w.entered ++ [o] else w.entered })
  | .cancel id => ([], { w with
      exec := w.exec.cancelOrder cfg id
      cancelled := w.cancelled ++ [id] })
  | .midPrice mid gen =>
    let seen := if ¬ 0 < mid then w else w.seed cfg mid (Hybrid.midQuotes cfg mid gen)
    ([], { seen with exec := w.exec.onMidPrice cfg mid gen })
  | .poll =>
    let (out, exec) := w.exec.pollFills cfg
    (out, { w with exec := exec, delivered := w.delivered ++ out })

/-- All fills there are so far: handed out, held back, or still inside. -/
def known : List FillEvent :=
  w.delivered ++ w.exec.delayed.map DelayedFill.fill ++ w.exec.fresh

/-- A good-till-cancel limit order that reached the book and was not cancelled is on the book for
what was not executed of it; what the synthetic quotes took of an order is in its fills; and a poll
hands out all fills that are not held back. -/
structure Honest (cfg : HybridConfig) (w : HybridWorld) : Prop where
  rests : ∀ o ∈ w.entered, bookOrderType o.tif = .goodTillCancel → o.orderId ∉ w.cancelled →
    executed w.tape o.orderId < bookQuantity cfg.inner o.quantity →
    ∃ held, OnBook w.exec.adapter.book o.orderId held ∧
      held.remainingQuantity = bookQuantity cfg.inner o.quantity - executed w.tape o.orderId
  reports : ∀ o ∈ w.entered, o.orderId ∉ w.cancelled → filledQty w.known o.orderId =
    w.offered o.orderId + executed w.crossed o.orderId / cfg.inner.qtyScale
  polls : (w.exec.pollFills cfg).2.fresh = [] ∧ ∀ d ∈ (w.exec.pollFills cfg).2.delayed,
    cfg.hasLatency = true ∧ w.exec.nowProxy < d.releaseTs

/-- The adapter and its book, as an observer of the adapter sees them. -/
def base : World where
  adapter := w.exec.adapter
  delivered := []
  tape := w.tape
  swept := fun _ => 0
  submitted := w.submitted
  foreign := w.foreign
  modified := ∅

/-- Ids come from one generator: limit orders have new ones, and so have the quotes. -/
def Distinct : HybridOp → Prop
  | .submit o draw _ => o.orderType ≠ .market → LocalBook.Distinct w.base (.submit o draw)
  | .midPrice mid gen => ∀ q ∈ Hybrid.midQuotes cfg mid gen, q.id ∉ w.base.submittedIds
  | _ => True

/-- An update of the Binance executor fills no order over several of its trades; one of the Bitget
executor comes when no limit order rests. -/
def Spares : HybridOp → Prop
  | .midPrice mid gen => 0 < mid →
    (cfg.kind = .binance → Reportable cfg.inner w.base
      (.replenish w.exec.quoteIds (Hybrid.midQuotes cfg mid gen) w.exec.nowProxy)) ∧
    (cfg.kind = .bitget → ∀ e ∈ w.exec.adapter.resting.entries,
      (w.exec.adapter.book.orders e.2.bookOrder).remainingQuantity = 0)
  | _ => True

instance (op : HybridOp) : Decidable (Distinct cfg w op) :=
  match op with
  | .submit o draw _ =>
    inferInstanceAs (Decidable (o.orderType ≠ .market → LocalBook.Distinct w.base (.submit o draw)))
  | .midPrice mid gen =>
    inferInstanceAs (Decidable (∀ q ∈ Hybrid.midQuotes cfg mid gen, q.id ∉ w.base.submittedIds))
  | .cancel _ => inferInstanceAs (Decidable True)
  | .poll => inferInstanceAs (Decidable True)

instance (op : HybridOp) : Decidable (Spares cfg w op) :=
  match op with
  | .midPrice mid gen => inferInstanceAs (Decidable (0 < mid →
    (cfg.kind = .binance → Reportable cfg.inner w.base
      (.replenish w.exec.quoteIds (Hybrid.midQuotes cfg mid gen) w.exec.nowProxy)) ∧
    (cfg.kind = .bitget → ∀ e ∈ w.exec.adapter.resting.entries,
      (w.exec.adapter.book.orders e.2.bookOrder).remainingQuantity = 0)))
  | .submit _ _ _ => inferInstanceAs (Decidable True)
  | .cancel _ => inferInstanceAs (Decidable True)
  | .poll => inferInstanceAs (Decidable True)

/-! ## The invariant -/

structure Sound (cfg : HybridConfig) (w : HybridWorld) : Prop where
  booked : Booked cfg.inner w.base w.entered w.cancelled
  quoteIds : ∀ id ∈ w.exec.quoteIds, id ∈ w.foreign
  counts : ∀ id, id ∉ w.foreign → id ∉ w.cancelled → filledQty w.known id =
    w.offered id + executed w.crossed id / cfg.inner.qtyScale
  undelayed : cfg.hasLatency = false → w.exec.delayed = []

variable {cfg : HybridConfig} {w : HybridWorld} (h : Hybrid)

theorem sound_init (cfg : HybridConfig) : init.Sound cfg where
  booked := {
    consistent := ⟨[], consistent_init⟩
    unmodified := rfl
    submitted := fun _ ho => absurd ho not_mem_nil
    unused := fun _ _ _ => rfl
    live := fun _ ho => absurd ho not_mem_nil }
  quoteIds := fun _ ho => absurd ho not_mem_nil
  counts := fun id _ _ => by simp [known, init, Hybrid.init, Hybrid.fresh, LocalBook.init]
  undelayed := fun _ => rfl

theorem Sound.honest (h : w.Sound cfg) : w.Honest cfg where
  rests := fun o ho htype hcancel hlt => by
    obtain ⟨P, hcons⟩ := h.booked.consistent
    have hlive := h.booked.live o ho htype hcancel
    have hlive' : liveQty w.exec.adapter.book o.orderId =
        bookQuantity cfg.inner o.quantity - executed w.tape o.orderId := Nat.eq_sub_of_add_eq hlive
    rw [← hlive']
    exact onBook_of_liveQty hcons.holds (hlive' ▸ Nat.sub_pos_of_lt hlt)
  reports := fun o ho hcancel => h.counts _ (h.booked.followed ho).1 hcancel
  polls := by
    rw [Hybrid.pollFills]
    split_ifs with hl
    · refine ⟨rfl, fun d hd => ⟨hl, ?_⟩⟩
      have hlate := (mem_filter.1 hd).2
      simpa using hlate
    · refine ⟨rfl, fun d hd => ?_⟩
      have hd' : d ∈ w.exec.delayed := hd
      rw [h.undelayed (Bool.eq_false_iff.2 hl)] at hd'
      cases hd'

theorem filledQty_known (w : HybridWorld) (id : Nat) : filledQty w.known id =
    filledQty w.delivered id + filledQty (w.exec.delayed.map DelayedFill.fill) id +
      filledQty w.exec.fresh id := by
  rw [known, filledQty_append, filledQty_append]

/-- What is kept of a list of delayed fills, and what is taken out of it. -/
theorem filledQty_filter_add (p : DelayedFill → Bool) (ds : List DelayedFill) (id : Nat) :
    filledQty ((ds.filter p).map DelayedFill.fill) id +
      filledQty ((ds.filter fun d => !p d).map DelayedFill.fill) id =
    filledQty (ds.map DelayedFill.fill) id := by
  rw [← filledQty_append, ← map_append]
  have hperm := (filter_append_perm p ds).map DelayedFill.fill
  exact ((hperm.filter fun f => f.orderId = id).map FillEvent.filledQuantity).sum_eq

/-! ## Steps -/

theorem Sound.submit (h : w.Sound cfg) (o : OrderEvent) (draw : ℚ) (latency : Int)
    (hd : Distinct cfg w (.submit o draw latency)) :
    (step cfg w (.submit o draw latency)).2.Sound cfg := by
  set exec := w.exec.submitOrder cfg o draw latency with hexec
  have hdelayed : exec.delayed = w.exec.delayed := by
    rw [hexec, Hybrid.submitOrder]
    split <;> rfl
  have hquoteIds : exec.quoteIds = w.exec.quoteIds := by
    rw [hexec, Hybrid.submitOrder]
    split <;> rfl
  have hcounts : ∀ id, id ∉ w.foreign → id ∉ w.cancelled →
      filledQty (w.delivered ++ exec.delayed.map DelayedFill.fill ++ exec.fresh) id =
        w.offered id + (filledQty exec.fresh id - filledQty w.exec.fresh id) +
          executed w.crossed id / cfg.inner.qtyScale := by
    intro id hfor hcancel
    have hold := h.counts id hfor hcancel
    rw [filledQty_known] at hold
    rw [filledQty_append, filledQty_append, hdelayed]
    linarith
  by_cases ho : o.orderType = .market
  · have hadapter : exec.adapter = w.exec.adapter := by
      rw [hexec, Hybrid.submitOrder, if_pos ho]
    have hbase : (step cfg w (.submit o draw latency)).2.base = w.base := by
      rw [step, if_pos ho]
      show World.mk exec.adapter _ _ _ _ _ _ = _
      rw [hadapter]
      rfl
    rw [step, if_pos ho] at hbase ⊢
    refine ⟨hbase ▸ h.booked, ?_, hcounts, fun hl => hdelayed.trans (h.undelayed hl)⟩
    exact hquoteIds ▸ h.quoteIds
  · have hadapter : exec.adapter = w.exec.adapter.submitOrder cfg.inner o draw := by
      rw [hexec, Hybrid.submitOrder, if_neg ho]
    have hbase : (step cfg w (.submit o draw latency)).2.base =
        (LocalBook.step cfg.inner w.base (.submit o draw)).2 := by
      rw [step, if_neg ho]
      show World.mk exec.adapter _ _ _ _ _ _ = _
      rw [hadapter]
      rfl
    have hbooked := h.booked.submit (hd ho)
    rw [← hbase] at hbooked
    rw [step, if_neg ho] at hbooked ⊢
    exact ⟨hbooked, hquoteIds ▸ h.quoteIds, hcounts, fun hl => hdelayed.trans (h.undelayed hl)⟩

theorem Sound.cancel (h : w.Sound cfg) (id : Nat) : (step cfg w (.cancel id)).2.Sound cfg := by
  have hadapter : w.exec.adapter.cancelOrder cfg.inner id 0 = w.exec.adapter.pull id := by
    rw [cancelOrder, cfg.inner_hasLatencyModel]
    rfl
  rw [step, Hybrid.cancelOrder, hadapter]
  refine ⟨h.booked.pull id, h.quoteIds, fun x hfor hcancel => ?_, fun hl => ?_⟩
  · obtain ⟨hold, hne⟩ := not_or.1 fun hor => hcancel (mem_append.2 hor)
    rw [← h.counts x hfor hold, filledQty_known, filledQty_known]
    -- Only fills of the cancelled order are dropped.
    have hsplit := filledQty_filter_add (fun d => d.fill.orderId ≠ id) w.exec.delayed x
    have hdropped : filledQty ((w.exec.delayed.filter fun d => !decide (d.fill.orderId ≠ id)).map
        DelayedFill.fill) x = 0 := by
      refine filledQty_eq_zero fun f hf he => hne (mem_singleton.2 ?_)
      obtain ⟨d, hd, rfl⟩ := mem_map.1 hf
      have hid := (mem_filter.1 hd).2
      rw [← he]
      simpa using hid
    rw [hdropped, add_zero] at hsplit
    exact congrArg (fun q => filledQty w.delivered x + q + filledQty w.exec.fresh x) hsplit
  · rw [h.undelayed hl]
    rfl

/-- A poll empties the executors inside and splits their fills, and those held back, into what goes
out and what is held back. -/
theorem pollFills_adapter :
    (h.pollFills cfg).2.adapter = { h.adapter with pendingFills := [] } ∧
      (h.pollFills cfg).2.quoteIds = h.quoteIds ∧ (h.pollFills cfg).2.fresh = [] := by
  rw [Hybrid.pollFills]
  split <;> exact ⟨rfl, rfl, rfl⟩

theorem filledQty_pollFills (id : Nat) :
    filledQty (h.pollFills cfg).1 id +
      filledQty ((h.pollFills cfg).2.delayed.map DelayedFill.fill) id =
    filledQty (h.delayed.map DelayedFill.fill) id + filledQty h.fresh id := by
  rw [Hybrid.pollFills]
  split
  · have hsplit := filledQty_filter_add (fun d => d.releaseTs ≤ h.nowProxy)
      (h.delayed ++ h.fresh.map h.delay) id
    have hfresh : (h.fresh.map h.delay).map DelayedFill.fill = h.fresh := by
      rw [map_map]
      exact map_id _
    rw [map_append, hfresh, filledQty_append] at hsplit
    rw [← hsplit]
    simp only [decide_not]
  · exact add_comm _ _

theorem Sound.poll (h : w.Sound cfg) : (step cfg w .poll).2.Sound cfg := by
  obtain ⟨hadapter, hquoteIds, hfresh⟩ := @pollFills_adapter cfg w.exec
  have hbase : (step cfg w .poll).2.base =
      { w.base with adapter := (w.exec.pollFills cfg).2.adapter } := rfl
  refine ⟨?_, fun id hid => h.quoteIds id (hquoteIds ▸ hid), fun id hfor hcancel => ?_,
    fun hl => ?_⟩
  · rw [hbase, hadapter]
    exact h.booked.withAdapter rfl rfl
  · have hold := h.counts id hfor hcancel
    have hpoll := @filledQty_pollFills cfg w.exec id
    rw [filledQty_known] at hold ⊢
    show filledQty (w.delivered ++ (w.exec.pollFills cfg).1) id +
      filledQty ((w.exec.pollFills cfg).2.delayed.map DelayedFill.fill) id +
      filledQty (w.exec.pollFills cfg).2.fresh id =
        w.offered id + executed w.crossed id / cfg.inner.qtyScale
    rw [hfresh, filledQty_append, filledQty_nil]
    linarith
  · show (w.exec.pollFills cfg).2.delayed = []
    rw [Hybrid.pollFills, hl]
    exact h.undelayed hl

theorem Sound.seed_binance (h : w.Sound cfg) (hk : cfg.kind = .binance) (mid : ℚ)
    (quotes : List Quote) (hd : ∀ q ∈ quotes, q.id ∉ w.base.submittedIds)
    (hr : Reportable cfg.inner w.base (.replenish w.exec.quoteIds quotes w.exec.nowProxy)) :
    (w.seed cfg mid quotes).Sound cfg := by
  have hd' : LocalBook.Distinct w.base (.replenish w.exec.quoteIds quotes w.exec.nowProxy) :=
    ⟨h.quoteIds, hd⟩
  obtain ⟨P, hcons⟩ := h.booked.consistent
  set next := (LocalBook.step cfg.inner w.base
    (.replenish w.exec.quoteIds quotes w.exec.nowProxy)).2 with hnext
  have hreseed :
      w.exec.reseed cfg quotes = replenish w.exec.adapter.book w.exec.quoteIds quotes := by
    rw [Hybrid.reseed, hk]
  have hexec : w.exec.seed cfg mid quotes = { w.exec with
      quoteIds := quotes.map Quote.id
      adapter := { next.adapter with midPrice := mid }
      paper := { w.exec.paper with lastPrice := mid } } := by
    rw [Hybrid.seed, hreseed, hk]
    rfl
  have hseed : w.seed cfg mid quotes = { w with
      exec := { w.exec with
        quoteIds := quotes.map Quote.id
        adapter := { next.adapter with midPrice := mid }
        paper := { w.exec.paper with lastPrice := mid } }
      tape := next.tape
      crossed := w.crossed ++ (replenish w.exec.adapter.book w.exec.quoteIds quotes).1
      foreign := next.foreign } := by
    rw [seed, hexec, hreseed]
    rfl
  rw [hseed]
  refine ⟨(h.booked.replenish hd').withAdapter rfl rfl, fun id hid => ?_, fun id hfor hcancel => ?_,
    h.undelayed⟩
  · exact mem_append_right _ hid
  · have hfor' : id ∉ w.foreign := fun hm => hfor (mem_append_left _ hm)
    have hold := h.counts id hfor' hcancel
    have hfills :=
      replenish_filledQty hcons w.exec.quoteIds quotes w.exec.nowProxy hd' hr fun _ => hfor
    rw [if_pos (show w.base.modified.lookup id = none from rfl), ← hnext] at hfills
    have hfresh : ∀ h : Hybrid, filledQty h.fresh id =
        filledQty h.paper.pendingFills id + filledQty h.adapter.pendingFills id :=
      fun h => filledQty_append _ _ _
    rw [filledQty_known, hfresh] at hold ⊢
    rw [executed_append, Nat.cast_add, add_div]
    have hfills' : filledQty next.adapter.pendingFills id =
        filledQty w.exec.adapter.pendingFills id + executed (replenish
          w.exec.adapter.book w.exec.quoteIds quotes).1 id / cfg.inner.qtyScale := hfills
    linarith

theorem Sound.seed_bitget (h : w.Sound cfg) (hk : cfg.kind = .bitget) (mid : ℚ)
    (quotes : List Quote) (hd : ∀ q ∈ quotes, q.id ∉ w.base.submittedIds)
    (hnone : ∀ e ∈ w.exec.adapter.resting.entries,
      (w.exec.adapter.book.orders e.2.bookOrder).remainingQuantity = 0) :
    (w.seed cfg mid quotes).Sound cfg := by
  obtain ⟨hbooked, hzero⟩ := h.booked.clear hd hnone
  set r := addQuotes quotes w.exec.adapter.book.clear
  have hreseed : w.exec.reseed cfg quotes = r := by
    rw [Hybrid.reseed, hk]
  have hseed : w.seed cfg mid quotes = { w with
      exec := { w.exec with
        adapter := { w.exec.adapter with book := r.2, midPrice := mid }
        paper := { w.exec.paper with lastPrice := mid } }
      tape := w.tape ++ r.1
      crossed := w.crossed ++ r.1
      foreign := w.foreign ++ quotes.map Quote.id } := by
    rw [HybridWorld.seed, Hybrid.seed, hreseed, hk]
  rw [hseed]
  refine ⟨hbooked.withAdapter rfl rfl, fun id hid => mem_append_left _ (h.quoteIds id hid),
    fun id hfor hcancel => ?_, h.undelayed⟩
  have hfor' : id ∉ w.foreign := fun hm => hfor (mem_append_left _ hm)
  have hnew : executed r.1 id = 0 := hzero id hfor
  rw [executed_append, hnew, Nat.add_zero]
  exact h.counts id hfor' hcancel

theorem Sound.step (h : w.Sound cfg) (op : HybridOp) (hd : Distinct cfg w op)
    (hs : Spares cfg w op) : (step cfg w op).2.Sound cfg := by
  cases op with
  | submit o draw latency => exact h.submit o draw latency hd
  | cancel id => exact h.cancel id
  | midPrice mid gen =>
    by_cases hmid : 0 < mid
    · rw [HybridWorld.step, Hybrid.onMidPrice, if_neg (not_not.2 hmid), if_neg (not_not.2 hmid)]
      obtain ⟨hbin, hbit⟩ := hs hmid
      cases hk : cfg.kind with
      | binance => exact h.seed_binance hk mid _ hd (hbin hk)
      | bitget => exact h.seed_bitget hk mid _ hd (hbit hk)
    · rw [HybridWorld.step, Hybrid.onMidPrice, if_pos hmid, if_pos hmid]
      exact h
  | poll => exact h.poll

/-- **Over every run whose mid-price updates spare the resting orders, an order that rested stays on
the book for what was not executed of it, and what the synthetic quotes took of it is in its
fills.** -/
theorem honest_of_spares (cfg : HybridConfig) (ops : List HybridOp)
    (hops : Along (HybridWorld.step cfg) (fun w op => Distinct cfg w op ∧ Spares cfg w op)
      init ops) :
    ∀ w ∈ states (HybridWorld.step cfg) init ops, w.Honest cfg := by
  have hstep : ∀ w op, Sound cfg w → Distinct cfg w op ∧ Spares cfg w op →
      (step cfg w op).2.Sound cfg := fun w op h hop => h.step op hop.1 hop.2
  intro w hw
  exact (invariant hstep (sound_init cfg) hops w hw).honest

/-- Quotes of one unit, a hundredth of the mid apart. -/
def plainHybrid (kind : HybridKind) : HybridConfig :=
  ⟨kind, plainConfig, none, 1, 1 / 100, false, rfl⟩

def bidAt (id : Nat) (quantity price : ℚ) : HybridOp :=
  .submit (.new 0 id "BTC" .limit .buy quantity price .gtc 0) 0 0

/-- A bid of one unit that the second update's quotes hit. -/
def sparedRun : List HybridOp := [bidAt 1 1 100, .midPrice 110 ⟨10⟩, .midPrice 90 ⟨40⟩, .poll]

/-- A bid that is cancelled before the next update. -/
def cancelledRun : List HybridOp :=
  [.midPrice 110 ⟨10⟩, bidAt 1 1 100, .cancel 1, .midPrice 90 ⟨40⟩]

theorem honest_of_sparedRun :
    let binance := final (HybridWorld.step (plainHybrid .binance)) init sparedRun
    let bitget := final (HybridWorld.step (plainHybrid .bitget)) init cancelledRun
    filledQty binance.delivered 1 = 1 ∧ binance.Honest (plainHybrid .binance) ∧
      bitget.Honest (plainHybrid .bitget) :=
  ⟨by decide +kernel, honest_of_spares (plainHybrid .binance) sparedRun (by decide +kernel) _
      (final_mem_states init sparedRun),
    honest_of_spares (plainHybrid .bitget) cancelledRun (by decide +kernel) _
      (final_mem_states init cancelledRun)⟩

/-- An update of the Bitget executor removes a resting bid. One of the Binance executor that fills a
bid of two units by two quotes reports the first. -/
theorem not_honest_of_midPrice :
    ¬ (final (HybridWorld.step (plainHybrid .bitget)) init
      [bidAt 1 1 100, .midPrice 110 ⟨10⟩]).Honest
        (plainHybrid .bitget) ∧
      ¬ (final (HybridWorld.step (plainHybrid .binance)) init
        [bidAt 1 2 100, .midPrice 90 ⟨10⟩]).Honest (plainHybrid .binance) := by
  refine ⟨fun h => ?_, fun h => ?_⟩
  · obtain ⟨held, ⟨n, -, hn, -⟩, -⟩ := h.rests (.new 0 1 "BTC" .limit .buy 1 100 .gtc 0)
      (by decide +kernel) rfl (by decide +kernel) (by decide +kernel)
    have hnone : (final (step (plainHybrid .bitget)) init
        [bidAt 1 1 100, .midPrice 110 ⟨10⟩]).exec.adapter.book.orderMap.lookup 1 = none := by
      decide +kernel
    rw [show (OrderEvent.new 0 1 "BTC" .limit .buy 1 100 .gtc 0).orderId = 1 from rfl, hnone] at hn
    cases hn
  · have hreports := h.reports (.new 0 1 "BTC" .limit .buy 2 100 .gtc 0) (by decide +kernel)
      (by decide +kernel)
    exact absurd hreports (by decide +kernel)

end HybridWorld

end TrueTest
