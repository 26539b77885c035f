import TrueTest.Analytics.Marks
import TrueTest.Providers.DepthFeed

/-!
# The spread circuit breaker

`check_order` refuses every order while `current_spread_bps` is above its limit. It reads the figure
from the engine's own analytics, which take it from an L2 snapshot in `on_event`.

The engine delivers few L2 messages to them. `apply_l2_snapshot` and `apply_l2_update`, through
which a live feed comes, change the book, log the message and publish it: in inline mode publishing
ends there, and in a threaded one the message goes to the analytics of a worker. Only the replay of
a log in inline mode calls `on_event`, and there an update does nothing. The figure is one for all
symbols, so that the snapshot of another symbol replaces it.

`Depth` is what the L2 messages of a symbol say about its book. In a run whose messages all reach
the figure (`Shown`) the breaker holds for every symbol whose book is wide (`guarded_of_shown`).
-/

namespace TrueTest

open Machine List

/-! ## The book that the messages describe -/

structure Depth where
  bids : List L2Level := []
  asks : List L2Level := []

variable {l : L2Level} {levels : List L2Level} {d : Depth}

namespace Depth

/-- The spread between two prices in basis points of their middle. -/
def spreadBps (bid ask : ℚ) : ℚ := (ask - bid) / ((ask + bid) / 2) * 10000

def bestBid (d : Depth) : Option ℚ := (d.bids.map L2Level.price).max?

def bestAsk (d : Depth) : Option ℚ := (d.asks.map L2Level.price).min?

/-- Both sides are quoted, further apart than the limit. -/
def Wide (limit : ℚ) (d : Depth) : Prop :=
  ∃ bid ∈ d.bestBid, ∃ ask ∈ d.bestAsk, limit < spreadBps bid ask

instance (limit : ℚ) (d : Depth) : Decidable (d.Wide limit) :=
  inferInstanceAs (Decidable (∃ bid ∈ d.bestBid, ∃ ask ∈ d.bestAsk, limit < spreadBps bid ask))

/-- The levels that a snapshot gives to the book; one without quantity is none. -/
def quoted (levels : List L2Level) : List L2Level :=
  (levels.take l2SnapshotMaxLevels).filter fun l => l.quantity ≠ 0

def ofSnapshot (s : L2Snapshot) : Depth := ⟨quoted s.bids, quoted s.asks⟩

/-- Replace what stands at a price. -/
def setLevel (levels : List L2Level) (price : ℚ) (quantity : Int) : List L2Level :=
  levels.filter (fun l => l.price ≠ price) ++ if quantity ≠ 0 then [⟨price, quantity⟩] else []

def update (d : Depth) (side : TickSide) (price : ℚ) (quantity : Int) : Depth :=
  if side = .bid then { d with bids := setLevel d.bids price quantity }
  else { d with asks := setLevel d.asks price quantity }

theorem mem_quoted_of_cons (hl : l.quantity ≠ 0) : l ∈ quoted (l :: levels) :=
  mem_filter.2 ⟨mem_cons_self, decide_eq_true hl⟩

theorem mem_of_mem_quoted (h : l ∈ quoted levels) : l ∈ levels :=
  mem_of_mem_take (mem_filter.1 h).1

theorem le_of_mem_bestBid {bid : ℚ} (h : bid ∈ d.bestBid) (hl : l ∈ d.bids) :
    l.price ≤ bid := (max?_eq_some_iff.1 h).2 _ (mem_map_of_mem hl)

theorem le_of_mem_bestAsk {ask : ℚ} (h : ask ∈ d.bestAsk) (hl : l ∈ d.asks) :
    ask ≤ l.price := (min?_eq_some_iff.1 h).2 _ (mem_map_of_mem hl)

/-- Quotes further out are further apart. -/
theorem spreadBps_mono {bid bid' ask ask' : ℚ} (hpos : 0 < bid') (hbid : bid' ≤ bid)
    (hask : ask ≤ ask') (hopen : 0 < ask) : spreadBps bid ask ≤ spreadBps bid' ask' := by
  have hsum : 0 < ask + bid := by linarith
  have hsum' : 0 < ask' + bid' := by linarith
  have hform : ∀ {b a : ℚ}, 0 < a + b → spreadBps b a = 20000 - 40000 * (b / (a + b)) := by
    intro b a hab
    rw [spreadBps]
    field_simp
    ring
  rw [hform hsum, hform hsum']
  have hshare : bid' / (ask' + bid') ≤ bid / (ask + bid) := by
    rw [div_le_div_iff₀ hsum' hsum]
    nlinarith
  linarith

end Depth

/-- `l2_snapshot_event` and `l2_update_event`. -/
inductive DepthMessage
  | snapshot (s : L2Snapshot)
  | update (symbol : String) (side : TickSide) (price : ℚ) (newQuantity : Int)

namespace DepthMessage

def symbol : DepthMessage → String
  | .snapshot s => s.symbol
  | .update symbol .. => symbol

/-- The book after a message. -/
def leaves (d : Depth) : DepthMessage → Depth
  | .snapshot s => .ofSnapshot s
  | .update _ side price newQuantity => d.update side price newQuantity

end DepthMessage

/-! ## The engine's figure -/

/-- `Analytics::on_l2_snapshot`, on `current_spread_bps_`. -/
def Analytics.onL2Snapshot (currentSpreadBps : ℚ) (s : L2Snapshot) : ℚ :=
  match s.bids, s.asks with
  | bid :: _, ask :: _ =>
    if bid.price < ask.price ∧ 0 < bid.price then Depth.spreadBps bid.price ask.price
    else currentSpreadBps
  | _, _ => currentSpreadBps

/-- What reaches the engine, as far as its analytics are concerned. -/
inductive FeedEvent
  /-- `apply_l2_snapshot` and `apply_l2_update`. -/
  | live (m : DepthMessage)
  /-- The last branch of `run_replay`. -/
  | replayed (m : DepthMessage)
  /-- A bar, a tick, an order or a fill. -/
  | other (ev : AnalyticsEvent)

/-- The engine's analytics, and what the L2 messages have said. -/
structure RiskFeed where
  threaded : Bool
  analytics : Analytics
  currentSpreadBps : ℚ
  depth : String → Depth

variable (s : RiskFeed)

namespace RiskFeed

def init (threaded : Bool) (balance : ℚ) : RiskFeed := ⟨threaded, .init balance, 0, fun _ => {}⟩

/-- A message becomes part of its symbol's book. -/
def hear (m : DepthMessage) : RiskFeed :=
  { s with depth := Function.update s.depth m.symbol (m.leaves (s.depth m.symbol)) }

/-- `on_event` with an L2 message. -/
def onDepth : DepthMessage → RiskFeed
  | .snapshot snap => { s with currentSpreadBps := Analytics.onL2Snapshot s.currentSpreadBps snap }
  | .update .. => s

def step : FeedEvent → Unit × RiskFeed
  | .live m => ((), s.hear m)
  | .replayed m => ((), if s.threaded then s.hear m else (s.hear m).onDepth m)
  | .other ev => ((), { s with
      analytics := if s.threaded then s.analytics.onThreaded ev else s.analytics.onEvent ev })

def riskView : RiskSnapshot :=
  { s.analytics.riskView with currentSpreadBps := s.currentSpreadBps }

/-- Every order on a symbol whose book is wider than the limit is refused. -/
def Guarded (limits : RiskLimits) (s : RiskFeed) : Prop :=
  ∀ symbol, (s.depth symbol).Wide limits.maxSpreadBps →
    ∀ (rm : RiskManager) (o : OrderEvent) (now : Int) (p : Portfolio), o.symbol = symbol →
      (rm.checkOrder limits o now p s.riskView).1 = .reject ∨
        (rm.checkOrder limits o now p s.riskView).1 = .halt

/-- The first levels are quotes, and all prices are positive. -/
def Fronted (s : L2Snapshot) : Prop :=
  (∀ l ∈ s.bids.head?, l.quantity ≠ 0) ∧ (∀ l ∈ s.asks.head?, l.quantity ≠ 0) ∧
    ∀ l ∈ s.bids ++ s.asks, 0 < l.price

instance (s : L2Snapshot) : Decidable (Fronted s) := inferInstanceAs (Decidable (_ ∧ _ ∧ _))

/-- A message that leaves a wide book is a snapshot that an inline replay delivers, or changes no
figure and finds it above the limit; a snapshot that leaves a narrow one, and is delivered, finds no
other symbol's book wide. -/
def Shown (limits : RiskLimits) (s : RiskFeed) : FeedEvent → Prop
  | .live m => (m.leaves (s.depth m.symbol)).Wide limits.maxSpreadBps →
    limits.maxSpreadBps < s.currentSpreadBps
  | .replayed (.update symbol side price newQuantity) =>
    ((s.depth symbol).update side price newQuantity).Wide limits.maxSpreadBps →
      limits.maxSpreadBps < s.currentSpreadBps
  | .replayed (.snapshot snap) =>
    if (Depth.ofSnapshot snap).Wide limits.maxSpreadBps then s.threaded = false ∧ Fronted snap
    else s.threaded = true ∨ ∀ symbol ≠ snap.symbol, ¬ (s.depth symbol).Wide limits.maxSpreadBps
  | .other _ => True

variable {limits : RiskLimits} {s : RiskFeed}

/-- The figure is above the limit while any book is. -/
def Tripped (limits : RiskLimits) (s : RiskFeed) : Prop :=
  ∀ symbol, (s.depth symbol).Wide limits.maxSpreadBps → limits.maxSpreadBps < s.currentSpreadBps

theorem checkOrder_of_spread (hlimit : 0 < limits.maxSpreadBps) {snap : RiskSnapshot}
    (hspread : limits.maxSpreadBps < snap.currentSpreadBps) (rm : RiskManager) (o : OrderEvent)
    (now : Int) (p : Portfolio) : (rm.checkOrder limits o now p snap).1 = .reject ∨
      (rm.checkOrder limits o now p snap).1 = .halt := by
  have hbreaker : RiskManager.breaker limits.maxSpreadBps snap.currentSpreadBps 2 =
      some (if limits.maxSpreadBps * 2 < snap.currentSpreadBps then .halt else .reject) :=
    if_pos ⟨hlimit, hspread⟩
  rw [RiskManager.checkOrder, hbreaker]
  split
  · exact .inr rfl
  · split
    · exact .inl rfl
    · split
      · exact .inl rfl
      · dsimp only
        split
        · exact .inr rfl
        · exact .inl rfl

theorem Tripped.guarded (hlimit : 0 < limits.maxSpreadBps) (h : Tripped limits s) :
    Guarded limits s :=
  fun symbol hwide rm o now p _ => checkOrder_of_spread hlimit (h symbol hwide) rm o now p

theorem hear_depth_self (s : RiskFeed) (m : DepthMessage) :
    (s.hear m).depth m.symbol = m.leaves (s.depth m.symbol) := Function.update_self ..

theorem hear_depth_of_ne (s : RiskFeed) (m : DepthMessage) {symbol : String}
    (hne : symbol ≠ m.symbol) :
    (s.hear m).depth symbol = s.depth symbol := Function.update_of_ne hne ..

/-- The figure stays as it is. -/
theorem Tripped.hear (h : Tripped limits s) {m : DepthMessage}
    (hshown : (m.leaves (s.depth m.symbol)).Wide limits.maxSpreadBps →
      limits.maxSpreadBps < s.currentSpreadBps) : Tripped limits (s.hear m) := by
  intro symbol hwide
  by_cases heq : symbol = m.symbol
  · subst heq
    rw [hear_depth_self] at hwide
    exact hshown hwide
  · rw [hear_depth_of_ne s m heq] at hwide
    exact h symbol hwide

/-- The figure is at least the spread of the snapshot's book: the quotes at the front are no better
than the best ones. -/
theorem onL2Snapshot_of_wide {snap : L2Snapshot} (hlimit : 0 < limits.maxSpreadBps)
    (hfronted : Fronted snap)
    (hwide : (Depth.ofSnapshot snap).Wide limits.maxSpreadBps) (current : ℚ) :
    limits.maxSpreadBps < Analytics.onL2Snapshot current snap := by
  obtain ⟨bid, hbid, ask, hask, hspread⟩ := hwide
  obtain ⟨hbids, hasks, hprices⟩ := hfronted
  have hbidMem := (max?_eq_some_iff.1 hbid).1
  have haskMem := (min?_eq_some_iff.1 hask).1
  rw [Analytics.onL2Snapshot]
  cases hb : snap.bids with
  | nil => simp [Depth.ofSnapshot, Depth.quoted, hb] at hbidMem
  | cons b bs =>
    cases ha : snap.asks with
    | nil => simp [Depth.ofSnapshot, Depth.quoted, ha] at haskMem
    | cons a as =>
      have hbmem : b ∈ (Depth.ofSnapshot snap).bids := by
        rw [Depth.ofSnapshot, hb]
        exact Depth.mem_quoted_of_cons (hbids b (by rw [hb]; rfl))
      have hamem : a ∈ (Depth.ofSnapshot snap).asks := by
        rw [Depth.ofSnapshot, ha]
        exact Depth.mem_quoted_of_cons (hasks a (by rw [ha]; rfl))
      have hbpos : 0 < b.price := hprices b (mem_append_left _ (Depth.mem_of_mem_quoted hbmem))
      have hle : b.price ≤ bid := Depth.le_of_mem_bestBid hbid hbmem
      have hge : ask ≤ a.price := Depth.le_of_mem_bestAsk hask hamem
      obtain ⟨l, hl, rfl⟩ := mem_map.1 haskMem
      have hapos : 0 < l.price := hprices l (mem_append_right _ (Depth.mem_of_mem_quoted hl))
      have hopen : bid < l.price := by
        by_contra hcrossed
        have hnonpos : Depth.spreadBps bid l.price ≤ 0 := by
          rw [Depth.spreadBps]
          refine mul_nonpos_of_nonpos_of_nonneg (div_nonpos_of_nonpos_of_nonneg ?_ ?_) ?_
            <;> linarith
        linarith
      have hquotes : b.price < a.price ∧ 0 < b.price := ⟨by linarith, hbpos⟩
      dsimp only
      rw [if_pos hquotes]
      exact hspread.trans_le (Depth.spreadBps_mono hbpos hle hge hapos)

theorem tripped_step (hlimit : 0 < limits.maxSpreadBps) (ev : FeedEvent) (h : Tripped limits s)
    (hshown : Shown limits s ev) : Tripped limits (s.step ev).2 := by
  cases ev with
  | live m => exact h.hear hshown
  | other ev => exact h
  | replayed m =>
    cases m with
    | update symbol side price newQuantity =>
      have hheard : Tripped limits (s.hear (.update symbol side price newQuantity)) := h.hear hshown
      simp only [step, onDepth, ite_self]
      exact hheard
    | snapshot snap =>
      rw [Shown] at hshown
      split at hshown
      · next hwide =>
        obtain ⟨hinline, hfronted⟩ := hshown
        simp only [step, hinline, Bool.false_eq_true, if_false]
        exact fun symbol _ => onL2Snapshot_of_wide hlimit hfronted hwide _
      · next hnarrow =>
        have hheard : Tripped limits (s.hear (.snapshot snap)) :=
          h.hear fun hwide => absurd hwide hnarrow
        rcases hshown with hthreaded | hothers
        · simp only [step, hthreaded, if_true]
          exact hheard
        · rw [step]
          split
          · exact hheard
          · intro symbol hwide
            have hdepth : ((s.hear (.snapshot snap)).depth symbol).Wide limits.maxSpreadBps := hwide
            by_cases heq : symbol = snap.symbol
            · rw [heq, show snap.symbol = (DepthMessage.snapshot snap).symbol from rfl,
                hear_depth_self] at hdepth
              exact absurd hdepth hnarrow
            · rw [hear_depth_of_ne s (.snapshot snap) heq] at hdepth
              exact absurd hdepth (hothers symbol heq)

/-- **While a symbol's book is wider than the limit, its orders are refused**, in every run whose L2
messages reach the figure that the risk manager reads. -/
theorem guarded_of_shown (limits : RiskLimits) (hlimit : 0 < limits.maxSpreadBps) (threaded : Bool)
    (balance : ℚ) (events : List FeedEvent)
    (hshown : Along step (Shown limits) (init threaded balance) events) :
    ∀ s ∈ states step (init threaded balance) events, Guarded limits s := by
  have hinit : Tripped limits (init threaded balance) := by
    rintro symbol ⟨bid, hbid, -⟩
    cases hbid
  intro s hs
  exact (invariant (fun s ev => tripped_step hlimit ev) hinit hshown s hs).guarded hlimit

/-- A bid at 100 and an ask at 110. -/
def wideSnapshot (symbol : String) : L2Snapshot := ⟨0, symbol, [⟨100, 5⟩], [⟨110, 5⟩]⟩

/-- Fifty basis points. -/
def spreadLimits : RiskLimits := { maxSpreadBps := 50 }

theorem guarded_of_replayed_snapshot :
    let s :=
      final step (init false 1000) [.replayed (.snapshot (wideSnapshot "BTC")), .other .order]
    (s.depth "BTC").Wide spreadLimits.maxSpreadBps ∧ Guarded spreadLimits s := by
  refine ⟨by decide +kernel, guarded_of_shown spreadLimits (by decide +kernel) false 1000
    [.replayed (.snapshot (wideSnapshot "BTC")), .other .order] ⟨?_, trivial, trivial⟩ _
    (final_mem_states _ _)⟩
  have hwide : (Depth.ofSnapshot (wideSnapshot "BTC")).Wide spreadLimits.maxSpreadBps := by
    decide +kernel
  rw [Shown, if_pos hwide]
  exact ⟨rfl, by decide +kernel⟩

/-- A live snapshot of the same book, and an order passes. -/
theorem not_guarded_of_live_snapshot :
    ¬ ∀ (limits : RiskLimits), 0 < limits.maxSpreadBps → ∀ (threaded : Bool) (balance : ℚ)
      (events : List FeedEvent), ∀ s ∈ states step (init threaded balance) events,
      Guarded limits s := by
  intro h
  have hlast :=
    h spreadLimits (by decide +kernel) false 1000 [.live (.snapshot (wideSnapshot "BTC"))] _
      (final_mem_states _ _) "BTC" (by decide +kernel) .init
      (.new 0 1 "BTC" .limit .buy 1 100 .gtc 0) 0 (.init 1000) rfl
  revert hlast
  decide +kernel

end RiskFeed

end TrueTest
