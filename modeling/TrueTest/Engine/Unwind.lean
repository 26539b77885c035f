import TrueTest.Engine.Brackets
import TrueTest.Engine.Exposure
import TrueTest.Execution.Conservation

/-!
# Unwinding

`unwind_positions` sends one market order for every position that is not flat, to the book of its
symbol, and applies the fills. All of them are priced at `last_mid_price_`, the last price of
whichever symbol had the last event. The orders are not registered, so their fills have no opener:
the brackets of a position go only by the sweep after a flat position.

A `Trader` is the engine with its books and its portfolio; the answers that `Engine.unwindPosition`
takes as inputs come from them. With whole lots, no fading and no order of the engine in the way,
all positions are flat afterwards if each book covers its position at that one price. The symbols
are then silent exactly if every bracket that can fire is one that is swept.
-/

namespace TrueTest

open Machine List LocalBook Portfolio

/-! ## Closing in lots -/

namespace Portfolio

variable {p : Portfolio} {side : OrderSide} {symbol : String} {scale : ℚ}

theorem positionOpen_iff (p : Portfolio) (symbol : String) :
    p.positionOpen symbol = true ↔ dust < |(p.position symbol).qty| := by
  rw [positionOpen, position]
  cases p.positions.lookup symbol with
  | none => simp [dust]
  | some pos => simp

/-- A lot is more than the dust. -/
theorem lots_lt_dust_iff (hscale : 0 < scale) (hlot : scale * dust < 1) (n : Nat) :
    dust < n / scale ↔ n ≠ 0 := by
  rw [lt_div_iff₀ hscale, mul_comm]
  constructor
  · rintro h rfl
    have hdust : 0 < scale * dust := mul_pos hscale ExitManager.dust_pos
    rw [Nat.cast_zero] at h
    linarith
  · intro h
    have hone : (1 : ℚ) ≤ n := by exact_mod_cast Nat.one_le_iff_ne_zero.2 h
    linarith

/-- `n` lots against an order of this side. -/
def Against (p : Portfolio) (symbol : String) (side : OrderSide) (scale : ℚ) (n : Nat) : Prop :=
  side.toward (p.position symbol).qty = -(n / scale)

theorem Against.positionOpen_iff {n : Nat} (h : p.Against symbol side scale n) (hscale : 0 < scale)
    (hlot : scale * dust < 1) : p.positionOpen symbol = true ↔ n ≠ 0 := by
  rw [Portfolio.positionOpen_iff, ← side.abs_toward, h, abs_neg,
    abs_of_nonneg (div_nonneg (Nat.cast_nonneg n) hscale.le), lots_lt_dust_iff hscale hlot]

/-- A fill of at most what is there. -/
theorem Against.book {f : FillEvent} {n k : Nat} (h : p.Against f.symbol f.side scale n)
    (hscale : 0 < scale) (hlot : scale * dust < 1) (hqty : f.filledQuantity = k / scale)
    (hk : k ≤ n) :
    (Desk.book p f).Against f.symbol f.side scale (n - k) := by
  have hsub : f.side.toward (p.position f.symbol).qty + f.filledQuantity =
      -(((n - k : Nat) : ℚ) / scale) := by
    rw [h, hqty, Nat.cast_sub hk]
    ring
  rw [Against, Desk.book, onFill_position_self]
  rcases Netting.apply_toward f ⟨p.cash, p.position f.symbol, p.totalTrades⟩
    with hadds | ⟨-, hzero, hdust⟩
  · rw [hadds, hsub]
  · rw [hsub, abs_neg, abs_of_nonneg (div_nonneg (Nat.cast_nonneg _) hscale.le)] at hdust
    have hnone : n - k = 0 := by
      by_contra hne
      exact absurd ((lots_lt_dust_iff hscale hlot _).2 hne) (not_lt.2 hdust.le)
    rw [hzero, hnone]
    simp

end Portfolio

namespace LocalBook

open Arrival Reference

variable {cfg : LocalBookConfig} {a : LocalBook} {o : OrderEvent} {ts : Trades}

/-- A fill of the order as the adapter makes it, without attribution. -/
structure FillOf (o : OrderEvent) (f : FillEvent) : Prop where
  key : f.key = o.key
  openerOrderId : f.openerOrderId = 0
  strategyName : f.strategyName = ""

/-- If none of its counterparties is tracked, an order is given one fill for each trade. -/
theorem recordAll_submitReports (hfade : cfg.fadeRate = 0) (p : Nat)
    (huntracked : ∀ t ∈ ts, a.resting.lookup (half o.side.book.contra t).orderId = none) :
    ∃ fills, (a.recordAll cfg (submitReports o p ts)).pendingFills = a.pendingFills ++ fills ∧
      (∀ f ∈ fills, FillOf o f) ∧ fills.map FillEvent.filledQuantity =
        ts.map fun t => ((half o.side.book t).quantity : ℚ) / cfg.qtyScale := by
  induction ts generalizing a with
  | nil => exact ⟨[], by simp [submitReports, recordAll], by simp, rfl⟩
  | cons t ts ih =>
    obtain ⟨ht, hts⟩ := forall_mem_cons.1 huntracked
    set f := a.takerFill cfg o p (half o.side.book t) (half o.side.book.contra t) with hf
    have hrecord : a.recordAll cfg (submitReports o p (t :: ts)) =
        (a.emit f).recordAll cfg (submitReports o p ts) := by
      have hmaker :
          (Report.maker o.earliestEligibleTs (half o.side.book.contra t)).record cfg a = a :=
        Report.record_maker_of_none ht
      have htaker :
          (Report.taker o p (half o.side.book t) (half o.side.book.contra t)).record cfg a =
          a.emit f := by
        simp [Report.record, recordTakerFill, hfade, hf]
      show foldl _ _ _ = _
      rw [submitReports, flatMap_cons, foldl_append, foldl_cons, foldl_cons, foldl_nil, hmaker,
        htaker]
      rfl
    obtain ⟨fills, hfills, hof, hqty⟩ := ih (a := a.emit f) hts
    refine ⟨{ f with fillId := a.nextFillId } :: fills, ?_, ?_, ?_⟩
    · rw [hrecord, hfills, emit_pendingFills, append_assoc]
      rfl
    · exact forall_mem_cons.2 ⟨⟨rfl, rfl, rfl⟩, hof⟩
    · rw [map_cons, hqty, map_cons, ← takerQty_of_fadeRate hfade]
      rfl

/-- What is executed for an order that is a party to every trade. -/
theorem executed_eq_sum (hown : ∀ t ∈ ts, (half o.side.book t).orderId = o.orderId)
    (hcounter : ∀ t ∈ ts, (half o.side.book.contra t).orderId ≠ o.orderId) :
    executed ts o.orderId = (ts.map fun t => (half o.side.book t).quantity).sum := by
  induction ts with
  | nil => rfl
  | cons t ts ih =>
    obtain ⟨ht, hts⟩ := forall_mem_cons.1 hown
    obtain ⟨hc, hcs⟩ := forall_mem_cons.1 hcounter
    rw [executed_cons_half o.side.book, if_pos ht, if_neg hc, ih hts hcs, map_cons, sum_cons,
      Nat.add_zero]

/-- A market order against a book in order, whose resting orders on the other side are others': it
is given fills for what it finds within its limit. -/
theorem submit_fills (hfade : cfg.fadeRate = 0) {P : List Nat} (hbook : Orderbook.Holds a.book P)
    (hquiet : Quiet (P.map a.book.orders)) (hidle : a.pendingFills = [])
    (hfresh : a.book.orderMap.lookup o.orderId = none) (hmarket : o.orderType = .market)
    (hioc : o.tif = .ioc) (hforeign : ∀ r ∈ P, (a.book.orders r).side = o.side.book.contra →
      a.resting.lookup (a.book.orders r).orderId = none) (draw : ℚ) :
    ∃ lots : List Nat, (∀ f ∈ (a.submitOrder cfg o draw).pendingFills, FillOf o f) ∧
      (a.submitOrder cfg o draw).pendingFills.map FillEvent.filledQuantity =
        lots.map (fun k : Nat => (k : ℚ) / cfg.qtyScale) ∧
      lots.sum = min (bookQuantity cfg o.quantity)
        (a.book.restingAgainst o.side.book (bookPrice cfg a o)) := by
  have hnew : o.orderId ∉ (P.map a.book.orders).map Order.orderId := hbook.lookup_eq_none.1 hfresh
  have hacc : a.accepts cfg o draw = true := by
    simp [accepts, dropsLimit, hmarket]
    cases cfg.fillModel <;> simp
  have htype : bookOrderType o.tif ≠ .fillOrKill := by rw [hioc]; decide
  obtain ⟨P', hplaced⟩ := hbook.added (S := fun _ => False) (bookOrderType o.tif) o.side.book
    (bookPrice cfg a o) (bookQuantity cfg o.quantity) hquiet hnew not_false
  set ts := (a.place cfg o).2.1
  have hresting : (a.place cfg o).2.2.resting = a.resting := by
    rw [place]
    exact if_neg fun hgtc => by rw [hioc] at hgtc; exact absurd hgtc.1 (by decide)
  have hwalk : ts = (walk _ (bookOrder cfg a o) (P.map a.book.orders)).1 :=
    hbook.addOrder_trades hquiet htype hnew
  have huntracked :
      ∀ t ∈ ts, (a.place cfg o).2.2.resting.lookup (half o.side.book.contra t).orderId =
      none := by
    intro t ht
    rw [hwalk] at ht
    obtain ⟨c, hc, hside, hid⟩ := walk_counter _ _ _ t ht
    obtain ⟨r, hr, rfl⟩ := mem_map.1 hc
    rw [hresting, show (half o.side.book.contra t).orderId = _ from hid]
    exact hforeign r hr hside
  obtain ⟨fills, hfills, hof, hqty⟩ :=
    recordAll_submitReports hfade a.book.orderCount huntracked
  have hpending : (a.submitOrder cfg o draw).pendingFills = fills := by
    rw [submitOrder_eq hplaced hnew hacc, hfills, place_pendingFills, hidle, nil_append]
  refine ⟨ts.map fun t => (half o.side.book t).quantity, hpending ▸ hof, ?_, ?_⟩
  · rw [hpending, hqty, map_map]
    rfl
  · rw [← executed_eq_sum (placed_own hplaced) (placed_counter hplaced hnew)]
    exact hbook.addOrder_executed hquiet htype hnew

end LocalBook

/-! ## The engine with its books and its portfolio -/

namespace Engine

structure Closing where
  symbol : String
  qty : ℚ
  /-- The snapshot skips flat positions. -/
  nonflat : dust ≤ |qty|

/-- What the rest of the program answers while the engine unwinds. -/
structure Surroundings where
  now : Int
  l2Seeded : String → Bool
  orderDropped : Bool
  /-- A fill as it is handled, when the portfolio says whether its position is open. -/
  delivery : FillEvent → Bool → Delivery
  delivery_fill : ∀ f isOpen, (delivery f isOpen).fill = f
  delivery_positionOpen : ∀ f isOpen, (delivery f isOpen).positionOpen = isOpen

def Closing.flattening (x : Closing) (env : Surroundings) (mid : ℚ) (fills : List Delivery) :
    Flattening where
  now := env.now
  symbol := x.symbol
  qty := x.qty
  price := mid
  nonflat := x.nonflat
  dropped := env.orderDropped
  results := []
  fills := fills

def Closing.side (x : Closing) : OrderSide := if 0 < x.qty then .sell else .buy

def Closing.order (x : Closing) (env : Surroundings) (mid : ℚ) (id : Nat) : OrderEvent :=
  closeOrder id (x.flattening env mid [])

end Engine

open Engine (Closing Surroundings)

structure Trader where
  engine : Engine
  venue : Venue
  portfolio : Portfolio

namespace Trader

/-- The adapter of the symbol when the close is submitted. -/
def prepared (env : Surroundings) (mid : ℚ) (w : World) (x : Closing) : World :=
  { w with adapter := { w.adapter with midPrice := mid, l2Seeded := env.l2Seeded x.symbol } }

/-- The fills of a batch, as the engine handles them, and the portfolio after them. -/
def deliveries (env : Surroundings)
    (e : Engine) : Portfolio → List FillEvent → List Delivery × Portfolio
  | p, [] => ([], p)
  | p, f :: fills =>
    let p := Desk.book p (e.stampFillAttribution f)
    let s := deliveries env e p fills
    (env.delivery f (p.positionOpen f.symbol) :: s.1, s.2)

/-- One iteration of `unwind_positions`. -/
def unwindPosition (cfg : LocalBookConfig) (env : Surroundings) (mid : ℚ) (t : Trader)
    (x : Closing) :
    Trader :=
  let o := x.order env mid t.engine.nextOrderId
  let w := (step cfg (prepared env mid (t.venue x.symbol) x) (.submit o 0)).2
  let s := deliveries env t.engine t.portfolio w.adapter.pendingFills
  { engine := t.engine.unwindPosition (x.flattening env mid s.1)
    venue := Function.update t.venue x.symbol (step cfg w .poll).2
    portfolio := s.2 }

def closing? (symbol : String) (pos : Position) : Option Closing :=
  if h : dust ≤ |pos.qty| then some { symbol := symbol, qty := pos.qty, nonflat := h } else none

/-- The snapshot of the positions. -/
def toClose (p : Portfolio) : List Closing :=
  p.positions.entries.filterMap fun x => closing? x.1 x.2

/-- `unwind_positions`, with the last price `mid`. -/
def unwindPositions (cfg : LocalBookConfig) (env : Surroundings) (mid : ℚ)
    (order : IterationOrder Closing) (t : Trader) : Trader :=
  (order.run (toClose t.portfolio)).foldl (unwindPosition cfg env mid) t

end Trader

/-! ## The fills of a close -/

variable {symbols : List String} {m : ExitManager}

namespace Engine

variable {e e₁ e₂ : Engine}

/-- Neither the configuration nor the order attribution changes, and no id is given twice. -/
structure Steady (e e' : Engine) : Prop where
  config : e'.config = e.config
  orderMeta : e'.orderMeta = e.orderMeta
  nextOrderId : e.nextOrderId ≤ e'.nextOrderId

theorem Steady.refl (e : Engine) : Steady e e := ⟨rfl, rfl, le_rfl⟩

theorem Steady.trans (h₁ : Steady e e₁) (h₂ : Steady e₁ e₂) : Steady e e₂ :=
  ⟨h₂.config.trans h₁.config, h₂.orderMeta.trans h₁.orderMeta, h₁.nextOrderId.trans h₂.nextOrderId⟩

theorem steady_publish (e : Engine) (dropped : Bool) : Steady e (e.publish dropped) := by
  rw [publish]
  split
  · exact ⟨rfl, rfl, le_rfl⟩
  · exact .refl e

theorem publish_exitManager (e : Engine) (dropped : Bool) :
    (e.publish dropped).exitManager = e.exitManager := by
  rw [publish]
  split <;> rfl

theorem steady_notice : Notice Steady :=
  ⟨.refl, .trans, fun _ _ _ => ⟨rfl, rfl, le_rfl⟩, fun _ _ _ => ⟨rfl, rfl, le_rfl⟩⟩

/-- `applyFill` up to the notification. -/
theorem applyFill_eq (e : Engine) (d : Delivery) : ∃ e₁, Steady e e₁ ∧
    e₁.exitManager = e.exitManager.onFill (e.stampFillAttribution d.fill)
      (e.stampFillAttribution d.fill).openerOrderId d.placed d.order ∧
    e.applyFill d =
      ((e₁.notifyPositionChangeAll d.fill.symbol d.positionOpen).publish d.dropped).act
      (.apply .analytics (e.stampFillAttribution d.fill)) := by
  set f := e.stampFillAttribution d.fill
  refine ⟨((({ e with orderTracker := TrueTest.handleEngineFill e.orderTracker f }.act
    (.apply .orderTracker f)).act (.apply .portfolio f)).callExits
    (.fill f f.openerOrderId d.placed d.order)).2, ⟨rfl, rfl, le_rfl⟩, rfl, ?_⟩
  rw [applyFill]
  rfl

theorem steady_applyFill (e : Engine) (d : Delivery) : Steady e (e.applyFill d) := by
  obtain ⟨e₁, hkeeps, -, happly⟩ := applyFill_eq e d
  have hpublish :=
    (hkeeps.trans (steady_notice.notifyPositionChangeAll e₁ d.fill.symbol d.positionOpen)).trans
      (steady_publish _ d.dropped)
  rw [happly]
  exact ⟨hpublish.config, hpublish.orderMeta, hpublish.nextOrderId⟩

/-- The stamp finds nothing for an order that was not registered. -/
theorem stampFillAttribution_of_none {f : FillEvent} (hmeta : e.orderMeta.lookup f.orderId = none)
    (hopener : f.openerOrderId = 0) : (e.stampFillAttribution f).openerOrderId = 0 := by
  simp [stampFillAttribution, hopener, lookupOpener, hmeta]

/-- A fill of an order that was not registered leaves the brackets, unless the position is flat. -/
theorem cleared_applyFill {d : Delivery} (h : m.Cleared (SweptBy e.config m symbols) e.exitManager)
    (hmeta : e.orderMeta.lookup d.fill.orderId = none) (hopener : d.fill.openerOrderId = 0)
    (hpending : ∀ x ∈ m.pending, x.1 ≠ d.fill.orderId)
    (harmed : ∀ x ∈ m.armed, x.1 ≠ d.fill.orderId) :
    m.Cleared (SweptBy e.config m (if d.positionOpen then symbols else d.fill.symbol :: symbols))
      (e.applyFill d).exitManager := by
  obtain ⟨e₁, hkeeps, hexits, happly⟩ := applyFill_eq e d
  rw [stampFillAttribution_of_none hmeta hopener] at hexits
  have hfill : m.Cleared (SweptBy e₁.config m symbols) e₁.exitManager := by
    rw [hkeeps.config, hexits]
    exact h.onFill d.placed d.order hpending harmed
  have hnotify := cleared_notify hfill d.fill.symbol d.positionOpen
  rw [hkeeps.config, ← publish_exitManager _ d.dropped] at hnotify
  rw [happly]
  exact hnotify

end Engine

variable {p : Portfolio}

namespace Trader

variable {env : Surroundings} {o : OrderEvent} {scale : ℚ}

variable (env) in
/-- The fills of a close, each for some lots and together for the whole position: the position is
flat, and the brackets are swept. -/
theorem deliveries_close (hscale : 0 < scale) (hlot : scale * dust < 1) {e₀ : Engine}
    (hmeta : e₀.orderMeta.lookup o.orderId = none) (hpending : ∀ x ∈ m.pending, x.1 ≠ o.orderId)
    (harmed : ∀ x ∈ m.armed, x.1 ≠ o.orderId) {fills : List FillEvent} {lots : List Nat}
    (hfills : ∀ f ∈ fills, FillOf o f)
    (hlots : fills.map FillEvent.filledQuantity = lots.map fun k : Nat => (k : ℚ) / scale)
    (hp : p.Against o.symbol o.side scale lots.sum) {e : Engine} (hkeeps : Engine.Steady e₀ e)
    (hcleared : m.Cleared (Engine.SweptBy e₀.config m symbols) e.exitManager)
    (hflat : lots.sum = 0 → o.symbol ∈ symbols) : let s := deliveries env e₀ p fills
    s.2.Against o.symbol o.side scale 0 ∧
      (∀ symbol ≠ o.symbol, s.2.position symbol = p.position symbol) ∧
      Engine.Steady e₀ (s.1.foldl Engine.applyFill e) ∧
      m.Cleared (Engine.SweptBy e₀.config m (o.symbol :: symbols))
        (s.1.foldl Engine.applyFill e).exitManager := by
  induction fills generalizing lots p e symbols with
  | nil =>
    obtain rfl : lots = [] := by simpa using hlots.symm
    have hmem := hflat rfl
    refine ⟨hp, fun _ _ => rfl, hkeeps, hcleared.congr fun k => ?_⟩
    simp only [Engine.SweptBy, mem_cons]
    grind
  | cons f fills ih =>
    obtain ⟨hf, hfills⟩ := forall_mem_cons.1 hfills
    cases lots with
    | nil => cases hlots
    | cons k lots =>
      rw [map_cons, map_cons, cons.injEq] at hlots
      obtain ⟨hid, hsymbol, hside⟩ :
          f.orderId = o.orderId ∧ f.symbol = o.symbol ∧ f.side = o.side := by
        simpa [FillEvent.key, OrderEvent.key] using hf.key
      set f' := e₀.stampFillAttribution f
      set p' := Desk.book p f'
      have hagainst : p'.Against o.symbol o.side scale lots.sum := by
        have hleft : (k :: lots).sum - k = lots.sum := by rw [sum_cons, Nat.add_sub_cancel_left]
        rw [← hsymbol, ← hside] at hp ⊢
        rw [← hleft]
        exact Against.book hp hscale hlot hlots.1 (by rw [sum_cons]; omega)
      set d := env.delivery f (p'.positionOpen f.symbol) with hd
      have hdfill : d.fill = f := env.delivery_fill f _
      have hdopen : d.positionOpen = p'.positionOpen o.symbol := by
        rw [hd, env.delivery_positionOpen, hsymbol]
      have hstep := Engine.cleared_applyFill (hkeeps.config ▸ hcleared)
        (by rw [hdfill, hid, hkeeps.orderMeta]; exact hmeta)
        (by rw [hdfill]; exact hf.openerOrderId)
        (by rw [hdfill, hid]; exact hpending) (by rw [hdfill, hid]; exact harmed)
      rw [hdfill, hsymbol, hdopen, hkeeps.config] at hstep
      obtain ⟨hp₁, hothers, hkeeps₁, hcleared₁⟩ := ih hfills hlots.2 hagainst
        (hkeeps.trans (Engine.steady_applyFill e d)) hstep (by
          intro hzero
          rw [if_neg fun hopen => (hagainst.positionOpen_iff hscale hlot).1 hopen hzero]
          exact mem_cons_self)
      refine ⟨hp₁, fun symbol hne => ?_, hkeeps₁, hcleared₁.congr fun x => ?_⟩
      · exact (hothers symbol hne).trans (onFill_position_of_ne p f' _ _ (hsymbol ▸ hne))
      · rw [Engine.SweptBy, Engine.SweptBy]
        split <;> simp

/-! ## One position after the other -/

variable {cfg : LocalBookConfig} {mid : ℚ} {t t₀ : Trader} {x : Closing} {symbols : List String}

/-- The limit of the close, if it is sent with the price `mid`. -/
def limit (cfg : LocalBookConfig) (env : Surroundings) (mid : ℚ) (v : Venue) (x : Closing) : Int :=
  bookPrice cfg (prepared env mid (v x.symbol) x).adapter (x.order env mid 0)

/-- The book of the position has its quantity on the other side, within `market_aggression` of
`mid`. -/
def Covers (cfg : LocalBookConfig) (env : Surroundings) (v : Venue) (mid : ℚ)
    (x : Closing) : Prop :=
  bookQuantity cfg |x.qty| ≤
    (v x.symbol).adapter.book.restingAgainst x.side.book (limit cfg env mid v x)

instance (v : Venue) : Decidable (Covers cfg env v mid x) := Nat.decLe _ _

/-- The book represents some orders, none of which match. -/
def InOrder (book : Orderbook) : Prop :=
  ∃ P, Orderbook.Holds book P ∧ Reference.Quiet (P.map book.orders)

/-- The positions are whole lots, none of them is held against an order of the engine, and the books
and the ids are in order. -/
structure Ready (cfg : LocalBookConfig) (t : Trader) : Prop where
  fadeRate : cfg.fadeRate = 0
  lot : cfg.qtyScale * dust < 1
  wholeLots : ∀ x ∈ toClose t.portfolio, |x.qty| * cfg.qtyScale = bookQuantity cfg |x.qty|
  book : ∀ x ∈ toClose t.portfolio, InOrder (t.venue x.symbol).adapter.book
  polled : ∀ x ∈ toClose t.portfolio, (t.venue x.symbol).adapter.pendingFills = []
  foreign : ∀ x ∈ toClose t.portfolio, ∀ n ∈ (t.venue x.symbol).adapter.book.queuedNodes,
    ((t.venue x.symbol).adapter.book.orderOf n).side = x.side.book.contra →
    (t.venue x.symbol).adapter.resting.lookup
      ((t.venue x.symbol).adapter.book.orderOf n).orderId = none
  bookIds : ∀ x ∈ toClose t.portfolio, ∀ id ∈ (t.venue x.symbol).adapter.book.orderMap.keys,
    id < t.engine.nextOrderId
  metaIds : ∀ id ∈ t.engine.orderMeta.keys, id < t.engine.nextOrderId
  pendingIds : ∀ y ∈ t.engine.exitManager.pending, y.1 < t.engine.nextOrderId
  armedIds : ∀ y ∈ t.engine.exitManager.armed, y.1 < t.engine.nextOrderId

theorem lookup_of_unused {β : Type} {entries : AList fun _ : Nat => β} {next id : Nat}
    (hused : ∀ id ∈ entries.keys, id < next) (hid : next ≤ id) : entries.lookup id = none :=
  AList.lookup_eq_none.2 fun hmem => absurd (hused id hmem) (not_lt.2 hid)

/-- The positions in `symbols` are closed, and nothing else has happened. -/
structure Unwound (t₀ : Trader) (symbols : List String) (t : Trader) : Prop where
  keeps : Engine.Steady t₀.engine t.engine
  cleared : t₀.engine.exitManager.Cleared
    (Engine.SweptBy t₀.engine.config t₀.engine.exitManager symbols) t.engine.exitManager
  flat : ∀ symbol ∈ symbols, t.portfolio.positionOpen symbol = false
  position : ∀ symbol ∉ symbols, t.portfolio.position symbol = t₀.portfolio.position symbol
  venue : ∀ symbol ∉ symbols, t.venue symbol = t₀.venue symbol

theorem Unwound.refl (t : Trader) : Unwound t [] t where
  keeps := .refl _
  cleared := (ExitManager.Cleared.refl _).congr fun k => by simp [Engine.SweptBy]
  flat := by simp
  position _ _ := rfl
  venue _ _ := rfl

theorem mem_toClose :
    x ∈ toClose p ↔ ∃ pos, p.positions.lookup x.symbol = some pos ∧ pos.qty = x.qty := by
  obtain ⟨symbol, qty, hqty⟩ := x
  rw [toClose, mem_filterMap]
  constructor
  · rintro ⟨⟨symbol', pos⟩, hmem, hx⟩
    rw [closing?] at hx
    split at hx
    · cases hx
      exact ⟨pos, AList.mem_lookup_iff.2 hmem, rfl⟩
    · cases hx
  · rintro ⟨pos, hlook, rfl⟩
    exact ⟨⟨symbol, pos⟩, AList.mem_lookup_iff.1 hlook, dif_pos hqty⟩

/-- Every position is closed once. -/
theorem nodup_toClose (p : Portfolio) : ((toClose p).map Closing.symbol).Nodup := by
  have hsub : ∀ l : List (Sigma fun _ => Position),
      ((l.filterMap fun x => closing? x.1 x.2).map Closing.symbol).Sublist (l.map Sigma.fst) := by
    intro l
    induction l with
    | nil => exact .slnil
    | cons y l ih =>
      rw [filterMap_cons, map_cons, closing?]
      split_ifs
      · exact ih.cons_cons y.1
      · exact ih.cons y.1
  exact (hsub _).nodup p.positions.nodupKeys

/-- A position that is not closed is flat. -/
theorem positionOpen_of_not_mem {symbol : String}
    (h : symbol ∉ (toClose p).map Closing.symbol) : p.positionOpen symbol = false := by
  by_contra hopen
  rw [Bool.not_eq_false, positionOpen_iff, position] at hopen
  cases hlook : p.positions.lookup symbol with
  | none =>
    rw [hlook] at hopen
    exact absurd hopen (by simp [dust])
  | some pos =>
    rw [hlook] at hopen
    exact h (mem_map.2 ⟨⟨symbol, pos.qty, hopen.le⟩, mem_toClose.2 ⟨pos, hlook, rfl⟩, rfl⟩)

/-- The position is the quantity of its close, against the side of the order. -/
theorem against_of_mem (hready : Ready cfg t) (hx : x ∈ toClose t.portfolio) :
    t.portfolio.Against x.symbol x.side cfg.qtyScale (bookQuantity cfg |x.qty|) := by
  obtain ⟨pos, hlook, hqty⟩ := mem_toClose.1 hx
  rw [Against, ← hready.wholeLots x hx, mul_div_assoc, div_self cfg.qtyScale_pos.ne', mul_one,
    position, hlook, Option.getD_some, hqty, Closing.side]
  split
  · next h => simp [OrderSide.toward, abs_of_pos h]
  · next h => simp [OrderSide.toward, abs_of_nonpos (not_lt.1 h)]

/-- The fills of a close that its book covers. -/
theorem exists_lots (hready : Ready cfg t) (hx : x ∈ toClose t.portfolio)
    (hcovers : Covers cfg env t.venue mid x) {id : Nat} (hid : t.engine.nextOrderId ≤ id) :
    let fills :=
      ((prepared env mid (t.venue x.symbol) x).adapter.submitOrder cfg (x.order env mid id)
        0).pendingFills
    ∃ lots : List Nat, (∀ f ∈ fills, FillOf (x.order env mid id) f) ∧
      fills.map FillEvent.filledQuantity = lots.map (fun k : Nat => (k : ℚ) / cfg.qtyScale) ∧
      lots.sum = bookQuantity cfg |x.qty| := by
  obtain ⟨P, hholds, hquiet⟩ := hready.book x hx
  obtain ⟨lots, hof, hqty, hsum⟩ := submit_fills
    (a := (prepared env mid (t.venue x.symbol) x).adapter) (o := x.order env mid id) hready.fadeRate
    hholds hquiet (hready.polled x hx) (lookup_of_unused (hready.bookIds x hx) hid) rfl rfl
    (fun r hr hside => by
      obtain ⟨n, hn, hnode⟩ := exists_queuedNode hholds hr
      have hforeign := hready.foreign x hx n hn
      rw [hnode] at hforeign
      exact hforeign hside) 0
  exact ⟨lots, hof, hqty, hsum.trans (min_eq_left hcovers)⟩

theorem Unwound.step (hready : Ready cfg t₀) (hx : x ∈ toClose t₀.portfolio)
    (hcovers : Covers cfg env t₀.venue mid x) (h : Unwound t₀ symbols t)
    (hnew : x.symbol ∉ symbols) :
    Unwound t₀ (x.symbol :: symbols) (unwindPosition cfg env mid t x) := by
  have hnext := h.keeps.nextOrderId
  obtain ⟨lots, hof, hqty, hsum⟩ := exists_lots hready hx hcovers hnext
  set o := x.order env mid t.engine.nextOrderId
  rw [← h.venue x.symbol hnew] at hof hqty
  have hagainst : t.portfolio.Against o.symbol o.side cfg.qtyScale lots.sum := by
    rw [hsum, Against, show t.portfolio.position o.symbol = _ from h.position x.symbol hnew]
    exact against_of_mem hready hx
  have hsome : lots.sum ≠ 0 := by
    intro hzero
    have hqty := hready.wholeLots x hx
    rw [← hsum, hzero, Nat.cast_zero] at hqty
    have hpos : 0 < |x.qty| * cfg.qtyScale :=
      mul_pos (ExitManager.dust_pos.trans_le x.nonflat) cfg.qtyScale_pos
    exact hpos.ne' hqty
  set fills := ((prepared env mid (t.venue x.symbol) x).adapter.submitOrder cfg o 0).pendingFills
  set s := deliveries env t.engine t.portfolio fills
  set e₁ := { t.engine with nextOrderId := t.engine.nextOrderId + 1 }.setStatus o.orderId .open
  set e₂ := ((e₁.publish env.orderDropped).submit o).act (.poll (s.1.map fun d => (d.fill, false)))
  have hpublish := Engine.steady_publish e₁ env.orderDropped
  have hsteady : Engine.Steady t.engine e₂ :=
    ⟨hpublish.config, hpublish.orderMeta, (Nat.le_succ _).trans hpublish.nextOrderId⟩
  have hexits : e₂.exitManager = t.engine.exitManager :=
    Engine.publish_exitManager e₁ env.orderDropped
  have hcleared : t₀.engine.exitManager.Cleared
      (Engine.SweptBy t.engine.config t₀.engine.exitManager symbols) e₂.exitManager := by
    rw [hexits, h.keeps.config]
    exact h.cleared
  obtain ⟨hflat, hothers, hkeeps, hswept⟩ := deliveries_close env cfg.qtyScale_pos hready.lot
    (by rw [h.keeps.orderMeta]; exact lookup_of_unused hready.metaIds hnext)
    (fun y hy => ((hready.pendingIds y hy).trans_le hnext).ne)
    (fun y hy => ((hready.armedIds y hy).trans_le hnext).ne) hof hqty hagainst hsteady hcleared
    fun hzero => absurd hzero hsome
  rw [h.keeps.config] at hswept
  refine ⟨h.keeps.trans hkeeps, hswept, fun symbol hmem => ?_, fun symbol hmem => ?_,
    fun symbol hmem => ?_⟩
  · by_cases hsymbol : symbol = x.symbol
    · rw [hsymbol]
      by_contra hopen
      exact (hflat.positionOpen_iff cfg.qtyScale_pos hready.lot).1
        (Bool.eq_true_of_not_eq_false hopen) rfl
    · rw [← h.flat symbol ((mem_cons.1 hmem).resolve_left hsymbol), Bool.eq_iff_iff,
        positionOpen_iff, positionOpen_iff, ← hothers symbol hsymbol]
      rfl
  · rw [mem_cons, not_or] at hmem
    exact (hothers symbol hmem.1).trans (h.position symbol hmem.2)
  · rw [mem_cons, not_or] at hmem
    exact (Function.update_of_ne hmem.1 _ _).trans (h.venue symbol hmem.2)

theorem Unwound.foldl {xs : List Closing} (hready : Ready cfg t₀)
    (hxs : ∀ x ∈ xs, x ∈ toClose t₀.portfolio)
    (hcovers : ∀ x ∈ toClose t₀.portfolio, Covers cfg env t₀.venue mid x) (h : Unwound t₀ symbols t)
    (hnodup : (xs.map Closing.symbol).Nodup) (hnew : ∀ x ∈ xs, x.symbol ∉ symbols) :
    ∃ symbols', (∀ symbol, symbol ∈ symbols' ↔ symbol ∈ symbols ∨ symbol ∈ xs.map Closing.symbol) ∧
      Unwound t₀ symbols' (xs.foldl (unwindPosition cfg env mid) t) := by
  induction xs generalizing t symbols with
  | nil => exact ⟨symbols, by simp, h⟩
  | cons x xs ih =>
    obtain ⟨hx, hxs⟩ := forall_mem_cons.1 hxs
    obtain ⟨hxnew, hnew⟩ := forall_mem_cons.1 hnew
    rw [map_cons, nodup_cons] at hnodup
    obtain ⟨symbols', hmem, hunwound⟩ := ih hxs (h.step hready hx (hcovers x hx) hxnew) hnodup.2 (by
      intro y hy hin
      rcases mem_cons.1 hin with heq | hin
      · exact hnodup.1 (heq ▸ mem_map_of_mem hy)
      · exact hnew y hy hin)
    refine ⟨symbols', fun symbol => ?_, hunwound⟩
    rw [hmem, map_cons, mem_cons, mem_cons]
    tauto

/-- All positions are closed. -/
theorem unwound_unwindPositions (hready : Ready cfg t)
    (hcovers : ∀ x ∈ toClose t.portfolio, Covers cfg env t.venue mid x)
    (order : IterationOrder Closing) :
    ∃ symbols, (∀ symbol, symbol ∈ symbols ↔ symbol ∈ (toClose t.portfolio).map Closing.symbol) ∧
      Unwound t symbols (unwindPositions cfg env mid order t) := by
  have hperm := order.perm (toClose t.portfolio)
  obtain ⟨symbols, hmem, hunwound⟩ :=
    (Unwound.refl t).foldl hready (fun x hx => hperm.mem_iff.1 hx) hcovers
      ((hperm.map _).nodup_iff.2 (nodup_toClose t.portfolio)) (by simp)
  refine ⟨symbols, fun symbol => ?_, hunwound⟩
  rw [hmem, (hperm.map Closing.symbol).mem_iff]
  simp

/-- **Unwinding closes every position whose book covers it at the price of the closes, and leaves a
symbol silent exactly if every bracket that can fire there belongs to a key that is swept.** -/
theorem unwindPositions_flat_silent (hready : Ready cfg t)
    (hcovers : ∀ x ∈ toClose t.portfolio, Covers cfg env t.venue mid x)
    (order : IterationOrder Closing) :
    let t' := unwindPositions cfg env mid order t
    let m := t.engine.exitManager
    (∀ symbol, t'.portfolio.positionOpen symbol = false) ∧
      ∀ x ∈ toClose t.portfolio, (t'.engine.exitManager.Silent x.symbol ↔
        ∀ y ∈ m.armed, m.CanFire x.symbol y → ∃ k, k.2 ∈ (toClose t.portfolio).map Closing.symbol ∧
          Engine.Sweepable t.engine.config m k ∧ (k, y.1) ∈ m.strategySymbolToOpeners) := by
  obtain ⟨symbols, hmem, h⟩ := unwound_unwindPositions hready hcovers order
  refine ⟨fun symbol => ?_, fun x hx => ?_⟩
  · by_cases hclosed : symbol ∈ symbols
    · exact h.flat symbol hclosed
    · rw [← positionOpen_of_not_mem (mt (hmem symbol).2 hclosed), Bool.eq_iff_iff,
        positionOpen_iff, positionOpen_iff, ← h.position symbol hclosed]
  · rw [ExitManager.silent_iff]
    simp only [← hmem]
    constructor
    · intro hsilent y hy hcan
      by_contra hkept
      have harmed : y ∈ (unwindPositions cfg env mid order t).engine.exitManager.armed :=
        (h.cleared.armed y).2 ⟨hy, fun k hk hk' => hkept ⟨k, hk.1, hk.2, hk'⟩⟩
      refine hsilent y harmed ⟨hcan.1, ?_, hcan.2.2⟩
      rw [ExitManager.Loaded, h.cleared.remaining y harmed]
      exact hcan.2.1
    · intro hswept y hy hcan
      obtain ⟨harmed, hkept⟩ := (h.cleared.armed y).1 hy
      have hloaded := hcan.2.1
      rw [ExitManager.Loaded, h.cleared.remaining y hy] at hloaded
      obtain ⟨k, hk, hsweep, hlisted⟩ := hswept y harmed ⟨hcan.1, hloaded, hcan.2.2⟩
      exact hkept k ⟨hk, hsweep⟩ hlisted

/-! ## Examples -/

/-- Nothing is seeded, nothing is dropped and no bracket is placed at a venue. -/
def calm : Surroundings where
  now := 0
  l2Seeded := fun _ => false
  orderDropped := false
  delivery := fun f isOpen => ⟨f, ExitManager.noHandles, .id, isOpen, false⟩
  delivery_fill := fun _ _ => rfl
  delivery_positionOpen := fun _ _ => rfl

/-- A bracket of a long position, with a stop at 90. -/
def longBracket (opener : Nat) (qty : ℚ) : Nat × ArmedIntent :=
  (opener,
    { intent :=
        { symbol := "BTC", closeSide := .sell, qty := qty, qtyFraction := 1, stopLoss := some 90,
          takeProfit := none, referenceEntry := none, trailingPct := none, deadline := none,
          openerOrderId := opener, strategyName := "s" }
      entryPrice := 100
      bestPrice := 100
      tsArmed := 0 })

def bracketed (armed : List (Nat × ArmedIntent)) : ExitManager :=
  { ExitManager.init false with
    armed := armed
    strategySymbolToOpeners := armed.map fun x => (("s", "BTC"), x.1)
    openerRemainingQty := armed.foldl (fun r x => r.insert x.1 x.2.intent.qty) ∅ }

/-- A trader with some positions and brackets, whose books have had some operations. -/
def trading (cfg : LocalBookConfig) (positions : List (String × ℚ))
    (armed : List (Nat × ArmedIntent)) (ops : String → List Op) : Trader where
  engine := { Engine.init (Engine.backtestConfig 0) with
    exitManager := bracketed armed, nextOrderId := 10 }
  venue := fun symbol => final (step cfg) .init (ops symbol)
  portfolio := { init 0 with
    positions := positions.foldl (fun ps x => ps.insert x.1 ⟨x.2, 100⟩) ∅ }

open Engine (quoted)

/-- The books are quoted once. -/
def quoting (quotes : String → List Quote) (symbol : String) : List Op :=
  [.replenish [] (quotes symbol) 0]

theorem inOrder_of_quoting (cfg : LocalBookConfig) (positions : List (String × ℚ))
    (armed : List (Nat × ArmedIntent)) (quotes : String → List Quote) (symbol : String) :
    InOrder ((trading cfg positions armed (quoting quotes)).venue symbol).adapter.book := by
  have hinit := consistent_init
  have hnone : ∀ id ∈ ([] : List Nat), ¬ False := fun _ _ => not_false
  have hquotes : ∀ q ∈ quotes symbol, ¬ False := fun _ _ => not_false
  obtain ⟨P, hact⟩ :=
    replenish_activity hinit.holds hinit.quiet hnone hquotes
  have hbook : ((trading cfg positions armed (quoting quotes)).venue symbol).adapter.book =
      (MarketMaker.replenish World.init.adapter.book [] (quotes symbol)).2 := by
    show (onBookTrades _ _ _ _).book = _
    rw [onBookTrades_eq, recordAll_book]
    rfl
  rw [hbook]
  exact ⟨P, hact.holds, hact.quiet⟩

/-- Two units of each symbol are bid for at a price of its own, and four are offered. -/
def twoBooks (btc eth : Nat) (symbol : String) : List Quote :=
  let price := if symbol = "BTC" then btc else eth
  [quoted 5 .buy (price * 10000) 2, quoted 6 .sell (price * 10000 + 1) 4]

theorem unwindPositions_flat_silent_of_twoBooks :
    let t := trading plainConfig [("BTC", 2), ("ETH", -4)] [longBracket 1 2]
      (quoting (twoBooks 100 101))
    (∃ x ∈ t.engine.exitManager.armed, t.engine.exitManager.CanFire "BTC" x) ∧
      (∀ symbol, (unwindPositions plainConfig calm 100 .id t).portfolio.positionOpen symbol =
        false) ∧
      (unwindPositions plainConfig calm 100 .id t).engine.exitManager.Silent "BTC" := by
  intro t
  have hready : Ready plainConfig t :=
    { fadeRate := rfl
      lot := by decide +kernel
      wholeLots := by decide +kernel
      book := fun x _ => inOrder_of_quoting _ _ _ _ _
      polled := by decide +kernel
      foreign := by decide +kernel
      bookIds := by decide +kernel
      metaIds := by decide +kernel
      pendingIds := by decide +kernel
      armedIds := by decide +kernel }
  have hcovers : ∀ x ∈ toClose t.portfolio, Covers plainConfig calm t.venue 100 x := by
    decide +kernel
  obtain ⟨hflat, hsilent⟩ := unwindPositions_flat_silent hready hcovers .id
  have hbtc : ∃ x ∈ toClose t.portfolio, x.symbol = "BTC" := by decide +kernel
  obtain ⟨x, hx, hsymbol⟩ := hbtc
  have hfires : Engine.Trigger.Fires [(.price 80, 0)] (longBracket 1 2).2 :=
    ⟨show (0 : ℚ) < 80 by norm_num, .inl (by decide +kernel)⟩
  have hloaded : t.engine.exitManager.Loaded 1 2 := by
    rw [ExitManager.Loaded]
    decide +kernel
  refine ⟨⟨longBracket 1 2, mem_singleton.2 rfl, rfl, hloaded, _, hfires⟩, hflat, ?_⟩
  · rw [← hsymbol, hsilent x hx]
    intro y hy _
    obtain rfl : y = longBracket 1 2 := mem_singleton.1 hy
    exact ⟨("s", "BTC"), by decide +kernel, by decide +kernel, by decide +kernel⟩

/-- Half of every fill fades. -/
def fading : LocalBookConfig := { plainConfig with fillModel := some ⟨1 / 2, fun _ _ => 1⟩ }

/-- The engine's own order is the only one that bids. -/
def ownBid (_symbol : String) : List Op := [.submit (Engine.limitOrder 3 .buy 2 100) 0, .poll]

/-- The books cover the positions at the last prices of their symbols, and a position stays open, or
a flat one has a bracket that still fires: the closes have another symbol's price, or one strategy
has two openers. Fading, a part of a lot and an order of the engine's own keep a position open as
well. -/
theorem unwindPositions_open_or_armed :
    let btcLast := fun symbol => if symbol = "BTC" then (100 : ℚ) else 10
    let leavesOpen := fun cfg t (symbol : String) =>
      (∀ x ∈ toClose t.portfolio, Covers cfg calm t.venue (btcLast x.symbol) x) ∧
        (unwindPositions cfg calm 100 .id t).portfolio.positionOpen symbol = true
    let two := trading plainConfig [("BTC", 2)] [longBracket 1 1, longBracket 2 1]
      (quoting (twoBooks 100 10))
    let after := unwindPositions plainConfig calm 100 .id two
    leavesOpen plainConfig (trading plainConfig [("BTC", 2), ("ETH", 2)] []
        (quoting (twoBooks 100 10))) "ETH" ∧
      ((∀ x ∈ toClose two.portfolio, Covers plainConfig calm two.venue (btcLast x.symbol) x) ∧
        after.portfolio.positionOpen "BTC" = false ∧
        (ExitManager.trigger "BTC" after.engine.exitManager (.price 80, 0, .id)).1 ≠ []) ∧
      leavesOpen fading (trading fading [("BTC", 2)] [] (quoting (twoBooks 100 10))) "BTC" ∧
      leavesOpen plainConfig (trading plainConfig [("BTC", 3 / 2)] []
        (quoting (twoBooks 100 10))) "BTC" ∧
      leavesOpen plainConfig (trading plainConfig [("BTC", 2)] [] ownBid) "BTC" := by
  refine ⟨⟨?_, ?_⟩, ⟨?_, ?_, ?_⟩, ⟨?_, ?_⟩, ⟨?_, ?_⟩, ?_, ?_⟩ <;> decide +kernel

end Trader

end TrueTest
