import TrueTest.Engine.Desk
import TrueTest.Engine.Owners
import TrueTest.Execution.Accounting

/-!
# The position limit

`check_order` holds an order against `max_position_value` once, at the position of that moment and
as if the order filled in full at its own price. An order that reduces the position passes, even if
it goes through zero and opens on the other side. Other orders that rest or wait are not counted,
and the book rounds a quantity to whole lots.

So the limit holds for the position that an order's fill leaves if the order does not reduce, if no
other order fills in between, and if the order is not filled for more than its quantity. There is a
dust of slack, since the portfolio rounds a position of less than that to zero.
-/

namespace TrueTest

open Machine List Desk DeskCall

/-! ## Netting -/

/-- A position as an order of this side sees it: positive if the order adds to it. -/
def OrderSide.toward : OrderSide → ℚ → ℚ
  | .buy, q => q
  | .sell, q => -q

theorem OrderSide.abs_toward (s : OrderSide) (q : ℚ) : |s.toward q| = |q| := by
  cases s
  · rfl
  · exact abs_neg q

theorem OrderSide.toward_add (s : OrderSide) (p q : ℚ) :
    s.toward (p + q) = s.toward p + s.toward q := by
  cases s
  · rfl
  · exact neg_add p q

theorem toward_signedOrderQuantity (o : OrderEvent) :
    o.side.toward (signedOrderQuantity o) = o.quantity := by
  rw [signedOrderQuantity]
  cases o.side
  · rfl
  · exact neg_neg _

namespace Netting

/-- A buy adds its quantity, unless it leaves less than a dust of a short position. -/
theorem applyBuy_qty (f : FillEvent) (n : Netting) :
    (n.applyBuy f).pos.qty = n.pos.qty + f.filledQuantity ∨
      n.pos.qty < 0 ∧ (n.applyBuy f).pos.qty = 0 ∧ |n.pos.qty + f.filledQuantity| < dust := by
  by_cases hshort : n.pos.qty < 0
  · rw [applyBuy, if_pos hshort]
    dsimp only
    rcases le_total f.filledQuantity (-n.pos.qty) with hle | hle
    · rw [min_eq_left hle, sub_self, if_pos (by norm_num [dust]), coverShort]
      split_ifs with hdust
      · exact .inr ⟨hshort, rfl, hdust⟩
      · exact .inl rfl
    · have hflat : (n.coverShort f (-n.pos.qty)).pos.qty = 0 := by simp [coverShort, dust]
      rw [min_eq_right hle]
      split_ifs with hdust
      · refine .inr ⟨hshort, hflat, ?_⟩
        rw [abs_of_nonneg (by linarith)]
        linarith
      · rw [openLong, hflat]
        exact .inl (by ring)
  · rw [applyBuy, if_neg hshort]
    exact .inl rfl

theorem apply_toward (f : FillEvent) (n : Netting) : let x := f.side.toward n.pos.qty
    let y := f.side.toward (n.apply f).pos.qty
    y = x + f.filledQuantity ∨ x < 0 ∧ y = 0 ∧ |x + f.filledQuantity| < dust := by
  rw [apply]
  cases f.side with
  | buy => exact applyBuy_qty f n
  | sell =>
    have hsell : -(n.applySell f).pos.qty = (n.mirror.applyBuy f.mirror).pos.qty := by
      rw [applySell_mirror]
      exact neg_neg _
    dsimp only [OrderSide.toward]
    rw [hsell]
    exact applyBuy_qty f.mirror n.mirror

end Netting

/-! ## The fills of one order -/

/-- At most `bound`, or not negative and a dust more. -/
def Near (x bound : ℚ) : Prop := x ≤ bound ∨ 0 ≤ x ∧ x ≤ bound + dust

theorem Near.le {x bound : ℚ} (h : Near x bound) : x ≤ bound + dust := by
  have hdust : 0 < dust := by norm_num [dust]
  rcases h with h | h
  · linarith
  · exact h.2

variable {o : OrderEvent} {f : FillEvent} {verdict : RiskAction} {acts : List Act}
  (since : List DeskCall)

namespace Portfolio

variable {p : Portfolio} {side : OrderSide} {symbol : String} {bound : ℚ}

theorem near_book (hsymbol : f.symbol = symbol) (hside : f.side = side)
    (hq : 0 ≤ f.filledQuantity) (h : Near (side.toward (p.position symbol).qty) bound) :
    Near (side.toward ((book p f).position symbol).qty) (bound + f.filledQuantity) := by
  subst hsymbol hside
  rw [book, onFill_position_self]
  rcases Netting.apply_toward f ⟨p.cash, p.position f.symbol, p.totalTrades⟩
    with hadds | ⟨hneg, hzero, hdust⟩
  · rw [hadds]
    rcases h with hle | ⟨hpos, hle⟩
    · exact .inl (by linarith)
    · exact .inr ⟨add_nonneg hpos hq, by linarith⟩
  · rw [hzero]
    have hle : f.side.toward (p.position f.symbol).qty ≤ bound := h.resolve_right fun hpos =>
      absurd hneg (not_lt.2 hpos.1)
    have hnear := (abs_lt.1 hdust).1
    exact .inr ⟨le_rfl, by linarith⟩

/-- Fills of one side bring a position at most by their sum further to that side, up to a dust. -/
theorem near_foldl_book (fills : List FillEvent)
    (hfills : ∀ f ∈ fills, f.symbol = symbol → f.side = side ∧ 0 ≤ f.filledQuantity)
    (h : Near (side.toward (p.position symbol).qty) bound) :
    Near (side.toward ((fills.foldl book p).position symbol).qty)
      (bound + ((fills.filter fun f => f.symbol = symbol).map FillEvent.filledQuantity).sum) := by
  induction fills generalizing p bound with
  | nil => simpa using h
  | cons f fills ih =>
    have hrest : ∀ g ∈ fills, g.symbol = symbol → g.side = side ∧ 0 ≤ g.filledQuantity :=
      fun g hg => hfills g (mem_cons_of_mem f hg)
    by_cases hf : f.symbol = symbol
    · obtain ⟨hside, hq⟩ := hfills f mem_cons_self hf
      simpa [hf, add_assoc] using ih hrest (near_book hf hside hq h)
    · have hsame : (book p f).position symbol = p.position symbol :=
        onFill_position_of_ne p f _ _ (Ne.symm hf)
      simpa [hf] using ih hrest (hsame ▸ h)

/-- A position that a fill of this side makes larger is on this side. -/
theorem toward_pos_of_grows (hsymbol : f.symbol = symbol) (hside : f.side = side)
    (hq : 0 ≤ f.filledQuantity)
    (hgrows : |(p.position symbol).qty| < |((book p f).position symbol).qty|) :
    0 < side.toward ((book p f).position symbol).qty := by
  subst hsymbol hside
  have htoward : f.side.toward (p.position f.symbol).qty ≤ f.side.toward
      (Netting.apply f ⟨p.cash, p.position f.symbol, p.totalTrades⟩).pos.qty := by
    rcases Netting.apply_toward f ⟨p.cash, p.position f.symbol, p.totalTrades⟩
      with hadds | ⟨hneg, hzero, -⟩
    · rw [hadds]
      exact le_add_of_nonneg_right hq
    · rw [hzero]
      exact hneg.le
  rw [book, onFill_position_self] at hgrows ⊢
  rw [← f.side.abs_toward, ← f.side.abs_toward (Netting.apply _ _).pos.qty] at hgrows
  by_contra hneg
  rw [abs_of_nonpos (not_lt.1 hneg), abs_of_nonpos (htoward.trans (not_lt.1 hneg))] at hgrows
  linarith

/-- The same for the fills of one order, if no other order of the symbol is filled. -/
theorem near_of_undisturbed {fills : List FillEvent}
    (halone : ∀ g ∈ fills, g.symbol = o.symbol → g.orderId = o.orderId)
    (hfills : ∀ g ∈ fills, 0 ≤ g.filledQuantity ∧
      (g.orderId = o.orderId → g.symbol = o.symbol ∧ g.side = o.side)) :
    Near (o.side.toward ((fills.foldl book p).position o.symbol).qty)
      (o.side.toward (p.position o.symbol).qty + filledQty fills o.orderId) := by
  have hsame :
      fills.filter (fun g => g.symbol = o.symbol) = fills.filter fun g => g.orderId = o.orderId :=
    filter_congr fun g hg => decide_eq_decide.2 ⟨halone g hg, fun hid => ((hfills g hg).2 hid).1⟩
  rw [filledQty, ← hsame]
  refine near_foldl_book fills (fun g hg hsymbol => ?_) (.inl le_rfl)
  exact ⟨((hfills g hg).2 (halone g hg hsymbol)).2, (hfills g hg).1⟩

/-- The check projects the position that the order leads to if it fills in full. -/
theorem toward_le_projected (p : Portfolio) (o : OrderEvent) :
    o.side.toward (p.position o.symbol).qty + o.quantity ≤
      |projectedPositionQty o (p.positions.lookup o.symbol)| := by
  rw [← o.side.abs_toward, projectedPositionQty, o.side.toward_add, toward_signedOrderQuantity]
  refine le_trans (le_of_eq ?_) (le_abs_self _)
  rw [position]
  cases p.positions.lookup o.symbol <;> rfl

end Portfolio

/-! ## Whole runs -/

namespace Engine

/-- From the check of the order to its fill, no other order of the symbol fills. -/
def Undisturbed (o : OrderEvent) : Prop :=
  ∀ g ∈ bookedFills since, g.symbol = o.symbol → g.orderId = o.orderId

instance (o : OrderEvent) : Decidable (Undisturbed since o) :=
  inferInstanceAs (Decidable (∀ g ∈ _, _))

/-- Since its check the order is filled for at most its quantity, the fill `f` included. -/
def NotOverfilled (o : OrderEvent) (f : FillEvent) : Prop :=
  filledQty (bookedFills since) o.orderId + f.filledQuantity ≤ o.quantity

instance (o : OrderEvent) (f : FillEvent) : Decidable (NotOverfilled since o f) :=
  inferInstanceAs (Decidable (_ ≤ _))

/-- The order does not reduce the position it is checked at. -/
def Opens (balance : ℚ) (before : List DeskCall) (o : OrderEvent) : Prop :=
  ¬ reducesPositionExposure o ((portfolioAfter balance before).positions.lookup o.symbol)

instance (balance : ℚ) (before : List DeskCall)
    (o : OrderEvent) : Decidable (Opens balance before o) :=
  inferInstanceAs (Decidable (¬ _))

/-- A fill `f`, after the calls `before` and `since`, makes the position of its order larger. The
order passed its check as `o`, between those calls. -/
structure Grows (balance : ℚ) (calls before since : List DeskCall) (o : OrderEvent)
    (f : FillEvent) :
    Prop where
  recorded : before ++ .check o .pass :: since ++ [.fill f] <+: calls
  price : 0 < o.price
  order : f.orderId = o.orderId
  larger : |((portfolioAfter balance (before ++ since)).position o.symbol).qty| <
    |((portfolioAfter balance (before ++ since ++ [.fill f])).position o.symbol).qty|

theorem check_mem_acts (h : .check o verdict ∈ deskCalls acts) : .check o verdict ∈ acts := by
  obtain ⟨a, ha, hcall⟩ := mem_filterMap.1 h
  cases a with
  | check => cases hcall; exact ha
  | apply sink f => cases sink <;> cases hcall
  | _ => cases hcall

theorem fill_mem_acts (h : .fill f ∈ deskCalls acts) : .apply .portfolio f ∈ acts := by
  obtain ⟨a, ha, hcall⟩ := mem_filterMap.1 h
  cases a with
  | apply sink g =>
    cases sink with
    | portfolio => cases hcall; exact ha
    | _ => cases hcall
  | _ => cases hcall

/-- In a paper run, a fill that the portfolio gets is one of the order checked under its id. -/
theorem fill_of_check {cfg : LocalBookConfig} {config : EngineConfig} {ops : List Op}
    {moves : List (String × Venue.Move)} (hpaper : Paper cfg config ops moves)
    (hcheck : .check o verdict ∈ deskCalls (final step (init config) ops).acts) (g : FillEvent)
    (hg : .fill g ∈ deskCalls (final step (init config) ops).acts) :
    0 ≤ g.filledQuantity ∧ (g.orderId = o.orderId → g.symbol = o.symbol ∧ g.side = o.side) := by
  obtain ⟨owner, hchecked, hfilled⟩ := exists_owner hpaper
  obtain ⟨howner, hq⟩ := hfilled g (fill_mem_acts hg)
  refine ⟨hq, fun hid => Prod.mk.inj ?_⟩
  rw [← howner, hid, hchecked o verdict (check_mem_acts hcheck)]

/-- **The limit holds for the position that a fill makes larger**, up to a dust: if the order opens,
no other order fills between its check and the fill, and it is not overfilled. -/
theorem position_le_limit (limits : RiskLimits) (balance : ℚ) (cfg : LocalBookConfig)
    (config : EngineConfig) (ops : List Op) (moves : List (String × Venue.Move))
    (desk : List Move) (hpaper : Paper cfg config ops moves)
    (hdesk : Managed limits balance config ops desk) (before since : List DeskCall) (o : OrderEvent)
    (f : FillEvent)
    (hgrows : Grows balance (deskCalls (final step (init config) ops).acts) before since o f)
    (hopens : Opens balance before o) (halone : Undisturbed since o)
    (hqty : NotOverfilled since o f) :
    |((portfolioAfter balance (before ++ since ++ [.fill f])).position o.symbol).qty| * o.price ≤
      limits.maxPositionValue + dust * o.price := by
  have hsub : ∀ c ∈ before ++ .check o .pass :: since ++ [.fill f],
      c ∈ deskCalls (final step (init config) ops).acts := fun c hc => hgrows.recorded.subset hc
  have hfills := fill_of_check hpaper (hsub (.check o .pass) (by simp))
  have hsince : ∀ g ∈ bookedFills since, fill g ∈ since := fun g hg => by
    obtain ⟨c, hc, hcg⟩ := mem_filterMap.1 hg
    cases c with
    | fill g' =>
      cases hcg
      exact hc
    | check => cases hcg
  obtain ⟨hfq, hfkey⟩ := hfills f (hsub _ (by simp))
  obtain ⟨hfsymbol, hfside⟩ := hfkey hgrows.order
  set p := portfolioAfter balance before
  set p₁ := portfolioAfter balance (before ++ since) with hp₁
  have hp₂ : portfolioAfter balance (before ++ since ++ [.fill f]) = book p₁ f :=
    portfolioAfter_append balance (before ++ since) [.fill f]
  have hlarger := hgrows.larger
  rw [hp₂] at hlarger ⊢
  have hpos := Portfolio.toward_pos_of_grows hfsymbol hfside hfq hlarger
  -- The position goes at most by the order's fills to its side, and the check has seen all of them.
  have hnear : Near (o.side.toward (p₁.position o.symbol).qty)
      (o.side.toward (p.position o.symbol).qty + filledQty (bookedFills since) o.orderId) := by
    rw [hp₁, portfolioAfter_append]
    exact Portfolio.near_of_undisturbed halone fun g hg => hfills g (hsub _ (by simp [hsince g hg]))
  have hbound : o.side.toward ((book p₁ f).position o.symbol).qty ≤
      |projectedPositionQty o (p.positions.lookup o.symbol)| + dust := by
    have hafter := (Portfolio.near_book hfsymbol hfside hfq hnear).le
    have hprojected := Portfolio.toward_le_projected p o
    rw [NotOverfilled] at hqty
    linarith
  obtain ⟨rest, hrest⟩ := hgrows.recorded
  have hlimit := @Desk.within_of_pass _ _ _ _ before (since ++ .fill f :: rest)
    (by rw [show visible _ _ _ = _ from hdesk, ← hrest]; simp) hopens
  rw [projectedPositionNotional, valuationPrice, if_pos hgrows.price] at hlimit
  calc |((book p₁ f).position o.symbol).qty| * o.price
      = o.side.toward ((book p₁ f).position o.symbol).qty * o.price := by
        rw [← o.side.abs_toward, abs_of_pos hpos]
    _ ≤ (|projectedPositionQty o (p.positions.lookup o.symbol)| + dust) * o.price :=
        mul_le_mul_of_nonneg_right hbound hgrows.price.le
    _ ≤ limits.maxPositionValue + dust * o.price := by
        rw [add_mul]
        exact add_le_add_left hlimit _

/-! ### Examples -/

def limitOrder (id : Nat) (side : OrderSide) (qty price : ℚ) : OrderEvent :=
  { OrderEvent.new 0 id "BTC" .limit side qty price .gtc 0 with strategyName := "s" }

/-- A fill of an order, as the engine stamps it. -/
def filled (id : Nat) (ts : Int) (side : OrderSide) (qty price : ℚ) (fillId : Nat) : FillEvent where
  timestamp := ts
  symbol := "BTC"
  orderId := id
  side := side
  filledQuantity := qty
  fillPrice := price
  commission := 0
  fillId := fillId
  openerOrderId := id
  strategyName := "s"

/-- A strategy's order that fills at once. -/
def routed (o : OrderEvent) (fills : List FillEvent) : Op :=
  .strategyOrder "s" o [] 0 0 false
    { Replies.quiet with fills := fills.map fun f => handed f.bare }

/-- An order of the market maker. -/
def quoted (id : Nat) (side : Side) (price qty : Nat) : Quote :=
  ⟨.goodTillCancel, id, side, price, qty⟩

def atBook (ops : List LocalBook.Op) : List (String × Venue.Move) :=
  ops.map fun op => ("BTC", .adapter op)

/-- An order is filled in two parts within its limit. -/
def partsRun : List Op :=
  [.startWorkers,
    routed (limitOrder 0 .buy 10 100) [filled 1 0 .buy 4 99 1, filled 1 0 .buy 6 100 2]]

def partsMoves : List (String × Venue.Move) := atBook
  [.replenish [] [quoted 50 .sell 990000 4, quoted 51 .sell 1000000 6] 0,
    .submit (limitOrder 1 .buy 10 100) 0, .poll]

theorem position_le_limit_of_partsRun :
    let since := [fill (filled 1 0 .buy 4 99 1)]
    let f := filled 1 0 .buy 6 100 2
    |((portfolioAfter 0 ([] ++ since ++ [.fill f])).position "BTC").qty| = 10 ∧
      |((portfolioAfter 0 ([] ++ since ++ [.fill f])).position "BTC").qty| * 100 ≤
        1000 + dust * 100 := by
  intro since f
  have hpaper : Paper LocalBook.plainConfig plainExits partsRun partsMoves :=
    ⟨⟨rfl, rfl, rfl⟩, rfl, by decide +kernel, by decide +kernel⟩
  exact ⟨by decide +kernel, position_le_limit { maxPositionValue := 1000 } 0 _ _ _ _
    (replay (deskCalls (final step (init plainExits) partsRun).acts)) hpaper (by decide +kernel)
    [] since (limitOrder 1 .buy 10 100) f ⟨by decide +kernel, by decide +kernel, rfl,
      by decide +kernel⟩
    (by decide +kernel) (by decide +kernel) (by decide +kernel)⟩

/-- Two orders rest side by side, and a quote fills both. -/
def restingRun : List Op :=
  [.startWorkers, routed (limitOrder 0 .buy 10 100) [], routed (limitOrder 0 .buy 10 100) [],
    .adapterFills [handed (filled 1 1 .buy 10 100 1).bare, handed (filled 2 1 .buy 10 100 2).bare]]

def restingMoves : List (String × Venue.Move) := atBook
  [.submit (limitOrder 1 .buy 10 100) 0, .poll, .submit (limitOrder 2 .buy 10 100) 0, .poll,
    .replenish [] [quoted 50 .sell 1000000 20] 1, .poll]

/-- A buy covers a short position, and opens a long one with what is left. -/
def flipRun : List Op :=
  [.startWorkers, routed (limitOrder 0 .sell 10 10) [filled 1 0 .sell 10 10 1],
    routed (limitOrder 0 .buy 15 100) [filled 2 0 .buy 10 20 2, filled 2 0 .buy 5 20 3]]

def flipMoves : List (String × Venue.Move) := atBook
  [.replenish [] [quoted 50 .buy 100000 10] 0, .submit (limitOrder 1 .sell 10 10) 0, .poll,
    .replenish [] [quoted 51 .sell 200000 10, quoted 52 .sell 200000 5] 0,
    .submit (limitOrder 2 .buy 15 100) 0, .poll]

/-- Half a lot becomes one. -/
def halfRun : List Op :=
  [.startWorkers, routed (limitOrder 0 .buy (1 / 2) 100) [filled 1 0 .buy 1 100 1]]

def halfMoves : List (String × Venue.Move) := atBook
  [.replenish [] [quoted 50 .sell 1000000 1] 0, .submit (limitOrder 1 .buy (1 / 2) 100) 0, .poll]

/-- Lots of a tenth of the dust. -/
def fineLots : LocalBookConfig :=
  { LocalBook.plainConfig with qtyScale := 10 ^ 13, qtyScale_pos := by norm_num }

/-- A fill covers a short position up to half a dust. -/
def dustRun : List Op :=
  [.startWorkers, routed (limitOrder 0 .sell 1 1) [filled 1 0 .sell 1 1 1],
    routed (limitOrder 0 .buy 3 1)
      [filled 2 0 .buy (1 - dust / 2) 1 2, filled 2 0 .buy (2 + dust / 2) 1 3]]

def dustMoves : List (String × Venue.Move) := atBook
  [.replenish [] [quoted 50 .buy 10000 (10 ^ 13)] 0, .submit (limitOrder 1 .sell 1 1) 0, .poll,
    .replenish [] [quoted 51 .sell 10000 (10 ^ 13 - 5), quoted 52 .sell 10000 (2 * 10 ^ 13 + 5)] 0,
    .submit (limitOrder 2 .buy 3 1) 0, .poll]

/-- A fill of an order that passed its check makes the position larger, and larger than the
limit. -/
structure Exceeds (limit : ℚ) (cfg : LocalBookConfig) (ops : List Op)
    (moves : List (String × Venue.Move)) (before since : List DeskCall) (o : OrderEvent)
    (f : FillEvent) :
    Prop where
  paper : Paper cfg plainExits ops moves
  managed : Managed { maxPositionValue := limit } 0 plainExits ops
    (replay (deskCalls (final step (init plainExits) ops).acts))
  grows : Grows 0 (deskCalls (final step (init plainExits) ops).acts) before since o f
  exceeds : limit <
    |((portfolioAfter 0 (before ++ since ++ [.fill f])).position o.symbol).qty| * o.price

/-- Without one of the conditions, or without the dust, the limit is passed. -/
theorem position_gt_limit :
    let resting := [check (limitOrder 1 .buy 10 100) .pass]
    let short := [.check (limitOrder 1 .sell 10 10) .pass, .fill (filled 1 0 .sell 10 10 1)]
    let unit := [.check (limitOrder 1 .sell 1 1) .pass, .fill (filled 1 0 .sell 1 1 1)]
    let other := [fill (filled 1 1 .buy 10 100 1)]
    let cover := [fill (filled 2 0 .buy 10 20 2)]
    let nearly := [fill (filled 2 0 .buy (1 - dust / 2) 1 2)]
    (Exceeds 1500 LocalBook.plainConfig restingRun restingMoves resting other
        (limitOrder 2 .buy 10 100) (filled 2 1 .buy 10 100 2) ∧
      Opens 0 resting (limitOrder 2 .buy 10 100) ∧
      NotOverfilled other (limitOrder 2 .buy 10 100) (filled 2 1 .buy 10 100 2)) ∧
    (Exceeds 100 LocalBook.plainConfig flipRun flipMoves short cover (limitOrder 2 .buy 15 100)
        (filled 2 0 .buy 5 20 3) ∧
      Undisturbed cover (limitOrder 2 .buy 15 100) ∧
      NotOverfilled cover (limitOrder 2 .buy 15 100) (filled 2 0 .buy 5 20 3)) ∧
    (Exceeds 50 LocalBook.plainConfig halfRun halfMoves [] [] (limitOrder 1 .buy (1 / 2) 100)
        (filled 1 0 .buy 1 100 1) ∧
      Opens 0 [] (limitOrder 1 .buy (1 / 2) 100) ∧ Undisturbed [] (limitOrder 1 .buy (1 / 2) 100)) ∧
    (Exceeds 2 fineLots dustRun dustMoves unit nearly (limitOrder 2 .buy 3 1)
        (filled 2 0 .buy (2 + dust / 2) 1 3) ∧
      Opens 0 unit (limitOrder 2 .buy 3 1) ∧ Undisturbed nearly (limitOrder 2 .buy 3 1) ∧
      NotOverfilled nearly (limitOrder 2 .buy 3 1) (filled 2 0 .buy (2 + dust / 2) 1 3)) := by
  refine ⟨⟨⟨⟨⟨rfl, rfl, rfl⟩, rfl, ?_, ?_⟩, ?_, ⟨?_, ?_, rfl, ?_⟩, ?_⟩, ?_, ?_⟩,
    ⟨⟨⟨⟨rfl, rfl, rfl⟩, rfl, ?_, ?_⟩, ?_, ⟨?_, ?_, rfl, ?_⟩, ?_⟩, ?_, ?_⟩,
    ⟨⟨⟨⟨rfl, rfl, rfl⟩, rfl, ?_, ?_⟩, ?_, ⟨?_, ?_, rfl, ?_⟩, ?_⟩, ?_, ?_⟩,
    ⟨⟨⟨⟨rfl, rfl, rfl⟩, rfl, ?_, ?_⟩, ?_, ⟨?_, ?_, rfl, ?_⟩, ?_⟩, ?_, ?_, ?_⟩⟩ <;> decide +kernel

end Engine

end TrueTest
