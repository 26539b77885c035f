import TrueTest.MarketMaker.MarketMaker
import TrueTest.Orderbook.Reference

/-!
# The ladder on the book

`replenish` pulls the quotes of the last call and enters the new ladder order by order, through the
matching path. On books that hold nothing else, the ladder rests as it was computed if no bid of it
crosses an ask of it. Prices are rounded to the grid on the way in, so this does not follow from a
positive half spread: at a low price the best bid and the best ask can round to one tick, and then
they trade with each other (`ladder_trades_with_itself`). The prices further out are no closer than
the best ones, so the best ones decide (`Spaced`).
-/

namespace TrueTest

open List Reference Function

theorem roundHalfAway_mono {p q : ℚ} (h : p ≤ q) : roundHalfAway p ≤ roundHalfAway q := by
  have hfloor : ∀ {x y : ℚ}, x ≤ y → ⌊x + 1 / 2⌋ ≤ ⌊y + 1 / 2⌋ := fun hxy => by gcongr
  have hnonneg : ∀ {x : ℚ}, 0 ≤ x → 0 ≤ ⌊x + 1 / 2⌋ := fun hx => Int.floor_nonneg.2 (by linarith)
  rw [roundHalfAway, roundHalfAway]
  split_ifs with hp hq hq
  · exact hfloor h
  · exact absurd (hp.trans h) hq
  · have hneg := hnonneg (x := -p) (by linarith)
    have hpos := hnonneg hq
    omega
  · exact neg_le_neg (hfloor (neg_le_neg h))

theorem priceFromDouble_mono {p q : ℚ} (h : p ≤ q) : priceFromDouble p ≤ priceFromDouble q :=
  roundHalfAway_mono (mul_le_mul_of_nonneg_right h (by norm_num [priceScale]))

namespace MarketMaker

open Machine Arrival
open Orderbook (Agrees SameResting)

/-- The maker and the books it quotes on. -/
structure Quoting where
  maker : MarketMaker
  books : String → Orderbook

/-- One call of `replenish`; the ids of its quotes count from `nextId`. -/
structure Call where
  symbol : String
  price : ℚ
  update : Bool
  nextId : Nat

def bookOrder (q : Quote) : Order := Order.new q.orderType q.id q.side q.price q.quantity

variable (sqrt : ℚ → ℚ) (cal : MmCalibration) (s : Quoting) (c : Call)

/-- The ladder that is computed for the call. -/
def quotes : List Quote :=
  (s.maker.computeReplenish sqrt cal c.price c.update).1.zipIdx.map fun x =>
    quote (c.nextId + x.2) x.1

def quoteStep : Trades × Quoting :=
  let (trades, book, _, maker) :=
    s.maker.requote sqrt cal c.symbol (s.books c.symbol) c.nextId c.price c.update
  (trades, ⟨maker, update s.books c.symbol book⟩)

def callSpread : ℚ :=
  halfSpread sqrt cal
    (if c.update then updateHistory s.maker.priceHistory c.price else s.maker.priceHistory)

/-- The best bid, if it rounds to a price at all, rounds below the best ask. -/
def Spaced : Prop :=
  0 < priceFromDouble (c.price * (1 - callSpread sqrt cal s c)) →
    priceFromDouble (c.price * (1 - callSpread sqrt cal s c)) <
      priceFromDouble (c.price * (1 + callSpread sqrt cal s c))

/-- After the call the book holds the ladder, each order in full, and nothing has traded. -/
def LadderRests : Prop :=
  (quoteStep sqrt cal s c).1 = [] ∧
    SameResting ((quoteStep sqrt cal s c).2.books c.symbol) ((quotes sqrt cal s c).map bookOrder)

/-! ## The ladder -/

variable {sqrt cal s c} {o : MmOrder}

/-- Every order of a level stands on its side of the best one. -/
theorem mem_level {price spread : ℚ} {k : Nat} (hprice : 0 < price) (hspread : 0 < spread)
    (ho : o ∈ level cal price spread (k + 1)) :
    (o.side = .buy → 0 < priceFromDouble o.price ∧ o.price ≤ price * (1 - spread)) ∧
    (o.side = .sell → price * (1 + spread) ≤ o.price) := by
  have hout : price * spread ≤ price * (spread * (k + 1 : ℕ)) := by
    have := mul_nonneg (mul_pos hprice hspread).le (Nat.cast_nonneg (α := ℚ) k)
    push_cast
    linarith
  rcases mem_append.1 ho with ho | ho
  · split_ifs at ho with hbid
    · rw [mem_singleton.1 ho]
      exact ⟨fun _ => ⟨hbid, by dsimp only; linarith⟩, nofun⟩
    · cases ho
  · rw [mem_singleton.1 ho]
    exact ⟨nofun, fun _ => by dsimp only; linarith⟩

theorem mem_computeReplenish (ho : o ∈ (s.maker.computeReplenish sqrt cal c.price c.update).1) :
    0 < c.price ∧ ∃ k, o ∈ level cal c.price (callSpread sqrt cal s c) (k + 1) := by
  rw [computeReplenish] at ho
  by_cases hprice : c.price ≤ 0
  · rw [if_pos hprice] at ho
    cases ho
  · rw [if_neg hprice] at ho
    obtain ⟨i, hi, ho⟩ := mem_flatMap.1 ho
    obtain ⟨k, -, rfl⟩ := mem_map.1 hi
    exact ⟨not_le.1 hprice, k, ho⟩

theorem uncrossed_quotes (hspread : 0 < callSpread sqrt cal s c) (hspaced : Spaced sqrt cal s c) :
    Uncrossed ((quotes sqrt cal s c).map bookOrder) := by
  have hmem : ∀ x ∈ (quotes sqrt cal s c).map bookOrder,
      ∃ o ∈ (s.maker.computeReplenish sqrt cal c.price c.update).1,
        x.side = o.side.book ∧ x.price = priceFromDouble o.price := by
    intro x hx
    obtain ⟨q, hq, rfl⟩ := mem_map.1 hx
    obtain ⟨⟨o, i⟩, ho, rfl⟩ := mem_map.1 hq
    exact ⟨o, (mem_zipIdx' ho).2 ▸ getElem_mem _, rfl, rfl⟩
  intro b hb a ha hbs has
  obtain ⟨bid, hbid, hbside, hbp⟩ := hmem b hb
  obtain ⟨ask, hask, haside, hap⟩ := hmem a ha
  have hbuy : bid.side = .buy := by cases h : bid.side <;> simp_all [OrderSide.book]
  have hsell : ask.side = .sell := by cases h : ask.side <;> simp_all [OrderSide.book]
  obtain ⟨hprice, _, hbid⟩ := mem_computeReplenish hbid
  obtain ⟨-, _, hask⟩ := mem_computeReplenish hask
  obtain ⟨hpos, hle⟩ := (mem_level hprice hspread hbid).1 hbuy
  have hge := (mem_level hprice hspread hask).2 hsell
  rw [hbp, hap]
  calc priceFromDouble bid.price
      ≤ priceFromDouble (c.price * (1 - callSpread sqrt cal s c)) := priceFromDouble_mono hle
    _ < priceFromDouble (c.price * (1 + callSpread sqrt cal s c)) :=
        hspaced (hpos.trans_le (priceFromDouble_mono hle))
    _ ≤ priceFromDouble ask.price := priceFromDouble_mono hge

theorem nodup_quotes : ((quotes sqrt cal s c).map Quote.id).Nodup := by
  rw [quotes, map_map, show Quote.id ∘ (fun x => quote (c.nextId + x.2) x.1) =
    (c.nextId + ·) ∘ Prod.snd from rfl, ← map_map, zipIdx_map_snd]
  exact Nodup.map (fun _ _ => Nat.add_left_cancel) nodup_range'

/-! ## The book -/

variable {book : Orderbook} {os : List Order}

/-- Pulling everything that rests empties the book. -/
theorem agrees_pulled {live : List Nat} (h : Agrees book os) (hlive : ∀ o ∈ os, o.orderId ∈ live) :
    Agrees (live.foldl Orderbook.cancelOrder book) [] := by
  induction live generalizing book os with
  | nil =>
    rw [eq_nil_iff_forall_not_mem.2 fun o ho => not_mem_nil (hlive o ho)] at h
    exact h
  | cons id live ih =>
    refine ih (h.handle (r := .cancel id) trivial).2 fun o ho => ?_
    obtain ⟨ho, hne⟩ := mem_filter.1 ho
    exact (mem_cons.1 (hlive o ho)).resolve_left (of_decide_eq_true hne)

/-- Quotes that cross neither the book nor each other all rest. -/
theorem addQuotes_rest {qs : List Quote} (h : Agrees book os)
    (htype : ∀ q ∈ qs, q.orderType = .goodTillCancel)
    (hids : (os.map Order.orderId ++ qs.map Quote.id).Nodup)
    (hun : Uncrossed (os ++ qs.map bookOrder)) :
    (addQuotes qs book).1 = [] ∧ Agrees (addQuotes qs book).2 (os ++ qs.map bookOrder) := by
  induction qs generalizing book os with
  | nil =>
    rw [map_nil, append_nil]
    exact ⟨rfl, h⟩
  | cons q qs ih =>
    obtain ⟨hgtc, htype⟩ := forall_mem_cons.1 htype
    have hfresh : q.id ∉ os.map Order.orderId := fun hmem =>
      (nodup_append.1 hids).2.2 _ hmem _ mem_cons_self rfl
    have hmem : bookOrder q ∈ os ++ (q :: qs).map bookOrder := mem_append_right _ mem_cons_self
    have hcan : canMatch q.side q.price os = false := by
      refine canMatch_eq_false_iff.2 fun x hx hxs => ?_
      have hx' : x ∈ os ++ (q :: qs).map bookOrder := mem_append_left _ hx
      cases hside : q.side with
      | buy =>
        rw [hside] at hxs
        exact not_le.2 (hun _ hmem x hx' hside hxs)
      | sell =>
        rw [hside] at hxs
        exact not_le.2 (hun x hx' _ hmem hxs hside)
    have hadd : Reference.add (bookOrder q) os = ([], os ++ [bookOrder q]) := by
      have htype : (bookOrder q).orderType = .goodTillCancel := hgtc
      have hwalk : walk os.length (bookOrder q) os = ([], some (bookOrder q), os) :=
        walk_of_not_canMatch hcan
      have hnew : (bookOrder q).orderId ∉ os.map Order.orderId := hfresh
      simp [Reference.add, hnew, htype, hwalk]
    have hsum : Orderbook.SumExact book (.add q.orderType q.id q.side q.price q.quantity) := by
      rw [hgtc]
      trivial
    obtain ⟨htrades, hagrees⟩ := h.handle hsum
    rw [show handle os (.add q.orderType q.id q.side q.price q.quantity) =
      ([], os ++ [bookOrder q]) from hadd] at htrades hagrees
    rw [map_cons, append_cons] at hun ⊢
    obtain ⟨htrades', hagrees'⟩ := ih hagrees htype (by simpa [bookOrder, Order.new] using hids) hun
    exact ⟨append_eq_nil_iff.2 ⟨htrades, htrades'⟩, hagrees'⟩

/-! ## Runs -/

/-- The books hold live quotes of the maker only. -/
def OwnQuotes (s : Quoting) : Prop :=
  ∀ symbol, ∃ os, Agrees (s.books symbol) os ∧
    ∀ o ∈ os, o.orderId ∈ (s.maker.liveQuotes.lookup symbol).getD []

theorem quoteStep_rests (h : OwnQuotes s) (hspread : 0 < callSpread sqrt cal s c)
    (hspaced : Spaced sqrt cal s c) : OwnQuotes (quoteStep sqrt cal s c).2 ∧
    LadderRests sqrt cal s c := by
  obtain ⟨os, hos, hlive⟩ := h c.symbol
  have htype : ∀ q ∈ quotes sqrt cal s c, q.orderType = .goodTillCancel := by
    intro q hq
    obtain ⟨x, -, rfl⟩ := mem_map.1 hq
    rfl
  obtain ⟨htrades, hagrees⟩ := addQuotes_rest (agrees_pulled hos hlive) htype nodup_quotes
    (uncrossed_quotes hspread hspaced)
  have hbook : (quoteStep sqrt cal s c).2.books = update s.books c.symbol
    (replenish (s.books c.symbol) ((s.maker.liveQuotes.lookup c.symbol).getD [])
      (quotes sqrt cal s c)).2 := rfl
  have hquotes : (quoteStep sqrt cal s c).2.maker.liveQuotes =
      s.maker.liveQuotes.insert c.symbol ((quotes sqrt cal s c).map Quote.id) := by
    have hkept : (s.maker.computeReplenish sqrt cal c.price c.update).2.liveQuotes =
        s.maker.liveQuotes := by
      rw [computeReplenish]
      split <;> rfl
    rw [← hkept]
    rfl
  refine ⟨fun symbol => ?_, htrades, ?_⟩
  · rw [hbook, hquotes]
    by_cases hsame : symbol = c.symbol
    · subst hsame
      rw [update_self, AList.lookup_insert]
      refine ⟨_, hagrees, fun o ho => ?_⟩
      obtain ⟨q, hq, rfl⟩ := mem_map.1 ho
      exact mem_map_of_mem hq
    · rw [update_of_ne hsame, AList.lookup_insert_ne hsame]
      exact h symbol
  · rw [hbook, update_self]
    exact hagrees.1.sameResting

def start : Quoting := ⟨init, fun _ => Orderbook.init⟩

/-- **The ladder rests as computed** after every call of a run in which no best bid rounds to the
tick of the best ask or beyond. -/
theorem ladder_rests_of_spaced (sqrt : ℚ → ℚ) (cal : MmCalibration)
    (hspread : ∀ history, 0 < halfSpread sqrt cal history) (calls : List Call)
    (hcalls : Along (quoteStep sqrt cal) (Spaced sqrt cal) start calls) :
    Along (quoteStep sqrt cal) (LadderRests sqrt cal) start calls := by
  have hstart : OwnQuotes start := fun _ =>
    ⟨[], ⟨Orderbook.models_init, quiet_nil⟩, nofun⟩
  exact along_of_invariant (fun _ _ h hspaced => quoteStep_rests h (hspread _) hspaced)
    hstart hcalls

/-- Two calls at ordinary prices. -/
theorem ladder_rests_example :
    let cal : MmCalibration := { levelsPerSide := 2, volSpreadMult := 0 }
    Along (quoteStep id cal) (LadderRests id cal) start
      [⟨"BTC", 100, true, 1⟩, ⟨"BTC", 101, true, 5⟩] := by
  refine ladder_rests_of_spaced _ _ (fun history => by norm_num [halfSpread]) _
    ⟨?_, ?_, trivial⟩ <;>
  · show _ → _
    decide +kernel

/-- **The ladder trades with itself** at a price of one tick: bid and ask round to the same
price. -/
theorem ladder_trades_with_itself :
    let cal : MmCalibration := { levelsPerSide := 1, volSpreadMult := 0 }
    (∀ history, 0 < halfSpread id cal history) ∧
      ¬ LadderRests id cal start ⟨"PEPE", 1 / 10000, true, 1⟩ :=
  ⟨fun history => by norm_num [halfSpread], fun h => absurd h.1 (by decide +kernel)⟩

end MarketMaker

end TrueTest
