import TrueTest.Core.Event

/-!
# Trading rules of an instrument

`instrument_spec` of `execution/instrument.h` and `InstrumentSpecCache::apply_instrument_spec`: the
router rounds an order to the venue's tick and lot and refuses one that is too small. A rule that is
zero is unset. The fee rates of a specification are not read here and are left out.
-/

namespace TrueTest

structure InstrumentSpec where
  symbol : String
  tickSize : ℚ := 0
  lotSize : ℚ := 0
  minQty : ℚ := 0
  minNotional : ℚ := 0

def quantizePriceToTick (price tick : ℚ) : ℚ :=
  if tick ≤ 0 then price else roundHalfAway (price / tick) * tick

def floorQtyToLot (qty lot : ℚ) : ℚ :=
  if lot ≤ 0 then qty else ⌊qty / lot⌋ * lot

def meetsMinQty (qty minQty : ℚ) : Bool := minQty ≤ 0 ∨ minQty - 1 / 10 ^ 12 ≤ qty

def meetsMinNotional (qty price minNotional : ℚ) : Bool :=
  minNotional ≤ 0 ∨ minNotional - 1 / 10 ^ 9 ≤ qty * price

/-- The order as it is passed on, and whether the venue would take it. -/
def applyInstrumentSpec (o : OrderEvent) (spec : InstrumentSpec) : Bool × OrderEvent :=
  let o := if 0 < spec.tickSize then
      { o with
        price := if o.orderType = .limit ∨ o.orderType = .stopLimit then
            quantizePriceToTick o.price spec.tickSize
          else o.price
        stopPrice := if o.orderType = .stop ∨ o.orderType = .stopLimit then
            quantizePriceToTick o.stopPrice spec.tickSize
          else o.stopPrice }
    else o
  let o := if 0 < spec.lotSize then { o with quantity := floorQtyToLot o.quantity spec.lotSize }
    else o
  let refPrice := if o.orderType = .stop then o.stopPrice else o.price
  (meetsMinQty o.quantity spec.minQty && meetsMinNotional o.quantity refPrice spec.minNotional, o)

/-- Rounding changes prices and the quantity only. -/
theorem applyInstrumentSpec_eq (o : OrderEvent) (spec : InstrumentSpec) :
    let r := (applyInstrumentSpec o spec).2
    r = { o with price := r.price, stopPrice := r.stopPrice, quantity := r.quantity } := by
  unfold applyInstrumentSpec
  dsimp only
  split <;> split <;> rfl

variable (o : OrderEvent) (spec : InstrumentSpec)

theorem applyInstrumentSpec_openerOrderId :
    (applyInstrumentSpec o spec).2.openerOrderId = o.openerOrderId := by
  rw [applyInstrumentSpec_eq]

theorem applyInstrumentSpec_orderType : (applyInstrumentSpec o spec).2.orderType = o.orderType := by
  rw [applyInstrumentSpec_eq]

theorem applyInstrumentSpec_orderId : (applyInstrumentSpec o spec).2.orderId = o.orderId := by
  rw [applyInstrumentSpec_eq]

theorem applyInstrumentSpec_symbol : (applyInstrumentSpec o spec).2.symbol = o.symbol := by
  rw [applyInstrumentSpec_eq]

theorem applyInstrumentSpec_side : (applyInstrumentSpec o spec).2.side = o.side := by
  rw [applyInstrumentSpec_eq]

/-! ## What an accepted order looks like -/

theorem abs_roundHalfAway_sub (q : ℚ) : |roundHalfAway q - q| ≤ 1 / 2 := by
  rw [roundHalfAway, ← round_eq, ← round_eq, abs_sub_comm]
  split_ifs
  · exact abs_sub_round q
  · rw [Int.cast_neg, abs_sub_comm, neg_sub_comm]
    exact abs_sub_round (-q)

@[simp] theorem roundHalfAway_intCast (k : Int) : roundHalfAway k = k := by
  rw [roundHalfAway, ← round_eq, ← Int.cast_neg, ← round_eq, round_intCast, round_intCast, neg_neg,
    ite_self]

/-- A price on the tick, within half a tick of the original. -/
def OnTick (tick original price : ℚ) : Prop :=
  (∃ k : Int, price = k * tick) ∧ |price - original| ≤ tick / 2

theorem onTick_quantizePriceToTick {tick : ℚ} (htick : 0 < tick) (price : ℚ) :
    OnTick tick price (quantizePriceToTick price tick) := by
  rw [quantizePriceToTick, if_neg htick.not_ge]
  refine ⟨⟨_, rfl⟩, ?_⟩
  calc |roundHalfAway (price / tick) * tick - price|
      = |roundHalfAway (price / tick) - price / tick| * tick := by
        rw [← abs_of_pos htick, ← abs_mul, abs_of_pos htick, sub_mul, div_mul_cancel₀ _ htick.ne']
    _ ≤ tick / 2 := by
        linarith [mul_le_mul_of_nonneg_right (abs_roundHalfAway_sub (price / tick)) htick.le]

theorem quantizePriceToTick_self (price tick : ℚ) :
    quantizePriceToTick (quantizePriceToTick price tick) tick = quantizePriceToTick price tick := by
  by_cases htick : tick ≤ 0
  · simp [quantizePriceToTick, htick]
  · simp [quantizePriceToTick, htick, mul_div_cancel_right₀ _ (not_le.1 htick).ne']

theorem floorQtyToLot_self (qty lot : ℚ) :
    floorQtyToLot (floorQtyToLot qty lot) lot = floorQtyToLot qty lot := by
  by_cases hlot : lot ≤ 0
  · simp [floorQtyToLot, hlot]
  · simp [floorQtyToLot, hlot, mul_div_cancel_right₀ _ (not_le.1 hlot).ne']

/-- A quantity is rounded down by less than a lot, and to zero only below one lot. -/
theorem floorQtyToLot_spec {qty lot : ℚ} (hq : 0 < qty) : let r := floorQtyToLot qty lot
    (0 < lot → (∃ n : Nat, r = n * lot) ∧ qty - lot < r) ∧ r ≤ qty ∧ 0 ≤ r ∧
    (0 < r ↔ lot ≤ qty) := by
  rw [floorQtyToLot]
  split_ifs with hlot
  · exact ⟨fun h => absurd h hlot.not_gt, le_rfl, hq.le, iff_of_true hq (hlot.trans hq.le)⟩
  · rw [not_le] at hlot
    obtain ⟨n, hn⟩ := Int.eq_ofNat_of_zero_le (Int.floor_nonneg.2 (div_nonneg hq.le hlot.le))
    have hle := mul_le_mul_of_nonneg_right (Int.floor_le (qty / lot)) hlot.le
    have hlt := mul_lt_mul_of_pos_right (Int.sub_one_lt_floor (qty / lot)) hlot
    rw [sub_mul, div_mul_cancel₀ _ hlot.ne', one_mul] at hlt
    rw [div_mul_cancel₀ _ hlot.ne'] at hle
    rw [hn, Int.cast_natCast] at hle hlt ⊢
    refine ⟨fun _ => ⟨⟨n, rfl⟩, hlt⟩, hle, by positivity, fun hpos => ?_, fun hlots => by linarith⟩
    have hone : (1 : ℚ) ≤ n := by exact_mod_cast (pos_of_mul_pos_left hpos hlot.le : (0 : ℚ) < n)
    linarith [mul_le_mul_of_nonneg_right hone hlot.le]

theorem applyInstrumentSpec_quantity :
    (applyInstrumentSpec o spec).2.quantity = floorQtyToLot o.quantity spec.lotSize := by
  by_cases htick : 0 < spec.tickSize <;> by_cases hlot : 0 < spec.lotSize <;>
    simp [applyInstrumentSpec, floorQtyToLot, htick, hlot, not_lt.1]

theorem applyInstrumentSpec_self :
    applyInstrumentSpec (applyInstrumentSpec o spec).2 spec = applyInstrumentSpec o spec := by
  by_cases htick : 0 < spec.tickSize <;> by_cases hlot : 0 < spec.lotSize <;>
    cases htype : o.orderType <;>
    simp [applyInstrumentSpec, htick, hlot, htype, quantizePriceToTick_self, floorQtyToLot_self]

/-- **An accepted order keeps the rules of the instrument that are set, and rounding it again
changes nothing.** Its quantity is positive when the order was at least one lot; a smaller one is
rounded to zero, and refused only by a minimum. -/
theorem applyInstrumentSpec_accepts (hq : 0 < o.quantity)
    (haccepts : (applyInstrumentSpec o spec).1 = true) :
    let r := (applyInstrumentSpec o spec).2
    (0 < spec.tickSize →
      (o.orderType = .limit ∨ o.orderType = .stopLimit → OnTick spec.tickSize o.price r.price) ∧
      (o.orderType = .stop ∨ o.orderType = .stopLimit →
        OnTick spec.tickSize o.stopPrice r.stopPrice)) ∧
    (0 < spec.lotSize → (∃ n : Nat, r.quantity = n * spec.lotSize) ∧
      o.quantity - spec.lotSize < r.quantity) ∧
    r.quantity ≤ o.quantity ∧ (0 < r.quantity ↔ spec.lotSize ≤ o.quantity) ∧
    spec.minQty - 1 / 10 ^ 12 ≤ r.quantity ∧
    (0 < spec.minNotional → spec.minNotional - 1 / 10 ^ 9 ≤
      r.quantity * (if o.orderType = .stop then r.stopPrice else r.price)) ∧
    applyInstrumentSpec r spec = (true, r) := by
  obtain ⟨hlots, hle, hnonneg, hpos⟩ := @floorQtyToLot_spec o.quantity spec.lotSize hq
  rw [← applyInstrumentSpec_quantity] at hlots hle hnonneg hpos
  have hmin := Bool.and_eq_true_iff.1 haccepts
  refine ⟨fun htick => ⟨fun hlimit => ?_, fun hstop => ?_⟩, hlots, hle, hpos, ?_,
    fun hnotional => ?_, (applyInstrumentSpec_self o spec).trans (Prod.ext haccepts rfl)⟩
  · have hprice :
        (applyInstrumentSpec o spec).2.price = quantizePriceToTick o.price spec.tickSize := by
      by_cases hlot : 0 < spec.lotSize <;> simp [applyInstrumentSpec, htick, hlimit, hlot]
    exact hprice ▸ onTick_quantizePriceToTick htick o.price
  · have hprice : (applyInstrumentSpec o spec).2.stopPrice =
        quantizePriceToTick o.stopPrice spec.tickSize := by
      by_cases hlot : 0 < spec.lotSize <;> simp [applyInstrumentSpec, htick, hstop, hlot]
    exact hprice ▸ onTick_quantizePriceToTick htick o.stopPrice
  · rcases of_decide_eq_true hmin.1 with hunset | hqty
    · exact le_trans (by linarith) hnonneg
    · exact hqty
  · rw [← applyInstrumentSpec_orderType o spec]
    exact (of_decide_eq_true hmin.2).resolve_left hnotional.not_ge

/-- A lot of one, and no minimum. -/
def wholeLots : InstrumentSpec := { symbol := "BTC", tickSize := 1 / 2, lotSize := 1 }

def limitOf (qty : ℚ) : OrderEvent := .new 0 1 "BTC" .limit .buy qty (101 / 10) .gtc 0

theorem applyInstrumentSpec_accepts_lots :
    let r := (applyInstrumentSpec (limitOf (5 / 2)) wholeLots).2
    OnTick (1 / 2) (101 / 10) r.price ∧ (∃ n : Nat, r.quantity = n * 1) ∧
      r.quantity ≤ 5 / 2 ∧ 0 < r.quantity ∧ applyInstrumentSpec r wholeLots = (true, r) := by
  obtain ⟨htick, hlot, hle, hpos, -, -, hself⟩ :=
    applyInstrumentSpec_accepts (limitOf (5 / 2)) wholeLots (by decide +kernel) (by decide +kernel)
  exact ⟨(htick (by decide +kernel)).1 (.inl rfl), (hlot (by decide +kernel)).1, hle,
    hpos.2 (by decide +kernel), hself⟩

/-- Half a lot is rounded to zero and accepted. -/
theorem applyInstrumentSpec_accepts_zero : 0 < (limitOf (1 / 2)).quantity ∧
    (applyInstrumentSpec (limitOf (1 / 2)) wholeLots).1 = true ∧
    (applyInstrumentSpec (limitOf (1 / 2)) wholeLots).2.quantity = 0 := by
  decide +kernel

end TrueTest
