import Mathlib.Data.Rat.Floor

/-!
# Provider events

`providers/provider_event.h`: what a venue's parser makes of a frame. `bar_record` and `tick_record`
have the fields of `provider::bar` and `provider::tick`.

A frame is given by the fields a parser scans from its text: a numeric field is the number that
`std::from_chars` reads, or `none` if the field is missing or not a number. The scanning itself
(`find_key`, `for_each_flat_field`) is left out.
-/

namespace TrueTest

structure Bar where
  date : String
  symbol : String
  open_ : ℚ
  high : ℚ
  low : ℚ
  close : ℚ
  volume : Int
deriving DecidableEq

inductive TickSide
  | bid
  | ask
  | unknown
deriving DecidableEq, Repr

structure Tick where
  timestamp : Int
  symbol : String
  price : ℚ
  quantity : Int
  side : TickSide
deriving DecidableEq

/-- `l2_snapshot::level` and `l2_level`. -/
structure L2Level where
  price : ℚ
  quantity : Int
deriving DecidableEq

structure L2Snapshot where
  timestamp : Int
  symbol : String
  bids : List L2Level
  asks : List L2Level
deriving DecidableEq

inductive ProviderEvent
  | bar (b : Bar)
  | tick (t : Tick)
  | l2Snapshot (s : L2Snapshot)
deriving DecidableEq

/-- `static_cast<int64_t>` of a double: towards zero. -/
def truncate (q : ℚ) : Int := if 0 ≤ q then ⌊q⌋ else ⌈q⌉

/-- A quantity on the wire, in units of 1e-8. -/
def scaledQty (q : ℚ) : Int := truncate (q * 10 ^ 8)

end TrueTest
