import Mathlib

/-!
# Bar dates

`date_parse::parse` of `data/date_parse.h`. A date is read by `sscanf`, one conversion after the
other: what follows the last field is not looked at, and a text whose seconds are missing is read as
a date. Times are in milliseconds, without overflow.
-/

namespace TrueTest.DateParse

open List

def isSpace (c : Char) : Bool := c ∈ [' ', '\t', '\n', '\x0b', '\x0c', '\r']

/-- The conversion `%<width>d`. A sign counts as one of the characters. -/
def scanInt (width : Nat) (s : List Char) : Option (Int × List Char) :=
  let s := s.dropWhile isSpace
  let (sign, width, s) : Int × Nat × List Char := match s with
    | '-' :: rest => (-1, width - 1, rest)
    | '+' :: rest => (1, width - 1, rest)
    | s => (1, width, s)
  let digits := (s.take width).takeWhile Char.isDigit
  if digits = [] then none else some (sign * Nat.ofDigitChars 10 digits 0, s.drop digits.length)

/-- A character of the format that stands for itself. -/
def scanLit (c : Char) : List Char → Option (List Char)
  | [] => none
  | c' :: s => if c' = c then some s else none

/-- `"%4d-%2d-%2d"`. -/
def scanDate (s : List Char) : Option ((Int × Int × Int) × List Char) := do
  let (y, s) ← scanInt 4 s
  let s ← scanLit '-' s
  let (mo, s) ← scanInt 2 s
  let s ← scanLit '-' s
  let (d, s) ← scanInt 2 s
  return ((y, mo, d), s)

/-- `"%c%2d:%2d:%2d"`. -/
def scanTime (s : List Char) : Option (Char × (Int × Int × Int) × List Char) := do
  let sep ← s.head?
  let (h, s) ← scanInt 2 s.tail
  let s ← scanLit ':' s
  let (mi, s) ← scanInt 2 s
  let s ← scanLit ':' s
  let (se, s) ← scanInt 2 s
  return (sep, (h, mi, se), s)

/-- `utc_tm_to_epoch_s`, with the year, month and day of the calendar. The day of the era is
unsigned. -/
def utcTmToEpochS (date time : Int × Int × Int) : Int :=
  let (y, m, d) := date
  let (h, mi, s) := time
  let y := if m ≤ 2 then y - 1 else y
  let era := (if 0 ≤ y then y else y - 399).tdiv 400
  let yoe := y - era * 400
  let doy := (153 * (m + if 2 < m then -3 else 9) + 2).tdiv 5 + d - 1
  let doe := (yoe * 365 + yoe / 4 - yoe / 100 + doy) % 2 ^ 32
  (era * 146097 + doe - 719468) * 86400 + h * 3600 + mi * 60 + s

/-- The first `sscanf`: a date, `T` or a blank, a time and perhaps a fraction. -/
def parseDateTime (s : List Char) : Option Int := do
  let (date, s) ← scanDate s
  let (sep, time, s) ← scanTime s
  let frac := ((scanLit '.' s).bind (scanInt 3)).elim 0 Prod.fst
  if sep = 'T' ∨ sep = ' ' then some (utcTmToEpochS date time * 1000 + frac) else none

def parse (s : List Char) : Option Int :=
  let s :=
    (s.dropWhile fun c => c = ' ' ∨ c = '\t').rdropWhile fun c => c = ' ' ∨ c = '\t' ∨ c = '\r'
  if s.all Char.isDigit then
    -- No digits at all are none of the two either.
    let v : Int := Nat.ofDigitChars 10 s 0
    if 13 ≤ s.length then some v else if 10 ≤ s.length then some (v * 1000) else none
  else
    (parseDateTime s).or ((scanDate s).map fun x => utcTmToEpochS x.1 (0, 0, 0) * 1000)

end TrueTest.DateParse
