import Mathlib.Data.Nat.ModEq
import Mathlib.Data.BitVec
import Mathlib.Tactic.Ring

/-!
# Binary formats

Numbers as little-endian bytes, and readers that take values off the front of a buffer. A reader is
a function of the buffer to a value and the rest of it, or to nothing if the buffer ends too early;
writers are functions to byte lists, and records are written by appending their fields.

`Parses r bs a` says that `r` reads `a` where `bs` was written, whatever follows. A record is
written as the list of its fields, one after the other, and read field by field (`Parses.field`).
-/

namespace ByteFormat

open List

abbrev Bytes := List UInt8

/-! ## Numbers -/

/-- The `n` lowest bytes of a number, the lowest first. -/
def little : Nat → Nat → Bytes
  | 0, _ => []
  | n + 1, v => UInt8.ofNat v :: little n (v / 256)

/-- The number with some bytes. -/
def value : Bytes → Nat
  | [] => 0
  | b :: bs => b.toNat + 256 * value bs

variable (n v : Nat) {bs : Bytes} (s : Bytes)

@[simp] theorem length_little : (little n v).length = n := by
  induction n generalizing v with
  | zero => rfl
  | succ n ih => rw [little, length_cons, ih]

theorem value_little : value (little n v) = v % 256 ^ n := by
  induction n generalizing v with
  | zero => rw [little, value, pow_zero, Nat.mod_one]
  | succ n ih =>
    have hlow : (UInt8.ofNat v).toNat = v % 256 := UInt8.toNat_ofNat'
    rw [little, value, hlow, ih, pow_succ', Nat.mod_mul]

theorem take_little {m n : Nat} (h : m ≤ n) (v : Nat) : (little n v).take m = little m v := by
  induction m generalizing n v with
  | zero => rw [take_zero, little]
  | succ m ih =>
    cases n with
    | zero => omega
    | succ n => rw [little, take_succ_cons, ih (by omega), little]

/-! ## Readers -/

abbrev Reader (α : Type) := StateT Bytes Option α

/-- The next `n` bytes. -/
def readBytes (n : Nat) : Reader Bytes := fun bs =>
  if n ≤ bs.length then some (bs.take n, bs.drop n) else none

theorem readBytes_append {n : Nat} (hn : bs.length = n) (rest : Bytes) :
    readBytes n (bs ++ rest) = some (bs, rest) := by
  subst hn
  rw [readBytes, if_pos (by simp), take_left, drop_left]

/-- The reader finds `a` in `bs`, and leaves what follows. -/
def Parses {α : Type} (r : Reader α) (bs : Bytes) (a : α) : Prop :=
  ∀ rest, r (bs ++ rest) = some (a, rest)

theorem parses_readBytes {n : Nat} (hn : bs.length = n) : Parses (readBytes n) bs bs :=
  readBytes_append hn

section Fields

variable {α β : Type} {r : Reader α} {f : α → Reader β} {a : α} {b : β} {bs bs' : Bytes}

theorem Parses.bind (h : Parses r bs a) (h' : Parses (f a) bs' b) :
    Parses (r >>= f) (bs ++ bs') b := by
  intro rest
  show (r (bs ++ bs' ++ rest)).bind _ = _
  rw [append_assoc, h]
  exact h' rest

/-- The end of a record. -/
theorem Parses.done (a : α) : Parses (pure a) ([] : List Bytes).flatten a := fun _ => rfl

/-- The next field of a record. -/
theorem Parses.field {fields : List Bytes} (h : Parses r bs a)
    (h' : Parses (f a) fields.flatten b) :
    Parses (r >>= f) (bs :: fields).flatten b := h.bind h'

/-- Read all of a buffer. -/
theorem Parses.run (h : Parses r bs a) : r bs = some (a, []) := by
  have hnil := h []
  rwa [append_nil] at hnil

theorem Parses.map {g : α → β} (h : Parses r bs a) :
    Parses (r >>= fun a => pure (g a)) bs (g a) := by
  intro rest
  show (r (bs ++ rest)).bind _ = _
  rw [h]
  rfl

end Fields

/-- A word of `8 * n` bits. -/
def word (n : Nat) (v : BitVec (8 * n)) : Bytes := little n v.toNat

def readWord (n : Nat) : Reader (BitVec (8 * n)) := do
  let bs ← readBytes n
  return BitVec.ofNat _ (value bs)

theorem parses_readWord (v : BitVec (8 * n)) : Parses (readWord n) (word n v) v := by
  have hvalue : BitVec.ofNat (8 * n) (value (word n v)) = v := by
    rw [word, value_little, show 256 = 2 ^ 8 from rfl, ← pow_mul, Nat.mod_eq_of_lt v.isLt]
    exact BitVec.eq_of_toNat_eq (Nat.mod_eq_of_lt v.isLt)
  have hread : Parses (readWord n) (word n v) (BitVec.ofNat (8 * n) (value (word n v))) :=
    (parses_readBytes (length_little n _)).map
  rwa [hvalue] at hread

/-- A number that is written with `n` bytes. -/
def readNat (n : Nat) : Reader Nat := do
  let bs ← readBytes n
  return value bs

theorem parses_readNat : Parses (readNat n) (little n v) (v % 256 ^ n) := by
  rw [← value_little]
  exact (parses_readBytes (length_little n v)).map

/-! ## Byte strings -/

/-- A string with its length in `n` bytes before it; a string that is too long is cut. -/
def lengthPrefixed (n : Nat) (s : Bytes) : Bytes :=
  let len := s.length % 256 ^ n
  little n len ++ s.take len

/-- What the format keeps of a string. -/
def cut (n : Nat) (s : Bytes) : Bytes := s.take (s.length % 256 ^ n)

def readPrefixed (n : Nat) : Reader Bytes := do
  let len ← readNat n
  readBytes len

theorem parses_readPrefixed : Parses (readPrefixed n) (lengthPrefixed n s) (cut n s) := by
  have hlen : (s.take (s.length % 256 ^ n)).length = s.length % 256 ^ n % 256 ^ n := by
    rw [length_take, Nat.mod_mod]
    exact min_eq_left (Nat.mod_le _ _)
  exact (parses_readNat n _).bind (parses_readBytes hlen)

theorem cut_eq_self {n : Nat} {s : Bytes} (h : s.length < 256 ^ n) : cut n s = s := by
  rw [cut, Nat.mod_eq_of_lt h, take_length]

theorem length_lengthPrefixed_lt : (lengthPrefixed n s).length < n + 256 ^ n := by
  have hmod : s.length % 256 ^ n < 256 ^ n := Nat.mod_lt _ (Nat.pow_pos (by decide))
  rw [lengthPrefixed, length_append, length_little, length_take]
  omega

/-! ## Enumerations -/

section Enumeration

variable {α : Type} [DecidableEq α]

/-- The byte of an enumerator: its place among all of them. -/
def enumByte (all : List α) (a : α) : Bytes := [UInt8.ofNat (all.idxOf a)]

@[simp] theorem length_enumByte (all : List α) (a : α) : (enumByte all a).length = 1 := rfl

/-- A byte that is no enumerator is refused. -/
def readEnum (all : List α) : Reader α := fun bs =>
  match bs with
  | [] => none
  | b :: rest => all[b.toNat]?.map fun a => (a, rest)

theorem parses_readEnum {all : List α} (hall : all.length ≤ 256) {a : α} (ha : a ∈ all) :
    Parses (readEnum all) (enumByte all a) a := by
  intro rest
  have hlt : all.idxOf a < all.length := idxOf_lt_length_iff.2 ha
  have hbyte : (UInt8.ofNat (all.idxOf a)).toNat = all.idxOf a := by
    rw [UInt8.toNat_ofNat']
    exact Nat.mod_eq_of_lt (by omega)
  rw [enumByte, singleton_append, readEnum, hbyte, getElem?_eq_getElem hlt, getElem_idxOf hlt]
  rfl

end Enumeration

/-! ## Repetition -/

section Repetition

variable {α : Type}

/-- A value as often as a count says. -/
def readTimes (r : Reader α) : Nat → Reader (List α)
  | 0 => pure []
  | n + 1 => do
    let a ← r
    let as ← readTimes r n
    return a :: as

theorem parses_readTimes {r : Reader α} {write : α → Bytes} (h : ∀ a, Parses r (write a) a)
    (as : List α) :
    Parses (readTimes r as.length) (as.flatMap write) as := by
  induction as with
  | nil => exact .done []
  | cons a as ih =>
    rw [flatMap_cons]
    exact (h a).bind ih.map

end Repetition

end ByteFormat
