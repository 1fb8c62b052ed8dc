/-
**Go values the models share.**

* `GoString` — a Go string is a sequence of bytes, not of characters; `str` spells an ASCII literal,
  `numeral` formats a number.
* `GoError` — the error values the modelled functions return or compare with.
* `Time`, `Duration` — nanoseconds since the zero time; `Time.sub` saturates like `time.Time.Sub`.
* `int64` — wrap-around of signed 64-bit arithmetic; `int` is 64 bits wide here; `uint32` — the
  conversion.
-/

import Mathlib.Tactic

namespace GoBt

abbrev GoString := List UInt8

instance : LawfulBEq GoString := inferInstanceAs (LawfulBEq (List UInt8))

/-- An ASCII literal. -/
def str (literal : String) : GoString := literal.toList.map fun c => UInt8.ofNat c.toNat

/-- The digit of a value below 36, in lower case. -/
def digit (value : Nat) : UInt8 := UInt8.ofNat (if value < 10 then 48 + value else 87 + value)

/-- The digits of `n` in front of `acc`; a number has fewer digits than `fuel = n + 1`. -/
def numeralLoop (base : Nat) : Nat → Nat → GoString → GoString
  | 0, _, acc => acc
  | fuel + 1, n, acc =>
      if n < base then digit n :: acc
      else numeralLoop base fuel (n / base) (digit (n % base) :: acc)

/-- `strconv.FormatUint(n, base)`. -/
def numeral (base n : Nat) : GoString := numeralLoop base (n + 1) n []

inductive GoError
  | eof
  | unexpectedEOF
  | shortWrite
  | other (text : String)
  deriving DecidableEq

/-- The text of an error, as `err.Error()` gives it. -/
def GoError.text : GoError → String
  | .eof => "EOF"
  | .unexpectedEOF => "unexpected EOF"
  | .shortWrite => "short write"
  | .other text => text

/-! ### Time -/

abbrev Time := Int

abbrev Duration := Int

def minute : Duration := 60 * 1000000000

/-- `t.Sub(u)`, which saturates at the bounds of a `Duration`. -/
def Time.sub (t u : Time) : Duration := max (-2 ^ 63) (min (2 ^ 63 - 1) (t - u))

theorem Time.lt_sub_iff {d : Duration} (low : -2 ^ 63 ≤ d) (high : d < 2 ^ 63 - 1) (t u : Time) :
    d < t.sub u ↔ d < t - u := by
  rw [Time.sub, lt_max_iff, lt_min_iff, or_iff_right (not_lt.mpr low), and_iff_right high]

theorem Time.sub_lt_iff {d : Duration} (low : -2 ^ 63 < d) (high : d ≤ 2 ^ 63 - 1) (t u : Time) :
    t.sub u < d ↔ t - u < d := by
  rw [Time.sub, max_lt_iff, min_lt_iff, and_iff_right low, or_iff_right (not_lt.mpr high)]

theorem Time.sub_le {t u : Time} (order : u ≤ t) : t.sub u ≤ t - u := by
  have low : (-2 ^ 63 : Int) ≤ 0 := by decide
  exact max_le (low.trans (Int.sub_nonneg.mpr order)) (min_le_right _ _)

/-! ### Machine integers -/

/-- The value a signed 64-bit variable holds after a computation with result `n`. -/
def int64 (n : Int) : Int := n.bmod (2 ^ 64)

theorem int64_of_range {n : Int} (low : -2 ^ 63 ≤ n) (high : n < 2 ^ 63) : int64 n = n := by
  rw [int64, Int.bmod_eq_of_le] <;> omega

theorem int64_of_nat {n : Nat} (bound : n < 2 ^ 64) :
    int64 n = if n < 2 ^ 63 then (n : Int) else n - 2 ^ 64 := by
  split
  · exact int64_of_range (by omega) (by omega)
  · rw [int64, Int.bmod_def]
    omega

theorem int64_add_int64 (m n : Int) : int64 (int64 m + n) = int64 (m + n) :=
  Int.bmod_add_bmod

/-- A value that a signed 64-bit variable can hold. -/
def IsInt64 (n : Int) : Prop := -2 ^ 63 ≤ n ∧ n < 2 ^ 63

theorem isInt64_int64 (n : Int) : IsInt64 (int64 n) := by
  have low := Int.le_bmod (x := n) (m := 2 ^ 64) (by decide)
  have high := Int.bmod_lt (x := n) (m := 2 ^ 64) (by decide)
  unfold IsInt64 int64
  constructor <;> omega

/-- `uint32(n)` of a signed number. -/
def uint32 (n : Int) : UInt32 := .ofNat (n % 2 ^ 32).toNat

theorem uint32_of_range {n : Int} (low : 0 ≤ n) (high : n < 2 ^ 32) :
    ((uint32 n).toNat : Int) = n := by
  rw [uint32, UInt32.toNat_ofNat_of_lt' (by rw [UInt32.size]; omega)]
  omega

theorem int64_sub_add_ne {a b : Int} (first : IsInt64 a) (second : IsInt64 b) (different : a ≠ b)
    (n : Int) : int64 (int64 (a - b) + n) ≠ n := by
  intro same
  unfold IsInt64 at first second
  have dvd : ((2 ^ 64 : Nat) : Int) ∣ (a - b + n).bmod (2 ^ 64) - (a - b + n) :=
    Int.dvd_bmod_sub_self
  rw [int64_add_int64, int64] at same
  rw [same] at dvd
  obtain ⟨k, eq⟩ := dvd
  omega

end GoBt
