/-
**Numbers as big-endian bytes.**

* `beNat bytes` — the number a list of bytes spells, most significant byte first.
* `bePut width n` — the last `width` bytes of `n`, most significant byte first.
* `beNat_bePut` — the bytes spell the number again below `256 ^ width`.
* `beNat_cons_lt`, `beNat_injective` — between lists of one length, the order of the numbers is the
  lexicographic order of the bytes.
* `beUInt16`, `beUInt32`, `beUInt64` — the same for machine words, which their bytes spell again.
-/

import Mathlib.Data.Nat.ModEq
import Mathlib.Tactic

namespace GoBt.Lib

/-- The number a list of bytes spells, most significant byte first. -/
def beNat : List UInt8 → Nat
  | [] => 0
  | byte :: rest => byte.toNat * 256 ^ rest.length + beNat rest

/-- The last `width` bytes of a number, most significant byte first. -/
def bePut : Nat → Nat → List UInt8
  | 0, _ => []
  | width + 1, n => UInt8.ofNat (n / 256 ^ width) :: bePut width n

@[simp] theorem length_bePut (width n : Nat) : (bePut width n).length = width := by
  induction width with
  | zero => rfl
  | succ width ih => rw [bePut, List.length_cons, ih]

theorem beNat_bePut (width n : Nat) : beNat (bePut width n) = n % 256 ^ width := by
  induction width with
  | zero => simp [bePut, beNat, Nat.mod_one]
  | succ width ih =>
    have byte : (UInt8.ofNat (n / 256 ^ width)).toNat = n / 256 ^ width % 256 := by
      simp
    rw [bePut, beNat, length_bePut, ih, byte, Nat.mod_pow_succ]
    ring

theorem beNat_lt (bytes : List UInt8) : beNat bytes < 256 ^ bytes.length := by
  induction bytes with
  | nil => simp [beNat]
  | cons byte rest ih =>
    have small : byte.toNat + 1 ≤ 256 := byte.toNat_lt
    have bound := Nat.mul_le_mul_right (256 ^ rest.length) small
    rw [Nat.succ_mul] at bound
    rw [beNat, List.length_cons, pow_succ']
    omega

theorem beNat_cons_lt {first second : UInt8} {rest rest' : List UInt8} (less : first < second)
    (same : rest.length = rest'.length) : beNat (first :: rest) < beNat (second :: rest') := by
  have step : first.toNat + 1 ≤ second.toNat := less
  have small := beNat_lt rest
  have bound := Nat.mul_le_mul_right (256 ^ rest.length) step
  rw [Nat.succ_mul] at bound
  simp only [beNat, ← same]
  omega

theorem beNat_injective {first second : List UInt8} (same : first.length = second.length)
    (equal : beNat first = beNat second) : first = second := by
  induction first generalizing second with
  | nil => exact (List.length_eq_zero_iff.mp same.symm).symm
  | cons byte rest ih =>
    cases second with
    | nil => cases same
    | cons byte' rest' =>
      have sameRest : rest.length = rest'.length := Nat.succ.inj same
      have sameByte : byte = byte' := by
        rcases lt_trichotomy byte.toNat byte'.toNat with less | equalByte | less
        · exact absurd equal (beNat_cons_lt less sameRest).ne
        · exact UInt8.toNat_inj.mp equalByte
        · exact absurd equal (beNat_cons_lt less sameRest.symm).ne'
      subst sameByte
      simp only [beNat, sameRest, Nat.add_left_cancel_iff] at equal
      rw [ih sameRest equal]

theorem bePut_beNat (bytes : List UInt8) : bePut bytes.length (beNat bytes) = bytes := by
  refine beNat_injective (length_bePut _ _) ?_
  rw [beNat_bePut, Nat.mod_eq_of_lt (beNat_lt bytes)]

/-! ### Machine words -/

/-- `binary.BigEndian.Uint16`. -/
def beUInt16 (bytes : List UInt8) : UInt16 := .ofNat (beNat bytes)

/-- `binary.BigEndian.Uint32`. -/
def beUInt32 (bytes : List UInt8) : UInt32 := .ofNat (beNat bytes)

/-- `binary.BigEndian.Uint64`. -/
def beUInt64 (bytes : List UInt8) : UInt64 := .ofNat (beNat bytes)

@[simp] theorem beUInt16_bePut (v : UInt16) : beUInt16 (bePut 2 v.toNat) = v := by
  have small : v.toNat < 256 ^ 2 := v.toNat_lt
  rw [beUInt16, beNat_bePut, Nat.mod_eq_of_lt small, UInt16.ofNat_toNat]

theorem bePut_beUInt16 {bytes : List UInt8} (two : bytes.length = 2) :
    bePut 2 (beUInt16 bytes).toNat = bytes := by
  have small : beNat bytes < 2 ^ 16 := by
    have bound := beNat_lt bytes
    rw [two] at bound
    exact bound
  have back := bePut_beNat bytes
  rw [two] at back
  rw [beUInt16, UInt16.toNat_ofNat_of_lt' small, back]

@[simp] theorem beUInt32_bePut (v : UInt32) : beUInt32 (bePut 4 v.toNat) = v := by
  have small : v.toNat < 256 ^ 4 := v.toNat_lt
  rw [beUInt32, beNat_bePut, Nat.mod_eq_of_lt small, UInt32.ofNat_toNat]

@[simp] theorem beUInt64_bePut (v : UInt64) : beUInt64 (bePut 8 v.toNat) = v := by
  have small : v.toNat < 256 ^ 8 := v.toNat_lt
  rw [beUInt64, beNat_bePut, Nat.mod_eq_of_lt small, UInt64.ofNat_toNat]

end GoBt.Lib
