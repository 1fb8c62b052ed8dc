/-
**Piece indexes and bit fields** (`peerprotocol/message.go`).

* `Pieces.append` — a sorted list of indexes without repetition; `mem_append`, `sorted_append`: it is
  the operation of a set.
* `BitField.set`, `BitField.unset`, `BitField.isSet` — the bits of a byte slice, the first one in the
  highest bit of the first byte; a bit outside of the slice is not set, without an error.
* `isSet_set` — setting a bit sets it if it lies in the slice, and no other bit.
-/

import GoBt.Go.Basic

namespace GoBt.PeerProtocol

/-! ### Lists of indexes -/

abbrev Pieces := List UInt32

namespace Pieces

/-- The indexes stand in increasing order, none twice. -/
abbrev Sorted (ps : Pieces) : Prop := ps.Pairwise (· < ·)

def append (ps : Pieces) (index : UInt32) : Pieces :=
  if ps.any (· == index) then ps else (ps ++ [index]).insertionSort (· ≤ ·)

variable {ps : Pieces}

theorem any_beq (ps : Pieces) (index : UInt32) : ps.any (· == index) = true ↔ index ∈ ps := by
  simp

@[simp] theorem mem_append {index i : UInt32} : i ∈ ps.append index ↔ i ∈ ps ∨ i = index := by
  unfold append
  split
  · rename_i inside
    have member := (any_beq ps index).mp inside
    exact ⟨.inl, fun either => either.elim id fun same => same ▸ member⟩
  · rw [List.mem_insertionSort, List.mem_append, List.mem_singleton]

theorem sorted_append (sorted : Sorted ps) (index : UInt32) : Sorted (ps.append index) := by
  unfold append
  split
  · exact sorted
  · rename_i outside
    have fresh : index ∉ ps := fun member => outside ((any_beq ps index).mpr member)
    have distinct : (ps ++ [index]).Nodup := by
      rw [List.nodup_append_comm]
      exact List.nodup_cons.mpr ⟨fresh, sorted.imp fun less => UInt32.ne_of_lt less⟩
    have distinct' := (List.perm_insertionSort (· ≤ ·) (ps ++ [index])).nodup_iff.mpr distinct
    have ordered := List.pairwise_insertionSort (· ≤ ·) (ps ++ [index])
    exact (ordered.and distinct').imp fun both => UInt32.lt_of_le_of_ne both.1 both.2

end Pieces

/-! ### Bit fields -/

/-- `BitField`; nil is the empty one. -/
abbrev BitField := List UInt8

namespace BitField

/-- `1 << byte(7-index%8)`. -/
def mask (index : UInt32) : UInt8 := 1 <<< (7 - index % 8).toUInt8

/-- `int(index) / 8`. -/
def byteOf (index : UInt32) : Nat := index.toNat / 8

/-- `bf.Set(index)`: the slice, and whether the bit lies in it. -/
def set (bf : BitField) (index : UInt32) : BitField × Bool :=
  if byteOf index < bf.length then (bf.modify (byteOf index) (· ||| mask index), true) else (bf, false)

def unset (bf : BitField) (index : UInt32) : BitField × Bool :=
  if byteOf index < bf.length then (bf.modify (byteOf index) (· &&& ~~~ mask index), true)
  else (bf, false)

def isSet (bf : BitField) (index : UInt32) : Bool :=
  match bf[byteOf index]? with
  | some byte => byte &&& mask index != 0
  | none => false

/-- `size` bytes of ones or of zeros. -/
def filled (size : Nat) (all : Bool) : BitField := List.replicate size (if all then 0xff else 0)

/-- `NewBitField(pieceNum, set)`, where `make` can make a slice of at most `maxBytes` bytes; `none` is
a panic. -/
def new (maxBytes : Nat) (pieceNum : Int) (all : Bool) : Option BitField :=
  let size := (int64 (pieceNum + 7)).tdiv 8
  if 0 ≤ size ∧ size ≤ maxBytes then some (filled size.toNat all) else none

/-! ### Masks -/

theorem mask_mod (index : UInt32) : mask index = mask (UInt32.ofNat (index.toNat % 8)) := by
  have small : index.toNat % 8 < 8 := Nat.mod_lt _ (by decide)
  have same : index % 8 = UInt32.ofNat (index.toNat % 8) % 8 := by
    apply UInt32.toNat_inj.mp
    rw [UInt32.toNat_mod, UInt32.toNat_mod, UInt32.toNat_ofNat_of_lt' (by
      show index.toNat % 8 < 2 ^ 32
      omega)]
    show index.toNat % 8 = index.toNat % 8 % 8
    omega
  rw [mask, mask, ← same]

theorem mask_and_mask (i j : UInt32) :
    mask i &&& mask j ≠ 0 ↔ i.toNat % 8 = j.toNat % 8 := by
  have places : ∀ k < 8, ∀ l < 8, mask (UInt32.ofNat k) &&& mask (UInt32.ofNat l) ≠ 0 ↔ k = l := by
    decide
  rw [mask_mod i, mask_mod j]
  exact places _ (Nat.mod_lt _ (by decide)) _ (Nat.mod_lt _ (by decide))

theorem ones_and_mask (index : UInt32) : 0xff &&& mask index ≠ 0 := by
  have places : ∀ k < 8, 0xff &&& mask (UInt32.ofNat k) ≠ 0 := by decide
  rw [mask_mod]
  exact places _ (Nat.mod_lt _ (by decide))

theorem or_mask_and_mask (byte : UInt8) (i j : UInt32) :
    (byte ||| mask i) &&& mask j ≠ 0 ↔ byte &&& mask j ≠ 0 ∨ i.toNat % 8 = j.toNat % 8 := by
  have distributes : (byte ||| mask i) &&& mask j = (byte &&& mask j) ||| (mask i &&& mask j) := by
    apply UInt8.toBitVec_inj.mp
    ext bit
    simp [Bool.and_or_distrib_right]
  rw [← mask_and_mask, distributes]
  constructor
  · intro some'
    by_contra neither
    push Not at neither
    rw [neither.1, neither.2] at some'
    exact some' rfl
  · intro either both
    obtain ⟨first, second⟩ := UInt8.or_eq_zero_iff.mp both
    exact either.elim (fun some' => some' first) fun some' => some' second

/-! ### Bits -/

variable {bf : BitField}

theorem isSet_eq_true_iff {index : UInt32} :
    bf.isSet index = true ↔ ∃ byte, bf[byteOf index]? = some byte ∧ byte &&& mask index ≠ 0 := by
  unfold isSet
  cases bf[byteOf index]? <;> simp

theorem index_eq_iff {i j : UInt32} :
    i = j ↔ byteOf i = byteOf j ∧ i.toNat % 8 = j.toNat % 8 := by
  rw [← UInt32.toNat_inj]
  unfold byteOf
  omega

theorem isSet_modify {i j : UInt32} (f : UInt8 → UInt8) :
    BitField.isSet (bf.modify (byteOf i) f) j = true ↔
      if byteOf i = byteOf j then ∃ byte, bf[byteOf j]? = some byte ∧ f byte &&& mask j ≠ 0
      else bf.isSet j = true := by
  rw [isSet_eq_true_iff]
  split
  · rename_i same
    rw [same, List.getElem?_modify_eq]
    simp
  · rename_i other
    rw [List.getElem?_modify_ne _ _ other, isSet_eq_true_iff]

/-- **Setting a bit** sets it if it lies in the slice, and no other bit. -/
theorem isSet_set {i j : UInt32} :
    (bf.set i).1.isSet j = true ↔ bf.isSet j = true ∨ (i = j ∧ byteOf i < bf.length) := by
  unfold set
  split
  · rename_i inside
    refine (isSet_modify _).trans ?_
    rw [isSet_eq_true_iff, index_eq_iff]
    split
    · rename_i same
      simp [or_mask_and_mask, same, same ▸ inside]
    · rename_i other
      simp [other]
  · rename_i outside
    simp [outside]

@[simp] theorem length_set (index : UInt32) : (bf.set index).1.length = bf.length := by
  unfold set
  split <;> simp

theorem not_isSet_nil (index : UInt32) : isSet [] index = false := rfl

theorem isSet_filled {size : Nat} {index : UInt32} :
    (filled size true).isSet index = true ↔ byteOf index < size := by
  rw [isSet_eq_true_iff, filled, List.getElem?_replicate]
  constructor
  · rintro ⟨byte, found, _⟩
    by_contra outside
    rw [if_neg outside] at found
    cases found
  · intro inside
    exact ⟨0xff, if_pos inside, ones_and_mask index⟩

theorem new_of_nat (maxBytes : Nat) {n : Nat} (machine : n < 2 ^ 63) (all : Bool) :
    new maxBytes n all =
      if n + 7 < 2 ^ 63 ∧ (n + 7) / 8 ≤ maxBytes then some (filled ((n + 7) / 8) all) else none := by
  unfold new
  by_cases fits : n + 7 < 2 ^ 63
  · have sum : int64 ((n : Int) + 7) = ((n + 7 : Nat) : Int) := by
      rw [int64_of_range] <;> omega
    have size : (((n + 7 : Nat) : Int)).tdiv 8 = (((n + 7) / 8 : Nat) : Int) := rfl
    have within : (0 ≤ (((n + 7) / 8 : Nat) : Int) ∧ (((n + 7) / 8 : Nat) : Int) ≤ maxBytes) ↔
        n + 7 < 2 ^ 63 ∧ (n + 7) / 8 ≤ maxBytes := by omega
    rw [sum, size]
    simp only [Int.toNat_natCast, within]
  · have sum : int64 ((n : Int) + 7) < -8 := by
      have wrapped := int64_of_nat (n := n + 7) (by omega)
      rw [if_neg fits] at wrapped
      push_cast at wrapped
      omega
    have negative : (int64 ((n : Int) + 7)).tdiv 8 < 0 := by
      have below := Int.tdiv_le_tdiv (by decide : (0 : Int) < 8) (Int.le_of_lt sum)
      exact lt_of_le_of_lt below (by decide)
    rw [if_neg fun within => absurd within.1 (not_le.mpr negative), if_neg fun within => fits within.1]

end BitField

end GoBt.PeerProtocol
