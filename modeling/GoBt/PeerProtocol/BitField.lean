/-
**Bit fields as vectors of bits** (`peerprotocol/message.go`).

Bits are set one by one through masks, listed byte by byte through shifts, and counted by an index of
32 bits.

* `canSet`, `bools`, `sets`, `unsets`, `newFromBools` — the source's functions.
* `isSet_unset` — clearing a bit clears it, and no other bit.
* `getElem_bools` — the list of the bits agrees with the masks.
* `isSet_setBools` — what the loop over a list of bits sets.
* **`laws`** — a bit field is a vector of bits, as long as an index of 32 bits reaches all of them.
* `unsets_of_long` — behind 2^32 bits the indexes start again.
-/

import GoBt.PeerProtocol.Pieces

namespace GoBt.PeerProtocol.BitField

/-! ### The methods -/

def canSet (bf : BitField) (index : UInt32) : Bool := byteOf index < bf.length

def bits (byte : UInt8) : List Bool :=
  [7, 6, 5, 4, 3, 2, 1, 0].map fun i : UInt8 => byte >>> i &&& 1 == 1

def bools (bf : BitField) : List Bool := bf.flatMap bits

/-- `uint32(i)` for all `i` of the loops over the bits. -/
def indexes (bf : BitField) : List UInt32 := (List.range (bf.length * 8)).map UInt32.ofNat

def sets (bf : BitField) : Pieces := bf.indexes.filter fun index => bf.isSet index

def unsets (bf : BitField) : Pieces := bf.indexes.filter fun index => !bf.isSet index

/-- The loop of `NewBitFieldFromBools`, from the index `i` on. -/
def setBools : List Bool → Nat → BitField → BitField
  | [], _, bf => bf
  | has :: rest, i, bf => setBools rest (i + 1) (if has then (bf.set (UInt32.ofNat i)).1 else bf)

/-- `NewBitFieldFromBools(bs)`; there are fewer bytes to make than there are bits. -/
def newFromBools (bs : List Bool) : BitField := setBools bs 0 (filled ((bs.length + 7) / 8) false)

/-! ### Clearing a bit -/

theorem mask_eq_of_place {i j : UInt32} (same : i.toNat % 8 = j.toNat % 8) : mask i = mask j := by
  rw [mask_mod i, mask_mod j, same]

theorem compl_mask_and_mask {i j : UInt32} (other : i.toNat % 8 ≠ j.toNat % 8) :
    ~~~ mask i &&& mask j = mask j := by
  have places : ∀ k < 8, ∀ l < 8, k ≠ l →
      ~~~ mask (UInt32.ofNat k) &&& mask (UInt32.ofNat l) = mask (UInt32.ofNat l) := by
    decide
  rw [mask_mod i, mask_mod j]
  exact places _ (Nat.mod_lt _ (by decide)) _ (Nat.mod_lt _ (by decide)) other

theorem and_compl_mask_and_mask (byte : UInt8) (i j : UInt32) :
    byte &&& ~~~ mask i &&& mask j ≠ 0 ↔ byte &&& mask j ≠ 0 ∧ i.toNat % 8 ≠ j.toNat % 8 := by
  rw [UInt8.and_assoc]
  by_cases same : i.toNat % 8 = j.toNat % 8
  · have nothing : ~~~ mask i &&& mask j = 0 := by
      rw [mask_eq_of_place same]
      apply UInt8.toBitVec_inj.mp
      ext bit
      simp
    simp [nothing, same]
  · simp [compl_mask_and_mask same, same]

variable {bf : BitField}

/-- **Clearing a bit** clears it, and no other bit. -/
theorem isSet_unset {i j : UInt32} :
    (bf.unset i).1.isSet j = true ↔ bf.isSet j = true ∧ i ≠ j := by
  unfold unset
  split
  · rename_i inside
    refine (isSet_modify _).trans ?_
    rw [isSet_eq_true_iff, Ne, index_eq_iff]
    split
    · rename_i same
      simp [and_compl_mask_and_mask, same, ← and_assoc]
    · rename_i other
      simp [other]
  · rename_i outside
    refine ⟨fun isSet => ⟨isSet, ?_⟩, And.left⟩
    rintro rfl
    obtain ⟨byte, found, _⟩ := isSet_eq_true_iff.mp isSet
    exact outside (List.getElem?_eq_some_iff.mp found).1

@[simp] theorem length_unset (index : UInt32) : (bf.unset index).1.length = bf.length := by
  unfold unset
  split <;> simp

theorem byteOf_lt_iff {index : UInt32} {size : Nat} :
    byteOf index < size ↔ index.toNat < 8 * size := by
  unfold byteOf
  omega

theorem canSet_iff {index : UInt32} : bf.canSet index = true ↔ index.toNat < 8 * bf.length := by
  rw [canSet, decide_eq_true_iff, byteOf_lt_iff]

/-! ### The list of the bits -/

theorem getElem_bits (byte : UInt8) {index : UInt32} :
    (bits byte)[index.toNat % 8]? = some (byte &&& mask index != 0) := by
  have places : ∀ n < 256, ∀ k < 8, (bits (UInt8.ofNat n))[k]? =
      some (UInt8.ofNat n &&& mask (UInt32.ofNat k) != 0) := by
    decide +kernel
  have here := places byte.toNat byte.toNat_lt _ (Nat.mod_lt index.toNat (show 0 < 8 by decide))
  rwa [UInt8.ofNat_toNat, ← mask_mod] at here

@[simp] theorem length_bits (byte : UInt8) : (bits byte).length = 8 := rfl

@[simp] theorem length_bools (bf : BitField) : bf.bools.length = 8 * bf.length := by
  rw [bools, List.length_flatMap]
  simp [Nat.mul_comm]

theorem getElem_bools_eq (bf : BitField) (n : Nat) :
    bf.bools[n]? = bf[n / 8]?.bind fun byte => (bits byte)[n % 8]? := by
  induction bf generalizing n with
  | nil => rfl
  | cons byte bf ih =>
    have split : bools (byte :: bf) = bits byte ++ bools bf := List.flatMap_cons
    rw [split]
    by_cases first : n < 8
    · rw [List.getElem?_append_left first, Nat.div_eq_of_lt first, Nat.mod_eq_of_lt first]
      rfl
    · obtain ⟨m, rfl⟩ := Nat.exists_eq_add_of_le (not_lt.mp first)
      rw [List.getElem?_append_right (not_lt.mp first), length_bits, Nat.add_sub_cancel_left, ih,
        Nat.add_div_left _ (by decide), Nat.add_mod_left, List.getElem?_cons_succ]

/-- **The list of the bits agrees with the masks.** -/
theorem getElem_bools {index : UInt32} (inside : index.toNat < 8 * bf.length) :
    bf.bools[index.toNat]? = some (bf.isSet index) := by
  obtain ⟨byte, found⟩ : ∃ byte, bf[byteOf index]? = some byte :=
    ⟨_, List.getElem?_eq_getElem (byteOf_lt_iff.mpr inside)⟩
  rw [getElem_bools_eq, isSet]
  show bf[byteOf index]?.bind _ = _
  rw [found, Option.bind_some, getElem_bits]

theorem toNat_ofNat {n : Nat} (fits : n < 2 ^ 32) : (UInt32.ofNat n).toNat = n :=
  UInt32.toNat_ofNat_of_lt' fits

theorem bits_injective : Function.Injective bits := by
  have back : ∀ n < 256, (bits (UInt8.ofNat n)).foldl (fun value bit => 2 * value + bit.toNat) 0 =
      n := by
    decide +kernel
  have value : ∀ byte : UInt8,
      (bits byte).foldl (fun value bit => 2 * value + bit.toNat) 0 = byte.toNat := by
    intro byte
    have here := back byte.toNat byte.toNat_lt
    rwa [UInt8.ofNat_toNat] at here
  intro a b same
  rw [← UInt8.toNat_inj, ← value a, ← value b, same]

theorem bools_injective : Function.Injective bools := by
  intro bf
  induction bf with
  | nil =>
    rintro (_ | ⟨byte, other⟩) same
    · rfl
    · cases same
  | cons byte bf ih =>
    rintro (_ | ⟨byte', other⟩) same
    · cases same
    · obtain ⟨first, rest⟩ := List.append_inj (show bits byte ++ bools bf = bits byte' ++ _ from same) rfl
      rw [bits_injective first, ih rest]

/-! ### From a list of bits -/

theorem length_setBools (bs : List Bool) (i : Nat) (bf : BitField) :
    (setBools bs i bf).length = bf.length := by
  induction bs generalizing i bf with
  | nil => rfl
  | cons has rest ih =>
    rw [setBools, ih]
    split <;> simp

/-- **What the loop sets**: the bits that are true in the list and lie in the slice. -/
theorem isSet_setBools {bs : List Bool} {start : Nat} (fits : start + bs.length ≤ 2 ^ 32)
    (bf : BitField) (j : UInt32) :
    (setBools bs start bf).isSet j = true ↔ bf.isSet j = true ∨
      (byteOf j < bf.length ∧ start ≤ j.toNat ∧ bs[j.toNat - start]? = some true) := by
  induction bs generalizing start bf with
  | nil => simp [setBools]
  | cons has rest ih =>
    rw [List.length_cons] at fits
    have number : (UInt32.ofNat start).toNat = start := toNat_ofNat (by omega)
    have here : UInt32.ofNat start = j ↔ j.toNat = start := by
      rw [← UInt32.toNat_inj, number, eq_comm]
    have first : (if has then (bf.set (UInt32.ofNat start)).1 else bf).isSet j = true ↔
        bf.isSet j = true ∨ (has = true ∧ j.toNat = start ∧ byteOf j < bf.length) := by
      cases has with
      | false => simp
      | true =>
        rw [if_pos rfl, isSet_set, here]
        refine or_congr_right ⟨?_, ?_⟩
        · rintro ⟨same, inside⟩
          rw [here.mpr same] at inside
          exact ⟨rfl, same, inside⟩
        · rintro ⟨_, same, inside⟩
          rw [here.mpr same]
          exact ⟨same, inside⟩
    have length : (if has then (bf.set (UInt32.ofNat start)).1 else bf).length = bf.length := by
      split <;> simp
    rw [setBools, ih (by omega), first, length, or_assoc]
    refine or_congr_right ?_
    rcases lt_trichotomy j.toNat start with before | same | behind
    · omega
    · have zero : j.toNat - start = 0 := by omega
      rw [zero, List.getElem?_cons_zero, Option.some.injEq]
      constructor
      · rintro (⟨true', _, inside⟩ | ⟨_, later, _⟩)
        · exact ⟨inside, same.ge, true'⟩
        · omega
      · rintro ⟨inside, _, true'⟩
        exact .inl ⟨true', same, inside⟩
    · have next : j.toNat - start = j.toNat - (start + 1) + 1 := by omega
      rw [next, List.getElem?_cons_succ]
      constructor
      · rintro (⟨_, same, _⟩ | ⟨inside, later, true'⟩)
        · omega
        · exact ⟨inside, behind.le, true'⟩
      · rintro ⟨inside, _, true'⟩
        exact .inr ⟨inside, behind, true'⟩

theorem not_isSet_filled (size : Nat) (index : UInt32) : (filled size false).isSet index = false := by
  rw [Bool.eq_false_iff]
  intro isSet
  obtain ⟨byte, found, some'⟩ := isSet_eq_true_iff.mp isSet
  obtain rfl : byte = 0 := List.eq_of_mem_replicate (List.mem_of_getElem? found)
  exact some' UInt8.zero_and

theorem length_newFromBools (bs : List Bool) :
    (newFromBools bs).length = (bs.length + 7) / 8 := by
  rw [newFromBools, length_setBools, filled, List.length_replicate]

theorem isSet_newFromBools {bs : List Bool} (fits : bs.length ≤ 2 ^ 32) {index : UInt32}
    (inside : index.toNat < 8 * (newFromBools bs).length) :
    (newFromBools bs).isSet index = bs[index.toNat]?.getD false := by
  have within : byteOf index < (filled ((bs.length + 7) / 8) false).length := by
    rw [byteOf_lt_iff, filled, List.length_replicate, ← length_newFromBools]
    exact inside
  rw [Bool.eq_iff_iff, newFromBools, isSet_setBools (by omega), not_isSet_filled, Nat.sub_zero]
  cases bs[index.toNat]? <;> simp [within]

/-- **A list of bits is kept**, with zeros up to the end of the last byte. -/
theorem bools_newFromBools {bs : List Bool} (fits : bs.length ≤ 2 ^ 32) :
    (newFromBools bs).bools = bs ++ List.replicate ((8 - bs.length % 8) % 8) false := by
  have size := length_newFromBools bs
  refine List.ext_getElem? fun n => ?_
  by_cases inside : n < 8 * (newFromBools bs).length
  · have number : (UInt32.ofNat n).toNat = n := toNat_ofNat (by omega)
    have within : (UInt32.ofNat n).toNat < 8 * (newFromBools bs).length := by rwa [number]
    have listed := getElem_bools within
    rw [isSet_newFromBools fits within, number] at listed
    rw [listed]
    by_cases given : n < bs.length
    · rw [List.getElem?_append_left given, List.getElem?_eq_getElem given, Option.getD_some]
    · rw [List.getElem?_append_right (not_lt.mp given), List.getElem?_eq_none (not_lt.mp given),
        List.getElem?_replicate, if_pos (by omega), Option.getD_none]
  · rw [List.getElem?_eq_none (by rw [length_bools]; omega), List.getElem?_eq_none]
    rw [List.length_append, List.length_replicate]
    omega

/-- **A bit field is made from its bits.** -/
theorem newFromBools_bools (short : 8 * bf.length ≤ 2 ^ 32) : newFromBools bf.bools = bf := by
  refine bools_injective ?_
  have whole : (8 - bf.bools.length % 8) % 8 = 0 := by
    rw [length_bools]
    omega
  rw [bools_newFromBools (by rw [length_bools]; exact short), whole]
  exact List.append_nil _

theorem bools_eq_map (short : 8 * bf.length ≤ 2 ^ 32) :
    bf.bools = (List.range (8 * bf.length)).map fun n => bf.isSet (UInt32.ofNat n) := by
  refine List.ext_getElem? fun n => ?_
  by_cases inside : n < 8 * bf.length
  · have number : (UInt32.ofNat n).toNat = n := toNat_ofNat (by omega)
    have within : (UInt32.ofNat n).toNat < 8 * bf.length := by rwa [number]
    have listed := getElem_bools within
    rw [number] at listed
    rw [listed, List.getElem?_map, List.getElem?_range inside, Option.map_some]
  · rw [List.getElem?_eq_none (by rw [length_bools]; omega), List.getElem?_eq_none]
    rw [List.length_map, List.length_range]
    omega

/-! ### The indexes of the bits -/

theorem mem_indexes {index : UInt32} : index ∈ bf.indexes ↔ index.toNat < 8 * bf.length := by
  rw [indexes, List.mem_map]
  constructor
  · rintro ⟨n, member, rfl⟩
    have below : n < bf.length * 8 := List.mem_range.mp member
    have wraps : (UInt32.ofNat n).toNat ≤ n := by
      rw [UInt32.toNat_ofNat']
      exact Nat.mod_le _ _
    omega
  · intro below
    exact ⟨index.toNat, List.mem_range.mpr (by omega), UInt32.ofNat_toNat⟩

theorem sorted_indexes (short : 8 * bf.length ≤ 2 ^ 32) : Pieces.Sorted bf.indexes := by
  refine List.pairwise_map.mpr (List.pairwise_lt_range.imp_of_mem ?_)
  intro a b memberA memberB less
  have belowA : a < bf.length * 8 := List.mem_range.mp memberA
  have belowB : b < bf.length * 8 := List.mem_range.mp memberB
  rw [UInt32.lt_iff_toNat_lt, toNat_ofNat (by omega), toNat_ofNat (by omega)]
  exact less

theorem mem_sets {index : UInt32} :
    index ∈ bf.sets ↔ index.toNat < 8 * bf.length ∧ bf.isSet index = true := by
  rw [sets, List.mem_filter, mem_indexes]

theorem mem_unsets {index : UInt32} :
    index ∈ bf.unsets ↔ index.toNat < 8 * bf.length ∧ bf.isSet index = false := by
  rw [unsets, List.mem_filter, mem_indexes, Bool.not_eq_true']

theorem sets_filled (size : Nat) :
    (filled size true).sets = (List.range (size * 8)).map UInt32.ofNat := by
  have length : (filled size true).length = size := List.length_replicate
  rw [sets, List.filter_eq_self.mpr, indexes, length]
  intro index member
  rw [mem_indexes, length] at member
  exact isSet_filled.mpr (byteOf_lt_iff.mpr member)

/-- **A bit field is a vector of bits.** Its bits are set and cleared one by one; and if it has at most
2^32 of them, then they can be listed, made into a bit field again and enumerated in order. -/
theorem laws (bf : BitField) (bs : List Bool) :
    (∀ i, (bf.canSet i = true ↔ i.toNat < 8 * bf.length) ∧
      (bf.set i).2 = bf.canSet i ∧ (bf.unset i).2 = bf.canSet i ∧
      (bf.canSet i = false → (bf.set i).1 = bf ∧ (bf.unset i).1 = bf) ∧
      (bf.canSet i = true → (bf.set i).1.isSet i = true ∧ (bf.unset i).1.isSet i = false) ∧
      (bf.set i).1.length = bf.length ∧ (bf.unset i).1.length = bf.length ∧
      ∀ j, j ≠ i → (bf.set i).1.isSet j = bf.isSet j ∧ (bf.unset i).1.isSet j = bf.isSet j) ∧
    (8 * bf.length ≤ 2 ^ 32 →
      bf.bools = (List.range (8 * bf.length)).map (fun n => bf.isSet (UInt32.ofNat n)) ∧
      newFromBools bf.bools = bf ∧ Pieces.Sorted bf.sets ∧ Pieces.Sorted bf.unsets ∧
      ∀ i, (i ∈ bf.sets ↔ i.toNat < 8 * bf.length ∧ bf.isSet i = true) ∧
        (i ∈ bf.unsets ↔ i.toNat < 8 * bf.length ∧ bf.isSet i = false)) ∧
    (bs.length ≤ 2 ^ 32 →
      (newFromBools bs).bools = bs ++ List.replicate ((8 - bs.length % 8) % 8) false) := by
  refine ⟨fun i => ⟨canSet_iff, ?_, ?_, ?_, ?_, length_set i, length_unset i, ?_⟩, fun short => ?_,
    bools_newFromBools⟩
  · unfold set canSet
    split <;> simp [*]
  · unfold unset canSet
    split <;> simp [*]
  · intro outside
    have out : ¬ byteOf i < bf.length := of_decide_eq_false outside
    rw [set, unset, if_neg out, if_neg out]
    exact ⟨rfl, rfl⟩
  · intro inside
    refine ⟨isSet_set.mpr (.inr ⟨rfl, of_decide_eq_true inside⟩), ?_⟩
    rw [Bool.eq_false_iff]
    exact fun still => (isSet_unset.mp still).2 rfl
  · intro j other
    constructor
    · rw [Bool.eq_iff_iff, isSet_set]
      simp [other.symm]
    · rw [Bool.eq_iff_iff, isSet_unset]
      simp [other.symm]
  · have sorted := sorted_indexes short
    exact ⟨bools_eq_map short, newFromBools_bools short, sorted.filter _, sorted.filter _,
      fun i => ⟨mem_sets, mem_unsets⟩⟩

theorem not_sorted_indexes (long : 2 ^ 32 < 8 * bf.length) : ¬ Pieces.Sorted bf.indexes := by
  intro sorted
  have length : bf.indexes.length = bf.length * 8 := by
    rw [indexes, List.length_map, List.length_range]
  have less := List.pairwise_iff_getElem.mp sorted 0 (2 ^ 32) (by omega) (by omega) (by decide)
  simp only [indexes, List.getElem_map, List.getElem_range] at less
  exact absurd less (by decide)

/-- **A bit field of 2^29 + 1 bytes**: its bits that are not set are enumerated twice. -/
theorem unsets_of_long : ¬ Pieces.Sorted (unsets (List.replicate (2 ^ 29 + 1) 0)) := by
  have all : unsets (List.replicate (2 ^ 29 + 1) 0) = indexes (List.replicate (2 ^ 29 + 1) 0) := by
    refine List.filter_eq_self.mpr fun index _ => ?_
    rw [show List.replicate (2 ^ 29 + 1) 0 = filled (2 ^ 29 + 1) false from rfl, not_isSet_filled]
    rfl
  rw [all]
  refine not_sorted_indexes ?_
  rw [List.length_replicate]
  decide

end GoBt.PeerProtocol.BitField
