/-
**The XOR distance and the bucket of an id.**

* `dist target a` — the XOR distance as a number, most significant byte first.
* `distcmp target a b` — the byte-by-byte comparison of the source; `distcmp_pos_iff`: it is
  positive exactly when `a` is farther from the target than `b`.
* `dist_injective` — two ids at one distance of a target are one id.
* `bucketid owner nid` — the bucket of an id; `bucketid_lt`: always one of the 160 buckets, so that
  indexing the bucket array with it cannot panic.
-/

import GoBt.Lib.BigEndian
import GoBt.Metainfo.Hash

namespace GoBt.Dht

open GoBt.Lib GoBt.Metainfo

/-- The number of buckets of a routing table. -/
abbrev bktlen : Nat := 160

/-! ### Distances -/

/-- The XOR distance of an id to a target. -/
def dist (target a : Hash) : Nat := beNat (a.xor target).bytes

/-- The loop of `distcmp` over the bytes of the target and the two ids. -/
def distcmpLoop : List UInt8 → List UInt8 → List UInt8 → Int
  | t :: target, x :: a, y :: b =>
      let da := x ^^^ t
      let db := y ^^^ t
      if da > db then 1 else if da < db then -1 else distcmpLoop target a b
  | _, _, _ => 0

def distcmp (target a b : Hash) : Int := distcmpLoop target.bytes a.bytes b.bytes

theorem distcmpLoop_pos_iff : ∀ (target a b : List UInt8), a.length = target.length →
    b.length = target.length →
      (0 < distcmpLoop target a b ↔
        beNat (List.zipWith (· ^^^ ·) b target) < beNat (List.zipWith (· ^^^ ·) a target)) := by
  intro target
  induction target with
  | nil =>
    intro a b sizeA sizeB
    rw [List.length_eq_zero_iff.mp sizeA, List.length_eq_zero_iff.mp sizeB]
    simp [distcmpLoop]
  | cons t target ih =>
    intro a b sizeA sizeB
    obtain ⟨x, a, rfl⟩ := List.exists_cons_of_length_eq_add_one sizeA
    obtain ⟨y, b, rfl⟩ := List.exists_cons_of_length_eq_add_one sizeB
    have restA : a.length = target.length := Nat.succ.inj sizeA
    have restB : b.length = target.length := Nat.succ.inj sizeB
    have same : (List.zipWith (· ^^^ ·) a target).length =
        (List.zipWith (· ^^^ ·) b target).length := by
      rw [List.length_zipWith, List.length_zipWith, restA, restB]
    simp only [distcmpLoop, List.zipWith_cons_cons]
    by_cases farther : x ^^^ t > y ^^^ t
    · rw [if_pos farther]
      exact iff_of_true one_pos (beNat_cons_lt farther same.symm)
    · rw [if_neg farther]
      by_cases nearer : x ^^^ t < y ^^^ t
      · rw [if_pos nearer]
        exact iff_of_false (by decide) (not_lt.mpr (beNat_cons_lt nearer same).le)
      · have equal : x ^^^ t = y ^^^ t :=
          UInt8.toNat_inj.mp (le_antisymm (not_lt.mp farther) (not_lt.mp nearer))
        rw [if_neg nearer, ih a b restA restB, equal]
        simp only [beNat, same, Nat.add_lt_add_iff_left]

/-- **`distcmp` compares XOR distances.** -/
theorem distcmp_pos_iff (target a b : Hash) :
    0 < distcmp target a b ↔ dist target b < dist target a :=
  distcmpLoop_pos_iff target.bytes a.bytes b.bytes (a.size.trans target.size.symm)
    (b.size.trans target.size.symm)

theorem zipWith_xor_injective : ∀ (target a b : List UInt8), a.length = target.length →
    b.length = target.length →
      List.zipWith (· ^^^ ·) a target = List.zipWith (· ^^^ ·) b target → a = b := by
  intro target
  induction target with
  | nil =>
    intro a b sizeA sizeB _
    rw [List.length_eq_zero_iff.mp sizeA, List.length_eq_zero_iff.mp sizeB]
  | cons t target ih =>
    intro a b sizeA sizeB equal
    obtain ⟨x, a, rfl⟩ := List.exists_cons_of_length_eq_add_one sizeA
    obtain ⟨y, b, rfl⟩ := List.exists_cons_of_length_eq_add_one sizeB
    obtain ⟨head, tail⟩ := List.cons.inj equal
    have undo : ∀ z : UInt8, z ^^^ t ^^^ t = z := fun z => by
      rw [UInt8.xor_assoc, UInt8.xor_self, UInt8.xor_zero]
    have first : x = y := by rw [← undo x, ← undo y]; exact congrArg (· ^^^ t) head
    rw [first, ih a b (Nat.succ.inj sizeA) (Nat.succ.inj sizeB) tail]

/-- **Two ids at one distance are one id.** -/
theorem dist_injective (target : Hash) : Function.Injective (dist target) := by
  intro a b equal
  have bytes : (a.xor target).bytes = (b.xor target).bytes :=
    beNat_injective ((a.xor target).size.trans (b.xor target).size.symm) equal
  exact Hash.ext (zipWith_xor_injective target.bytes a.bytes b.bytes
    (a.size.trans target.size.symm) (b.size.trans target.size.symm) bytes)

/-! ### Buckets -/

/-- The highest bit set in a byte, as the `switch` of `bucketid` tests it. -/
def bitDiff (v : UInt8) : Option Nat :=
  if v &&& 0x80 > 0 then some 7
  else if v &&& 0x40 > 0 then some 6
  else if v &&& 0x20 > 0 then some 5
  else if v &&& 0x10 > 0 then some 4
  else if v &&& 0x08 > 0 then some 3
  else if v &&& 0x04 > 0 then some 2
  else if v &&& 0x02 > 0 then some 1
  else if v &&& 0x01 > 0 then some 0
  else none

/-- The loop of `bucketid` from byte `i` on. When no byte differs, the loop variable keeps the last
index and the bit stays 0. -/
def bucketidLoop (i : Nat) : List UInt8 → List UInt8 → Nat
  | bite :: ownerid, other :: nid =>
      match bitDiff (bite ^^^ other) with
      | some bit => i * 8 + (7 - bit)
      | none => bucketidLoop (i + 1) ownerid nid
  | _, _ => (i - 1) * 8 + 7

def bucketid (ownerid nid : Hash) : Nat := bucketidLoop 0 ownerid.bytes nid.bytes

theorem bucketidLoop_lt (ownerid : List UInt8) : ∀ (i : Nat) (nid : List UInt8),
    nid.length = ownerid.length → 0 < i + ownerid.length →
      bucketidLoop i ownerid nid < (i + ownerid.length) * 8 := by
  induction ownerid with
  | nil =>
    intro i nid size some
    rw [List.length_eq_zero_iff.mp size]
    simp only [bucketidLoop, List.length_nil] at some ⊢
    omega
  | cons bite ownerid ih =>
    intro i nid size some
    obtain ⟨other, nid, rfl⟩ := List.exists_cons_of_length_eq_add_one size
    simp only [bucketidLoop, List.length_cons]
    split
    · omega
    · have rest := ih (i + 1) nid (Nat.succ.inj size) (by omega)
      omega

theorem bucketid_lt (ownerid nid : Hash) : bucketid ownerid nid < bktlen := by
  have bound := bucketidLoop_lt ownerid.bytes 0 nid.bytes (nid.size.trans ownerid.size.symm)
    (by rw [ownerid.size]; decide)
  rw [ownerid.size] at bound
  exact bound

end GoBt.Dht
