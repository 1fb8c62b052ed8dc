/-
**A flat byte array laid over separate growable arrays.**

Items with a size each are laid end to end; a position of the whole lies in one of them. Each item
has a key, and a store holds a growable array of bytes under each key.

* `locate` — the item of a position and the place in it; `locate_eq_some_iff`.
* `overwrite` — a write into a growable array, which is filled up with zeros.
* `byteAt` — the byte at a position of the whole.
* `Wrote` — from one store to the next, the bytes at a position have been written, and nothing else
  that was there has changed. `wrote_segment`: a write into one item; `Wrote.append`: one write
  after the other.
* `Refines` — the store holds what a flat array holds; `Wrote.refines`: and still does after a
  write.
-/

import GoBt.Lib.Runs
import Mathlib.Data.List.Basic
import Mathlib.Tactic

namespace GoBt.Lib

/-! ### Positions -/

section Locate

variable {α : Type*} (size : α → Nat)

def span (items : List α) : Nat := (items.map size).sum

@[simp] theorem span_nil : span size [] = 0 := rfl

@[simp] theorem span_cons (a : α) (rest : List α) :
    span size (a :: rest) = size a + span size rest := List.sum_cons

@[simp] theorem span_append (first second : List α) :
    span size (first ++ second) = span size first + span size second := by
  rw [span, List.map_append, List.sum_append]
  rfl

theorem span_le {items : List α} {width : Nat} (fits : ∀ a ∈ items, size a ≤ width) :
    span size items ≤ items.length * width := by
  have sum := List.sum_le_card_nsmul (items.map size) width (by simpa using fits)
  rwa [List.length_map, smul_eq_mul] at sum

/-- The item a position lies in, and the place in the item. -/
def locate : List α → Nat → Option (α × Nat)
  | [], _ => none
  | a :: rest, x => if x < size a then some (a, x) else locate rest (x - size a)

/-- **Where a position is.** -/
theorem locate_eq_some_iff {items : List α} {x o : Nat} {a : α} :
    locate size items x = some (a, o) ↔
      ∃ before after, items = before ++ a :: after ∧ x = span size before + o ∧ o < size a := by
  induction items generalizing x with
  | nil =>
    refine iff_of_false nofun ?_
    rintro ⟨before, after, split, _⟩
    cases before <;> cases split
  | cons b rest ih =>
    unfold locate
    by_cases here : x < size b
    · rw [if_pos here, Option.some_inj, Prod.mk.injEq]
      constructor
      · rintro ⟨rfl, rfl⟩
        exact ⟨[], rest, rfl, by simp, here⟩
      · rintro ⟨before, after, split, place, inside⟩
        cases before with
        | nil =>
          obtain ⟨rfl, rfl⟩ := List.cons.inj split
          exact ⟨rfl, by simpa using place⟩
        | cons head before =>
          obtain ⟨rfl, rfl⟩ := List.cons.inj split
          rw [span_cons] at place
          omega
    · rw [if_neg here, ih]
      constructor
      · rintro ⟨before, after, rfl, place, inside⟩
        exact ⟨b :: before, after, rfl, by rw [span_cons]; omega, inside⟩
      · rintro ⟨before, after, split, place, inside⟩
        cases before with
        | nil =>
          obtain ⟨rfl, rfl⟩ := List.cons.inj split
          rw [span_nil] at place
          omega
        | cons head before =>
          obtain ⟨rfl, rfl⟩ := List.cons.inj split
          exact ⟨before, after, rfl, by rw [span_cons] at place; omega, inside⟩

theorem locate_split {before after : List α} {a : α} {o : Nat} (inside : o < size a) :
    locate size (before ++ a :: after) (span size before + o) = some (a, o) :=
  (locate_eq_some_iff size).mpr ⟨before, after, rfl, rfl, inside⟩

theorem exists_locate {items : List α} {x : Nat} (inside : x < span size items) :
    ∃ before a after o, items = before ++ a :: after ∧ x = span size before + o ∧ o < size a := by
  induction items generalizing x with
  | nil => cases inside
  | cons a rest ih =>
    by_cases here : x < size a
    · exact ⟨[], a, rest, x, rfl, by simp, here⟩
    · rw [span_cons] at inside
      obtain ⟨before, b, after, o, rfl, place, within⟩ := ih (x := x - size a) (by omega)
      exact ⟨a :: before, b, after, o, rfl, by rw [span_cons]; omega, within⟩

end Locate

/-! ### Growable arrays -/

/-- Write `bytes` at the place `o`; a gap before it is filled with zeros. -/
def overwrite (content : List UInt8) (o : Nat) (bytes : List UInt8) : List UInt8 :=
  content.take o ++ List.replicate (o - content.length) 0 ++ bytes ++
    content.drop (o + bytes.length)

theorem length_overwrite (content : List UInt8) (o : Nat) (bytes : List UInt8) :
    (overwrite content o bytes).length = max content.length (o + bytes.length) := by
  simp only [overwrite, List.length_append, List.length_take, List.length_replicate,
    List.length_drop]
  omega

theorem getElem?_overwrite_inside (content : List UInt8) (o : Nat) {bytes : List UInt8} {i : Nat}
    (inside : i < bytes.length) : (overwrite content o bytes)[o + i]? = some bytes[i] := by
  have front : (content.take o ++ List.replicate (o - content.length) 0).length = o := by
    simp only [List.length_append, List.length_take, List.length_replicate]
    omega
  unfold overwrite
  rw [List.append_assoc, List.getElem?_append_right (by omega), front,
    List.getElem?_append_left (by omega), Nat.add_sub_cancel_left, List.getElem?_eq_getElem inside]

theorem getElem?_overwrite_outside {content : List UInt8} {o i : Nat} {bytes : List UInt8}
    {b : UInt8}
    (outside : i < o ∨ o + bytes.length ≤ i) (there : content[i]? = some b) :
    (overwrite content o bytes)[i]? = some b := by
  have length : i < content.length := (List.getElem?_eq_some_iff.mp there).1
  have front : (content.take o ++ List.replicate (o - content.length) 0).length = o := by
    simp only [List.length_append, List.length_take, List.length_replicate]
    omega
  unfold overwrite
  rcases outside with before | behind
  · rw [List.append_assoc, List.getElem?_append_left (by omega),
      List.getElem?_append_left (by rw [List.length_take]; omega), List.getElem?_take_of_lt before,
      there]
  · rw [List.getElem?_append_right (by rw [List.length_append]; omega), List.length_append, front,
      List.getElem?_drop, ← there]
    congr 1
    omega

/-! ### The flat array -/

/-- What is stored under each key; `none` if nothing is. -/
abbrev Store (K : Type*) := K → Option (List UInt8)

section Store

variable {α K : Type*} (size : α → Nat) (key : α → K) (items : List α)

/-- What is stored under a key, empty if nothing is. -/
def contentOf (store : Store K) (k : K) : List UInt8 := (store k).getD []

def writeSegment [DecidableEq K] (store : Store K) (k : K) (o : Nat) (bytes : List UInt8) :
    Store K :=
  Function.update store k (some (overwrite (contentOf store k) o bytes))

/-- The byte at a position of the whole, if it is there. -/
def byteAt (store : Store K) (x : Nat) : Option UInt8 :=
  (locate size items x).bind fun place => (contentOf store (key place.1))[place.2]?

/-- The bytes at a position of the whole have been written, the other bytes that were there are
still there, and no array has grown beyond its item. -/
structure Wrote (store store' : Store K) (x : Nat) (bytes : List UInt8) : Prop where
  inside : ∀ i (bound : i < bytes.length), byteAt size key items store' (x + i) = some bytes[i]
  outside : ∀ y b, y < x ∨ x + bytes.length ≤ y → byteAt size key items store y = some b →
    byteAt size key items store' y = some b
  bounded : ∀ a ∈ items, (contentOf store' (key a)).length ≤
    max (contentOf store (key a)).length (size a)
  frame : ∀ k, (∀ a ∈ items, key a ≠ k) → store' k = store k

variable {size key items}

theorem byteAt_split {before after : List α} {a : α} {o : Nat} (inside : o < size a)
    (store : Store K) :
    byteAt size key (before ++ a :: after) store (span size before + o) =
      (contentOf store (key a))[o]? := by
  rw [byteAt, locate_split size inside]
  rfl

/-- If every array fills its item, the whole is the arrays in order. -/
theorem byteAt_flatten {store : Store K}
    (full : ∀ a ∈ items, (contentOf store (key a)).length = size a) (x : Nat) :
    byteAt size key items store x =
      (items.map fun a => contentOf store (key a)).flatten[x]? := by
  induction items generalizing x with
  | nil => rfl
  | cons a rest ih =>
    obtain ⟨here, later⟩ := List.forall_mem_cons.mp full
    rw [List.map_cons, List.flatten_cons]
    by_cases inside : x < size a
    · have place := (byteAt_split inside store : byteAt size key ([] ++ a :: rest) store _ = _)
      rw [List.nil_append, span_nil, Nat.zero_add] at place
      rw [place, List.getElem?_append_left (by omega)]
    · have next := ih later (x - size a)
      rw [List.getElem?_append_right (by omega), here, ← next, byteAt, byteAt, locate,
        if_neg inside]

theorem Wrote.nil (store : Store K) (x : Nat) : Wrote size key items store store x [] where
  inside _ bound := nomatch bound
  outside _ _ _ there := there
  bounded _ _ := le_max_left _ _
  frame _ _ := rfl

/-- **One write after the other.** -/
theorem Wrote.append {first second third : Store K} {x : Nat} {bytes more : List UInt8}
    (before : Wrote size key items first second x bytes)
    (after : Wrote size key items second third (x + bytes.length) more) :
    Wrote size key items first third x (bytes ++ more) where
  inside i bound := by
    by_cases old : i < bytes.length
    · rw [List.getElem_append_left old]
      exact after.outside _ _ (Or.inl (by omega)) (before.inside i old)
    · rw [List.length_append] at bound
      have new := after.inside (i - bytes.length) (by omega)
      rw [List.getElem_append_right (by omega), ← new]
      congr 1
      omega
  outside y b elsewhere there := by
    rw [List.length_append] at elsewhere
    exact after.outside y b (by omega) (before.outside y b (by omega) there)
  bounded a member := by
    have first := before.bounded a member
    have second := after.bounded a member
    omega
  frame k other := (after.frame k other).trans (before.frame k other)

theorem split_unique {before after before' after' : List α} {a c : α}
    (distinct : ((before ++ a :: after).map key).Nodup)
    (same : before ++ a :: after = before' ++ c :: after') (sameKey : key c = key a) :
    before = before' ∧ a = c := by
  have distinct' := distinct
  rw [same] at distinct'
  simp only [List.map_append, List.map_cons] at distinct distinct'
  have notBefore : ∀ {first second : List K} {k : K}, (first ++ k :: second).Nodup → k ∉ first := by
    intro first second k distinct member
    exact (List.nodup_append.mp distinct).2.2 k member k List.mem_cons_self rfl
  have keys : before.map key ++ key a :: after.map key =
      before'.map key ++ key a :: after'.map key := by
    rw [← sameKey]
    simpa only [List.map_append, List.map_cons, sameKey] using congrArg (List.map key) same
  obtain ⟨front, _⟩ := first_split_unique keys (notBefore distinct)
    (sameKey ▸ notBefore distinct')
  have length : before.length = before'.length := by simpa using congrArg List.length front
  obtain ⟨sameBefore, rest⟩ := List.append_inj same length
  exact ⟨sameBefore, (List.cons.inj rest).1⟩

/-- **A write into one item**, within its size and under a key of its own. -/
theorem wrote_segment [DecidableEq K] {before after : List α} {a : α}
    (distinct : ((before ++ a :: after).map key).Nodup) (store : Store K) {o : Nat}
    {bytes : List UInt8} (fits : o + bytes.length ≤ size a) :
    Wrote size key (before ++ a :: after) store (writeSegment store (key a) o bytes)
      (span size before + o) bytes := by
  have here : contentOf (writeSegment store (key a) o bytes) (key a) =
      overwrite (contentOf store (key a)) o bytes := by
    rw [contentOf, writeSegment, Function.update_self]
    rfl
  have elsewhere : ∀ k, k ≠ key a → writeSegment store (key a) o bytes k = store k :=
    fun k other => Function.update_of_ne other _ _
  refine ⟨fun i bound => ?_, fun y b outside there => ?_, fun c member => ?_, fun k other => ?_⟩
  · rw [Nat.add_assoc, byteAt_split (by omega), here, getElem?_overwrite_inside _ _ bound]
  · obtain ⟨⟨c, o'⟩, located, found⟩ := Option.bind_eq_some_iff.mp there
    rw [byteAt, located, Option.bind_some]
    obtain ⟨before', after', same, place, _⟩ := (locate_eq_some_iff size).mp located
    by_cases sameKey : key c = key a
    · obtain ⟨rfl, rfl⟩ := split_unique distinct same sameKey
      rw [here]
      exact getElem?_overwrite_outside (by omega) found
    · rw [contentOf, elsewhere _ sameKey]
      exact found
  · by_cases sameKey : key c = key a
    · obtain ⟨before', after', same⟩ := List.append_of_mem member
      obtain ⟨_, rfl⟩ := split_unique distinct same sameKey
      rw [here, length_overwrite]
      omega
    · rw [contentOf, elsewhere _ sameKey]
      exact le_max_left _ _
  · exact elsewhere k fun same => other a (by simp) same.symm

/-! ### Refinement -/

def flatWrite (flat : Nat → Option UInt8) (x : Nat) (bytes : List UInt8) (y : Nat) : Option UInt8 :=
  if x ≤ y ∧ y < x + bytes.length then bytes[y - x]? else flat y

/-- The store holds every byte of the flat array. -/
def Refines (size : α → Nat) (key : α → K) (items : List α) (store : Store K)
    (flat : Nat → Option UInt8) : Prop :=
  ∀ y b, flat y = some b → byteAt size key items store y = some b

/-- **A write keeps the refinement.** -/
theorem Wrote.refines {store store' : Store K} {flat : Nat → Option UInt8} {x : Nat}
    {bytes : List UInt8} (wrote : Wrote size key items store store' x bytes)
    (refines : Refines size key items store flat) :
    Refines size key items store' (flatWrite flat x bytes) := by
  intro y b there
  unfold flatWrite at there
  split at there
  · rename_i range
    obtain ⟨bound, rfl⟩ := List.getElem?_eq_some_iff.mp there
    have written := wrote.inside (y - x) bound
    rwa [Nat.add_sub_cancel' range.1] at written
  · exact wrote.outside y b (by omega) (refines y b there)

theorem take_drop_of_byteAt {before after : List α} {a : α} {store : Store K} {o : Nat}
    {bytes : List UInt8} (fits : o + bytes.length ≤ size a)
    (there : ∀ i (bound : i < bytes.length),
      byteAt size key (before ++ a :: after) store (span size before + o + i) = some bytes[i]) :
    ((contentOf store (key a)).drop o).take bytes.length = bytes := by
  refine List.ext_getElem? fun i => ?_
  by_cases bound : i < bytes.length
  · have found := there i bound
    rw [Nat.add_assoc, byteAt_split (by omega)] at found
    rw [List.getElem?_take_of_lt bound, List.getElem?_drop, found, List.getElem?_eq_getElem bound]
  · rw [List.getElem?_eq_none (by rw [List.length_take]; omega),
      List.getElem?_eq_none (by omega)]

end Store

end GoBt.Lib
