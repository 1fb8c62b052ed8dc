/-
**Skipping agrees with parsing.**

A `RawMessage` is filled by a mode of the decoder that skips a value without looking at its numbers.

* `IntToken digits token` — between an `i` and an `e` of the token, outside its strings, the digits
  stand. `Item.bencoded`: if all of them are numbers of 64 bits, the item is a value of the format.
* **`raw_agrees`** — what an interface accepts is skipped as it is, and what is skipped is accepted by
  an interface if its numbers have 64 bits; both read the same bytes. The types of the program do not
  matter.
-/

import GoBt.Bencode.Accept
import GoBt.Bencode.Types

namespace GoBt.Bencode

variable {χ : Type}

/-- The digits of an integer inside an item. -/
inductive IntToken (digits : GoString) : GoString → Prop
  | int (open' : 101 ∉ digits) : IntToken digits (105 :: (digits ++ [101]))
  | list {items : List GoString} {item : GoString} (each : ∀ item ∈ items, Item item)
      (member : item ∈ items) (inside : IntToken digits item) :
      IntToken digits (108 :: (items.flatten ++ [101]))
  | dict {entries : List Entry} {e : Entry} (fine : WellFormed entries) (member : e ∈ entries)
      (inside : IntToken digits e.value) :
      IntToken digits (100 :: (entries.flatMap Entry.bytes ++ [101]))

/-- **An item with numbers of 64 bits is a value of the format.** -/
theorem Item.bencoded {token : GoString} (item : Item token)
    (numbers : ∀ digits, IntToken digits token → ∃ n, parseInt digits 64 = .ok n) :
    Bencoded token := by
  induction item with
  | int open' =>
    obtain ⟨n, parsed⟩ := numbers _ (.int open')
    exact .int open' parsed
  | string isString digit => exact .string isString digit
  | list each ih =>
    refine .list fun item member => ih item member fun digits inside => ?_
    exact numbers digits (.list each member inside)
  | dict keys values ih =>
    refine .dict keys fun e member => ih e member fun digits inside => ?_
    exact numbers digits (.dict ⟨keys, values⟩ member inside)

/-- **Skipping agrees with parsing.** `n` counts the bytes that were read. -/
theorem raw_agrees (env : Env χ) (s : GoString) (b : Option GoString) :
    (∀ d w, decode env { r := s } (.iface none) = (d, w, none) →
      ∃ d', decode env { r := s } (.raw b) = (d', .raw (some (s.take d.n)), none) ∧ d'.n = d.n) ∧
    ∀ d r, decode env { r := s } (.raw b) = (d, .raw (some r), none) →
      (∀ digits, IntToken digits r → ∃ n, parseInt digits 64 = .ok n) →
      ∃ d' w, decode env { r := s } (.iface none) = (d', w, none) ∧ d'.n = r.length := by
  constructor
  · intro d w decoded
    obtain ⟨⟨token, bencoded, read⟩, _⟩ := decodeInto_iface _ rfl decoded
    have input : s = token ++ d.r := read.input
    have count : d.n = token.length := read.n.trans (Nat.zero_add _)
    have enough : token.length ≤ s.length + 2 := by
      rw [input, List.length_append]
      omega
    obtain ⟨d', skipped, read'⟩ := takes_rawMessage env bencoded.item b enough { r := s } d.r rfl input
    refine ⟨d', ?_, ?_⟩
    · rw [count]
      nth_rewrite 2 [input]
      rw [List.take_left]
      exact skipped
    · rw [count]
      exact read'.n.trans (Nat.zero_add _)
  · intro d r decoded numbers
    obtain ⟨token, item, read, same⟩ := decodeInto_captures rfl decoded
    cases same
    have input : s = r ++ d.r := read.input
    have enough : r.length < s.length + 2 := by
      rw [input, List.length_append]
      omega
    obtain ⟨d', w, accepted, read', _⟩ :=
      (item.bencoded numbers).accepted enough { r := s } d.r rfl rfl input
    exact ⟨d', w, accepted, read'.n.trans (Nat.zero_add _)⟩

end GoBt.Bencode
