/-
**Dictionaries without the keys of a struct** (`decodeDict` in `bencode/decode.go`).

A struct is filled entry by entry, also if decoding fails later on. The value of a key that it does
not have is decoded into an interface that is thrown away.

* `NoKeyOf` — no entry of a dictionary has one of the keys, up to where the text is no dictionary.
* **`decodeBytes_of_noKey`** — decoded into a struct with these keys, such a text leaves the struct as
  it was, whether there is an error or not.
-/

import GoBt.Bencode.Types

namespace GoBt.Bencode

variable {χ : Type} {env : Env χ}

/-- However far the text can be read as a dictionary, no entry has one of the keys, neither a complete
one nor one that breaks off behind its key. -/
def NoKeyOf (keys : List GoString) (s : GoString) : Prop :=
  ∀ entries keyToken key rest, WellFormed entries → StringToken keyToken key →
    s = 100 :: (entries.flatMap Entry.bytes ++ (keyToken ++ rest)) → key ∉ keys

section NoKey

variable {keys : List GoString}

theorem NoKeyOf.nil : NoKeyOf keys [100] := by
  rintro entries keyToken key rest _ isString same
  obtain ⟨c, tail, rfl, _⟩ := isString.head
  simp at same

theorem NoKeyOf.cons {e : Entry} {s : GoString} (isString : StringToken e.keyToken e.key)
    (item : Item e.value) (other : e.key ∉ keys) (later : NoKeyOf keys (100 :: s)) :
    NoKeyOf keys (100 :: (e.bytes ++ s)) := by
  rintro entries keyToken key rest fine isString' same
  have tail := (List.cons.inj same).2
  rw [Entry.bytes, List.append_assoc] at tail
  cases entries with
  | nil =>
    obtain ⟨_, rfl, _⟩ := isString.unique isString' tail
    exact other
  | cons first entries =>
    obtain ⟨key', keys'⟩ := List.forall_mem_cons.mp fine.keys
    obtain ⟨value, values⟩ := List.forall_mem_cons.mp fine.values
    rw [List.flatMap_cons, Entry.bytes, List.append_assoc, List.append_assoc] at tail
    obtain ⟨_, _, tail⟩ := isString.unique key' tail
    obtain ⟨_, tail⟩ := item.unique value tail
    exact later entries keyToken key rest ⟨keys', values⟩ isString' (by rw [tail])

end NoKey

variable {fields : List (Field × Value χ)}

/-- The loop of `decodeDict` behind some entries: the keys it meets are those of the text. -/
theorem dictLoop_of_noKey (keyed : ∀ p ∈ fields, p.1.Keyed env) {depth : Nat} {addr : Bool}
    {fuel : Nat} {d : Decoder} {lastKey : Option GoString} {before : List Entry}
    (fine : WellFormed before) (typed : d.raw = false)
    (noKey : NoKeyOf (fields.map fun p => p.1.key) (100 :: (before.flatMap Entry.bytes ++ d.r))) :
    (dictLoop env (decodeInto env depth) addr fuel d (.struct fields) lastKey).2.1 =
      .struct fields := by
  induction fuel generalizing d lastKey before with
  | zero => rfl
  | succ fuel ih =>
    unfold dictLoop
    cases d.peekByte with
    | none => rfl
    | some ch =>
      dsimp only
      split
      · rfl
      · split
        · rfl
        · rename_i d₁ key readKey
          obtain ⟨keyToken, rest, isString, input, rfl⟩ := Decoder.readString_ok readKey
          rw [input] at noKey
          have other : ∀ p ∈ fields, p.1.key ≠ key := by
            rintro p member rfl
            exact noKey before keyToken _ rest fine isString rfl (List.mem_map_of_mem member)
          rw [dictEntry_unknown keyed other]
          split
          · rfl
          · rcases value : decodeInto env depth (d.took keyToken rest) true (.iface none) with
              ⟨d₂, x, _ | fault⟩
            · have typed' : (d.took keyToken rest).raw = false := typed
              obtain ⟨⟨token, bencoded, read⟩, _⟩ := decodeInto_iface depth typed' value
              have left : rest = token ++ d₂.r := read.input
              have fine' : WellFormed (before ++ [⟨keyToken, key, token⟩]) :=
                ⟨List.forall_mem_append.mpr ⟨fine.keys, by simpa using isString⟩,
                  List.forall_mem_append.mpr ⟨fine.values, by simpa using bencoded.item⟩⟩
              refine ih fine' (read.raw.trans typed) ?_
              rw [left] at noKey
              simpa [Entry.bytes] using noKey
            · rfl

theorem decodeInt_struct (d : Decoder) (addr : Bool) (fields : List (Field × Value χ)) :
    (decodeInt d addr (.struct fields)).2.1 = .struct fields := by
  unfold decodeInt
  repeat' split
  all_goals rfl

theorem decodeString_struct (d : Decoder) (addr : Bool) (fields : List (Field × Value χ)) :
    (decodeString d addr (.struct fields)).2.1 = .struct fields := by
  unfold decodeString
  repeat' split
  all_goals rfl

/-- **Without the keys of a struct nothing is stored** in it, also if there is an error. -/
theorem decodeBytes_of_noKey (keyed : ∀ p ∈ fields, p.1.Keyed env) {s : GoString}
    (noKey : NoKeyOf (fields.map fun p => p.1.key) s) :
    (decodeBytes env s (.struct fields)).1 = .struct fields := by
  have plain : Plain env (.struct fields) := ⟨rfl, nofun⟩
  show (decodeInto env (s.length + 1 + 1) { r := s } true (.struct fields)).2.1 = _
  rw [decodeInto_plain plain _ rfl]
  cases s with
  | nil => rfl
  | cons next rest =>
    unfold decodeNext
    dsimp only [Decoder.peekByte, List.head?_cons]
    split_ifs with isInt isString isList isDict
    · exact decodeInt_struct _ _ fields
    · exact decodeString_struct _ _ fields
    · rfl
    · subst isDict
      exact dictLoop_of_noKey (d := Decoder.took { r := 100 :: rest } [100] rest)
        keyed .nil rfl noKey
    · rfl

end GoBt.Bencode
