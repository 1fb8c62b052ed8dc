/-
**Canonical output**: dictionaries whose keys are in order.

The encoder sorts the fields of a struct by their keys, and the entries of a map by `reflect`'s text of
their keys. For keys that are no strings that text is the same for all of them, so the sort may leave
their entries in any order.

* `Ordered` — a value all of whose dictionaries have their keys in strictly increasing order.
* `WritesOrdered` — the encoding of a value is ordered; `WritesOrdered.struct`: so is that of a struct, if
  those of its fields are.
* `encodeValue_mapNamed` — **a map whose keys have methods is written in the order that the sort gives
  to keys that are all the same.**
* `Reads.mapNamed` — such a map is read back, entry by entry.
-/

import GoBt.Bencode.RoundTrip

namespace GoBt.Bencode

variable {χ α : Type} {env : Env χ}

/-! ### Ordered values -/

/-- A value of the format in which the keys of every dictionary are strictly increasing. -/
inductive Ordered : GoString → Prop
  | int {digits : GoString} (open' : 101 ∉ digits) : Ordered (105 :: (digits ++ [101]))
  | string {token s : GoString} (isString : StringToken token s)
      (digit : ∃ c ∈ token.head?, IsDigit c) : Ordered token
  | list {items : List GoString} (each : ∀ item ∈ items, Ordered item) :
      Ordered (108 :: (items.flatten ++ [101]))
  | dict {entries : List Entry} (keys : ∀ e ∈ entries, StringToken e.keyToken e.key)
      (sorted : entries.Pairwise fun e f => e.key < f.key) (values : ∀ e ∈ entries, Ordered e.value) :
      Ordered (100 :: (entries.flatMap Entry.bytes ++ [101]))

theorem ordered_encodeString {s : GoString} (short : s.length < 2 ^ 31) :
    Ordered (encodeString s) :=
  .string (stringToken_encodeString short) (digit_encodeString s)

theorem ordered_encodeInt (n : Int) : Ordered (encodeInt n) := .int (not_mem_formatInt n)

theorem ordered_dict {as : List α} {key token : α → GoString}
    (short : ∀ a ∈ as, (key a).length < 2 ^ 31) (sorted : as.Pairwise fun a b => key a < key b)
    (each : ∀ a ∈ as, Ordered (token a)) : Ordered (100 :: (entryBytes key token as ++ [101])) := by
  let entries : List Entry := as.map fun a => ⟨encodeString (key a), key a, token a⟩
  have keys : ∀ e ∈ entries, StringToken e.keyToken e.key := by
    simpa [entries] using fun a member => stringToken_encodeString (short a member)
  have sorted' : entries.Pairwise fun e f => e.key < f.key := by
    simpa [entries, List.pairwise_map] using sorted
  have values : ∀ e ∈ entries, Ordered e.value := by simpa [entries] using each
  simpa [entries, entryBytes, List.flatMap_map, Entry.bytes] using Ordered.dict keys sorted' values

def WritesOrdered (env : Env χ) (v : Value χ) : Prop :=
  ∃ token, encodeValue env {} v = .ok token ∧ Ordered token

theorem WritesOrdered.string {s : GoString} (short : s.length < 2 ^ 31) :
    WritesOrdered env (.string s) :=
  ⟨_, encodeValue_string env _ s, ordered_encodeString short⟩

theorem WritesOrdered.uint (bits n : Nat) : WritesOrdered env (.uint bits n) :=
  ⟨_, encodeValue_uint env _ bits n, ordered_encodeInt n⟩

theorem isSome_fieldKey_omitempty {f : Field} (tagged : f.Tagged env)
    (option : optionsContain (parseTag f.tag).2 "omitempty" = true) {v : Value χ}
    (some' : v.isNilValue = false) : (fieldKey env f v).isSome = !v.isEmptyValue := by
  rw [fieldKey_tagged tagged some']
  cases empty : v.isEmptyValue with
  | false => simp
  | true => simp [option]

theorem FieldPart.sorted_dict {parts : List (FieldPart χ)} (distinct : (parts.map key).Nodup) :
    (FieldPart.dict env parts).Pairwise fun p q => p.key < q.key := by
  have different : (FieldPart.dict env parts).Pairwise fun p q => p.key ≠ q.key :=
    List.pairwise_map.mp (FieldPart.nodup_dict distinct)
  refine ((pairwise_sortOn _ _ _).and different).imp fun {p q} both => ?_
  by_contra notLess
  exact both.2 (List.le_antisymm both.1 notLess)

theorem FieldPart.dict_of_sorted {parts : List (FieldPart χ)}
    (sorted : parts.Pairwise fun p q => p.key < q.key) :
    FieldPart.dict env parts = FieldPart.written env parts :=
  env.sorter.sortOn_eq ((sorted.filter _).imp decide_eq_true)

theorem WritesOrdered.struct {parts : List (FieldPart χ)} (layout : FieldPart.Layout env parts)
    (each : ∀ p ∈ FieldPart.dict env parts, WritesOrdered env p.value) :
    WritesOrdered env (.struct (parts.map fun p => (p.field, p.value))) := by
  choose! token encoded ordered using each
  exact ⟨_, encodeValue_struct layout.keyed encoded, ordered_dict layout.short_dict
    (FieldPart.sorted_dict layout.distinct) ordered⟩

/-! ### Maps whose keys have methods -/

section Maps

variable {type : χ} {zero elem : Value χ} {as : List α} {key token : α → GoString}
  {inner value result : α → Value χ}

section Written

variable (keys : ∀ a ∈ as, encodeValue env {} (.named type (inner a)) = .ok (encodeString (key a)))
  (values : ∀ a ∈ as, encodeValue env {} (value a) = .ok (token a))
  (set' : ∀ a ∈ as, (value a).isNilValue = false)

include keys values set'

theorem mapEntries_named :
    mapEntries env (as.map fun a => (.named type (inner a), value a)) =
      as.map fun a => ([], .ok (encodeString (key a) ++ token a)) := by
  induction as with
  | nil => rfl
  | cons a as ih =>
    obtain ⟨key, keys⟩ := List.forall_mem_cons.mp keys
    obtain ⟨value, values⟩ := List.forall_mem_cons.mp values
    obtain ⟨here, later⟩ := List.forall_mem_cons.mp set'
    rw [List.map_cons, mapEntries, if_neg (by rw [here]; decide), ih keys values later, key, value]
    rfl

theorem encodeValue_mapNamed (keyType : Value χ) :
    encodeValue env {} (.map keyType elem (some (as.map fun a => (.named type (inner a), value a)))) =
      .ok (100 :: (entryBytes key token (env.sorter.sortOn (fun _ => []) as) ++ [101])) := by
  have parts : ∀ a ∈ env.sorter.sortOn (fun _ => []) as,
      (.ok (encodeString (key a) ++ token a) : Except Fault GoString) =
        .ok (encodeString (key a) ++ token a) := fun _ _ => rfl
  rw [encodeValue, mapEntries_named keys values set', env.sorter.sortOn_map, List.map_map]
  dsimp only [Function.comp_def]
  rw [sequence_map parts]
  rfl

end Written

def namedMap (type : χ) (zero elem : Value χ) (inner result : α → Value χ) (as : List α) : Value χ :=
  .map (.named type zero) elem (some (as.map fun a => (.named type (inner a), result a)))

/-- **A map is read back**, also where unordered keys are refused. -/
theorem Reads.mapNamed (hasKeys : (env.methods type).fromString.isSome = true)
    (short : ∀ a ∈ as, (key a).length < 2 ^ 31) (sorted : as.Pairwise fun a b => ¬ key b < key a)
    (isKey : ∀ a ∈ as, mapKey env (.named type zero) (key a) = (.named type (inner a), none))
    (distinct : as.Pairwise fun a b =>
      (Value.named type (inner a)).sameKey (.named type (inner b)) = false)
    (each : ∀ a ∈ as, Reads env elem (token a) (result a)) :
    Reads env (.map (.named type zero) elem none) (100 :: (entryBytes key token as ++ [101]))
      (namedMap type zero elem inner result as) := by
  refine .of_next ⟨rfl, nofun⟩ fun fuel enough d rest typed input => ?_
  have target : dictTarget env true (.map (.named type zero) elem none) =
      .ok (.map (.named type zero) elem (some [])) := by
    simp only [dictTarget, hasKeys]
    rfl
  obtain ⟨d', decoded, read⟩ :=
    takes_map target short sorted isKey distinct each enough d rest typed input
  refine ⟨d', ?_, read⟩
  rw [decodeNext_dict env input]
  unfold decodeDict
  rw [typed]
  exact decoded

end Maps

end GoBt.Bencode
