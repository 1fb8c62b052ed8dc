/-
**Encodings that no decoder reads.**

The encoder writes a string of any length; the decoder reads the length with 32 bits. So there are
values that are encoded and whose encoding no decoder accepts.

* `Refused token` — nothing that is read stands at the front of `token`, whatever follows it;
  `Refused.list`, `Refused.dict`: one refused part spoils a list or a dictionary.
* `Encodes env v` — `v` is encoded, as an item or as something refused; `Unreadable env v` — as
  something refused.
* **`Encodes.struct`, `Unreadable.struct`** — a struct is encoded if its written fields are, and is
  unreadable if one of them is.
* `Unreadable.decodeBytes` — decoding the encoding of an unreadable value fails.
-/

import GoBt.Bencode.Accept

namespace GoBt.Bencode

variable {χ α : Type} {env : Env χ}

/-! ### Refused tokens -/

/-- Nothing that is read stands at the front of the token, whatever follows it; the token is not
taken for the end of a list either. -/
structure Refused (token : GoString) : Prop where
  head : ∃ c tail, token = c :: tail ∧ c ≠ 101
  noItem : ∀ rest, NoItem (token ++ rest)

theorem Refused.encodeString {text : GoString} (long : 2 ^ 31 ≤ text.length) :
    Refused (encodeString text) := by
  obtain ⟨c, tail, eq⟩ := List.exists_cons_of_ne_nil (numeral_ne_nil text.length)
  have digit : IsDigit c := isDigit_of_mem_numeral (by rw [eq]; exact List.mem_cons_self)
  have start : Bencode.encodeString text = c :: (tail ++ 58 :: text) := by
    rw [Bencode.encodeString, eq, List.cons_append]
  refine ⟨⟨c, _, start, ?_⟩, fun rest => ?_⟩
  · rintro rfl
    exact absurd digit (by decide)
  · have noString := NoString.of_long long rest
    rw [start] at noString ⊢
    exact .of_noString digit noString

theorem item_or_refused_encodeString (s : GoString) :
    Item (encodeString s) ∨ Refused (encodeString s) := by
  rcases Nat.lt_or_ge s.length (2 ^ 31) with short | long
  · exact .inl (item_encodeString short)
  · exact .inr (.encodeString long)

theorem noElems_of_refused {tokens : List GoString}
    (each : ∀ token ∈ tokens, Item token ∨ Refused token) (bad : ∃ token ∈ tokens, Refused token)
    (rest : GoString) : NoElems (tokens.flatten ++ rest) := by
  induction tokens with
  | nil =>
    obtain ⟨token, member, _⟩ := bad
    cases member
  | cons token tokens ih =>
    obtain ⟨here, each⟩ := List.forall_mem_cons.mp each
    rw [List.flatten_cons, List.append_assoc]
    rcases here with item | refused
    · refine .cons item (ih each ?_)
      obtain ⟨t, member, refused⟩ := bad
      rcases List.mem_cons.mp member with rfl | later
      · exact absurd rfl (refused.noItem [] _ [] item)
      · exact ⟨t, later, refused⟩
    · obtain ⟨c, tail, rfl, other⟩ := refused.head
      exact .of_noItem other (refused.noItem _)

/-- **One refused element** spoils a list. -/
theorem Refused.list {tokens : List GoString} (each : ∀ token ∈ tokens, Item token ∨ Refused token)
    (bad : ∃ token ∈ tokens, Refused token) : Refused (108 :: (tokens.flatten ++ [101])) := by
  refine ⟨⟨108, _, rfl, by decide⟩, fun rest => .list ?_⟩
  rw [List.append_eq, List.append_assoc]
  exact noElems_of_refused each bad _

section Dict

variable {key token : α → GoString} {as : List α}

theorem noEntries_of_refused (short : ∀ a ∈ as, (key a).length < 2 ^ 31)
    (each : ∀ a ∈ as, Item (token a) ∨ Refused (token a)) (bad : ∃ a ∈ as, Refused (token a))
    (rest : GoString) : NoEntries (entryBytes key token as ++ rest) := by
  induction as with
  | nil =>
    obtain ⟨a, member, _⟩ := bad
    cases member
  | cons a as ih =>
    obtain ⟨here, each⟩ := List.forall_mem_cons.mp each
    obtain ⟨shortKey, short⟩ := List.forall_mem_cons.mp short
    have isKey := stringToken_encodeString shortKey
    rw [entryBytes, List.flatMap_cons, List.append_assoc, List.append_assoc]
    rcases here with item | refused
    · refine .cons isKey item (ih short each ?_)
      obtain ⟨b, member, refused⟩ := bad
      rcases List.mem_cons.mp member with rfl | later
      · exact absurd rfl (refused.noItem [] _ [] item)
      · exact ⟨b, later, refused⟩
    · exact .of_noItem isKey (refused.noItem _)

/-- **One refused value** spoils a dictionary. -/
theorem Refused.dict (short : ∀ a ∈ as, (key a).length < 2 ^ 31)
    (each : ∀ a ∈ as, Item (token a) ∨ Refused (token a)) (bad : ∃ a ∈ as, Refused (token a)) :
    Refused (100 :: (entryBytes key token as ++ [101])) := by
  refine ⟨⟨100, _, rfl, by decide⟩, fun rest => .dict ?_⟩
  rw [List.append_eq, List.append_assoc]
  exact noEntries_of_refused short each bad _

end Dict

/-! ### Values -/

/-- The value is encoded, as an item or as something refused. -/
def Encodes (env : Env χ) (v : Value χ) : Prop :=
  ∃ token, encodeValue env {} v = .ok token ∧ (Item token ∨ Refused token)

/-- The value is encoded as something refused. -/
def Unreadable (env : Env χ) (v : Value χ) : Prop :=
  ∃ token, encodeValue env {} v = .ok token ∧ Refused token

theorem Codes.encodes {z v w : Value χ} (codes : Codes env z v w) : Encodes env v := by
  obtain ⟨token, encoded, item, _⟩ := codes
  exact ⟨token, encoded, .inl item⟩

theorem Encodes.string (s : GoString) : Encodes env (.string s) :=
  ⟨_, encodeValue_string env _ s, item_or_refused_encodeString s⟩

theorem Unreadable.string {s : GoString} (long : 2 ^ 31 ≤ s.length) : Unreadable env (.string s) :=
  ⟨_, encodeValue_string env _ s, .encodeString long⟩

theorem Encodes.uint (bits n : Nat) : Encodes env (.uint bits n) :=
  ⟨_, encodeValue_uint env _ bits n, .inl (item_encodeInt n)⟩

theorem Encodes.bool (b : Bool) : Encodes env (.bool b) :=
  ⟨_, encodeValue_bool env _ b, .inl (item_encodeInt _)⟩

theorem Encodes.namedString {type : χ} {v : Value χ} {s : GoString}
    (marshal : marshalOf env type v = some (.ok (encodeString s))) : Encodes env (.named type v) :=
  ⟨_, encodeValue_named marshal, item_or_refused_encodeString s⟩

theorem Unreadable.namedString {type : χ} {v : Value χ} {s : GoString} (long : 2 ^ 31 ≤ s.length)
    (marshal : marshalOf env type v = some (.ok (encodeString s))) :
    Unreadable env (.named type v) :=
  ⟨_, encodeValue_named marshal, .encodeString long⟩

section Slice

variable {elem : Value χ} {value : α → Value χ}

theorem Encodes.slice {elems : Option (List α)} (each : ∀ a ∈ elems.getD [], Encodes env (value a)) :
    Encodes env (.slice elem (elems.map fun as => as.map value)) := by
  choose! token encoded kind using each
  refine ⟨_, encodeValue_slice encoded, ?_⟩
  have kinds : ∀ t ∈ (elems.getD []).map token, Item t ∨ Refused t := by simpa using kind
  by_cases bad : ∃ t ∈ (elems.getD []).map token, Refused t
  · exact .inr (.list kinds bad)
  · push Not at bad
    exact .inl (.list fun t member => (kinds t member).resolve_right (bad t member))

theorem Unreadable.slice {elems : Option (List α)}
    (each : ∀ a ∈ elems.getD [], Encodes env (value a))
    (bad : ∃ a ∈ elems.getD [], Unreadable env (value a)) :
    Unreadable env (.slice elem (elems.map fun as => as.map value)) := by
  choose! token encoded kind using each
  refine ⟨_, encodeValue_slice encoded, .list (by simpa using kind) ?_⟩
  obtain ⟨a, member, t, same, refused⟩ := bad
  obtain rfl := Except.ok.inj ((encoded a member).symm.trans same)
  exact ⟨_, List.mem_map_of_mem member, refused⟩

end Slice

section Struct

variable {parts : List (FieldPart χ)} (layout : FieldPart.Layout env parts)
  (each : ∀ p ∈ FieldPart.dict env parts, Encodes env p.value)

include layout each

/-- **A struct is encoded** if its written fields are. -/
theorem Encodes.struct : Encodes env (.struct (parts.map fun p => (p.field, p.value))) := by
  choose! token encoded kind using each
  refine ⟨_, encodeValue_struct layout.keyed encoded, ?_⟩
  by_cases bad : ∃ p ∈ FieldPart.dict env parts, Refused (token p)
  · exact .inr (.dict layout.short_dict kind bad)
  · push Not at bad
    exact .inl (item_dict layout.short_dict fun p member =>
      (kind p member).resolve_right (bad p member))

/-- **A struct with an unreadable field** is unreadable. -/
theorem Unreadable.struct (bad : ∃ p ∈ FieldPart.dict env parts, Unreadable env p.value) :
    Unreadable env (.struct (parts.map fun p => (p.field, p.value))) := by
  choose! token encoded kind using each
  refine ⟨_, encodeValue_struct layout.keyed encoded, .dict layout.short_dict kind ?_⟩
  obtain ⟨p, member, t, same, refused⟩ := bad
  obtain rfl := Except.ok.inj ((encoded p member).symm.trans same)
  exact ⟨p, member, refused⟩

end Struct

/-- **The encoding of an unreadable value is not decoded**, into whatever value. -/
theorem Unreadable.decode {v : Value χ} (unreadable : Unreadable env v)
    (plain : valueOf v = v) (noText : NoText env) :
    ∃ b, encodeBytes env v = .ok b ∧
      ∀ d : Decoder, d.r = b → ∀ z, (Bencode.decode env d z).2.2 ≠ none := by
  obtain ⟨b, encoded, refused⟩ := unreadable
  refine ⟨b, by rw [encodeBytes, plain, encoded], fun d input z => ?_⟩
  have noItem : NoItem b := by simpa using refused.noItem []
  cases result : Bencode.decode env d z with
  | mk d rest => exact decode_of_noItem noItem noText input result

theorem Unreadable.decodeBytes {v : Value χ} (unreadable : Unreadable env v)
    (plain : valueOf v = v) (noText : NoText env) :
    ∃ b, encodeBytes env v = .ok b ∧ ∀ z, (decodeBytes env b z).2 ≠ none := by
  obtain ⟨b, encoded, fails⟩ := unreadable.decode plain noText
  exact ⟨b, encoded, fun z => fails { r := b } rfl z⟩

theorem decodeBytes_of_long {data : GoString} (long : 2 ^ 31 ≤ data.length) (noText : NoText env)
    (z : Value χ) : (decodeBytes env (encodeString data) z).2 ≠ none := by
  have unreadable : Unreadable env (.string data) := .string long
  obtain ⟨b, encoded, fails⟩ := unreadable.decodeBytes rfl noText
  obtain rfl : encodeString data = b := Except.ok.inj encoded
  exact fails z

end GoBt.Bencode
