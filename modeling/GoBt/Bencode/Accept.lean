/-
**What an interface accepts, and what no decoder accepts.**

* `Bencoded` — the values of the format: items whose numbers have 64 bits.
* `Bencoded.accepted` — **an `interface{}` accepts them**, also with keys in any order or twice, as
  long as the decoder does not refuse unordered keys.
* `NoItem s` — nothing that is read stands at the front of `s`; `decode_of_noItem`: decoding fails
  there. `NoItem.list`, `NoItem.dict`: a list or a dictionary with such a part has none either.
-/

import GoBt.Bencode.RoundTrip

namespace GoBt.Bencode

variable {χ : Type}

/-! ### Accepted -/

/-- A function reads the token, if unordered keys are not refused. -/
def Accepts (into : Into χ) (z : Value χ) (token : GoString) : Prop :=
  TakesTo (· = false) into z token fun _ => True

variable {env : Env χ}

theorem Accepts.of_next {fuel : Nat} {token : GoString}
    (next : Accepts (decodeNext env (decodeInto env fuel)) (.iface none) token) :
    Accepts (decodeInto env (fuel + 1)) (.iface none) token := by
  intro d rest typed lenient input
  have plain : Plain env (.iface none) := ⟨rfl, nofun⟩
  rw [decodeInto_plain plain fuel typed]
  exact next d rest typed lenient input

theorem takesTo_mapEntry {into : Into χ} {entries : List Entry}
    (accepts : ∀ e ∈ entries, Accepts into (.iface none) e.value) (before : List Entry) (e : Entry)
    (after : List Entry) (v : Value χ) (split : entries = before ++ e :: after)
    (isMap : ∃ es, v = .map (.string []) (.iface none) (some es)) :
    TakesTo (· = false) (fun d addr v => dictEntry env into d addr v e.key) v e.value
      fun v => ∃ es, v = .map (.string []) (.iface none) (some es) := by
  intro d rest typed lenient input
  obtain ⟨es, rfl⟩ := isMap
  obtain ⟨d', w, value, read, _⟩ := accepts e (by rw [split]; simp) d rest typed lenient input
  refine ⟨d', .map (.string []) (.iface none) (some (setMapIndex es (.string e.key) w)), ?_, read,
    _, rfl⟩
  simp only [dictEntry, mapKey, value, Option.getD_some]

/-- **An interface accepts a value of the format.** -/
theorem Bencoded.accepted {token : GoString} (bencoded : Bencoded token) {fuel : Nat}
    (enough : token.length < fuel) : Accepts (decodeInto env fuel) (.iface none) token := by
  induction bencoded generalizing fuel with
  | @int digits n open' parsed =>
    obtain ⟨fuel, rfl⟩ : ∃ less, fuel = less + 1 := ⟨fuel - 1, by omega⟩
    refine .of_next fun d rest typed _ input =>
      ⟨d.took (105 :: (digits ++ [101])) rest, .iface (some (.int 64 n)), ?_, .took input, trivial⟩
    rw [decodeNext_int env open' input, if_neg (by simp [typed])]
    simp only [storeInt, parsed, if_true]
  | @string token s isString digit =>
    obtain ⟨fuel, rfl⟩ : ∃ less, fuel = less + 1 := ⟨fuel - 1, by omega⟩
    refine .of_next fun d rest typed _ input =>
      ⟨d.took token rest, .iface (some (.string s)), ?_, .took input, trivial⟩
    rw [decodeNext_string env isString digit input, if_neg (by simp [typed])]
    rfl
  | @list items each ih =>
    obtain ⟨fuel, rfl⟩ : ∃ less, fuel = less + 1 := ⟨fuel - 1, by omega⟩
    refine .of_next fun d rest typed lenient input => ?_
    have accepts : ∀ item ∈ items, Accepts (decodeInto env fuel) (.iface none) item := by
      intro item member
      have part := (List.sublist_flatten_of_mem member).length_le
      simp only [List.length_cons, List.length_append] at enough
      exact ih item member (by omega)
    rw [← List.flatMap_id'] at input ⊢
    obtain ⟨d', v, decoded, read, _⟩ := takesTo_decodeListInto
      (fun item member => (each item member).item) accepts d rest typed lenient input
    refine ⟨d', .iface (some v), ?_, read, trivial⟩
    rw [decodeNext_list env input]
    unfold decodeList
    rw [typed]
    dsimp only
    rw [decoded]
  | @dict entries keys values ih =>
    obtain ⟨fuel, rfl⟩ : ∃ less, fuel = less + 1 := ⟨fuel - 1, by omega⟩
    refine .of_next fun d rest typed lenient input => ?_
    have accepts : ∀ e ∈ entries, Accepts (decodeInto env fuel) (.iface none) e.value := by
      intro e member
      have part := (List.sublist_flatten_of_mem
        (List.mem_map_of_mem (f := Entry.bytes) member)).length_le
      rw [← List.flatMap_def, Entry.bytes, List.length_append] at part
      simp only [List.length_cons, List.length_append] at enough
      exact ih e member (by omega)
    obtain ⟨d', v, decoded, read, _⟩ := takesTo_decodeDictInto id
      (z := .map (.string []) (.iface none) none)
      (S := fun _ v => ∃ es, v = .map (.string []) (.iface none) (some es)) keys
      (by simp) (takesTo_mapEntry accepts) rfl ⟨[], rfl⟩ d rest typed lenient
      input
    refine ⟨d', .iface (some v), ?_, read, trivial⟩
    rw [decodeNext_dict env input]
    unfold decodeDict
    rw [typed]
    dsimp only
    rw [decoded]

/-! ### Refused -/

/-- Nothing that is read stands at the front. -/
def NoItem (s : GoString) : Prop := ∀ item rest, Item item → s ≠ item ++ rest

/-- **Decoding fails** where no item stands. -/
theorem decode_of_noItem {s : GoString} (noItem : NoItem s) (noText : NoText env) {d d' : Decoder}
    {v w : Value χ} {fault : Option Fault} (input : d.r = s)
    (decoded : decode env d v = (d', w, fault)) : fault ≠ none := by
  rintro rfl
  obtain ⟨token, item, read⟩ := decodeInto_sound noText _ _ _ _ _ _ trivial decoded
  exact noItem token d'.r item (input.symm.trans read.input)

/-- No token of a string stands at the front. -/
def NoString (s : GoString) : Prop := ∀ token text rest, StringToken token text → s ≠ token ++ rest

/-- No elements of a list, with the end of the list behind them. -/
def NoElems (s : GoString) : Prop :=
  ∀ (items : List GoString) rest, (∀ item ∈ items, Item item) → s ≠ items.flatten ++ 101 :: rest

/-- No entries of a dictionary, with the end of the dictionary behind them. -/
def NoEntries (s : GoString) : Prop :=
  ∀ (entries : List Entry) rest, WellFormed entries → s ≠ entries.flatMap Entry.bytes ++ 101 :: rest

theorem StringToken.head_digit {token s : GoString} (isString : StringToken token s) :
    ∃ c rest, token = c :: rest ∧ (IsDigit c ∨ c = 43 ∨ c = 45) := by
  obtain ⟨size, rfl, _, parsed⟩ := isString
  cases size with
  | nil => cases parsed
  | cons c rest =>
    refine ⟨c, rest ++ 58 :: s, rfl, ?_⟩
    by_contra neither
    obtain ⟨noDigit, noPlus, noMinus⟩ : ¬ IsDigit c ∧ c ≠ 43 ∧ c ≠ 45 := by
      simpa [not_or] using neither
    have unsigned : splitSign (c :: rest) = (false, c :: rest) := by
      unfold splitSign
      split
      · rename_i same
        exact absurd (List.cons.inj same).1 noPlus
      · rename_i same
        exact absurd (List.cons.inj same).1 noMinus
      · rfl
    rw [parseInt, unsigned, parseUint, if_neg (List.cons_ne_nil _ _), parseUintLoop,
      if_pos noDigit] at parsed
    cases parsed

theorem NoString.of_head {c : UInt8} {s : GoString} (noDigit : ¬ IsDigit c) (noPlus : c ≠ 43)
    (noMinus : c ≠ 45) : NoString (c :: s) := by
  rintro token text rest isString same
  obtain ⟨c', tail, rfl, start⟩ := isString.head_digit
  obtain rfl := (List.cons.inj same).1
  rcases start with isDigit | plus | minus
  · exact noDigit isDigit
  · exact noPlus plus
  · exact noMinus minus

theorem NoString.of_long {text : GoString} (long : 2 ^ 31 ≤ text.length) (rest : GoString) :
    NoString (encodeString text ++ rest) := by
  rintro token text' rest' ⟨size, rfl, noColon, parsed⟩ same
  have noColon' : (58 : UInt8) ∉ numeral 10 text.length := by
    intro member
    exact absurd (isDigit_of_mem_numeral member) (by decide)
  have split : numeral 10 text.length ++ 58 :: (text ++ rest) = size ++ 58 :: (text' ++ rest') := by
    simpa [encodeString] using same
  have sizes : numeral 10 text.length = size := by
    have front := congrArg (List.takeWhile (· != 58)) split
    have front' : ∀ {line : GoString} (tail : GoString), (58 : UInt8) ∉ line →
        (line ++ 58 :: tail).takeWhile (· != 58) = line := by
      intro line tail apart
      rw [List.takeWhile_append_of_pos]
      · simp
      · intro c member
        rw [bne_iff_ne]
        rintro rfl
        exact apart member
    rwa [front' _ noColon', front' _ noColon] at front
  rw [← sizes] at parsed
  have range := (parseInt_range parsed).2
  have value := decimalValue_numeral text.length
  rw [parseInt, splitSign_numeral] at parsed
  cases read : parseUint (numeral 10 text.length) 32 with
  | error err =>
    rw [read] at parsed
    cases parsed
  | ok n =>
    rw [read] at parsed
    replace parsed : signed false 32 n = .ok (text'.length : Int) := parsed
    rw [signed] at parsed
    split_ifs at parsed with large
    have same' : parseUintLoop (2 ^ 32 - 1) (numeral 10 text.length) 0 = .ok n := by
      rw [parseUint, if_neg (numeral_ne_nil _)] at read
      exact read
    have exact' := decimalValue_of_parseUintLoop same'
    rw [value] at exact'
    omega

theorem NoItem.of_noString {c : UInt8} {s : GoString} (digit : IsDigit c)
    (noString : NoString (c :: s)) : NoItem (c :: s) := by
  rintro item rest isItem same
  cases isItem with
  | int =>
    obtain rfl := (List.cons.inj same).1
    exact absurd digit (by decide)
  | string isString _ => exact noString _ _ _ isString same
  | list | dict =>
    obtain rfl := (List.cons.inj same).1
    exact absurd digit (by decide)

theorem isDigit_of_string {token text s rest : GoString} {ch : UInt8}
    (isString : StringToken token text) (digit : ∃ c ∈ token.head?, IsDigit c)
    (same : ch :: s = token ++ rest) : IsDigit ch := by
  obtain ⟨c, first, isDigit⟩ := digit
  obtain ⟨c', tail, rfl, _⟩ := isString.head
  rwa [(List.cons.inj same).1, Option.some.inj first]

theorem NoItem.list {s : GoString} (noElems : NoElems s) : NoItem (108 :: s) := by
  rintro item rest isItem same
  cases isItem with
  | int | dict => exact absurd (List.cons.inj same).1 (by decide)
  | string isString digit => exact absurd (isDigit_of_string isString digit same) (by decide)
  | @list items each =>
    refine noElems items rest each ?_
    simpa using same

theorem NoItem.dict {s : GoString} (noEntries : NoEntries s) : NoItem (100 :: s) := by
  rintro item rest isItem same
  cases isItem with
  | int | list => exact absurd (List.cons.inj same).1 (by decide)
  | string isString digit => exact absurd (isDigit_of_string isString digit same) (by decide)
  | @dict entries keys values =>
    refine noEntries entries rest ⟨keys, values⟩ ?_
    simpa using same

theorem NoElems.cons {item s : GoString} (isItem : Item item) (later : NoElems s) :
    NoElems (item ++ s) := by
  rintro items rest each same
  cases items with
  | nil =>
    obtain ⟨c, tail, rfl, other⟩ := isItem.head
    exact other (List.cons.inj same).1
  | cons first items =>
    obtain ⟨here, each⟩ := List.forall_mem_cons.mp each
    rw [List.flatten_cons, List.append_assoc] at same
    exact later items rest each (isItem.unique here same).2

theorem NoElems.of_noItem {c : UInt8} {s : GoString} (other : c ≠ 101) (noItem : NoItem (c :: s)) :
    NoElems (c :: s) := by
  rintro items rest each same
  cases items with
  | nil => exact other (List.cons.inj same).1
  | cons first items =>
    refine noItem first (items.flatten ++ 101 :: rest) (each first List.mem_cons_self) ?_
    rwa [List.flatten_cons, List.append_assoc] at same

theorem NoEntries.cons {key text value s : GoString} (isString : StringToken key text)
    (isItem : Item value) (later : NoEntries s) : NoEntries (key ++ (value ++ s)) := by
  rintro entries rest fine same
  cases entries with
  | nil =>
    obtain ⟨c, tail, rfl, other⟩ := isString.head
    exact other (List.cons.inj same).1
  | cons e entries =>
    obtain ⟨isKey, keys⟩ := List.forall_mem_cons.mp fine.keys
    obtain ⟨isValue, values⟩ := List.forall_mem_cons.mp fine.values
    rw [List.flatMap_cons, Entry.bytes, List.append_assoc, List.append_assoc] at same
    obtain ⟨_, _, same⟩ := isString.unique isKey same
    exact later entries rest ⟨keys, values⟩ (isItem.unique isValue same).2

theorem NoEntries.of_noItem {key text s : GoString} (isString : StringToken key text)
    (noItem : NoItem s) : NoEntries (key ++ s) := by
  rintro entries rest fine same
  cases entries with
  | nil =>
    obtain ⟨c, tail, rfl, other⟩ := isString.head
    exact other (List.cons.inj same).1
  | cons e entries =>
    have isKey := fine.keys e List.mem_cons_self
    rw [List.flatMap_cons, Entry.bytes, List.append_assoc, List.append_assoc] at same
    obtain ⟨_, _, same⟩ := isString.unique isKey same
    exact noItem _ _ (fine.values e List.mem_cons_self) same

theorem NoEntries.of_noString {c : UInt8} {s : GoString} (other : c ≠ 101)
    (noString : NoString (c :: s)) : NoEntries (c :: s) := by
  rintro entries rest fine same
  cases entries with
  | nil => exact other (List.cons.inj same).1
  | cons e entries =>
    rw [List.flatMap_cons, Entry.bytes, List.append_assoc, List.append_assoc] at same
    exact noString _ _ _ (fine.keys e List.mem_cons_self) same

theorem NoItem.of_end (s : GoString) : NoItem (101 :: s) := by
  rintro item rest isItem same
  obtain ⟨c, tail, rfl, other⟩ := isItem.head
  exact other (List.cons.inj same).1.symm

end GoBt.Bencode
