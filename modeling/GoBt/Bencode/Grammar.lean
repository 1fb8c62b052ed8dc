/-
**What the decoder reads.**

The decoder is more lenient than the format: between `i` and `e` anything may stand that is not
decoded, and the length of a string may have zeros in front, that of a key also a sign.

* `StringToken`, `Item` — the tokens and values that are accepted.
* `Read d bytes d'` — the bytes between two states of the decoder.
* `decodeInto_raw` — **in raw mode every item is copied as it is**, and nothing more.
* `decodeInto_sound` — **whatever is decoded, an item is read.**
* `Item.unique`, `entries_unique` — an input starts with one item only, and a dictionary has one list
  of entries.
-/

import GoBt.Bencode.Decode
import Mathlib.Data.List.TakeWhile

namespace GoBt.Bencode

variable {χ : Type}

/-! ### The grammar -/

def StringToken (token s : GoString) : Prop :=
  ∃ size, token = size ++ 58 :: s ∧ 58 ∉ size ∧ parseInt size 32 = .ok (s.length : Int)

/-- An entry of a dictionary: its key, with its token, and the token of its value. -/
structure Entry where
  keyToken : GoString
  key : GoString
  value : GoString

def Entry.bytes (e : Entry) : GoString := e.keyToken ++ e.value

/-- A value as it stands in the input. -/
inductive Item : GoString → Prop
  | int {digits : GoString} (open' : 101 ∉ digits) : Item (105 :: (digits ++ [101]))
  | string {token s : GoString} (isString : StringToken token s)
      (digit : ∃ c ∈ token.head?, IsDigit c) : Item token
  | list {items : List GoString} (each : ∀ item ∈ items, Item item) :
      Item (108 :: (items.flatten ++ [101]))
  | dict {entries : List Entry} (keys : ∀ e ∈ entries, StringToken e.keyToken e.key)
      (values : ∀ e ∈ entries, Item e.value) :
      Item (100 :: (entries.flatMap Entry.bytes ++ [101]))

theorem StringToken.head {token s : GoString} (isString : StringToken token s) :
    ∃ c rest, token = c :: rest ∧ c ≠ 101 := by
  obtain ⟨size, rfl, _, parsed⟩ := isString
  cases size with
  | nil => cases parsed
  | cons c rest =>
    refine ⟨c, rest ++ 58 :: s, rfl, ?_⟩
    rintro rfl
    cases parsed

theorem Item.head {bytes : GoString} (item : Item bytes) :
    ∃ c rest, bytes = c :: rest ∧ c ≠ 101 := by
  cases item with
  | int => exact ⟨_, _, rfl, by decide⟩
  | string isString _ => exact isString.head
  | list | dict => exact ⟨_, _, rfl, by decide⟩

/-- A value of the format: an item whose numbers have 64 bits. -/
inductive Bencoded : GoString → Prop
  | int {digits : GoString} {n : Int} (open' : 101 ∉ digits) (parsed : parseInt digits 64 = .ok n) :
      Bencoded (105 :: (digits ++ [101]))
  | string {token s : GoString} (isString : StringToken token s)
      (digit : ∃ c ∈ token.head?, IsDigit c) : Bencoded token
  | list {items : List GoString} (each : ∀ item ∈ items, Bencoded item) :
      Bencoded (108 :: (items.flatten ++ [101]))
  | dict {entries : List Entry} (keys : ∀ e ∈ entries, StringToken e.keyToken e.key)
      (values : ∀ e ∈ entries, Bencoded e.value) :
      Bencoded (100 :: (entries.flatMap Entry.bytes ++ [101]))

theorem Bencoded.item {token : GoString} (bencoded : Bencoded token) : Item token := by
  induction bencoded with
  | int open' _ => exact .int open'
  | string isString digit => exact .string isString digit
  | list _ ih => exact .list ih
  | dict keys _ ih => exact .dict keys ih

/-! ### Reading -/

namespace Decoder

variable {d : Decoder} {rest : List UInt8}

@[simp] theorem r_took (d : Decoder) (bytes rest : List UInt8) : (d.took bytes rest).r = rest := rfl

@[simp] theorem raw_took (d : Decoder) (bytes rest : List UInt8) :
    (d.took bytes rest).raw = d.raw := rfl

@[simp] theorem failUnordered_took (d : Decoder) (bytes rest : List UInt8) :
    (d.took bytes rest).failUnordered = d.failUnordered := rfl

theorem took_took (d : Decoder) (first second r r' : List UInt8) :
    (d.took first r).took second r' = d.took (first ++ second) r' := by
  unfold took
  dsimp only
  rw [List.length_append, Nat.add_assoc]
  cases d.raw <;> simp

theorem readByte_of {b : UInt8} (input : d.r = b :: rest) :
    d.readByte = (d.took [b] rest, b, none) := by
  rw [readByte, input]

theorem readBytes_of {delim : UInt8} {line : List UInt8} (input : d.r = line ++ delim :: rest)
    (apart : delim ∉ line) :
    d.readBytes delim = (d.took (line ++ [delim]) rest, line ++ [delim], none) := by
  have other : ∀ c ∈ line, (c != delim) = true := by
    intro c member
    rw [bne_iff_ne]
    rintro rfl
    exact apart member
  unfold readBytes
  rw [input, List.takeWhile_append_of_pos other, List.dropWhile_append_of_pos other]
  simp

theorem readBytes_ok {delim : UInt8} {line : List UInt8} {d' : Decoder}
    (read : d.readBytes delim = (d', line, none)) :
    ∃ body rest, line = body ++ [delim] ∧ delim ∉ body ∧ d.r = body ++ delim :: rest ∧
      d' = d.took (body ++ [delim]) rest := by
  have whole := List.takeWhile_append_dropWhile (p := (· != delim)) (l := d.r)
  have apart : delim ∉ d.r.takeWhile (· != delim) := by
    intro member
    simpa using List.mem_takeWhile_imp member
  unfold readBytes at read
  dsimp only at read
  cases tail : d.r.dropWhile (· != delim) with
  | nil => rw [tail] at read; cases read
  | cons c rest =>
    have same : c = delim := by
      have first := List.head_dropWhile_not (· != delim) (l := d.r) (by rw [tail]; simp)
      simpa [tail] using first
    rw [tail] at read
    cases read
    rw [same] at tail
    exact ⟨_, rest, rfl, apart, by rw [← tail, whole], rfl⟩

theorem readFull_of {size : Nat} {buf : List UInt8} (input : d.r = buf ++ rest)
    (length : buf.length = size) : d.readFull size = (d.took buf rest, buf, none) := by
  unfold readFull
  dsimp only
  rw [input, List.take_left' length, List.drop_left' length, if_pos length]

theorem readFull_ok {size : Nat} {buf : List UInt8} {d' : Decoder}
    (read : d.readFull size = (d', buf, none)) :
    buf.length = size ∧ d.r = buf ++ d.r.drop size ∧ d' = d.took buf (d.r.drop size) := by
  unfold readFull at read
  obtain ⟨rfl, rest⟩ := Prod.mk.inj read
  obtain ⟨rfl, fine⟩ := Prod.mk.inj rest
  refine ⟨?_, (List.take_append_drop _ _).symm, rfl⟩
  by_contra short
  rw [if_neg short] at fine
  split at fine <;> cases fine

theorem readString_of {token s : GoString} (isString : StringToken token s)
    (input : d.r = token ++ rest) : d.readString = (d.took token rest, s, none) := by
  obtain ⟨size, rfl, apart, parsed⟩ := isString
  have line : d.readBytes 58 = (d.took (size ++ [58]) (s ++ rest), size ++ [58], none) :=
    readBytes_of (by simpa using input) apart
  have body : (d.took (size ++ [58]) (s ++ rest)).readFull s.length =
      ((d.took (size ++ [58]) (s ++ rest)).took s rest, s, none) := readFull_of rfl rfl
  unfold readString
  rw [line]
  dsimp only
  rw [List.dropLast_concat, parsed]
  dsimp only
  rw [if_neg (by omega), Int.toNat_natCast, body]
  dsimp only
  rw [took_took, List.append_assoc]
  rfl

theorem readString_ok {s : GoString} {d' : Decoder} (read : d.readString = (d', s, none)) :
    ∃ token rest, StringToken token s ∧ d.r = token ++ rest ∧ d' = d.took token rest := by
  unfold readString at read
  split at read
  · cases read
  · rename_i d₁ line readLine
    obtain ⟨size, rest, rfl, apart, input, rfl⟩ := readBytes_ok readLine
    rw [List.dropLast_concat] at read
    split at read
    · cases read
    · rename_i l parsed
      by_cases negative : l < 0
      · rw [if_pos negative] at read
        cases read
      · rw [if_neg negative] at read
        split at read
        · cases read
        · rename_i d₂ buf readAll
          cases read
          obtain ⟨length, split, rfl⟩ := readFull_ok readAll
          replace split : rest = s ++ rest.drop l.toNat := split
          have isString : StringToken (size ++ 58 :: s) s :=
            ⟨size, rfl, apart, by rw [parsed, length, Int.toNat_of_nonneg (by omega)]⟩
          refine ⟨_, rest.drop l.toNat, isString, ?_, ?_⟩
          · rw [input, List.append_assoc, List.cons_append, ← split]
          · rw [took_took, List.append_assoc]
            rfl

end Decoder

/-- The bytes that were read between two states of the decoder. In raw mode they are in its
buffer. -/
structure Read (d : Decoder) (bytes : GoString) (d' : Decoder) : Prop where
  input : d.r = bytes ++ d'.r
  raw : d'.raw = d.raw
  n : d'.n = d.n + bytes.length
  failUnordered : d'.failUnordered = d.failUnordered
  buf : d.raw = true → d'.buf = d.buf ++ bytes

namespace Read

variable {d d' d'' : Decoder} {bytes more rest : GoString}

theorem took (input : d.r = bytes ++ rest) : Read d bytes (d.took bytes rest) where
  input := input
  raw := rfl
  n := rfl
  failUnordered := rfl
  buf raw := by rw [Decoder.took, if_pos raw]

theorem trans (first : Read d bytes d') (second : Read d' more d'') :
    Read d (bytes ++ more) d'' where
  input := by rw [first.input, second.input, List.append_assoc]
  raw := second.raw.trans first.raw
  n := by rw [second.n, first.n, List.length_append, Nat.add_assoc]
  failUnordered := second.failUnordered.trans first.failUnordered
  buf raw := by rw [second.buf (first.raw.trans raw), first.buf raw, List.append_assoc]

theorem rest_eq (read : Read d bytes d') (input : d.r = bytes ++ rest) : d'.r = rest :=
  List.append_cancel_left (read.input.symm.trans input)

end Read

/-! ### Integers and strings -/

section Leaves

variable {d : Decoder} {addr : Bool} {v : Value χ} {rest : GoString}

theorem decodeInt_of {digits : GoString} (open' : 101 ∉ digits)
    (input : d.r = 105 :: (digits ++ [101]) ++ rest) :
    decodeInt d addr v =
      if d.raw then (d.took (105 :: (digits ++ [101])) rest, v, none)
      else (d.took (105 :: (digits ++ [101])) rest, storeInt digits addr v) := by
  have first : d.readByte = (d.took [105] (digits ++ 101 :: rest), 105, none) :=
    Decoder.readByte_of (by simpa using input)
  have second := Decoder.readBytes_of (d := d.took [105] (digits ++ 101 :: rest)) rfl open'
  unfold decodeInt
  rw [first]
  dsimp only
  rw [if_neg (by simp), second]
  dsimp only
  rw [Decoder.took_took, List.dropLast_concat]
  rfl

theorem decodeInt_ok {d' : Decoder} {w : Value χ} (decoded : decodeInt d addr v = (d', w, none)) :
    ∃ digits rest, 101 ∉ digits ∧ d.r = 105 :: (digits ++ [101]) ++ rest ∧
      d' = d.took (105 :: (digits ++ [101])) rest ∧
      (d.raw = false → storeInt digits addr v = (w, none)) := by
  unfold decodeInt at decoded
  cases input : d.r with
  | nil =>
    rw [Decoder.readByte, input] at decoded
    cases decoded
  | cons b tail =>
    rw [Decoder.readByte_of input] at decoded
    dsimp only at decoded
    by_cases isInt : b = 105
    · rw [if_neg (not_not.mpr isInt)] at decoded
      split at decoded
      · cases decoded
      · rename_i d₁ line readLine
        obtain ⟨digits, rest, rfl, open', input', rfl⟩ := Decoder.readBytes_ok readLine
        replace input' : tail = digits ++ 101 :: rest := input'
        rw [List.dropLast_concat, Decoder.took_took] at decoded
        refine ⟨digits, rest, open', ?_, ?_, ?_⟩
        · rw [isInt, input', List.cons_append, List.append_assoc]
          rfl
        · rw [isInt] at decoded
          split at decoded
          · exact (Prod.mk.inj decoded).1.symm
          · exact (Prod.mk.inj decoded).1.symm
        · intro typed
          rw [if_neg (by simp [typed])] at decoded
          exact (Prod.mk.inj decoded).2
    · rw [if_pos isInt] at decoded
      cases decoded

theorem decodeString_of {token s : GoString} (isString : StringToken token s)
    (input : d.r = token ++ rest) :
    decodeString d addr v =
      if d.raw then (d.took token rest, v, none)
      else (d.took token rest, storeString s addr v) := by
  unfold decodeString
  rw [Decoder.readString_of isString input]
  rfl

theorem decodeString_ok {d' : Decoder} {w : Value χ}
    (decoded : decodeString d addr v = (d', w, none)) :
    ∃ token s rest, StringToken token s ∧ d.r = token ++ rest ∧ d' = d.took token rest ∧
      (d.raw = false → storeString s addr v = (w, none)) := by
  unfold decodeString at decoded
  split at decoded
  · cases decoded
  · rename_i d₁ s read
    obtain ⟨token, rest, isString, input, rfl⟩ := Decoder.readString_ok read
    refine ⟨token, s, rest, isString, input, ?_, fun typed => ?_⟩
    · split at decoded
      · exact (Prod.mk.inj decoded).1.symm
      · exact (Prod.mk.inj decoded).1.symm
    · rw [if_neg (by simp [typed])] at decoded
      exact (Prod.mk.inj decoded).2

variable (env : Env χ) {into : Into χ}

theorem decodeNext_int {digits : GoString} (open' : 101 ∉ digits)
    (input : d.r = 105 :: (digits ++ [101]) ++ rest) :
    decodeNext env into d addr v =
      if d.raw then (d.took (105 :: (digits ++ [101])) rest, v, none)
      else (d.took (105 :: (digits ++ [101])) rest, storeInt digits addr v) := by
  rw [← decodeInt_of open' input, decodeNext, Decoder.peekByte, input]
  rfl

theorem decodeNext_string {token s : GoString} (isString : StringToken token s)
    (digit : ∃ c ∈ token.head?, IsDigit c) (input : d.r = token ++ rest) :
    decodeNext env into d addr v =
      if d.raw then (d.took token rest, v, none)
      else (d.took token rest, storeString s addr v) := by
  obtain ⟨c, head, isDigit⟩ := digit
  have peeked : d.peekByte = some c := by
    rw [Decoder.peekByte, input, List.head?_append, Option.mem_def.mp head]
    rfl
  have other : c ≠ 105 := by
    rintro rfl
    exact absurd isDigit (by decide)
  rw [decodeNext, peeked]
  dsimp only
  rw [if_neg other, if_pos isDigit, decodeString_of isString input]

theorem decodeNext_list {tail : GoString} (input : d.r = 108 :: tail) :
    decodeNext env into d addr v = decodeList into d addr v := by
  rw [decodeNext, Decoder.peekByte, input]
  rfl

theorem decodeNext_dict {tail : GoString} (input : d.r = 100 :: tail) :
    decodeNext env into d addr v = decodeDict env into d addr v := by
  rw [decodeNext, Decoder.peekByte, input]
  rfl

end Leaves

/-! ### Raw mode -/

section Raw

variable {into : Into χ} {d : Decoder} {rest : GoString}

/-- Decoding in raw mode copies a token and leaves the value alone. -/
def Copies (into : Into χ) (token : GoString) : Prop :=
  ∀ (d : Decoder) (addr : Bool) (v : Value χ) (rest : GoString), d.raw = true →
    d.r = token ++ rest → into d addr v = (d.took token rest, v, none)

theorem rawListLoop_of (rest : GoString) {items : List GoString} (each : ∀ item ∈ items, Copies into item)
    (heads : ∀ item ∈ items, ∃ c tail, item = c :: tail ∧ c ≠ 101) (fuel : Nat) (d : Decoder)
    (raw : d.raw = true) (input : d.r = items.flatten ++ [101] ++ rest)
    (enough : items.length < fuel) :
    rawListLoop into fuel d = (d.took (items.flatten ++ [101]) rest, none) := by
  induction items generalizing fuel d with
  | nil =>
    obtain ⟨fuel, rfl⟩ : ∃ less, fuel = less + 1 := ⟨fuel - 1, by simp at enough; omega⟩
    have input' : d.r = 101 :: rest := by simpa using input
    rw [rawListLoop, Decoder.peekByte, input', Decoder.readByte_of input']
    rfl
  | cons item items ih =>
    obtain ⟨fuel, rfl⟩ : ∃ less, fuel = less + 1 := ⟨fuel - 1, by simp at enough; omega⟩
    obtain ⟨here, later⟩ := List.forall_mem_cons.mp each
    obtain ⟨⟨c, tail, head, other⟩, heads⟩ := List.forall_mem_cons.mp heads
    have input' : d.r = item ++ (items.flatten ++ [101] ++ rest) := by simpa using input
    have peeked : d.peekByte = some c := by rw [Decoder.peekByte, input', head]; rfl
    rw [rawListLoop, peeked]
    dsimp only
    rw [if_neg other, here d false .invalid _ raw input']
    dsimp only
    rw [ih later heads fuel (d.took item _) raw rfl (by simpa using enough), Decoder.took_took]
    simp

theorem rawDictLoop_of (rest : GoString) {entries : List Entry} (each : ∀ e ∈ entries, Copies into e.value)
    (keys : ∀ e ∈ entries, StringToken e.keyToken e.key) (fuel : Nat) (d : Decoder)
    (raw : d.raw = true) (input : d.r = entries.flatMap Entry.bytes ++ [101] ++ rest)
    (enough : entries.length < fuel) :
    rawDictLoop into fuel d = (d.took (entries.flatMap Entry.bytes ++ [101]) rest, none) := by
  induction entries generalizing fuel d with
  | nil =>
    obtain ⟨fuel, rfl⟩ : ∃ less, fuel = less + 1 := ⟨fuel - 1, by simp at enough; omega⟩
    have input' : d.r = 101 :: rest := by simpa using input
    rw [rawDictLoop, Decoder.peekByte, input', Decoder.readByte_of input']
    rfl
  | cons e entries ih =>
    obtain ⟨fuel, rfl⟩ : ∃ less, fuel = less + 1 := ⟨fuel - 1, by simp at enough; omega⟩
    obtain ⟨here, later⟩ := List.forall_mem_cons.mp each
    obtain ⟨isString, keys⟩ := List.forall_mem_cons.mp keys
    obtain ⟨c, tail, head, other⟩ := isString.head
    have input' : d.r = e.keyToken ++ (e.value ++ (entries.flatMap Entry.bytes ++ [101] ++ rest)) := by
      simpa [Entry.bytes] using input
    have peeked : d.peekByte = some c := by rw [Decoder.peekByte, input', head]; rfl
    rw [rawDictLoop, peeked]
    dsimp only
    rw [if_neg other, Decoder.readString_of isString input']
    dsimp only
    rw [here (d.took e.keyToken _) false .invalid _ raw rfl]
    dsimp only
    rw [Decoder.took_took, ih later keys fuel (d.took _ _) raw rfl (by simpa using enough),
      Decoder.took_took]
    simp [Entry.bytes]

theorem length_le_flatten {items : List GoString}
    (heads : ∀ item ∈ items, ∃ c tail, item = c :: tail ∧ c ≠ 101) :
    items.length ≤ items.flatten.length := by
  induction items with
  | nil => exact le_rfl
  | cons item items ih =>
    obtain ⟨⟨c, tail, rfl, _⟩, later⟩ := List.forall_mem_cons.mp heads
    have rest := ih later
    simp only [List.flatten_cons, List.length_append, List.length_cons] at rest ⊢
    omega

theorem decodeList_raw {items : List GoString} (each : ∀ item ∈ items, Copies into item)
    (heads : ∀ item ∈ items, ∃ c tail, item = c :: tail ∧ c ≠ 101) :
    Copies (decodeList into) (108 :: (items.flatten ++ [101])) := by
  intro d addr v rest raw input
  have first : d.r = 108 :: (items.flatten ++ [101] ++ rest) := input
  have count := length_le_flatten heads
  have loop := rawListLoop_of rest each heads
    ((d.took [108] (items.flatten ++ [101] ++ rest)).r.length + 1)
    (d.took [108] (items.flatten ++ [101] ++ rest)) raw rfl
    (by simp only [Decoder.r_took, List.length_append]; omega)
  have unfolded : decodeList into d addr v = decodeListInto into d addr v := by
    unfold decodeList
    rw [raw]
  rw [unfolded, decodeListInto, if_neg (by simp [raw]), Decoder.readByte_of first]
  dsimp only
  rw [if_neg (by simp), Decoder.raw_took, if_pos raw, loop]
  dsimp only
  rw [Decoder.took_took]
  rfl

theorem decodeDict_raw (env : Env χ) {entries : List Entry}
    (each : ∀ e ∈ entries, Copies into e.value)
    (keys : ∀ e ∈ entries, StringToken e.keyToken e.key) :
    Copies (decodeDict env into) (100 :: (entries.flatMap Entry.bytes ++ [101])) := by
  intro d addr v rest raw input
  have first : d.r = 100 :: (entries.flatMap Entry.bytes ++ [101] ++ rest) := input
  have count : entries.length ≤ (entries.flatMap Entry.bytes).length := by
    have heads : ∀ token ∈ entries.map Entry.bytes, ∃ c tail, token = c :: tail ∧ c ≠ 101 := by
      rw [List.forall_mem_map]
      intro e member
      obtain ⟨c, tail, eq, other⟩ := (keys e member).head
      exact ⟨c, tail ++ e.value, by rw [Entry.bytes, eq]; rfl, other⟩
    have all := length_le_flatten heads
    rwa [List.length_map] at all
  have loop := rawDictLoop_of rest each keys
    ((d.took [100] (entries.flatMap Entry.bytes ++ [101] ++ rest)).r.length + 1)
    (d.took [100] (entries.flatMap Entry.bytes ++ [101] ++ rest)) raw rfl
    (by simp only [Decoder.r_took, List.length_append]; omega)
  have unfolded : decodeDict env into d addr v = decodeDictInto env into d addr v := by
    unfold decodeDict
    rw [raw]
  rw [unfolded, decodeDictInto, Decoder.readByte_of first]
  dsimp only
  rw [if_neg (by simp), Decoder.raw_took, if_pos raw, loop]
  dsimp only
  rw [Decoder.took_took]
  rfl

/-- **In raw mode every item is copied as it is**, and nothing more. -/
theorem decodeInto_raw (env : Env χ) {token : GoString} (item : Item token) {fuel : Nat}
    (enough : token.length ≤ fuel) : Copies (decodeInto env fuel) token := by
  induction item generalizing fuel with
  | int open' =>
    intro d addr v rest raw input
    obtain ⟨fuel, rfl⟩ : ∃ less, fuel = less + 1 := ⟨fuel - 1, by simp at enough; omega⟩
    rw [decodeInto, if_pos raw, decodeNext_int env open' input, if_pos raw]
  | @string token s isString digit =>
    intro d addr v rest raw input
    obtain ⟨_, _, eq, _⟩ := isString.head
    obtain ⟨fuel, rfl⟩ : ∃ less, fuel = less + 1 :=
      ⟨fuel - 1, by rw [eq, List.length_cons] at enough; omega⟩
    rw [decodeInto, if_pos raw, decodeNext_string env isString digit input, if_pos raw]
  | @list items each ih =>
    intro d addr v rest raw input
    obtain ⟨fuel, rfl⟩ : ∃ less, fuel = less + 1 := ⟨fuel - 1, by simp at enough; omega⟩
    have copies : ∀ item ∈ items, Copies (decodeInto env fuel) item := by
      intro item member
      have part := (List.sublist_flatten_of_mem member).length_le
      simp only [List.length_cons, List.length_append] at enough
      exact ih item member (by omega)
    rw [decodeInto, if_pos raw, decodeNext_list env input]
    exact decodeList_raw copies (fun item member => (each item member).head) d addr v rest raw input
  | @dict entries keys values ih =>
    intro d addr v rest raw input
    obtain ⟨fuel, rfl⟩ : ∃ less, fuel = less + 1 := ⟨fuel - 1, by simp at enough; omega⟩
    have copies : ∀ e ∈ entries, Copies (decodeInto env fuel) e.value := by
      intro e member
      have part :=
        (List.sublist_flatten_of_mem (List.mem_map_of_mem (f := Entry.bytes) member)).length_le
      simp only [List.length_cons, List.length_append, Entry.bytes, List.flatMap_def] at enough part
      exact ih e member (by omega)
    rw [decodeInto, if_pos raw, decodeNext_dict env input]
    exact decodeDict_raw env copies keys d addr v rest raw input

end Raw

/-! ### What is read -/

/-- Decoding in one of the modes reads an item, if it succeeds. -/
def SoundIn (modes : Bool → Prop) (into : Into χ) : Prop :=
  ∀ (d : Decoder) (addr : Bool) (v : Value χ) (d' : Decoder) (w : Value χ), modes d.raw →
    into d addr v = (d', w, none) → ∃ token, Item token ∧ Read d token d'

section Sound

variable {modes : Bool → Prop} {into : Into χ} {d d' : Decoder} {addr : Bool} {v w : Value χ}

/-- A turn of a loop that succeeds reads the end, or goes on. -/
theorem turn_ok {α : Type} {fails stops goesOn r : α}
    (decoded : (match d.peekByte with
      | none => fails
      | some ch => if ch = 101 then stops else goesOn) = r) (failed : fails ≠ r) :
    (stops = r ∧ ∃ rest, d.readByte = (d.took [101] rest, 101, none) ∧
      Read d [101] (d.took [101] rest)) ∨ goesOn = r := by
  cases peeked : d.peekByte with
  | none =>
    rw [peeked] at decoded
    exact absurd decoded failed
  | some ch =>
    rw [peeked] at decoded
    dsimp only at decoded
    split_ifs at decoded with isEnd
    · obtain ⟨rest, input⟩ := List.head?_eq_some_iff.mp peeked
      rw [isEnd] at input
      exact .inl ⟨decoded, rest, Decoder.readByte_of input, .took input⟩
    · exact .inr decoded

theorem rawListLoop_ok (sound : SoundIn modes into) {fuel : Nat} (mode : modes d.raw)
    (decoded : rawListLoop into fuel d = (d', none)) :
    ∃ items : List GoString, (∀ item ∈ items, Item item) ∧ Read d (items.flatten ++ [101]) d' := by
  induction fuel generalizing d with
  | zero => cases decoded
  | succ fuel ih =>
    unfold rawListLoop at decoded
    rcases turn_ok decoded (by simp) with ⟨stops, rest, readByte, read⟩ | goesOn
    · rw [readByte] at stops
      cases stops
      exact ⟨[], by simp, read⟩
    · split at goesOn
      · cases goesOn
      · rename_i d₁ x value
        obtain ⟨token, item, read⟩ := sound _ _ _ _ _ mode value
        obtain ⟨items, each, rest⟩ := ih (read.raw ▸ mode) goesOn
        refine ⟨token :: items, List.forall_mem_cons.mpr ⟨item, each⟩, ?_⟩
        rw [List.flatten_cons, List.append_assoc]
        exact read.trans rest

/-- **The loop of `decodeList`** reads what every turn reads, and keeps what every turn keeps. -/
theorem listLoop_reads {Q : GoString → Prop} {P : Nat → Value χ → Prop}
    (step : ∀ i v v' x d d' x', P i v →
      (if v.len ≤ i then v.grow addr else some v) = some v' → v'.index i = some x →
      d.raw = false → into d (v'.elemAddr addr) x = (d', x', none) →
      (∃ token, Q token ∧ Read d token d') ∧ P (i + 1) (v'.setIndex i x'))
    {fuel i : Nat} (start : P i v) (typed : d.raw = false)
    (decoded : listLoop into addr fuel d v i = (d', w, none)) :
    (∃ items : List GoString, (∀ item ∈ items, Q item) ∧ Read d (items.flatten ++ [101]) d') ∧
      ∃ n, P n w := by
  induction fuel generalizing d v i with
  | zero => cases decoded
  | succ fuel ih =>
    unfold listLoop at decoded
    rcases turn_ok decoded (by simp) with ⟨stops, rest, readByte, read⟩ | goesOn
    · rw [readByte] at stops
      cases stops
      exact ⟨⟨[], by simp, read⟩, i, start⟩
    · split at goesOn
      · cases goesOn
      · rename_i v' grown
        split at goesOn
        · cases goesOn
        · rename_i x found
          split at goesOn
          · cases goesOn
          · rename_i d₁ x' value
            obtain ⟨⟨token, item, read⟩, kept⟩ :=
              step i v v' x d d₁ x' start grown found typed value
            obtain ⟨⟨items, each, rest⟩, last⟩ := ih kept (read.raw.trans typed) goesOn
            refine ⟨⟨token :: items, List.forall_mem_cons.mpr ⟨item, each⟩, ?_⟩, last⟩
            rw [List.flatten_cons, List.append_assoc]
            exact read.trans rest

theorem listLoop_ok (sound : SoundIn modes into) (mode : modes false) {P : Nat → Value χ → Prop}
    (step : ∀ i v v' x d d' x', P i v →
      (if v.len ≤ i then v.grow addr else some v) = some v' → v'.index i = some x →
      d.raw = false → into d (v'.elemAddr addr) x = (d', x', none) → P (i + 1) (v'.setIndex i x'))
    {fuel i : Nat} (start : P i v) (typed : d.raw = false)
    (decoded : listLoop into addr fuel d v i = (d', w, none)) :
    (∃ items : List GoString, (∀ item ∈ items, Item item) ∧ Read d (items.flatten ++ [101]) d') ∧
      ∃ n, P n w :=
  listLoop_reads (fun i v v' x d d' x' kept grown found typed value =>
    ⟨sound _ _ _ _ _ (typed ▸ mode) value, step i v v' x d d' x' kept grown found typed value⟩) start
    typed decoded

/-- The entries of a dictionary. -/
structure WellFormed (entries : List Entry) : Prop where
  keys : ∀ e ∈ entries, StringToken e.keyToken e.key
  values : ∀ e ∈ entries, Item e.value

theorem WellFormed.nil : WellFormed [] := ⟨by simp, by simp⟩

theorem WellFormed.cons {e : Entry} {entries : List Entry} (key : StringToken e.keyToken e.key)
    (value : Item e.value) (later : WellFormed entries) : WellFormed (e :: entries) :=
  ⟨List.forall_mem_cons.mpr ⟨key, later.keys⟩, List.forall_mem_cons.mpr ⟨value, later.values⟩⟩

theorem rawDictLoop_ok (sound : SoundIn modes into) {fuel : Nat} (mode : modes d.raw)
    (decoded : rawDictLoop into fuel d = (d', none)) :
    ∃ entries, WellFormed entries ∧ Read d (entries.flatMap Entry.bytes ++ [101]) d' := by
  induction fuel generalizing d with
  | zero => cases decoded
  | succ fuel ih =>
    unfold rawDictLoop at decoded
    rcases turn_ok decoded (by simp) with ⟨stops, rest, readByte, read⟩ | goesOn
    · rw [readByte] at stops
      cases stops
      exact ⟨[], .nil, read⟩
    · split at goesOn
      · cases goesOn
      · rename_i d₁ key readKey
        obtain ⟨keyToken, rest, isString, input, rfl⟩ := Decoder.readString_ok readKey
        split at goesOn
        · cases goesOn
        · rename_i d₂ x value
          have mode' : modes (d.took keyToken rest).raw := mode
          obtain ⟨token, item, read⟩ := sound _ _ _ _ _ mode' value
          obtain ⟨entries, fine, rest⟩ := ih (read.raw ▸ mode') goesOn
          refine ⟨⟨keyToken, key, token⟩ :: entries, .cons isString item fine, ?_⟩
          rw [List.flatMap_cons, List.append_assoc]
          exact ((Read.took input).trans read).trans rest

theorem dictEntry_sound (env : Env χ) (sound : SoundIn modes into) (mode : modes d.raw)
    {key : GoString} (decoded : dictEntry env into d addr v key = (d', w, none)) :
    ∃ token, Item token ∧ Read d token d' := by
  unfold dictEntry at decoded
  split at decoded
  · split at decoded
    · cases decoded
    · split at decoded
      · cases decoded
      · rename_i value
        cases decoded
        exact sound _ _ _ _ _ mode value
  · split at decoded
    · obtain ⟨rfl, rest⟩ := Prod.mk.inj decoded
      obtain ⟨_, fine⟩ := Prod.mk.inj rest
      exact sound _ _ _ _ _ mode (Prod.ext rfl (Prod.ext rfl fine))
    · split at decoded
      · cases decoded
      · obtain ⟨rfl, rest⟩ := Prod.mk.inj decoded
        obtain ⟨_, fine⟩ := Prod.mk.inj rest
        exact sound _ _ _ _ _ mode (Prod.ext rfl (Prod.ext rfl fine))

/-- **The loop of `decodeDict`** reads entries with what every turn reads, and keeps what every turn
keeps. -/
theorem dictLoop_reads (env : Env χ) {Q : GoString → Prop} {P : List Entry → Value χ → Prop}
    (step : ∀ before v d d' v' keyToken key, P before v → d.raw = false →
      dictEntry env into d addr v key = (d', v', none) →
      ∃ token, Q token ∧ Read d token d' ∧ P (before ++ [⟨keyToken, key, token⟩]) v')
    {fuel : Nat} (before : List Entry) {lastKey : Option GoString} (start : P before v)
    (typed : d.raw = false) (decoded : dictLoop env into addr fuel d v lastKey = (d', w, none)) :
    ∃ entries : List Entry, (∀ e ∈ entries, StringToken e.keyToken e.key) ∧
      (∀ e ∈ entries, Q e.value) ∧ Read d (entries.flatMap Entry.bytes ++ [101]) d' ∧
      P (before ++ entries) w := by
  induction fuel generalizing d v before lastKey with
  | zero => cases decoded
  | succ fuel ih =>
    unfold dictLoop at decoded
    rcases turn_ok decoded (by simp) with ⟨stops, rest, readByte, read⟩ | goesOn
    · rw [readByte] at stops
      cases stops
      exact ⟨[], by simp, by simp, read, by rwa [List.append_nil]⟩
    · split at goesOn
      · cases goesOn
      · rename_i d₁ key readKey
        obtain ⟨keyToken, rest, isString, input, rfl⟩ := Decoder.readString_ok readKey
        split at goesOn
        · cases goesOn
        · split at goesOn
          · cases goesOn
          · rename_i d₂ v' value
            obtain ⟨token, item, read, kept⟩ := step before v (d.took keyToken rest) d₂ v'
              keyToken key start typed value
            obtain ⟨entries, keys, values, rest, last⟩ := ih _ kept (read.raw.trans typed) goesOn
            refine ⟨⟨keyToken, key, token⟩ :: entries, List.forall_mem_cons.mpr ⟨isString, keys⟩,
              List.forall_mem_cons.mpr ⟨item, values⟩, ?_, ?_⟩
            · rw [List.flatMap_cons, List.append_assoc]
              exact ((Read.took input).trans read).trans rest
            · rwa [List.append_cons]

theorem dictLoop_ok (env : Env χ) (sound : SoundIn modes into) (mode : modes false)
    {P : List Entry → Value χ → Prop} (step : ∀ before v d d' v' e, P before v → d.raw = false →
      dictEntry env into d addr v e.key = (d', v', none) → Item e.value → Read d e.value d' →
      P (before ++ [e]) v')
    {fuel : Nat} (before : List Entry) {lastKey : Option GoString} (start : P before v)
    (typed : d.raw = false) (decoded : dictLoop env into addr fuel d v lastKey = (d', w, none)) :
    ∃ entries, WellFormed entries ∧ Read d (entries.flatMap Entry.bytes ++ [101]) d' ∧
      P (before ++ entries) w := by
  obtain ⟨entries, keys, values, rest⟩ := dictLoop_reads env (Q := Item)
    (fun before v d d' v' keyToken key kept typed value => by
      obtain ⟨token, item, read⟩ := dictEntry_sound env sound (typed ▸ mode) value
      exact ⟨token, item, read, step before v d d' v' ⟨keyToken, key, token⟩ kept typed value item
        read⟩) before start typed decoded
  exact ⟨entries, ⟨keys, values⟩, rest⟩

/-! ### Lists and dictionaries -/

theorem decodeListInto_cases (decoded : decodeListInto into d addr v = (d', w, none)) :
    ∃ rest, d.r = 108 :: rest ∧
      (d.raw = true ∧ rawListLoop into (rest.length + 1) (d.took [108] rest) = (d', none) ∨
        d.raw = false ∧ (v.kind = .array ∨ v.kind = .slice) ∧
          listLoop into addr (rest.length + 1) (d.took [108] rest) v 0 = (d', w, none)) := by
  unfold decodeListInto at decoded
  split_ifs at decoded with wrong
  · cases decoded
  · cases input : d.r with
    | nil =>
      rw [Decoder.readByte, input] at decoded
      cases decoded
    | cons ch rest =>
      rw [Decoder.readByte_of input] at decoded
      dsimp only at decoded
      by_cases isList : ch = 108
      · rw [if_neg (not_not.mpr isList), Decoder.raw_took, isList] at decoded
        refine ⟨rest, by rw [isList], ?_⟩
        cases raw : d.raw with
        | true =>
          rw [raw, if_pos rfl] at decoded
          obtain ⟨rfl, done⟩ := Prod.mk.inj decoded
          obtain ⟨_, fine⟩ := Prod.mk.inj done
          exact .inl ⟨rfl, Prod.ext rfl fine⟩
        | false =>
          rw [raw, if_neg nofun] at decoded
          refine .inr ⟨rfl, ?_, decoded⟩
          by_contra other
          push Not at other
          exact wrong ⟨raw, other⟩
      · rw [if_pos isList] at decoded
        cases decoded

theorem decodeDictInto_cases {env : Env χ}
    (decoded : decodeDictInto env into d addr v = (d', w, none)) :
    ∃ rest, d.r = 100 :: rest ∧
      (d.raw = true ∧ rawDictLoop into (rest.length + 1) (d.took [100] rest) = (d', none) ∨
        d.raw = false ∧ ∃ v', dictTarget env addr v = .ok v' ∧
          dictLoop env into addr (rest.length + 1) (d.took [100] rest) v' none = (d', w, none)) := by
  unfold decodeDictInto at decoded
  cases input : d.r with
  | nil =>
    rw [Decoder.readByte, input] at decoded
    cases decoded
  | cons ch rest =>
    rw [Decoder.readByte_of input] at decoded
    dsimp only at decoded
    by_cases isDict : ch = 100
    · rw [if_neg (not_not.mpr isDict), Decoder.raw_took, isDict] at decoded
      refine ⟨rest, by rw [isDict], ?_⟩
      cases raw : d.raw with
      | true =>
        rw [raw, if_pos rfl] at decoded
        obtain ⟨rfl, done⟩ := Prod.mk.inj decoded
        obtain ⟨_, fine⟩ := Prod.mk.inj done
        exact .inl ⟨rfl, Prod.ext rfl fine⟩
      | false =>
        rw [raw, if_neg nofun] at decoded
        cases target : dictTarget env addr v with
        | error fault =>
          rw [target] at decoded
          cases decoded
        | ok v' =>
          rw [target] at decoded
          exact .inr ⟨rfl, v', rfl, decoded⟩
    · rw [if_pos isDict] at decoded
      cases decoded

theorem decodeListInto_sound (sound : SoundIn modes into) :
    SoundIn modes (decodeListInto into) := by
  intro d addr v d' w mode decoded
  obtain ⟨rest, input, ⟨raw, loop⟩ | ⟨typed, _, loop⟩⟩ := decodeListInto_cases decoded
  · have head : Read d [108] (d.took [108] rest) := .took input
    obtain ⟨items, each, read⟩ := rawListLoop_ok sound (head.raw ▸ mode) loop
    exact ⟨_, .list each, head.trans read⟩
  · have head : Read d [108] (d.took [108] rest) := .took input
    obtain ⟨⟨items, each, read⟩, _⟩ := listLoop_ok sound (typed ▸ mode) (P := fun _ _ => True)
      (fun _ _ _ _ _ _ _ _ _ _ _ _ => trivial) trivial (head.raw.trans typed) loop
    exact ⟨_, .list each, head.trans read⟩

theorem decodeList_sound (sound : SoundIn modes into) : SoundIn modes (decodeList into) := by
  intro d addr v d' w mode decoded
  unfold decodeList at decoded
  split at decoded
  · obtain ⟨rfl, done⟩ := Prod.mk.inj decoded
    obtain ⟨_, fine⟩ := Prod.mk.inj done
    exact decodeListInto_sound sound _ _ _ _ _ mode (Prod.ext rfl (Prod.ext rfl fine))
  · exact decodeListInto_sound sound _ _ _ _ _ mode decoded

theorem decodeDictInto_sound (env : Env χ) (sound : SoundIn modes into) :
    SoundIn modes (decodeDictInto env into) := by
  intro d addr v d' w mode decoded
  obtain ⟨rest, input, ⟨raw, loop⟩ | ⟨typed, v', _, loop⟩⟩ := decodeDictInto_cases decoded
  · have head : Read d [100] (d.took [100] rest) := .took input
    obtain ⟨entries, fine, read⟩ := rawDictLoop_ok sound (head.raw ▸ mode) loop
    exact ⟨_, .dict fine.keys fine.values, head.trans read⟩
  · have head : Read d [100] (d.took [100] rest) := .took input
    obtain ⟨entries, fine, read, _⟩ := dictLoop_ok env sound (typed ▸ mode) (P := fun _ _ => True)
      (fun _ _ _ _ _ _ _ _ _ _ _ => trivial) [] trivial (head.raw.trans typed) loop
    exact ⟨_, .dict fine.keys fine.values, head.trans read⟩

theorem decodeDict_sound (env : Env χ) (sound : SoundIn modes into) :
    SoundIn modes (decodeDict env into) := by
  intro d addr v d' w mode decoded
  have whole := decodeDictInto_sound env sound
  unfold decodeDict at decoded
  generalize decodeDictInto env into = decodeDictInto' at decoded whole
  split at decoded
  · obtain ⟨rfl, done⟩ := Prod.mk.inj decoded
    obtain ⟨_, fine⟩ := Prod.mk.inj done
    exact whole _ _ _ _ _ mode (Prod.ext rfl (Prod.ext rfl fine))
  · exact whole _ _ _ _ _ mode decoded

theorem decodeNext_cases {env : Env χ} (decoded : decodeNext env into d addr v = (d', w, none)) :
    (∃ digits, 101 ∉ digits ∧ Read d (105 :: (digits ++ [101])) d' ∧
        (d.raw = false → storeInt digits addr v = (w, none))) ∨
      (∃ token s, StringToken token s ∧ (∃ c ∈ token.head?, IsDigit c) ∧ Read d token d' ∧
        (d.raw = false → storeString s addr v = (w, none))) ∨
      decodeList into d addr v = (d', w, none) ∨ decodeDict env into d addr v = (d', w, none) := by
  unfold decodeNext at decoded
  cases peeked : d.peekByte with
  | none => rw [peeked] at decoded; cases decoded
  | some next =>
    rw [peeked] at decoded
    dsimp only at decoded
    split_ifs at decoded with isInt isString isList isDict
    · obtain ⟨digits, rest, open', input, rfl, stored⟩ := decodeInt_ok decoded
      exact .inl ⟨digits, open', .took input, stored⟩
    · obtain ⟨token, s, rest, token', input, rfl, stored⟩ := decodeString_ok decoded
      refine .inr (.inl ⟨token, s, token', ⟨next, ?_, isString⟩, .took input, stored⟩)
      obtain ⟨c, tail, rfl, _⟩ := token'.head
      rw [Decoder.peekByte, input] at peeked
      exact peeked
    · exact .inr (.inr (.inl decoded))
    · exact .inr (.inr (.inr decoded))
    · cases decoded

theorem decodeNext_sound (env : Env χ) (sound : SoundIn modes into) :
    SoundIn modes (decodeNext env into) := by
  intro d addr v d' w mode decoded
  obtain ⟨digits, open', read, _⟩ | ⟨token, s, token', digit, read, _⟩ | list | dict :=
    decodeNext_cases decoded
  · exact ⟨_, .int open', read⟩
  · exact ⟨token, .string token' digit, read⟩
  · exact decodeList_sound sound _ _ _ _ _ mode list
  · exact decodeDict_sound env sound _ _ _ _ _ mode dict

/-- **In raw mode an item is read**, whatever the types of the program are. -/
theorem decodeInto_rawSound (env : Env χ) (fuel : Nat) :
    SoundIn (· = true) (decodeInto env fuel) := by
  induction fuel with
  | zero => intro d addr v d' w _ decoded; cases decoded
  | succ fuel ih =>
    intro d addr v d' w raw decoded
    rw [decodeInto, if_pos raw] at decoded
    exact decodeNext_sound env ih _ _ _ _ _ raw decoded

/-- The types of the program decode from bencode, not from text. -/
def NoText (env : Env χ) : Prop := ∀ type, (env.methods type).unmarshalText = none

theorem indirectAlloc_ne_text (addr : Bool) (v : Value χ)
    (call : GoString → Value χ × Option Fault) :
    (indirectAlloc addr v).1 ≠ .textUnmarshaler call := by
  fun_induction indirectAlloc addr v with
  | case1 addr type v target put eq ih => rwa [eq] at ih
  | case2 addr held target put eq ih => rwa [eq] at ih
  | case3 addr elem v target put eq ih => rwa [eq] at ih
  | case4 elem target put eq ih => rwa [eq] at ih
  | case5 addr elem => nofun
  | case6 addr v => nofun

theorem indirect_ne_text {env : Env χ} (noText : NoText env) (addr : Bool) (v : Value χ)
    (call : GoString → Value χ × Option Fault) :
    (indirect env addr v).1 ≠ .textUnmarshaler call := by
  fun_induction indirect env addr v with
  | case1 => nofun
  | case2 type v call' text =>
    rw [noText type] at text
    cases text
  | case3 => exact indirectAlloc_ne_text _ _ _
  | case4 addr elem v target put eq ih => rwa [eq] at ih
  | case5 addr elem v target put eq ih => rwa [eq] at ih
  | case6 => exact indirectAlloc_ne_text _ _ _

theorem Read.captured {token : GoString} (typed : d.raw = false)
    (read : Read { d with buf := [], raw := true } token d') :
    Read d token { d' with raw := false } ∧ d'.buf = token where
  left :=
    { input := read.input
      raw := typed.symm
      n := read.n
      failUnordered := read.failUnordered
      buf := fun raw => absurd (typed.symm.trans raw) (by decide) }
  right := read.buf rfl

/-- **Whatever is decoded, an item is read.** -/
theorem decodeInto_sound {env : Env χ} (noText : NoText env) (fuel : Nat) :
    SoundIn (fun _ => True) (decodeInto env fuel) := by
  induction fuel with
  | zero => intro d addr v d' w _ decoded; cases decoded
  | succ fuel ih =>
    intro d addr v d' w _ decoded
    have next := decodeNext_sound env ih
    unfold decodeInto at decoded
    split at decoded
    · exact next _ _ _ _ _ trivial decoded
    · rename_i typed
      replace typed : d.raw = false := by simpa using typed
      split at decoded
      · split at decoded
        · cases decoded
        · rename_i value
          obtain ⟨rfl, _⟩ := Prod.mk.inj decoded
          exact ih _ _ _ _ _ trivial value
      · rename_i found
        exact absurd (by rw [found]) (indirect_ne_text noText addr v _)
      · generalize decodeNext env (decodeInto env fuel) = decodeNext' at decoded next
        split at decoded
        rename_i d₁ x fault value
        split_ifs at decoded with settable
        · cases decoded
          obtain ⟨token, item, read⟩ := next _ _ _ _ _ trivial value
          exact ⟨token, item, (read.captured typed).1⟩
        · cases decoded
      · generalize decodeNext env (decodeInto env fuel) = decodeNext' at decoded next
        obtain ⟨rfl, done⟩ := Prod.mk.inj decoded
        obtain ⟨_, fine⟩ := Prod.mk.inj done
        exact next _ _ _ _ _ trivial (Prod.ext rfl (Prod.ext rfl fine))
      · cases decoded

theorem decodeInto_rawMessage (env : Env χ) (fuel : Nat) (typed : d.raw = false)
    (b : Option GoString) :
    decodeInto env (fuel + 1) d true (.raw b) =
      let result :=
        decodeNext env (decodeInto env fuel) { d with buf := [], raw := true } true .invalid
      ({ result.1 with raw := false }, .raw (some result.1.buf), result.2.2) := by
  rw [decodeInto, if_neg (by simp [typed])]
  rfl

/-- **A `RawMessage` is exactly what was read.** -/
theorem decodeInto_captures {env : Env χ} {fuel : Nat} {b : Option GoString}
    (typed : d.raw = false) (decoded : decodeInto env fuel d true (.raw b) = (d', w, none)) :
    ∃ token, Item token ∧ Read d token d' ∧ w = .raw (some token) := by
  cases fuel with
  | zero => cases decoded
  | succ fuel =>
    have next := decodeNext_sound env (decodeInto_rawSound env fuel)
    rw [decodeInto_rawMessage env fuel typed] at decoded
    generalize decodeNext env (decodeInto env fuel) = decodeNext' at decoded next
    obtain ⟨rfl, done⟩ := Prod.mk.inj decoded
    obtain ⟨rfl, fine⟩ := Prod.mk.inj done
    obtain ⟨token, item, read⟩ := next _ _ _ _ _ rfl (Prod.ext rfl (Prod.ext rfl fine))
    obtain ⟨read', buf⟩ := read.captured typed
    exact ⟨token, item, read', by rw [← buf]⟩

end Sound

/-! ### Unambiguity -/

/-- **An input starts with one item only.** -/
theorem Item.unique {first second rest rest' : GoString} (item : Item first) (item' : Item second)
    (same : first ++ rest = second ++ rest') : first = second ∧ rest = rest' := by
  let env : Env Empty := { methods := nofun }
  obtain ⟨fuel, enough, enough'⟩ : ∃ fuel, first.length ≤ fuel ∧ second.length ≤ fuel :=
    ⟨_, le_max_left _ _, le_max_right _ _⟩
  let d : Decoder := { r := first ++ rest, raw := true }
  have once := decodeInto_raw env item enough d false .invalid rest rfl rfl
  have again := decodeInto_raw env item' enough' d false .invalid rest' rfl same
  have left : rest = rest' := congrArg (fun result => result.1.r) (once.symm.trans again)
  rw [left] at same
  exact ⟨List.append_cancel_right same, left⟩

theorem StringToken.unique {token token' s s' rest rest' : GoString}
    (isString : StringToken token s) (isString' : StringToken token' s')
    (same : token ++ rest = token' ++ rest') : token = token' ∧ s = s' ∧ rest = rest' := by
  let d : Decoder := { r := token ++ rest }
  have once := Decoder.readString_of (d := d) isString rfl
  have again := Decoder.readString_of (d := d) isString' same
  have left : rest = rest' := congrArg (fun result => result.1.r) (once.symm.trans again)
  have text : s = s' := congrArg (fun result => result.2.1) (once.symm.trans again)
  rw [left] at same
  exact ⟨List.append_cancel_right same, text, left⟩

/-- **A dictionary has one list of entries.** -/
theorem entries_unique {entries entries' : List Entry} (fine : WellFormed entries)
    (fine' : WellFormed entries') {rest rest' : GoString}
    (same : entries.flatMap Entry.bytes ++ [101] ++ rest =
      entries'.flatMap Entry.bytes ++ [101] ++ rest') : entries = entries' ∧ rest = rest' := by
  induction entries generalizing entries' with
  | nil =>
    cases entries' with
    | nil => exact ⟨rfl, by simpa using same⟩
    | cons e later =>
      obtain ⟨c, tail, eq, other⟩ := (fine'.keys e List.mem_cons_self).head
      simp only [List.flatMap_nil, List.nil_append, List.flatMap_cons, Entry.bytes, eq,
        List.cons_append] at same
      exact absurd (List.cons.inj same).1.symm other
  | cons e later ih =>
    obtain ⟨key, keys⟩ := List.forall_mem_cons.mp fine.keys
    obtain ⟨value, values⟩ := List.forall_mem_cons.mp fine.values
    cases entries' with
    | nil =>
      obtain ⟨c, tail, eq, other⟩ := key.head
      simp only [List.flatMap_nil, List.nil_append, List.flatMap_cons, Entry.bytes, eq,
        List.cons_append] at same
      exact absurd (List.cons.inj same).1 other
    | cons e' later' =>
      obtain ⟨key', keys'⟩ := List.forall_mem_cons.mp fine'.keys
      obtain ⟨value', values'⟩ := List.forall_mem_cons.mp fine'.values
      simp only [List.flatMap_cons, Entry.bytes, List.append_assoc] at same
      obtain ⟨sameToken, sameKey, same⟩ := key.unique key' same
      obtain ⟨sameValue, same⟩ := value.unique value' same
      obtain ⟨sameLater, sameRest⟩ := ih ⟨keys, values⟩ ⟨keys', values'⟩
        (by simpa [Entry.bytes] using same)
      refine ⟨?_, sameRest⟩
      rw [sameLater]
      cases e
      cases e'
      simp_all

end GoBt.Bencode
