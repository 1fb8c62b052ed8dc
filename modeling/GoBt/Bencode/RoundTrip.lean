/-
**What is encoded is decoded again.**

* `Reads env z token w` — from the token, the value `w` is decoded into `z`, and nothing behind the
  token is read. A rule for each kind of value.
* `Codes env z v w` — `v` is encoded as an item, from which `w` is decoded into `z`.
* `Codes.slice`, `Codes.struct`, `Codes.named` — **the parts of a value are decoded into the parts of
  the result.**
-/

import GoBt.Bencode.Encode
import GoBt.Bencode.Grammar

namespace GoBt.Bencode

variable {χ : Type} {env : Env χ}

/-! ### Tokens -/

theorem stringToken_encodeString {s : GoString} (short : s.length < 2 ^ 31) :
    StringToken (encodeString s) s := by
  refine ⟨numeral 10 s.length, rfl, fun member => ?_, ?_⟩
  · exact absurd (isDigit_of_mem_numeral member) (by decide)
  · rw [← formatInt_natCast]
    exact parseInt_formatInt (by omega) (by omega) (by decide)

theorem encodeString_injective : Function.Injective encodeString := by
  intro s t same
  have noColon : ∀ n, (58 : UInt8) ∉ numeral 10 n := fun n member =>
    absurd (isDigit_of_mem_numeral member) (by decide)
  -- If one length were longer, the colon behind the other would be one of its digits.
  rcases List.append_eq_append_iff.mp same with ⟨between, digits, rest⟩ | ⟨between, digits, rest⟩
  · rcases between with _ | ⟨c, between⟩
    · exact (List.cons.inj rest).2
    · rw [← (List.cons.inj rest).1] at digits
      exact absurd (digits ▸ List.mem_append_right _ List.mem_cons_self) (noColon t.length)
  · rcases between with _ | ⟨c, between⟩
    · exact (List.cons.inj rest).2.symm
    · rw [← (List.cons.inj rest).1] at digits
      exact absurd (digits ▸ List.mem_append_right _ List.mem_cons_self) (noColon s.length)

theorem digit_encodeString (s : GoString) : ∃ c ∈ (encodeString s).head?, IsDigit c := by
  obtain ⟨c, rest, eq⟩ := List.exists_cons_of_ne_nil (numeral_ne_nil s.length)
  refine ⟨c, ?_, isDigit_of_mem_numeral (by rw [eq]; exact List.mem_cons_self)⟩
  rw [encodeString, eq]
  rfl

theorem item_encodeString {s : GoString} (short : s.length < 2 ^ 31) : Item (encodeString s) :=
  .string (stringToken_encodeString short) (digit_encodeString s)

theorem not_mem_formatInt (n : Int) : (101 : UInt8) ∉ formatInt n := by
  have digits : (101 : UInt8) ∉ numeral 10 n.natAbs :=
    fun member => absurd (isDigit_of_mem_numeral member) (by decide)
  unfold formatInt
  split
  · exact List.not_mem_cons_of_ne_of_not_mem (by decide) digits
  · exact digits

theorem item_encodeInt (n : Int) : Item (encodeInt n) := .int (not_mem_formatInt n)

/-! ### Reading a value -/

/-- Decoding takes a token and makes `z` the value `w`. -/
def Takes (into : Into χ) (z : Value χ) (token : GoString) (w : Value χ) : Prop :=
  ∀ (d : Decoder) (rest : GoString), d.raw = false → d.r = token ++ rest →
    ∃ d', into d true z = (d', w, none) ∧ Read d token d'

/-- Decoding takes a token and makes `z` such a value, if the decoder may be as strict as it is. -/
def TakesTo (strict : Bool → Prop) (into : Into χ) (z : Value χ) (token : GoString)
    (P : Value χ → Prop) : Prop :=
  ∀ (d : Decoder) (rest : GoString), d.raw = false → strict d.failUnordered → d.r = token ++ rest →
    ∃ d' w, into d true z = (d', w, none) ∧ Read d token d' ∧ P w

theorem TakesTo.takes {into : Into χ} {z w : Value χ} {token : GoString}
    (takes : TakesTo (fun _ => True) into z token (w = ·)) : Takes into z token w := by
  intro d rest typed input
  obtain ⟨d', _, decoded, read, rfl⟩ := takes d rest typed trivial input
  exact ⟨d', decoded, read⟩

theorem Takes.to {into : Into χ} {z w : Value χ} {token : GoString}
    (takes : Takes into z token w) : TakesTo (fun _ => True) into z token (w = ·) := by
  intro d rest typed _ input
  obtain ⟨d', decoded, read⟩ := takes d rest typed input
  exact ⟨d', w, decoded, read, rfl⟩

/-- From the token, `w` is decoded into `z`. -/
def Reads (env : Env χ) (z : Value χ) (token : GoString) (w : Value χ) : Prop :=
  ∀ fuel : Nat, token.length < fuel → Takes (decodeInto env fuel) z token w

/-- The value is decoded itself, not through a pointer or a method. -/
def Plain (env : Env χ) (z : Value χ) : Prop :=
  indirect env true z = (.value true z, id) ∧ ∀ b, z ≠ .raw b

theorem decodeInto_plain {z : Value χ} (plain : Plain env z) (fuel : Nat) {d : Decoder}
    (typed : d.raw = false) :
    decodeInto env (fuel + 1) d true z = decodeNext env (decodeInto env fuel) d true z := by
  obtain ⟨target, notRaw⟩ := plain
  rw [decodeInto, if_neg (by simp [typed]), target]
  cases z with
  | raw b => exact absurd rfl (notRaw b)
  | _ => rfl

theorem Reads.of_next {z w : Value χ} {token : GoString} (plain : Plain env z)
    (next : ∀ fuel : Nat, token.length ≤ fuel →
      Takes (decodeNext env (decodeInto env fuel)) z token w) : Reads env z token w := by
  intro fuel enough d rest typed input
  obtain ⟨fuel, rfl⟩ : ∃ less, fuel = less + 1 := ⟨fuel - 1, by omega⟩
  rw [decodeInto_plain plain fuel typed]
  exact next fuel (by omega) d rest typed input

theorem Reads.int {z w : Value χ} {n : Int} (plain : Plain env z)
    (store : storeInt (formatInt n) true z = (w, none)) : Reads env z (encodeInt n) w := by
  refine .of_next plain fun fuel _ d rest typed input => ⟨d.took (encodeInt n) rest, ?_, .took input⟩
  rw [decodeNext_int env (not_mem_formatInt n) input, if_neg (by simp [typed]), store]
  rfl

theorem Reads.string {z w : Value χ} {s : GoString} (plain : Plain env z)
    (short : s.length < 2 ^ 31) (store : storeString s true z = (w, none)) :
    Reads env z (encodeString s) w := by
  refine .of_next plain fun fuel _ d rest typed input =>
    ⟨d.took (encodeString s) rest, ?_, .took input⟩
  rw [decodeNext_string env (stringToken_encodeString short) (digit_encodeString s) input,
    if_neg (by simp [typed]), store]

theorem takes_rawMessage (env : Env χ) {token : GoString} (item : Item token)
    (b : Option GoString) {fuel : Nat} (enough : token.length ≤ fuel) :
    Takes (decodeInto env fuel) (.raw b) token (.raw (some token)) := by
  intro d rest typed input
  obtain ⟨c, tail, eq, _⟩ := item.head
  obtain ⟨fuel, rfl⟩ : ∃ less, fuel = less + 1 :=
    ⟨fuel - 1, by rw [eq, List.length_cons] at enough; omega⟩
  let start : Decoder := { d with buf := [], raw := true }
  have copied := decodeInto_raw env item enough start true .invalid rest rfl input
  rw [decodeInto, if_pos rfl] at copied
  obtain ⟨read, buf⟩ := Read.captured typed (Read.took (d := start) input)
  refine ⟨_, ?_, read⟩
  rw [decodeInto_rawMessage env fuel typed]
  dsimp only
  rw [copied]
  dsimp only
  rw [buf]

theorem Reads.raw (env : Env χ) {token : GoString} (item : Item token) (b : Option GoString) :
    Reads env (.raw b) token (.raw (some token)) :=
  fun _ enough => takes_rawMessage env item b enough.le

theorem Reads.named {type : χ} {z w : Value χ} {token : GoString}
    {call : Value χ → GoString → Value χ × Option Fault} (item : Item token)
    (method : (env.methods type).unmarshalBencode = some call) (fine : call z token = (w, none)) :
    Reads env (.named type z) token (.named type w) := by
  intro fuel enough d rest typed input
  obtain ⟨fuel, rfl⟩ : ∃ less, fuel = less + 1 := ⟨fuel - 1, by omega⟩
  obtain ⟨d', raw, read⟩ :=
    takes_rawMessage env item none (by omega : token.length ≤ fuel) d rest typed input
  have target : indirect env true (.named type z) = (.unmarshaler (call z), .named type) := by
    simp only [indirect, method]
  refine ⟨d', ?_, read⟩
  rw [decodeInto, if_neg (by simp [typed]), target]
  dsimp only
  rw [raw]
  dsimp only [Value.rawBytes, Option.getD_some]
  rw [fine]

theorem decodeBytes_text {type : χ} {call : Value χ → GoString → Value χ × Option Fault}
    (other : (env.methods type).unmarshalBencode = none)
    (method : (env.methods type).unmarshalText = some call) (z : Value χ) (b : GoString) :
    decodeBytes env b (.named type z) =
      match ({ r := b } : Decoder).readString with
      | (_, _, some fault) => (.named type z, some fault)
      | (_, text, none) => (.named type (call z text).1, (call z text).2) := by
  have target : indirect env true (.named type z) = (.textUnmarshaler (call z), .named type) := by
    simp only [indirect, other, method]
  unfold decodeBytes decode
  rw [decodeInto, if_neg Bool.false_ne_true, target]
  dsimp only
  rcases ({ r := b } : Decoder).readString with ⟨d, text, _ | fault⟩ <;> rfl

theorem Reads.ptr {z w : Value χ} {token : GoString} (reads : Reads env z token w)
    (plain : Plain env z) (elem : Value χ) :
    Reads env (.ptr elem (some z)) token (.ptr elem (some w)) := by
  intro fuel enough d rest typed input
  obtain ⟨d', decoded, read⟩ := reads fuel enough d rest typed input
  obtain ⟨fuel, rfl⟩ : ∃ less, fuel = less + 1 := ⟨fuel - 1, by omega⟩
  have target : indirect env true (.ptr elem (some z)) =
      (.value true z, fun x => .ptr elem (some x)) := by
    rw [indirect, plain.1]
    rfl
  refine ⟨d', ?_, read⟩
  rw [decodeInto_plain plain fuel typed] at decoded
  rw [decodeInto, if_neg (by simp [typed]), target]
  cases z with
  | raw b => exact absurd rfl (plain.2 b)
  | _ =>
    dsimp only
    rw [decoded]

theorem Reads.decode {z w : Value χ} {token : GoString} (reads : Reads env z token w)
    (failUnordered : Bool) :
    ∃ d, Bencode.decode env { r := token, failUnordered := failUnordered } z = (d, w, none) := by
  obtain ⟨d, decoded, _⟩ := reads (token.length + 2) (by omega)
    { r := token, failUnordered := failUnordered } [] rfl (List.append_nil _).symm
  exact ⟨d, decoded⟩

theorem Reads.decodeBytes {z w : Value χ} {token : GoString} (reads : Reads env z token w) :
    Bencode.decodeBytes env token z = (w, none) := by
  obtain ⟨d, decoded⟩ := reads.decode false
  rw [Bencode.decodeBytes, decoded]

/-! ### Lists -/

/-- The slice with these elements; it is nil if there are none. -/
def sliceOf (z : Value χ) (ws : List (Value χ)) : Value χ :=
  .slice z (if ws = [] then none else some ws)

theorem getD_ite_nil {α : Type} (ws : List α) :
    (if ws = [] then none else some ws).getD [] = ws := by
  split
  · rename_i empty
    rw [empty]
    rfl
  · rfl

theorem sliceOf_map {α : Type} (z : Value χ) (as : List α) (result : α → Value χ) :
    sliceOf z (as.map result) = .slice z (if as = [] then none else some (as.map result)) := by
  simp only [sliceOf, List.map_eq_nil_iff]

theorem setIndex_concat (z x w : Value χ) (done : List (Value χ)) :
    (Value.slice z (some (done ++ [x]))).setIndex done.length w =
      .slice z (some (done ++ [w])) := by
  simp [Value.setIndex]

theorem listLoop_cons {into : Into χ} {z w : Value χ} {start : Option (List (Value χ))}
    {d d' : Decoder} {c : UInt8} (peeked : d.peekByte = some c) (other : c ≠ 101)
    (value : into d true z = (d', w, none)) (fuel : Nat) :
    listLoop into true (fuel + 1) d (.slice z start) (start.getD []).length =
      listLoop into true fuel d' (.slice z (some (start.getD [] ++ [w])))
        ((start.getD []).length + 1) := by
  have grown : (if (Value.slice z start).len ≤ (start.getD []).length then
      (Value.slice z start).grow true else some (.slice z start)) =
      some (.slice z (some (start.getD [] ++ [z]))) := by
    rw [Value.len, if_pos le_rfl, Value.grow, if_pos rfl]
  have found : (Value.slice z (some (start.getD [] ++ [z]))).index (start.getD []).length =
      some z := by
    simp [Value.index]
  rw [listLoop, peeked]
  dsimp only
  rw [if_neg other, grown]
  dsimp only
  rw [found]
  dsimp only [Value.elemAddr]
  rw [value]
  dsimp only
  rw [setIndex_concat]

section Lists

variable {α : Type} {strict : Bool → Prop} {into : Into χ} {z : Value χ} {as : List α}
  {token : α → GoString} {result : α → Value χ} {R : α → Value χ → Prop}

/-- **The loop of `decodeList`** appends an element for every item. -/
theorem listLoop_of (items : ∀ a ∈ as, Item (token a))
    (each : ∀ a ∈ as, TakesTo strict into z (token a) (R a)) (rest : GoString) {fuel : Nat}
    {d : Decoder} (start : Option (List (Value χ))) (enough : as.length < fuel)
    (typed : d.raw = false) (fit : strict d.failUnordered)
    (input : d.r = as.flatMap token ++ [101] ++ rest) :
    ∃ d' ws, listLoop into true fuel d (.slice z start) (start.getD []).length =
      (d', .slice z (if ws = [] then start else some (start.getD [] ++ ws)), none) ∧
      Read d (as.flatMap token ++ [101]) d' ∧ List.Forall₂ R as ws := by
  induction as generalizing fuel d start with
  | nil =>
    obtain ⟨fuel, rfl⟩ : ∃ less, fuel = less + 1 := ⟨fuel - 1, by simp at enough; omega⟩
    have input' : d.r = 101 :: rest := by simpa using input
    refine ⟨d.took [101] rest, [], ?_, .took input, .nil⟩
    rw [listLoop, Decoder.peekByte, input', Decoder.readByte_of input']
    rfl
  | cons a as ih =>
    obtain ⟨item, items⟩ := List.forall_mem_cons.mp items
    obtain ⟨here, each⟩ := List.forall_mem_cons.mp each
    obtain ⟨fuel, rfl⟩ : ∃ less, fuel = less + 1 := ⟨fuel - 1, by simp at enough; omega⟩
    have input' : d.r = token a ++ (as.flatMap token ++ [101] ++ rest) := by simpa using input
    obtain ⟨c, tail, head, other⟩ := item.head
    have peeked : d.peekByte = some c := by rw [Decoder.peekByte, input', head]; rfl
    obtain ⟨d₁, w, value, read, isResult⟩ := here d _ typed fit input'
    obtain ⟨d₂, ws, later, read', results⟩ := ih items each (some (start.getD [] ++ [w]))
      (by simpa using enough) (read.raw.trans typed) (read.failUnordered ▸ fit)
      (read.rest_eq input')
    refine ⟨d₂, w :: ws, ?_, ?_, .cons isResult results⟩
    · rw [listLoop_cons peeked other value]
      rw [Option.getD_some, List.length_append, List.length_singleton] at later
      rw [later, if_neg (List.cons_ne_nil _ _)]
      cases ws with
      | nil => rfl
      | cons => simp
    · rw [List.flatMap_cons, List.append_assoc]
      exact read.trans read'

theorem length_le_flatMap (heads : ∀ a ∈ as, ∃ c tail, token a = c :: tail ∧ c ≠ 101) :
    as.length ≤ (as.flatMap token).length := by
  have count : (as.map token).length ≤ (as.map token).flatten.length :=
    length_le_flatten (by simpa using heads)
  rwa [List.length_map] at count

theorem takesTo_decodeListInto (items : ∀ a ∈ as, Item (token a))
    (each : ∀ a ∈ as, TakesTo strict into z (token a) (R a)) :
    TakesTo strict (decodeListInto into) (.slice z none) (108 :: (as.flatMap token ++ [101]))
      fun v => ∃ ws, List.Forall₂ R as ws ∧ sliceOf z ws = v := by
  intro d rest typed fit input
  have first : d.r = 108 :: (as.flatMap token ++ [101] ++ rest) := input
  have count := length_le_flatMap fun a member => (items a member).head
  let inside := d.took [108] (as.flatMap token ++ [101] ++ rest)
  have enough : as.length < inside.r.length + 1 := by
    simp only [inside, Decoder.r_took, List.length_append]
    omega
  obtain ⟨d', ws, loop, read, results⟩ :=
    listLoop_of items each rest none enough (d := inside) typed fit rfl
  have head : Read d [108] inside := .took first
  refine ⟨d', sliceOf z ws, ?_, head.trans read, ws, results, rfl⟩
  rw [decodeListInto, if_neg (by simp [Value.kind]), Decoder.readByte_of first]
  dsimp only
  rw [if_neg (by simp), Decoder.raw_took, if_neg (by simp [typed])]
  exact loop

theorem takes_decodeListInto (items : ∀ a ∈ as, Item (token a))
    (each : ∀ a ∈ as, Takes into z (token a) (result a)) :
    Takes (decodeListInto into) (.slice z none) (108 :: (as.flatMap token ++ [101]))
      (sliceOf z (as.map result)) := by
  refine TakesTo.takes fun d rest typed fit input => ?_
  obtain ⟨d', v, decoded, read, ws, results, rfl⟩ := takesTo_decodeListInto items
    (fun a member => (each a member).to) d rest typed fit input
  rw [← List.forall₂_map_left_iff, List.forall₂_eq_eq_eq] at results
  exact ⟨d', _, decoded, read, by rw [results]⟩

theorem takes_parts (items : ∀ a ∈ as, Reads env z (token a) (result a)) {fuel : Nat} {c : UInt8}
    (enough : (c :: (as.flatMap token ++ [101])).length ≤ fuel) :
    ∀ a ∈ as, Takes (decodeInto env fuel) z (token a) (result a) := by
  intro a member
  have part := (List.sublist_flatten_of_mem (List.mem_map_of_mem (f := token) member)).length_le
  rw [← List.flatMap_def] at part
  simp only [List.length_cons, List.length_append] at enough
  exact items a member fuel (by omega)

/-- **The elements of a list are decoded into those of a slice.** -/
theorem Reads.slice (items : ∀ a ∈ as, Item (token a))
    (each : ∀ a ∈ as, Reads env z (token a) (result a)) :
    Reads env (.slice z none) (108 :: (as.flatMap token ++ [101])) (sliceOf z (as.map result)) := by
  refine .of_next ⟨rfl, nofun⟩ fun fuel enough d rest typed input => ?_
  obtain ⟨d', decoded, read⟩ :=
    takes_decodeListInto items (takes_parts each enough) d rest typed input
  refine ⟨d', ?_, read⟩
  rw [decodeNext_list env input]
  unfold decodeList
  rw [typed]
  exact decoded

/-- **The elements of a list are decoded into those of an interface.** -/
theorem Reads.ifaceList (items : ∀ a ∈ as, Item (token a))
    (each : ∀ a ∈ as, Reads env (.iface none) (token a) (result a)) :
    Reads env (.iface none) (108 :: (as.flatMap token ++ [101]))
      (.iface (some (sliceOf (.iface none) (as.map result)))) := by
  refine .of_next ⟨rfl, nofun⟩ fun fuel enough d rest typed input => ?_
  obtain ⟨d', decoded, read⟩ :=
    takes_decodeListInto items (takes_parts each enough) d rest typed input
  refine ⟨d', ?_, read⟩
  rw [decodeNext_list env input]
  unfold decodeList
  rw [typed]
  dsimp only
  rw [decoded]

end Lists

/-! ### The fields of a struct -/

def Field.key (f : Field) : GoString := utf8 (parseTag f.tag).1

/-- An exported field whose tag gives it a key. The decoder takes the tag `-` for a key as well. -/
structure Field.Keyed (env : Env χ) (f : Field) : Prop where
  exported : f.exported = true
  own : f.anonymous = false
  valid : isValidTag env (parseTag f.tag).1 = true

theorem Field.Keyed.name_ne {f : Field} (keyed : f.Keyed env) : (parseTag f.tag).1 ≠ "" := by
  intro empty
  have valid := keyed.valid
  rw [empty] at valid
  cases valid

theorem Field.Keyed.tag_ne {f : Field} (keyed : f.Keyed env) : f.tag ≠ "" := by
  intro empty
  exact keyed.name_ne (by rw [empty]; rfl)

/-- An exported field with a tag that names it. -/
structure Field.Tagged (env : Env χ) (f : Field) : Prop where
  exported : f.exported = true
  own : f.anonymous = false
  valid : isValidTag env (parseTag f.tag).1 = true
  written : f.tag ≠ "-"

theorem Field.Tagged.keyed {f : Field} (tagged : f.Tagged env) : f.Keyed env :=
  ⟨tagged.exported, tagged.own, tagged.valid⟩

/-- The same, for a tag of ASCII letters, digits and the signs that are allowed. -/
def Field.asciiTagged (f : Field) : Bool :=
  f.exported && !f.anonymous && f.tag != "-" && (parseTag f.tag).1.toList != [] &&
    (parseTag f.tag).1.toList.all fun c =>
      c == ' ' || c == '$' || c == '-' || c == '_' || c == '.' || (c.toNat < 128 && c.isAlphanum)

theorem Field.Tagged.of_ascii (env : Env χ) {f : Field} (ascii : f.asciiTagged = true) :
    f.Tagged env := by
  simp only [Field.asciiTagged, Bool.and_eq_true, Bool.not_eq_true', bne_iff_ne] at ascii
  obtain ⟨⟨⟨⟨exported, own⟩, written⟩, nonempty⟩, all⟩ := ascii
  refine ⟨exported, own, ?_, written⟩
  rw [isValidTag, Bool.and_eq_true, bne_iff_ne]
  refine ⟨nonempty, List.all_eq_true.mpr fun c member => ?_⟩
  have here := List.all_eq_true.mp all c member
  simp only [Bool.or_eq_true, Bool.and_eq_true, decide_eq_true_eq] at here ⊢
  rcases here with sign | ⟨small, letter⟩
  · exact .inl sign
  · exact .inr (by rw [if_pos small]; exact letter)

section Lookup

variable {f : Field} {x : Value χ} {fields before after : List (Field × Value χ)}

theorem lookupLast_append (xs ys : List (GoString × List Nat)) (key : GoString) :
    lookupLast (xs ++ ys) key = (lookupLast ys key).or (lookupLast xs key) := by
  rw [lookupLast, List.reverse_append, List.find?_append, Option.map_or]
  rfl

theorem lookupLast_eq_none {vals : List (GoString × List Nat)} {key : GoString}
    (other : ∀ e ∈ vals, e.1 ≠ key) : lookupLast vals key = none := by
  rw [lookupLast, Option.map_eq_none_iff, List.find?_eq_none]
  intro e member
  simpa using other e (List.mem_reverse.mp member)

theorem embeddedValues_eq_nil (i : Nat) (keyed : ∀ p ∈ fields, p.1.Keyed env) :
    embeddedValues env i fields = [] := by
  induction fields generalizing i with
  | nil => rfl
  | cons p rest ih =>
    obtain ⟨here, later⟩ := List.forall_mem_cons.mp keyed
    rw [embeddedValues, ih (i + 1) later, if_neg (by simp [here.own])]
    rfl

theorem ownValues_eq_map (i : Nat) (keyed : ∀ p ∈ fields, p.1.Keyed env) :
    ownValues env i fields = fields.mapIdx fun j p => (p.1.key, [i + j]) := by
  induction fields generalizing i with
  | nil => rfl
  | cons p rest ih =>
    obtain ⟨here, later⟩ := List.forall_mem_cons.mp keyed
    have valid := here.valid
    rw [ownValues, ih (i + 1) later, List.mapIdx_cons]
    dsimp only
    rw [if_neg (by simp [here.exported, here.name_ne]), if_neg here.name_ne, if_pos valid,
      Nat.add_zero, List.singleton_append]
    congr 2
    funext j q
    rw [Nat.add_right_comm, Nat.add_assoc]

theorem setStructValues_keyed (keyed : ∀ p ∈ fields, p.1.Keyed env) :
    setStructValues env (.struct fields) = fields.mapIdx fun j p => (p.1.key, [j]) := by
  rw [setStructValues, embeddedValues_eq_nil 0 keyed, ownValues_eq_map 0 keyed, List.nil_append]
  simp only [Nat.zero_add]

theorem dictEntry_unknown (keyed : ∀ p ∈ fields, p.1.Keyed env) {key : GoString}
    (other : ∀ p ∈ fields, p.1.key ≠ key) (into : Into χ) (d : Decoder) (addr : Bool) :
    dictEntry env into d addr (.struct fields) key =
      ((into d true (.iface none)).1, .struct fields, (into d true (.iface none)).2.2) := by
  have none' : lookupLast (setStructValues env (.struct fields)) key = none := by
    rw [setStructValues_keyed keyed]
    refine lookupLast_eq_none fun e member => ?_
    obtain ⟨j, inside, rfl⟩ := List.mem_mapIdx.mp member
    exact other _ (List.getElem_mem inside)
  rw [dictEntry, none']
  nofun

theorem dictEntry_field (keyed : ∀ p ∈ before ++ (f, x) :: after, p.1.Keyed env)
    (last : ∀ p ∈ after, p.1.key ≠ f.key) (into : Into χ) (d : Decoder) (addr : Bool) :
    dictEntry env into d addr (.struct (before ++ (f, x) :: after)) f.key =
      ((into d addr x).1, .struct (before ++ (f, (into d addr x).2.1) :: after),
        (into d addr x).2.2) := by
  have some' : lookupLast (setStructValues env (.struct (before ++ (f, x) :: after))) f.key =
      some [before.length] := by
    have none' : lookupLast (after.mapIdx fun j p => (p.1.key, [j + 1 + before.length])) f.key =
        none := by
      refine lookupLast_eq_none fun e member => ?_
      obtain ⟨j, inside, rfl⟩ := List.mem_mapIdx.mp member
      exact last _ (List.getElem_mem inside)
    have here : lookupLast [(f.key, [0 + before.length])] f.key = some [before.length] := by
      simp [lookupLast]
    rw [setStructValues_keyed keyed, List.mapIdx_append, List.mapIdx_cons, lookupLast_append,
      ← List.singleton_append, lookupLast_append, none', Option.none_or, here]
    rfl
  have found : (Value.struct (before ++ (f, x) :: after)).fieldAt [before.length] = some x := by
    simp [Value.fieldAt, Value.fields, Value.under]
  have set : ∀ x', (Value.struct (before ++ (f, x) :: after)).setFieldAt [before.length] x' =
      .struct (before ++ (f, x') :: after) := by
    intro x'
    simp only [Value.setFieldAt, Value.fields, Value.under, Value.withFields]
    rw [List.modify_eq_take_cons_drop (by simp)]
    simp
  unfold dictEntry
  dsimp only
  rw [some']
  dsimp only
  rw [found]
  dsimp only
  rw [set]

end Lookup

/-! ### Dictionaries -/

section Dictionaries

variable {α : Type} {into : Into χ} {as : List α} {key token : α → GoString}

/-- The bytes of the entries of a dictionary, as the encoder writes them. -/
def entryBytes (key token : α → GoString) (as : List α) : GoString :=
  as.flatMap fun a => encodeString (key a) ++ token a

section States

variable {strict : Bool → Prop} (entry : α → Entry) {S : List α → Value χ → Prop}
  (keys : ∀ a ∈ as, StringToken (entry a).keyToken (entry a).key)
  (sorted : strict true → as.Pairwise fun a b => ¬ (entry b).key < (entry a).key)
  (step : ∀ before a after v, as = before ++ a :: after → S before v →
    TakesTo strict (fun d addr v => dictEntry env into d addr v (entry a).key) v (entry a).value
      (S (before ++ [a])))

include keys sorted step

/-- **The loop of `decodeDict`** goes through the states that the entries lead to. -/
theorem dictLoop_of (rest : GoString) {fuel : Nat} {d : Decoder} {v : Value χ} (start : S [] v)
    (enough : as.length < fuel) (typed : d.raw = false) (fit : strict d.failUnordered)
    (input : d.r = as.flatMap (fun a => (entry a).bytes) ++ [101] ++ rest) :
    ∃ d' w, dictLoop env into true fuel d v none = (d', w, none) ∧
      Read d (as.flatMap (fun a => (entry a).bytes) ++ [101]) d' ∧ S as w := by
  -- The induction is over the entries that are left, with those before them given.
  suffices loop : ∀ (after before : List α) (lastKey : Option GoString) (fuel : Nat) (d : Decoder)
      (v : Value χ), as = before ++ after → S before v →
      (strict true → ∀ a ∈ after, ¬ (entry a).key < lastKey.getD []) → after.length < fuel →
      d.raw = false → strict d.failUnordered →
      d.r = after.flatMap (fun a => (entry a).bytes) ++ [101] ++ rest →
      ∃ d' w, dictLoop env into true fuel d v lastKey = (d', w, none) ∧
        Read d (after.flatMap (fun a => (entry a).bytes) ++ [101]) d' ∧ S as w from
    loop as [] none fuel d v rfl start (fun _ a _ => List.not_lt_nil _) enough typed fit input
  intro after
  induction after with
  | nil =>
    intro before lastKey fuel d v split reached _ enough typed fit input
    obtain ⟨fuel, rfl⟩ : ∃ less, fuel = less + 1 := ⟨fuel - 1, by simp at enough; omega⟩
    have input' : d.r = 101 :: rest := by simpa using input
    refine ⟨d.took [101] rest, v, ?_, .took input, by rwa [split, List.append_nil]⟩
    rw [dictLoop, Decoder.peekByte, input', Decoder.readByte_of input']
    rfl
  | cons a after ih =>
    intro before lastKey fuel d v split reached ordered enough typed fit input
    obtain ⟨fuel, rfl⟩ : ∃ less, fuel = less + 1 := ⟨fuel - 1, by simp at enough; omega⟩
    have isString := keys a (by rw [split]; simp)
    obtain ⟨c, tail, head, other⟩ := isString.head
    have input' : d.r = (entry a).keyToken ++
        ((entry a).value ++ (after.flatMap (fun a => (entry a).bytes) ++ [101] ++ rest)) := by
      simpa [Entry.bytes] using input
    have peeked : d.peekByte = some c := by rw [Decoder.peekByte, input', head]; rfl
    obtain ⟨d₁, w, value, read, reached'⟩ :=
      step before a after v split reached (d.took (entry a).keyToken _) _ typed fit rfl
    dsimp only at value
    have later : strict true → ∀ b ∈ after, ¬ (entry b).key < (entry a).key := fun isStrict => by
      have all := sorted isStrict
      rw [split, List.pairwise_append, List.pairwise_cons] at all
      exact all.2.1.1
    obtain ⟨d₂, w', loop, read', last⟩ := ih (before ++ [a]) (some (entry a).key) fuel d₁ w
      (by rw [split, List.append_assoc]; rfl) reached' later (by simpa using enough)
      (read.raw.trans typed) (read.failUnordered ▸ fit) (read.rest_eq rfl)
    refine ⟨d₂, w', ?_, ?_, last⟩
    · have inOrder : ¬ (d.failUnordered = true ∧ (entry a).key < lastKey.getD []) := by
        rintro ⟨isStrict, less⟩
        exact ordered (isStrict ▸ fit) a List.mem_cons_self less
      rw [dictLoop, peeked]
      dsimp only
      rw [if_neg other, Decoder.readString_of isString input']
      dsimp only
      rw [Decoder.failUnordered_took, if_neg inOrder, value]
      exact loop
    · have whole := ((Read.took input').trans read).trans read'
      simpa [Entry.bytes] using whole

theorem takesTo_decodeDictInto {z v : Value χ} (target : dictTarget env true z = .ok v)
    (start : S [] v) :
    TakesTo strict (decodeDictInto env into) z
      (100 :: (as.flatMap (fun a => (entry a).bytes) ++ [101])) (S as) := by
  intro d rest typed fit input
  have first : d.r = 100 :: (as.flatMap (fun a => (entry a).bytes) ++ [101] ++ rest) := input
  have count : as.length ≤ (as.flatMap fun a => (entry a).bytes).length := by
    refine length_le_flatMap fun a member => ?_
    obtain ⟨c, tail, eq, other⟩ := (keys a member).head
    exact ⟨c, tail ++ (entry a).value, by rw [Entry.bytes, eq]; rfl, other⟩
  let inside := d.took [100] (as.flatMap (fun a => (entry a).bytes) ++ [101] ++ rest)
  have enough : as.length < inside.r.length + 1 := by
    simp only [inside, Decoder.r_took, List.length_append]
    omega
  obtain ⟨d', w, loop, read, last⟩ :=
    dictLoop_of entry keys sorted step rest start enough (d := inside) typed fit rfl
  have head : Read d [100] inside := .took first
  refine ⟨d', w, ?_, head.trans read, last⟩
  rw [decodeDictInto, Decoder.readByte_of first]
  dsimp only
  rw [if_neg (by simp), Decoder.raw_took, if_neg (by simp [typed]), target]
  exact loop

end States

theorem length_le_entryBytes_of_mem (key token : α → GoString) {a : α} (member : a ∈ as) :
    (token a).length ≤ (entryBytes key token as).length := by
  have part := (List.sublist_flatten_of_mem
    (List.mem_map_of_mem (f := fun a => encodeString (key a) ++ token a) member)).length_le
  rw [← List.flatMap_def, List.length_append] at part
  exact le_trans (Nat.le_add_left _ _) part

theorem takes_decodeDictInto {z : Value χ} (state : List α → Value χ)
    (target : dictTarget env true z = .ok (state []))
    (short : ∀ a ∈ as, (key a).length < 2 ^ 31) (sorted : as.Pairwise fun a b => ¬ key b < key a)
    (step : ∀ before a after, as = before ++ a :: after →
      Takes (fun d addr v => dictEntry env into d addr v (key a)) (state before) (token a)
        (state (before ++ [a]))) :
    Takes (decodeDictInto env into) z (100 :: (entryBytes key token as ++ [101])) (state as) := by
  refine (takesTo_decodeDictInto (fun a => ⟨encodeString (key a), key a, token a⟩)
    (S := fun done v => state done = v)
    (fun a member => stringToken_encodeString (short a member)) (fun _ => sorted) ?_ target rfl).takes
  rintro before a after _ split rfl
  exact (step before a after split).to

theorem item_dict (short : ∀ a ∈ as, (key a).length < 2 ^ 31)
    (items : ∀ a ∈ as, Item (token a)) : Item (100 :: (entryBytes key token as ++ [101])) := by
  let entries : List Entry := as.map fun a => ⟨encodeString (key a), key a, token a⟩
  have keys : ∀ e ∈ entries, StringToken e.keyToken e.key := by
    simpa [entries] using fun a member => stringToken_encodeString (short a member)
  have values : ∀ e ∈ entries, Item e.value := by simpa [entries] using items
  simpa [entries, entryBytes, List.flatMap_map, Entry.bytes] using Item.dict keys values

end Dictionaries

/-! ### Interfaces -/

theorem parseInt_64 {n : Int} (low : -2 ^ 63 ≤ n) (high : n < 2 ^ 63) :
    parseInt (formatInt n) 64 = .ok n :=
  parseInt_formatInt low high (by decide)

theorem Reads.ifaceInt {n : Int} (low : -2 ^ 63 ≤ n) (high : n < 2 ^ 63) :
    Reads env (.iface none) (encodeInt n) (.iface (some (.int 64 n))) :=
  .int ⟨rfl, nofun⟩ (by simp only [storeInt, parseInt_64 low high, if_true])

theorem Reads.ifaceString {s : GoString} (short : s.length < 2 ^ 31) :
    Reads env (.iface none) (encodeString s) (.iface (some (.string s))) :=
  .string ⟨rfl, nofun⟩ short rfl

theorem Reads.ifacePair {first second : GoString} {x y : Value χ} (item : Item first)
    (item' : Item second) (reads : Reads env (.iface none) first x)
    (reads' : Reads env (.iface none) second y) :
    Item (108 :: (first ++ second ++ [101])) ∧
      Reads env (.iface none) (108 :: (first ++ second ++ [101]))
        (.iface (some (.slice (.iface none) (some [x, y])))) := by
  let parts : List (GoString × Value χ) := [(first, x), (second, y)]
  have items : ∀ p ∈ parts, Item p.1 :=
    List.forall_mem_cons.mpr ⟨item, List.forall_mem_singleton.mpr item'⟩
  have each : ∀ p ∈ parts, Reads env (.iface none) p.1 p.2 :=
    List.forall_mem_cons.mpr ⟨reads, List.forall_mem_singleton.mpr reads'⟩
  have same : parts.flatMap Prod.fst = first ++ second := by simp [parts]
  constructor
  · have list : Item (108 :: ((parts.map Prod.fst).flatten ++ [101])) := .list (by simpa using items)
    rwa [← List.flatMap_def, same] at list
  · rw [← same]
    exact Reads.ifaceList items each

section Maps

variable {α : Type} {as : List α} {key token : α → GoString} {result : α → Value χ}

/-- A `map[string]interface{}` with these entries. -/
def mapOf (as : List α) (key : α → GoString) (result : α → Value χ) : Value χ :=
  .map (.string []) (.iface none) (some (as.map fun a => (.string (key a), result a)))

section Entries

variable {keyType elem : Value χ} {inner : α → Value χ}

theorem takes_mapEntry {into : Into χ} {before : List α} {a : α}
    (isKey : mapKey env keyType (key a) = (inner a, none))
    (fresh : ∀ b ∈ before, (inner b).sameKey (inner a) = false)
    (takes : Takes into elem (token a) (result a)) :
    Takes (fun d addr v => dictEntry env into d addr v (key a))
      (.map keyType elem (some (before.map fun b => (inner b, result b)))) (token a)
      (.map keyType elem (some ((before ++ [a]).map fun b => (inner b, result b)))) := by
  intro d rest typed input
  obtain ⟨d', decoded, read⟩ := takes d rest typed input
  have new : setMapIndex (before.map fun b => (inner b, result b)) (inner a) (result a) =
      (before ++ [a]).map fun b => (inner b, result b) := by
    rw [setMapIndex, if_neg, List.map_append]
    · rfl
    · simpa using fresh
  refine ⟨d', ?_, read⟩
  simp only [dictEntry, isKey, decoded, Option.getD_some, new]

/-- **The entries of a dictionary are decoded into those of a map.** -/
theorem takes_map
    (target : dictTarget env true (.map keyType elem none) = .ok (.map keyType elem (some [])))
    (short : ∀ a ∈ as, (key a).length < 2 ^ 31) (sorted : as.Pairwise fun a b => ¬ key b < key a)
    (isKey : ∀ a ∈ as, mapKey env keyType (key a) = (inner a, none))
    (distinct : as.Pairwise fun a b => (inner a).sameKey (inner b) = false)
    (each : ∀ a ∈ as, Reads env elem (token a) (result a)) {fuel : Nat}
    (enough : (100 :: (entryBytes key token as ++ [101])).length ≤ fuel) :
    Takes (decodeDictInto env (decodeInto env fuel)) (.map keyType elem none)
      (100 :: (entryBytes key token as ++ [101]))
      (.map keyType elem (some (as.map fun a => (inner a, result a)))) := by
  refine takes_decodeDictInto
    (fun done => .map keyType elem (some (done.map fun a => (inner a, result a)))) target short sorted
    fun before a after split => ?_
  have member : a ∈ as := by rw [split]; simp
  have part := length_le_entryBytes_of_mem key token member
  simp only [List.length_cons, List.length_append] at enough
  rw [split, List.pairwise_append] at distinct
  exact takes_mapEntry (isKey a member)
    (fun b inside => distinct.2.2 b inside a List.mem_cons_self) (each a member fuel (by omega))

end Entries

theorem Reads.ifaceDict (short : ∀ a ∈ as, (key a).length < 2 ^ 31)
    (sorted : as.Pairwise fun a b => ¬ key b < key a) (distinct : (as.map key).Nodup)
    (each : ∀ a ∈ as, Reads env (.iface none) (token a) (result a)) :
    Reads env (.iface none) (100 :: (entryBytes key token as ++ [101]))
      (.iface (some (mapOf as key result))) := by
  refine .of_next ⟨rfl, nofun⟩ fun fuel enough d rest typed input => ?_
  have isKey : ∀ a ∈ as, mapKey env (.string []) (key a) = (.string (key a), none) := fun _ _ => rfl
  have apart : as.Pairwise fun a b => (Value.string (key a) : Value χ).sameKey (.string (key b)) =
      false := (List.pairwise_map.mp distinct).imp fun other => by simpa [Value.sameKey] using other
  obtain ⟨d', decoded, read⟩ :=
    takes_map rfl short sorted isKey apart each enough d rest typed input
  refine ⟨d', ?_, read⟩
  rw [decodeNext_dict env input]
  unfold decodeDict
  rw [typed]
  dsimp only
  rw [decoded]
  rfl

end Maps

/-! ### Structs -/

/-- A field of a struct: what it is before, what is encoded, and what is decoded again. -/
structure FieldPart (χ : Type) where
  field : Field
  zero : Value χ
  value : Value χ
  result : Value χ

namespace FieldPart

def key (p : FieldPart χ) : GoString := p.field.key

/-- The fields have tags, and their keys are different and short. -/
structure Layout (env : Env χ) (parts : List (FieldPart χ)) : Prop where
  tagged : ∀ p ∈ parts, p.field.Tagged env
  distinct : (parts.map key).Nodup
  short : ∀ p ∈ parts, p.key.length < 2 ^ 31

theorem Layout.keyed {parts : List (FieldPart χ)} (layout : Layout env parts) :
    ∀ p ∈ parts, p.field.Keyed env :=
  fun p member => (layout.tagged p member).keyed

/-- **The values of the fields do not matter**, so that those of a sample can be tested. -/
theorem Layout.of_sample (env : Env χ) {parts : List (FieldPart χ)} (sample : List (FieldPart χ))
    (same : parts.map field = sample.map field)
    (fine : (∀ f ∈ sample.map field, f.asciiTagged = true ∧ f.key.length < 2 ^ 31) ∧
      ((sample.map field).map Field.key).Nodup) : Layout env parts := by
  rw [← same, List.map_map] at fine
  exact ⟨fun p member => .of_ascii env (fine.1 _ (List.mem_map_of_mem member)).1, fine.2,
    fun p member => (fine.1 _ (List.mem_map_of_mem member)).2⟩

/-- The struct after the values of some keys were decoded. -/
def state (parts : List (FieldPart χ)) (done : List GoString) : Value χ :=
  .struct (parts.map fun p => (p.field, if p.key ∈ done then p.result else p.zero))

variable {parts : List (FieldPart χ)} {p : FieldPart χ} {into : Into χ}

theorem state_of_not_mem {done : List GoString} {key : GoString}
    (other : ∀ p ∈ parts, p.key ≠ key) :
    parts.map (fun p => (p.field, if p.key ∈ key :: done then p.result else p.zero)) =
      parts.map (fun p => (p.field, if p.key ∈ done then p.result else p.zero)) := by
  refine List.map_congr_left fun p member => ?_
  simp only [List.mem_cons, other p member, false_or]

theorem takes_dictEntry (keyed : ∀ p ∈ parts, p.field.Keyed env)
    (distinct : (parts.map key).Nodup) (member : p ∈ parts) {token : GoString}
    (takes : Takes into p.zero token p.result) {done : List GoString} (fresh : p.key ∉ done) :
    Takes (fun d addr v => dictEntry env into d addr v p.key) (state parts done) token
      (state parts (p.key :: done)) := by
  intro d rest typed input
  obtain ⟨before, after, rfl⟩ := List.append_of_mem member
  obtain ⟨d', decoded, read⟩ := takes d rest typed input
  rw [List.map_append, List.map_cons, List.nodup_append, List.nodup_cons] at distinct
  obtain ⟨_, ⟨notAfter, _⟩, apart⟩ := distinct
  have otherAfter : ∀ q ∈ after, q.key ≠ p.key := fun q inside same =>
    notAfter (same ▸ List.mem_map_of_mem inside)
  have otherBefore : ∀ q ∈ before, q.key ≠ p.key := fun q inside =>
    apart _ (List.mem_map_of_mem inside) _ List.mem_cons_self
  refine ⟨d', ?_, read⟩
  rw [state, state, List.map_append, List.map_cons, List.map_append, List.map_cons,
    state_of_not_mem otherBefore, state_of_not_mem otherAfter, if_neg fresh,
    if_pos List.mem_cons_self]
  have keyed' : ∀ q ∈ before.map (fun p => (p.field, if p.key ∈ done then p.result else p.zero)) ++
      (p.field, p.zero) ::
        after.map (fun p => (p.field, if p.key ∈ done then p.result else p.zero)),
      q.1.Keyed env := by
    simpa [or_imp, forall_and] using keyed
  have last : ∀ q ∈ after.map (fun p => (p.field, if p.key ∈ done then p.result else p.zero)),
      q.1.key ≠ p.field.key := by
    simpa [key] using otherAfter
  have entry := dictEntry_field keyed' last into d true
  rw [decoded] at entry
  exact entry

theorem takes_struct (keyed : ∀ p ∈ parts, p.field.Keyed env) (distinct : (parts.map key).Nodup)
    {dict : List (FieldPart χ)} {token : FieldPart χ → GoString} (sub : ∀ p ∈ dict, p ∈ parts)
    (once : (dict.map key).Nodup) (short : ∀ p ∈ dict, p.key.length < 2 ^ 31)
    (sorted : dict.Pairwise fun p q => ¬ q.key < p.key)
    (each : ∀ p ∈ dict, Takes into p.zero (token p) p.result) :
    Takes (decodeDictInto env into) (.struct (parts.map fun p => (p.field, p.zero)))
      (100 :: (entryBytes key token dict ++ [101])) (state parts (dict.map key).reverse) := by
  have start : dictTarget env true (.struct (parts.map fun p => (p.field, p.zero))) =
      .ok (state parts (([] : List (FieldPart χ)).map key).reverse) := by
    simp [dictTarget, state]
  refine takes_decodeDictInto (fun done => state parts (done.map key).reverse) start short sorted
    fun before p after split => ?_
  have member : p ∈ dict := by rw [split]; simp
  have fresh : p.key ∉ (before.map key).reverse := by
    rw [split, List.map_append, List.map_cons, List.nodup_append] at once
    rw [List.mem_reverse]
    exact fun inside => once.2.2 _ inside _ List.mem_cons_self rfl
  have entry := takes_dictEntry keyed distinct (sub p member) (each p member) fresh
  rwa [List.map_append, List.reverse_append]

end FieldPart

/-! ### Values -/

/-- `v` is encoded as an item, from which `w` is decoded into `z`. -/
def Codes (env : Env χ) (z v w : Value χ) : Prop :=
  ∃ token, encodeValue env {} v = .ok token ∧ Item token ∧ Reads env z token w

theorem Codes.decodeBytes {z v w : Value χ} (codes : Codes env z v w) (plain : valueOf v = v) :
    ∃ token, encodeBytes env v = .ok token ∧ Bencode.decodeBytes env token z = (w, none) := by
  obtain ⟨token, encoded, _, reads⟩ := codes
  exact ⟨token, by rw [encodeBytes, plain, encoded], reads.decodeBytes⟩

section Codes

variable {α : Type} {z : Value χ}

theorem Codes.string {s t : GoString} (short : s.length < 2 ^ 31) :
    Codes env (.string t) (.string s) (.string s) :=
  ⟨_, encodeValue_string env _ s, item_encodeString short, .string ⟨rfl, nofun⟩ short rfl⟩

theorem Codes.int {n m : Int} (low : -2 ^ 63 ≤ n) (high : n < 2 ^ 63) :
    Codes env (.int 64 m) (.int 64 n) (.int 64 n) := by
  refine ⟨_, encodeValue_int env _ 64 n, item_encodeInt n, .int ⟨rfl, nofun⟩ ?_⟩
  have wraps : n.bmod (2 ^ 64) = n := int64_of_range low high
  simp only [storeInt, parseInt_64 low high, wraps, if_true]

theorem Codes.uint {bits n m : Nat} (fits : n < 2 ^ bits) (small : bits ≤ 64) :
    Codes env (.uint bits m) (.uint bits n) (.uint bits n) := by
  have parsed : parseUint (formatInt n) 64 = .ok n := by
    rw [formatInt_natCast]
    exact parseUint_numeral (fits.trans_le (Nat.pow_le_pow_right (by decide) small))
  refine ⟨_, encodeValue_uint env _ bits n, item_encodeInt n, .int ⟨rfl, nofun⟩ ?_⟩
  simp only [storeInt, parsed, Nat.mod_eq_of_lt fits, if_true]

theorem Codes.bool {b c : Bool} : Codes env (.bool c) (.bool b) (.bool b) := by
  refine ⟨_, encodeValue_bool env _ b, item_encodeInt _, .int ⟨rfl, nofun⟩ ?_⟩
  cases b <;> rfl

theorem Codes.named {type : χ} {v w : Value χ} {token : GoString}
    {call : Value χ → GoString → Value χ × Option Fault}
    (marshal : marshalOf env type v = some (.ok token)) (item : Item token)
    (unmarshal : (env.methods type).unmarshalBencode = some call)
    (fine : call z token = (w, none)) :
    Codes env (.named type z) (.named type v) (.named type w) :=
  ⟨token, encodeValue_named marshal, item, .named item unmarshal fine⟩

theorem encodeElems_map {as : List α} {value : α → Value χ} {token : α → GoString}
    (each : ∀ a ∈ as, encodeValue env {} (value a) = .ok (token a)) :
    encodeElems env (as.map value) = .ok (as.flatMap token) := by
  induction as with
  | nil => rfl
  | cons a as ih =>
    obtain ⟨here, later⟩ := List.forall_mem_cons.mp each
    rw [List.map_cons, encodeElems, here, ih later]
    rfl

theorem encodeValue_slice {elems : Option (List α)} {elem : Value χ} {value : α → Value χ}
    {token : α → GoString}
    (encoded : ∀ a ∈ elems.getD [], encodeValue env {} (value a) = .ok (token a)) :
    encodeValue env {} (.slice elem (elems.map fun as => as.map value)) =
      .ok (108 :: (((elems.getD []).map token).flatten ++ [101])) := by
  cases elems with
  | none => rfl
  | some as =>
    rw [Option.getD_some] at encoded
    rw [Option.map_some, encodeValue, encodeElems_map encoded, List.flatMap_def]
    rfl

/-- **The elements of a slice are decoded into those of the result**, which is nil if there are
none. -/
theorem Codes.slice {elems : Option (List α)} {elem : Value χ} {value result : α → Value χ}
    (each : ∀ a ∈ elems.getD [], Codes env z (value a) (result a)) :
    Codes env (.slice z none) (.slice elem (elems.map fun as => as.map value))
      (sliceOf z ((elems.getD []).map result)) := by
  choose! token encoded items reads using each
  refine ⟨_, encodeValue_slice encoded, .list (by simpa using items), ?_⟩
  rw [← List.flatMap_def]
  exact .slice items reads

/-- A slice as it is decoded: nil if it has no elements. -/
def orNil (as : Option (List α)) : Option (List α) :=
  if as.getD [] = [] then none else some (as.getD [])

theorem sliceOf_eq_orNil (z : Value χ) (as : Option (List α)) (result : α → Value χ) :
    sliceOf z ((as.getD []).map result) = .slice z ((orNil as).map fun as => as.map result) := by
  rw [sliceOf_map, orNil]
  split <;> rfl

theorem Codes.sliceOrNil {elems : Option (List α)} {value result : α → Value χ}
    (each : ∀ a ∈ elems.getD [], Codes env z (value a) (result a)) :
    Codes env (.slice z none) (.slice z (elems.map fun as => as.map value))
      (.slice z ((orNil elems).map fun as => as.map result)) := by
  rw [← sliceOf_eq_orNil]
  exact .slice each

theorem isEmptyValue_slice {elems : Option (List α)} {value : α → Value χ} :
    (Value.slice z (elems.map fun as => as.map value)).isEmptyValue = true ↔ elems.getD [] = [] := by
  cases elems with
  | none => exact ⟨fun _ => rfl, fun _ => rfl⟩
  | some as => simp [Value.isEmptyValue]

theorem Codes.raw (env : Env χ) {token : GoString} (item : Item token) (b : Option GoString) :
    Codes env (.raw b) (.raw (some token)) (.raw (some token)) :=
  ⟨token, encodeValue_raw env _ token, item, .raw env item b⟩

/-- A field as it is encoded: left out, or encoded and decoded again. -/
def FieldPart.Fine (env : Env χ) (p : FieldPart χ) : Prop :=
  (fieldKey env p.field p.value = none ∧ p.result = p.zero) ∨
    (fieldKey env p.field p.value = some p.key ∧ Codes env p.zero p.value p.result)

theorem fieldKey_tagged {f : Field} (tagged : f.Tagged env) {v : Value χ}
    (some' : v.isNilValue = false) :
    fieldKey env f v = if optionsContain (parseTag f.tag).2 "omitempty" ∧ v.isEmptyValue then none
      else some f.key := by
  unfold fieldKey
  rw [if_neg (by simp [tagged.exported, some']), if_neg tagged.keyed.tag_ne, if_neg tagged.written]
  dsimp only
  rw [if_pos tagged.valid]
  rfl

theorem FieldPart.Fine.of_tagged {p : FieldPart χ} (tagged : p.field.Tagged env)
    (some' : p.value.isNilValue = false)
    (empty : optionsContain (parseTag p.field.tag).2 "omitempty" = true →
      p.value.isEmptyValue = true → p.result = p.zero)
    (codes : (optionsContain (parseTag p.field.tag).2 "omitempty" = true →
      p.value.isEmptyValue = false) → Codes env p.zero p.value p.result) : p.Fine env := by
  have written := fieldKey_tagged tagged some'
  by_cases left : optionsContain (parseTag p.field.tag).2 "omitempty" = true ∧
      p.value.isEmptyValue = true
  · rw [if_pos left] at written
    exact .inl ⟨written, empty left.1 left.2⟩
  · rw [if_neg left] at written
    refine .inr ⟨written, codes fun option => ?_⟩
    rw [Bool.eq_false_iff]
    exact fun isEmpty => left ⟨option, isEmpty⟩

theorem fieldsZero_map {parts : List (FieldPart χ)} :
    Value.fieldsZero (parts.map fun p => (p.field, p.value)) = true ↔
      ∀ p ∈ parts, p.value.isZero = true := by
  induction parts with
  | nil => simp [Value.fieldsZero]
  | cons p parts ih => rw [List.map_cons, Value.fieldsZero, Bool.and_eq_true, ih, List.forall_mem_cons]

section Fields

variable {f : Field} (tagged : f.Tagged env)

include tagged

theorem FieldPart.Fine.string {s : GoString} (short : s.length < 2 ^ 31) :
    FieldPart.Fine env ⟨f, .string [], .string s, .string s⟩ := by
  refine .of_tagged tagged rfl (fun _ empty => ?_) fun _ => .string short
  rw [List.isEmpty_iff.mp empty]

theorem FieldPart.Fine.int {n : Int} (low : -2 ^ 63 ≤ n) (high : n < 2 ^ 63) :
    FieldPart.Fine env ⟨f, .int 64 0, .int 64 n, .int 64 n⟩ := by
  refine .of_tagged tagged rfl (fun _ empty => ?_) fun _ => .int low high
  rw [eq_of_beq empty]

theorem FieldPart.Fine.uint {bits n : Nat} (fits : n < 2 ^ bits) (small : bits ≤ 64) :
    FieldPart.Fine env ⟨f, .uint bits 0, .uint bits n, .uint bits n⟩ := by
  refine .of_tagged tagged rfl (fun _ empty => ?_) fun _ => .uint fits small
  rw [eq_of_beq empty]

theorem FieldPart.Fine.bool (b : Bool) :
    FieldPart.Fine env ⟨f, .bool false, .bool b, .bool b⟩ := by
  refine .of_tagged tagged rfl (fun _ empty => ?_) fun _ => .bool
  cases b with
  | false => rfl
  | true => cases empty

theorem FieldPart.Fine.slice {elems : Option (List α)} {value result : α → Value χ}
    (each : ∀ a ∈ elems.getD [], Codes env z (value a) (result a)) :
    FieldPart.Fine env ⟨f, .slice z none, .slice z (elems.map fun as => as.map value),
      .slice z ((orNil elems).map fun as => as.map result)⟩ := by
  refine .of_tagged tagged rfl (fun _ empty => ?_) fun _ => .sliceOrNil each
  rw [orNil, if_pos (isEmptyValue_slice.mp empty)]
  rfl

theorem FieldPart.Fine.named {z v w : Value χ} (some' : v.isNilValue = false)
    (full : v.isEmptyValue = false) (codes : Codes env z v w) :
    FieldPart.Fine env ⟨f, z, v, w⟩ := by
  refine .of_tagged tagged some' (fun _ empty => ?_) fun _ => codes
  exact absurd (full.symm.trans empty) (by decide)

/-- A field that is a struct: it is left out if all its fields are zero, and then they are decoded as
they were before. -/
theorem FieldPart.Fine.struct {parts : List (FieldPart χ)}
    (settled : ∀ p ∈ parts, p.value.isZero = true → p.result = p.zero)
    (codes : Codes env (.struct (parts.map fun p => (p.field, p.zero)))
      (.struct (parts.map fun p => (p.field, p.value)))
      (.struct (parts.map fun p => (p.field, p.result)))) :
    FieldPart.Fine env ⟨f, .struct (parts.map fun p => (p.field, p.zero)),
      .struct (parts.map fun p => (p.field, p.value)),
      .struct (parts.map fun p => (p.field, p.result))⟩ := by
  refine .of_tagged tagged rfl (fun _ empty => ?_) fun _ => codes
  have zero := fieldsZero_map.mp empty
  refine congrArg Value.struct (List.map_congr_left fun p member => ?_)
  rw [settled p member (zero p member)]

end Fields

def FieldPart.written (env : Env χ) (parts : List (FieldPart χ)) : List (FieldPart χ) :=
  parts.filter fun p => (fieldKey env p.field p.value).isSome

theorem FieldPart.key_of_keyed {p : FieldPart χ} (keyed : p.field.Keyed env) :
    fieldKey env p.field p.value = none ∨ fieldKey env p.field p.value = some p.key := by
  by_cases nil : p.value.isNilValue = true
  · exact .inl (if_pos (.inr nil))
  by_cases dash : p.field.tag = "-"
  · refine .inl ?_
    unfold fieldKey
    rw [if_neg (by simp [keyed.exported, nil]), if_neg keyed.tag_ne, if_pos dash]
  · rw [fieldKey_tagged ⟨keyed.exported, keyed.own, keyed.valid, dash⟩ (Bool.eq_false_iff.mpr nil)]
    split
    · exact .inl rfl
    · exact .inr rfl

theorem readStruct_parts {parts : List (FieldPart χ)} (keyed : ∀ p ∈ parts, p.field.Keyed env) :
    readStruct env (parts.map fun p => (p.field, p.value)) =
      (FieldPart.written env parts).map fun p => (p.key, encodeValue env {} p.value) := by
  induction parts with
  | nil => rfl
  | cons p parts ih =>
    obtain ⟨tag, keyed⟩ := List.forall_mem_cons.mp keyed
    have later := ih keyed
    unfold FieldPart.written at later ⊢
    rw [List.map_cons, readStruct, later]
    rcases p.key_of_keyed tag with omitted | key
    · rw [List.filter_cons_of_neg (by simp [omitted]), omitted]
      rfl
    · rw [List.filter_cons_of_pos (by simp [key]), key]
      dsimp only
      rw [if_neg (by simp [tag.own])]
      rfl

theorem sequence_map {as : List α} {part : α → Except Fault GoString} {token : α → GoString}
    (each : ∀ a ∈ as, part a = .ok (token a)) : sequence (as.map part) = .ok (as.flatMap token) := by
  induction as with
  | nil => rfl
  | cons a as ih =>
    obtain ⟨here, later⟩ := List.forall_mem_cons.mp each
    have rest := ih later
    unfold sequence at rest ⊢
    rw [List.map_cons, List.foldr_cons, here, rest]
    rfl

theorem pairwise_sortOn (sorter : Lib.KeySorter keyLess) (key : α → GoString) (as : List α) :
    (sorter.sortOn key as).Pairwise fun a b => ¬ key b < key a :=
  (sorter.sorted_sortOn key as).imp of_decide_eq_false

/-- The entries of the dictionary that a struct is encoded as. -/
def FieldPart.dict (env : Env χ) (parts : List (FieldPart χ)) : List (FieldPart χ) :=
  env.sorter.sortOn FieldPart.key (FieldPart.written env parts)

theorem FieldPart.mem_dict {parts : List (FieldPart χ)} {p : FieldPart χ} :
    p ∈ FieldPart.dict env parts ↔ p ∈ parts ∧ (fieldKey env p.field p.value).isSome := by
  rw [dict, (env.sorter.perm_sortOn _ _).mem_iff, written, List.mem_filter]

theorem FieldPart.Layout.short_dict {parts : List (FieldPart χ)} (layout : Layout env parts) :
    ∀ p ∈ FieldPart.dict env parts, p.key.length < 2 ^ 31 :=
  fun p member => layout.short p (mem_dict.mp member).1

theorem FieldPart.nodup_dict {parts : List (FieldPart χ)} (distinct : (parts.map key).Nodup) :
    ((FieldPart.dict env parts).map key).Nodup := by
  have sublist : ((FieldPart.written env parts).map key).Sublist (parts.map key) :=
    List.filter_sublist.map _
  exact ((env.sorter.perm_sortOn _ _).map key).nodup_iff.mpr (distinct.sublist sublist)

/-- **What a struct is encoded as**: the entries of its written fields. -/
theorem encodeValue_struct {parts : List (FieldPart χ)} (keyed : ∀ p ∈ parts, p.field.Keyed env)
    {token : FieldPart χ → GoString}
    (encoded : ∀ p ∈ FieldPart.dict env parts, encodeValue env {} p.value = .ok (token p)) :
    encodeValue env {} (.struct (parts.map fun p => (p.field, p.value))) =
      .ok (100 :: (entryBytes FieldPart.key token (FieldPart.dict env parts) ++ [101])) := by
  have entries : ∀ p ∈ FieldPart.dict env parts,
      (do return encodeString p.key ++ (← encodeValue env {} p.value)) =
        (.ok (encodeString p.key ++ token p) : Except Fault GoString) := by
    intro p member
    rw [encoded p member]
    rfl
  have body := sequence_map entries
  rw [encodeValue, readStruct_parts keyed, env.sorter.sortOn_map, List.map_map]
  dsimp only [Function.comp_def]
  rw [FieldPart.dict] at body
  rw [body]
  rfl

/-- **The fields of a struct are decoded into those of the result.** -/
theorem Codes.struct {parts : List (FieldPart χ)} (keyed : ∀ p ∈ parts, p.field.Keyed env)
    (distinct : (parts.map FieldPart.key).Nodup) (short : ∀ p ∈ parts, p.key.length < 2 ^ 31)
    (fine : ∀ p ∈ parts, p.Fine env) :
    Codes env (.struct (parts.map fun p => (p.field, p.zero)))
      (.struct (parts.map fun p => (p.field, p.value)))
      (.struct (parts.map fun p => (p.field, p.result))) := by
  let dict := FieldPart.dict env parts
  have sub : ∀ p ∈ dict, p ∈ parts := fun p member => (FieldPart.mem_dict.mp member).1
  have codes : ∀ p ∈ dict, Codes env p.zero p.value p.result := by
    intro p member
    obtain ⟨inside, isSome⟩ := FieldPart.mem_dict.mp member
    rcases fine p inside with ⟨omitted, _⟩ | ⟨_, codes⟩
    · rw [omitted] at isSome
      cases isSome
    · exact codes
  choose! token encoded items reads using codes
  have once : (dict.map FieldPart.key).Nodup := FieldPart.nodup_dict distinct
  have shortDict : ∀ p ∈ dict, p.key.length < 2 ^ 31 := fun p member => short p (sub p member)
  have result : FieldPart.state parts (dict.map FieldPart.key).reverse =
      .struct (parts.map fun p => (p.field, p.result)) := by
    unfold FieldPart.state
    congr 1
    refine List.map_congr_left fun p inside => ?_
    by_cases done : p.key ∈ (dict.map FieldPart.key).reverse
    · rw [if_pos done]
    · have notWritten : p ∉ dict := fun member =>
        done (List.mem_reverse.mpr (List.mem_map_of_mem member))
      rw [if_neg done]
      rcases fine p inside with ⟨_, same⟩ | ⟨key, _⟩
      · rw [same]
      · exact absurd (FieldPart.mem_dict.mpr ⟨inside, by rw [key]; rfl⟩) notWritten
  refine ⟨100 :: (entryBytes FieldPart.key token dict ++ [101]), encodeValue_struct keyed encoded,
    item_dict shortDict items, ?_⟩
  refine .of_next ⟨rfl, nofun⟩ fun fuel enough d rest typed input => ?_
  have takes : ∀ p ∈ dict, Takes (decodeInto env fuel) p.zero (token p) p.result := by
    intro p member
    have part := length_le_entryBytes_of_mem FieldPart.key token member
    simp only [List.length_cons, List.length_append] at enough
    exact reads p member fuel (by omega)
  obtain ⟨d', decoded, read⟩ := FieldPart.takes_struct keyed distinct sub once shortDict
    (pairwise_sortOn _ _ _) takes d rest typed input
  refine ⟨d', ?_, read⟩
  rw [decodeNext_dict env input]
  unfold decodeDict
  rw [typed, ← result]
  exact decoded

end Codes

end GoBt.Bencode
