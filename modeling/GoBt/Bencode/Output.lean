/-
**When the output of the encoder is well formed.**

Values of types without methods are encoded into a tree `Out` of what is written. A nil pointer or
interface and an empty `RawMessage` write nothing; the encoder leaves out the key of an entry only if
its value is itself nil, so that a key may stand without a value.

* `written` — what a value writes: nothing or one tree; `Built.writes`: the encoding is its bytes.
* `Out.good` — strings are shorter than 2^31 bytes, and in every dictionary what is written pairs up.
* `encode_wellFormed_iff` — **the output is empty or decoded again exactly if the tree is good.**
-/

import GoBt.Bencode.Accept

namespace GoBt.Bencode

/-! ### What is written -/

/-- What the encoder has written. In a dictionary keys and values stand one after the other. -/
inductive Out
  | text (s : GoString)
  | number (n : Int)
  | raw (token : GoString)
  | list (outs : List Out)
  | dict (outs : List Out)

namespace Out

mutual

def bytes : Out → GoString
  | .text s => encodeString s
  | .number n => encodeInt n
  | .raw token => token
  | .list outs => 108 :: (bytesOf outs ++ [101])
  | .dict outs => 100 :: (bytesOf outs ++ [101])

def bytesOf : List Out → GoString
  | [] => []
  | o :: rest => o.bytes ++ bytesOf rest

end

def isText : Out → Bool
  | .text _ => true
  | .raw token => token.head?.any fun c => decide (IsDigit c)
  | _ => false

mutual

/-- The part can be read: strings are short enough, and the parts of dictionaries pair up. -/
def good : Out → Bool
  | .text s => decide (s.length < 2 ^ 31)
  | .number _ => true
  | .raw _ => true
  | .list outs => goodElems outs
  | .dict outs => goodPairs outs

def goodElems : List Out → Bool
  | [] => true
  | o :: rest => o.good && goodElems rest

/-- Every other part is a string, and there is a value behind each of them. -/
def goodPairs : List Out → Bool
  | [] => true
  | [_] => false
  | key :: value :: rest => key.isText && key.good && value.good && goodPairs rest

end

theorem bytesOf_eq_flatMap (outs : List Out) : bytesOf outs = outs.flatMap bytes := by
  induction outs with
  | nil => rfl
  | cons o rest ih => rw [bytesOf, ih, List.flatMap_cons]

@[simp] theorem bytesOf_append (first second : List Out) :
    bytesOf (first ++ second) = bytesOf first ++ bytesOf second := by
  simp [bytesOf_eq_flatMap]

end Out

section Written

variable (env : Env Empty)

mutual

/-- What a value writes; `direct` as in the mode of the encoder. -/
def written (direct : Bool) : Value Empty → List Out
  | .invalid => []
  | .named type _ => type.elim
  | .ptr _ none => []
  | .ptr _ (some v) => written false v
  | .iface none => []
  | .iface (some v) => written direct v
  | .raw b => if b.getD [] = [] then [] else [.raw (b.getD [])]
  | .int _ n => [.number n]
  | .uint _ n => [.number n]
  | .bool b => [.number (if b then 1 else 0)]
  | .string s => [.text s]
  | .bytes b =>
      if direct then [.text (b.getD [])]
      else [.list ((b.getD []).map fun byte => .number byte.toNat)]
  | .slice _ none => [.list []]
  | .slice _ (some elems) => [.list (writtenElems elems)]
  | .array elems => [.list (writtenElems elems)]
  | .map _ _ none => [.dict []]
  | .map _ _ (some entries) =>
      [.dict ((env.sorter.sortOn Prod.fst (writtenMap entries)).flatMap Prod.snd)]
  | .struct fields =>
      [.dict ((env.sorter.sortOn Prod.fst (writtenStruct fields)).flatMap fun w => .text w.1 :: w.2)]

def writtenElems : List (Value Empty) → List Out
  | [] => []
  | v :: rest => written true v ++ writtenElems rest

/-- The entries of a map, each with the text it is sorted by. -/
def writtenMap : List (Value Empty × Value Empty) → List (GoString × List Out)
  | [] => []
  | (key, v) :: rest =>
      if v.isNilValue then writtenMap rest
      else (keyString key, written true key ++ written true v) :: writtenMap rest

def writtenStruct : List (Field × Value Empty) → List (GoString × List Out)
  | [] => []
  | (f, v) :: rest =>
      let here := match fieldKey env f v with
        | none => []
        | some key =>
            if f.anonymous ∧ v.kind = .struct ∧ f.tag = "" then writtenEmbedded v
            else [(key, written true v)]
      here ++ writtenStruct rest

def writtenEmbedded : Value Empty → List (GoString × List Out)
  | .struct fields => writtenStruct fields
  | .named type _ => type.elim
  | _ => []

end

/-- The values of the program: numbers of 64 bits, and raw messages that are empty or a value. -/
inductive Built : Value Empty → Prop
  | bool (b : Bool) : Built (.bool b)
  | int (bits : Nat) {n : Int} (low : -2 ^ 63 ≤ n) (high : n < 2 ^ 63) : Built (.int bits n)
  | uint (bits : Nat) {n : Nat} (high : n < 2 ^ 63) : Built (.uint bits n)
  | string (s : GoString) : Built (.string s)
  | bytes (b : Option GoString) : Built (.bytes b)
  | raw {b : Option GoString} (fine : b.getD [] = [] ∨ Bencoded (b.getD [])) : Built (.raw b)
  | slice (elem : Value Empty) {elems : Option (List (Value Empty))}
      (each : ∀ v ∈ elems.getD [], Built v) : Built (.slice elem elems)
  | array {elems : List (Value Empty)} (each : ∀ v ∈ elems, Built v) : Built (.array elems)
  | map (key elem : Value Empty) {entries : Option (List (Value Empty × Value Empty))}
      (keys : ∀ e ∈ entries.getD [], Built e.1) (values : ∀ e ∈ entries.getD [], Built e.2) :
      Built (.map key elem entries)
  | iface {held : Option (Value Empty)} (each : ∀ v ∈ held, Built v) : Built (.iface held)
  | ptr (elem : Value Empty) {target : Option (Value Empty)} (each : ∀ v ∈ target, Built v) :
      Built (.ptr elem target)
  | struct {fields : List (Field × Value Empty)} (each : ∀ p ∈ fields, Built p.2) :
      Built (.struct fields)

variable {env}

def encodedEntry (w : GoString × List Out) : GoString × Except Fault GoString :=
  (w.1, .ok (Out.bytesOf w.2))

/-- The value is encoded as what it writes, alone and embedded in a struct. -/
structure Writes (env : Env Empty) (v : Value Empty) : Prop where
  value : ∀ mode, encodeValue env mode v = .ok (Out.bytesOf (written env mode.direct v))
  embedded : readEmbedded env v = (writtenEmbedded env v).map encodedEntry

theorem encodeElems_eq {vs : List (Value Empty)} (each : ∀ v ∈ vs, Writes env v) :
    encodeElems env vs = .ok (Out.bytesOf (writtenElems env vs)) := by
  induction vs with
  | nil => rfl
  | cons v vs ih =>
    obtain ⟨here, later⟩ := List.forall_mem_cons.mp each
    rw [encodeElems, here.value, ih later, writtenElems, Out.bytesOf_append]
    rfl

theorem mapEntries_eq {entries : List (Value Empty × Value Empty)}
    (keys : ∀ e ∈ entries, Writes env e.1) (values : ∀ e ∈ entries, Writes env e.2) :
    mapEntries env entries = (writtenMap env entries).map encodedEntry := by
  induction entries with
  | nil => rfl
  | cons e entries ih =>
    obtain ⟨k, v⟩ := e
    obtain ⟨key, keys⟩ := List.forall_mem_cons.mp keys
    obtain ⟨value, values⟩ := List.forall_mem_cons.mp values
    rw [mapEntries, writtenMap, ih keys values]
    split
    · rfl
    · rw [key.value, value.value, List.map_cons, encodedEntry, Out.bytesOf_append]
      rfl

theorem readStruct_eq {fields : List (Field × Value Empty)}
    (each : ∀ p ∈ fields, Writes env p.2) :
    readStruct env fields = (writtenStruct env fields).map encodedEntry := by
  induction fields with
  | nil => rfl
  | cons p fields ih =>
    obtain ⟨here, later⟩ := List.forall_mem_cons.mp each
    obtain ⟨f, v⟩ := p
    rw [readStruct, writtenStruct, ih later, List.map_append]
    congr 1
    cases fieldKey env f v with
    | none => rfl
    | some key =>
      dsimp only
      split
      · exact here.embedded
      · rw [here.value]
        rfl

theorem sortOn_encoded (ws : List (GoString × List Out)) :
    env.sorter.sortOn Prod.fst (ws.map encodedEntry) =
      (env.sorter.sortOn Prod.fst ws).map encodedEntry :=
  env.sorter.sortOn_map encodedEntry Prod.fst ws

theorem bytesOf_flatMap {α : Type} (as : List α) (part : α → List Out) :
    Out.bytesOf (as.flatMap part) = as.flatMap fun a => Out.bytesOf (part a) := by
  induction as with
  | nil => rfl
  | cons a as ih => rw [List.flatMap_cons, Out.bytesOf_append, ih, List.flatMap_cons]

/-- **A value is encoded as what it writes.** -/
theorem Built.writes {v : Value Empty} (built : Built v) : Writes env v := by
  induction built with
  | bool b | int bits | uint bits | string s =>
    exact ⟨fun mode => by rw [encodeValue, written]; simp [Out.bytesOf, Out.bytes], rfl⟩
  | bytes b =>
    refine ⟨fun mode => ?_, rfl⟩
    rw [encodeValue, written]
    split
    · simp [Out.bytesOf, Out.bytes]
    · simp [Out.bytesOf, Out.bytes, Out.bytesOf_eq_flatMap, List.flatMap_map]
  | @raw b =>
    refine ⟨fun mode => ?_, rfl⟩
    rw [encodeValue, written]
    split
    · rename_i empty
      rw [empty]
      rfl
    · simp [Out.bytesOf, Out.bytes]
  | @slice elem elems each ih =>
    refine ⟨fun mode => ?_, rfl⟩
    cases elems with
    | none => rfl
    | some elems =>
      rw [Option.getD_some] at ih
      rw [encodeValue, encodeElems_eq ih, written]
      simp [Out.bytesOf, Out.bytes]
  | @array elems each ih =>
    refine ⟨fun mode => ?_, rfl⟩
    rw [encodeValue, encodeElems_eq ih, written]
    simp [Out.bytesOf, Out.bytes]
  | @map key elem entries keys values ihKeys ihValues =>
    refine ⟨fun mode => ?_, rfl⟩
    cases entries with
    | none => rfl
    | some entries =>
      rw [Option.getD_some] at ihKeys ihValues
      have parts : ∀ ws : List (GoString × List Out),
          sequence (ws.map (Prod.snd ∘ encodedEntry)) =
            .ok (ws.flatMap fun w => Out.bytesOf w.2) :=
        fun ws => sequence_map fun _ _ => rfl
      rw [encodeValue, mapEntries_eq ihKeys ihValues, sortOn_encoded, List.map_map, parts,
        written, Out.bytesOf, Out.bytes, bytesOf_flatMap, Out.bytesOf, List.append_nil]
      rfl
  | @iface held each ih =>
    refine ⟨fun mode => ?_, rfl⟩
    cases held with
    | none => rfl
    | some v => rw [encodeValue, (ih v rfl).value, written]
  | @ptr elem target each ih =>
    refine ⟨fun mode => ?_, rfl⟩
    cases target with
    | none =>
      cases elem with
      | named type => exact type.elim
      | _ => rfl
    | some v =>
      rw [encodeValue, (ih v rfl).value, written]
      exact fun type => type.elim
  | @struct fields each ih =>
    have entries := readStruct_eq ih
    refine ⟨fun mode => ?_, entries⟩
    have parts : ∀ ws : List (GoString × List Out),
        sequence (ws.map ((fun e : GoString × Except Fault GoString => do
          let value ← e.2
          pure (encodeString e.1 ++ value)) ∘ encodedEntry)) =
            .ok (ws.flatMap fun w => encodeString w.1 ++ Out.bytesOf w.2) :=
      fun ws => sequence_map fun _ _ => rfl
    rw [encodeValue]
    dsimp only
    rw [entries, sortOn_encoded, List.map_map, parts, written, Out.bytesOf, Out.bytes,
      bytesOf_flatMap, Out.bytesOf, List.append_nil]
    rfl

/-! ### Numbers and raw messages -/

/-- The numbers of a part have 64 bits, and its raw messages are values. -/
inductive Out.Fine : Out → Prop
  | text (s : GoString) : Fine (.text s)
  | number {n : Int} (low : -2 ^ 63 ≤ n) (high : n < 2 ^ 63) : Fine (.number n)
  | raw {token : GoString} (bencoded : Bencoded token) : Fine (.raw token)
  | list {outs : List Out} (each : ∀ o ∈ outs, Fine o) : Fine (.list outs)
  | dict {outs : List Out} (each : ∀ o ∈ outs, Fine o) : Fine (.dict outs)

/-- What a value writes is fine, alone and embedded in a struct. -/
structure WritesFine (env : Env Empty) (v : Value Empty) : Prop where
  value : ∀ direct, ∀ o ∈ written env direct v, o.Fine
  embedded : ∀ w ∈ writtenEmbedded env v, ∀ o ∈ w.2, o.Fine

theorem writtenElems_fine {vs : List (Value Empty)} (each : ∀ v ∈ vs, WritesFine env v) :
    ∀ o ∈ writtenElems env vs, o.Fine := by
  induction vs with
  | nil => exact fun o member => absurd member List.not_mem_nil
  | cons v vs ih =>
    obtain ⟨here, later⟩ := List.forall_mem_cons.mp each
    rw [writtenElems]
    exact List.forall_mem_append.mpr ⟨here.value true, ih later⟩

theorem writtenMap_fine {entries : List (Value Empty × Value Empty)}
    (keys : ∀ e ∈ entries, WritesFine env e.1) (values : ∀ e ∈ entries, WritesFine env e.2) :
    ∀ w ∈ writtenMap env entries, ∀ o ∈ w.2, o.Fine := by
  induction entries with
  | nil => exact fun w member => absurd member List.not_mem_nil
  | cons e entries ih =>
    obtain ⟨k, v⟩ := e
    obtain ⟨key, keys⟩ := List.forall_mem_cons.mp keys
    obtain ⟨value, values⟩ := List.forall_mem_cons.mp values
    rw [writtenMap]
    split
    · exact ih keys values
    · refine List.forall_mem_cons.mpr ⟨?_, ih keys values⟩
      exact List.forall_mem_append.mpr ⟨key.value true, value.value true⟩

theorem writtenStruct_fine {fields : List (Field × Value Empty)}
    (each : ∀ p ∈ fields, WritesFine env p.2) :
    ∀ w ∈ writtenStruct env fields, ∀ o ∈ w.2, o.Fine := by
  induction fields with
  | nil => exact fun w member => absurd member List.not_mem_nil
  | cons p fields ih =>
    obtain ⟨f, v⟩ := p
    obtain ⟨here, later⟩ := List.forall_mem_cons.mp each
    rw [writtenStruct]
    refine List.forall_mem_append.mpr ⟨?_, ih later⟩
    cases fieldKey env f v with
    | none => exact fun w member => absurd member List.not_mem_nil
    | some key =>
      dsimp only
      split
      · exact here.embedded
      · exact List.forall_mem_singleton.mpr (here.value true)

theorem Built.fine {v : Value Empty} (built : Built v) : WritesFine env v := by
  have noEntries : ∀ w ∈ ([] : List (GoString × List Out)), ∀ o ∈ w.2, o.Fine :=
    fun w member => absurd member List.not_mem_nil
  have noOuts : ∀ o ∈ ([] : List Out), o.Fine := fun o member => absurd member List.not_mem_nil
  have one : ∀ {o : Out}, o.Fine → ∀ o' ∈ [o], o'.Fine := fun fine =>
    List.forall_mem_singleton.mpr fine
  induction built with
  | bool b =>
    refine ⟨fun direct => ?_, noEntries⟩
    rw [written]
    cases b with
    | false | true => exact one (.number (by decide) (by decide))
  | int bits low high =>
    refine ⟨fun direct => ?_, noEntries⟩
    rw [written]
    exact one (.number low high)
  | uint bits high =>
    refine ⟨fun direct => ?_, noEntries⟩
    rw [written]
    exact one (.number (by omega) (by omega))
  | string s =>
    refine ⟨fun direct => ?_, noEntries⟩
    rw [written]
    exact one (.text s)
  | bytes b =>
    refine ⟨fun direct => ?_, noEntries⟩
    rw [written]
    split
    · exact one (.text _)
    · refine one (.list fun o member => ?_)
      obtain ⟨byte, _, rfl⟩ := List.mem_map.mp member
      have small := byte.toNat_lt
      exact .number (by omega) (by omega)
  | raw fine =>
    refine ⟨fun direct => ?_, noEntries⟩
    rw [written]
    split
    · exact noOuts
    · rename_i some'
      exact one (.raw (fine.resolve_left some'))
  | @slice elem elems each ih =>
    refine ⟨fun direct => ?_, noEntries⟩
    cases elems with
    | none => exact one (.list noOuts)
    | some elems =>
      rw [written]
      exact one (.list (writtenElems_fine ih))
  | array each ih =>
    refine ⟨fun direct => ?_, noEntries⟩
    rw [written]
    exact one (.list (writtenElems_fine ih))
  | @map key elem entries keys values ihKeys ihValues =>
    refine ⟨fun direct => ?_, noEntries⟩
    cases entries with
    | none => exact one (.dict noOuts)
    | some entries =>
      rw [written]
      refine one (.dict fun o member => ?_)
      obtain ⟨w, inside, part⟩ := List.mem_flatMap.mp member
      exact writtenMap_fine ihKeys ihValues w ((env.sorter.perm_sortOn _ _).mem_iff.mp inside) o part
  | @iface held each ih =>
    refine ⟨fun direct => ?_, noEntries⟩
    cases held with
    | none => exact noOuts
    | some v =>
      rw [written]
      exact (ih v rfl).value direct
  | @ptr elem target each ih =>
    refine ⟨fun direct => ?_, noEntries⟩
    cases target with
    | none => exact noOuts
    | some v =>
      rw [written]
      exact (ih v rfl).value false
  | struct each ih =>
    refine ⟨fun direct => ?_, writtenStruct_fine ih⟩
    rw [written]
    refine one (.dict fun o member => ?_)
    obtain ⟨w, inside, part⟩ := List.mem_flatMap.mp member
    rcases List.mem_cons.mp part with rfl | part
    · exact .text _
    · exact writtenStruct_fine ih w ((env.sorter.perm_sortOn _ _).mem_iff.mp inside) o part

theorem Built.written_cases {v : Value Empty} (built : Built v) (direct : Bool) :
    written env direct v = [] ∨ ∃ o, written env direct v = [o] := by
  induction built generalizing direct with
  | bool | int | uint | string | array | struct =>
    rw [written]
    exact .inr ⟨_, rfl⟩
  | bytes b =>
    rw [written]
    split <;> exact .inr ⟨_, rfl⟩
  | raw fine =>
    rw [written]
    split
    · exact .inl rfl
    · exact .inr ⟨_, rfl⟩
  | @slice elem elems =>
    cases elems <;> rw [written] <;> exact .inr ⟨_, rfl⟩
  | @map key elem entries =>
    cases entries <;> rw [written] <;> exact .inr ⟨_, rfl⟩
  | @iface held each ih =>
    cases held with
    | none => exact .inl (by rw [written])
    | some v =>
      rw [written]
      exact ih v rfl direct
  | @ptr elem target each ih =>
    cases target with
    | none => exact .inl (by rw [written])
    | some v =>
      rw [written]
      exact ih v rfl false

end Written

/-! ### Good parts can be read -/

theorem encodeString_head (s : GoString) :
    ∃ c tail, encodeString s = c :: tail ∧ IsDigit c := by
  obtain ⟨c, first, digit⟩ := digit_encodeString s
  obtain ⟨tail, eq⟩ := List.head?_eq_some_iff.mp first
  exact ⟨c, tail, eq, digit⟩

theorem Bencoded.isString {token : GoString} (bencoded : Bencoded token)
    (digit : token.head?.any (fun c => decide (IsDigit c)) = true) : ∃ s, StringToken token s := by
  cases bencoded with
  | int => exact absurd digit (by simp [IsDigit])
  | string isString _ => exact ⟨_, isString⟩
  | list | dict => exact absurd digit (by simp [IsDigit])

namespace Out

theorem goodElems_iff {outs : List Out} : goodElems outs = true ↔ ∀ o ∈ outs, o.good = true := by
  induction outs with
  | nil => simp [goodElems]
  | cons o outs ih => rw [goodElems, Bool.and_eq_true, ih, List.forall_mem_cons]

theorem Fine.isString {o : Out} (fine : o.Fine) (text : o.isText = true) (good : o.good = true) :
    ∃ s, StringToken o.bytes s := by
  cases fine with
  | text s =>
    have short : s.length < 2 ^ 31 := by simpa [Out.good] using good
    exact ⟨s, stringToken_encodeString short⟩
  | raw bencoded => exact bencoded.isString text
  | number => cases text
  | list => cases text
  | dict => cases text

theorem entries_of_goodPairs : ∀ outs : List Out, (∀ o ∈ outs, o.Fine) →
    (∀ o ∈ outs, o.good = true → Bencoded o.bytes) → goodPairs outs = true →
    ∃ entries : List Entry, (∀ e ∈ entries, StringToken e.keyToken e.key) ∧
      (∀ e ∈ entries, Bencoded e.value) ∧ bytesOf outs = entries.flatMap Entry.bytes
  | [], _, _, _ => ⟨[], by simp, by simp, rfl⟩
  | [_], _, _, good => by cases good
  | key :: value :: rest, fine, each, good => by
    obtain ⟨fineKey, fine⟩ := List.forall_mem_cons.mp fine
    obtain ⟨_, fine⟩ := List.forall_mem_cons.mp fine
    obtain ⟨_, each⟩ := List.forall_mem_cons.mp each
    obtain ⟨readValue, each⟩ := List.forall_mem_cons.mp each
    simp only [goodPairs, Bool.and_eq_true] at good
    obtain ⟨⟨⟨text, goodKey⟩, goodValue⟩, goodRest⟩ := good
    obtain ⟨s, isString⟩ := fineKey.isString text goodKey
    obtain ⟨entries, keys, values, same⟩ := entries_of_goodPairs rest fine each goodRest
    refine ⟨⟨key.bytes, s, value.bytes⟩ :: entries, List.forall_mem_cons.mpr ⟨isString, keys⟩,
      List.forall_mem_cons.mpr ⟨readValue goodValue, values⟩, ?_⟩
    rw [bytesOf, bytesOf, same, List.flatMap_cons, Entry.bytes, List.append_assoc]

/-- **A good part is a value of the format.** -/
theorem Fine.bencoded {o : Out} (fine : o.Fine) (good : o.good = true) : Bencoded o.bytes := by
  induction fine with
  | text s =>
    have short : s.length < 2 ^ 31 := by simpa [Out.good] using good
    obtain ⟨c, tail, eq, digit⟩ := encodeString_head s
    refine .string (stringToken_encodeString short) ⟨c, ?_, digit⟩
    rw [bytes, eq]
    rfl
  | @number n low high => exact .int (not_mem_formatInt n) (parseInt_64 low high)
  | raw bencoded => exact bencoded
  | @list outs each ih =>
    have all := goodElems_iff.mp good
    rw [bytes, bytesOf_eq_flatMap, List.flatMap_def]
    refine .list fun item member => ?_
    obtain ⟨o, inside, rfl⟩ := List.mem_map.mp member
    exact ih o inside (all o inside)
  | @dict outs each ih =>
    obtain ⟨entries, keys, values, same⟩ := entries_of_goodPairs outs each ih good
    rw [bytes, same]
    exact .dict keys values

/-! ### Other parts cannot be read -/

theorem Fine.head {o : Out} (fine : o.Fine) : ∃ c tail, o.bytes = c :: tail ∧ c ≠ 101 := by
  cases fine with
  | text s =>
    obtain ⟨c, tail, eq, digit⟩ := encodeString_head s
    refine ⟨c, tail, eq, ?_⟩
    rintro rfl
    exact absurd digit (by decide)
  | number => exact ⟨_, _, rfl, by decide⟩
  | raw bencoded => exact bencoded.item.head
  | list | dict => exact ⟨_, _, rfl, by decide⟩

theorem noString_of_bad {o : Out} (fine : o.Fine) (bad : ¬ (o.isText = true ∧ o.good = true))
    (rest : GoString) : NoString (o.bytes ++ rest) := by
  cases fine with
  | text s =>
    have long : 2 ^ 31 ≤ s.length := by simpa [isText, Out.good] using bad
    exact .of_long long rest
  | number | list | dict => exact .of_head (by decide) (by decide) (by decide)
  | raw bencoded =>
    cases bencoded with
    | int | list | dict => exact .of_head (by decide) (by decide) (by decide)
    | string isString digit =>
      obtain ⟨c, first, isDigit⟩ := digit
      refine absurd ⟨?_, rfl⟩ bad
      rw [isText, Option.mem_def.mp first]
      simpa using isDigit

theorem noElems_of_bad {outs : List Out} (fine : ∀ o ∈ outs, o.Fine)
    (each : ∀ o ∈ outs, o.good = false → ∀ rest, NoItem (o.bytes ++ rest))
    (bad : goodElems outs = false) (rest : GoString) : NoElems (bytesOf outs ++ 101 :: rest) := by
  induction outs with
  | nil => cases bad
  | cons o outs ih =>
    obtain ⟨fineHere, fine⟩ := List.forall_mem_cons.mp fine
    obtain ⟨here, each⟩ := List.forall_mem_cons.mp each
    rw [bytesOf, List.append_assoc]
    cases good : o.good with
    | true =>
      rw [goodElems, good, Bool.true_and] at bad
      exact .cons (fineHere.bencoded good).item (ih fine each bad)
    | false =>
      obtain ⟨c, tail, eq, other⟩ := fineHere.head
      have noItem := here good (bytesOf outs ++ 101 :: rest)
      rw [eq] at noItem ⊢
      exact .of_noItem other noItem

theorem noEntries_of_bad : ∀ outs : List Out, (∀ o ∈ outs, o.Fine) →
    (∀ o ∈ outs, o.good = false → ∀ rest, NoItem (o.bytes ++ rest)) → goodPairs outs = false →
    ∀ rest, NoEntries (bytesOf outs ++ 101 :: rest)
  | [], _, _, bad, _ => by cases bad
  | key :: rest, fine, each, bad, more => by
    obtain ⟨fineKey, fine⟩ := List.forall_mem_cons.mp fine
    obtain ⟨_, each⟩ := List.forall_mem_cons.mp each
    rw [bytesOf, List.append_assoc]
    by_cases isKey : key.isText = true ∧ key.good = true
    · obtain ⟨s, isString⟩ := fineKey.isString isKey.1 isKey.2
      match rest with
      | [] => exact .of_noItem isString (.of_end more)
      | value :: rest =>
        obtain ⟨fineValue, fine⟩ := List.forall_mem_cons.mp fine
        obtain ⟨here, each⟩ := List.forall_mem_cons.mp each
        rw [bytesOf, List.append_assoc]
        cases good : value.good with
        | false => exact .of_noItem isString (here good _)
        | true =>
          rw [goodPairs, isKey.1, isKey.2, good, Bool.true_and, Bool.true_and,
            Bool.true_and] at bad
          exact .cons isString (fineValue.bencoded good).item
            (noEntries_of_bad rest fine each bad more)
    · obtain ⟨c, tail, eq, other⟩ := fineKey.head
      have noString := noString_of_bad fineKey isKey (bytesOf rest ++ 101 :: more)
      rw [eq] at noString ⊢
      exact .of_noString other noString

/-- **A part that is not good cannot be read**, whatever stands behind it. -/
theorem Fine.noItem {o : Out} (fine : o.Fine) (bad : o.good = false) (rest : GoString) :
    NoItem (o.bytes ++ rest) := by
  induction fine generalizing rest with
  | text s =>
    have long : 2 ^ 31 ≤ s.length := by simpa [Out.good] using bad
    have noString := NoString.of_long long rest
    obtain ⟨c, tail, eq, digit⟩ := encodeString_head s
    rw [bytes]
    rw [eq] at noString ⊢
    exact .of_noString digit noString
  | number => cases bad
  | raw => cases bad
  | @list outs each ih =>
    have noElems := noElems_of_bad each ih bad rest
    rw [bytes, List.cons_append, List.append_assoc]
    exact .list noElems
  | @dict outs each ih =>
    have noEntries := noEntries_of_bad outs each ih bad rest
    rw [bytes, List.cons_append, List.append_assoc]
    exact .dict noEntries

end Out

/-! ### The output of the encoder -/

/-- Decoding the bytes into a nil `interface{}` succeeds and consumes all of them. -/
def DecodesWhole (b : GoString) : Prop :=
  ∃ d w, decode ({ methods := nofun } : Env Empty) { r := b } (.iface none) = (d, w, none) ∧
    d.r = []

theorem Bencoded.decodesWhole {b : GoString} (bencoded : Bencoded b) : DecodesWhole b := by
  obtain ⟨d, w, decoded, read, _⟩ := bencoded.accepted (by omega : b.length < b.length + 2)
    { r := b } [] rfl rfl (List.append_nil b).symm
  exact ⟨d, w, decoded, read.rest_eq (List.append_nil b).symm⟩

theorem Built.decodesWhole_iff {env : Env Empty} {v : Value Empty} (built : Built v) :
    (Out.bytesOf (written env true v) = [] ∨ DecodesWhole (Out.bytesOf (written env true v))) ↔
      ∀ o ∈ written env true v, o.good = true := by
  have fine : ∀ o ∈ written env true v, o.Fine := built.fine.value true
  rcases built.written_cases true with nothing | ⟨o, one⟩
  · rw [nothing]
    exact ⟨fun _ o member => absurd member List.not_mem_nil, fun _ => .inl rfl⟩
  · rw [one] at fine ⊢
    have fineHere := List.forall_mem_singleton.mp fine
    rw [List.forall_mem_singleton, Out.bytesOf, Out.bytesOf, List.append_nil]
    constructor
    · rintro (empty | ⟨d, w, decoded, _⟩)
      · obtain ⟨c, tail, eq, _⟩ := fineHere.head
        rw [eq] at empty
        cases empty
      · by_contra bad
        have noItem := fineHere.noItem (Bool.eq_false_iff.mpr bad) []
        rw [List.append_nil] at noItem
        exact decode_of_noItem noItem nofun rfl decoded rfl
    · exact fun good => .inr (fineHere.bencoded good).decodesWhole

/-- A value is encoded without an error, unless it is the nil interface: reflection has no value of
that. -/
theorem Built.encodeBytes_eq {env : Env Empty} {v : Value Empty} (built : Built v)
    (given : v ≠ .iface none) : encodeBytes env v = .ok (Out.bytesOf (written env true v)) := by
  cases built with
  | @iface held each =>
    cases held with
    | none => exact absurd rfl given
    | some u =>
      rw [written]
      exact (each u rfl).writes.value {}
  | bool b => exact (Built.bool b).writes.value {}
  | int bits low high => exact (Built.int bits low high).writes.value {}
  | uint bits high => exact (Built.uint bits high).writes.value {}
  | string s => exact (Built.string s).writes.value {}
  | bytes b => exact (Built.bytes b).writes.value {}
  | raw fine => exact (Built.raw fine).writes.value {}
  | slice elem each => exact (Built.slice elem each).writes.value {}
  | array each => exact (Built.array each).writes.value {}
  | map key elem keys values => exact (Built.map key elem keys values).writes.value {}
  | ptr elem each => exact (Built.ptr elem each).writes.value {}
  | struct each => exact (Built.struct each).writes.value {}

/-- **The encoder's output is well formed exactly if what it writes is good.** Every value but the nil
interface is encoded without an error; the output is empty or one value of the format, which is
decoded and consumed as a whole, if and only if the strings in it are shorter than 2^31 bytes and, in
every dictionary, the keys and the values that write something pair up. -/
theorem encode_wellFormed_iff (env : Env Empty) {v : Value Empty} (built : Built v) :
    (v ≠ .iface none → ∃ b, encodeBytes env v = .ok b) ∧
      ∀ b, encodeBytes env v = .ok b →
        ((b = [] ∨ DecodesWhole b) ↔ ∀ o ∈ written env true v, o.good = true) := by
  refine ⟨fun given => ⟨_, built.encodeBytes_eq given⟩, fun b encoded => ?_⟩
  have given : v ≠ .iface none := by
    rintro rfl
    cases encoded
  have same := (built.encodeBytes_eq given).symm.trans encoded
  cases same
  exact built.decodesWhole_iff

/-- Nil values are left out of maps: `map[string]interface{}{"a": nil, "b": 1}`. -/
theorem encode_wellFormed_of_dropped :
    let v : Value Empty := .map (.string []) (.iface none)
      (some [(.string [97], .iface none), (.string [98], .iface (some (.int 64 1)))])
    Built v ∧ ∃ b, encodeBytes { methods := nofun } v = .ok b ∧ (b = [] ∨ DecodesWhole b) := by
  intro v
  have one : Built (.int 64 1) := .int 64 (by decide) (by decide)
  have built : Built v := by
    refine .map _ _ ?_ ?_
    · exact List.forall_mem_cons.mpr ⟨.string _, List.forall_mem_singleton.mpr (.string _)⟩
    · refine List.forall_mem_cons.mpr ⟨.iface nofun, List.forall_mem_singleton.mpr (.iface ?_)⟩
      rintro u ⟨⟩
      exact one
  obtain ⟨encodes, wellFormed⟩ := encode_wellFormed_iff { methods := nofun } built
  obtain ⟨b, encoded⟩ := encodes (by simp [v])
  exact ⟨built, b, encoded, (wellFormed b encoded).mpr (by decide)⟩

/-- A nil pointer that an interface holds is not left out: `map[string]interface{}{"a": (*int)(nil)}`
is encoded as `d1:ae`, which cannot be decoded. -/
theorem encode_nil_pointer_in_interface :
    let v : Value Empty := .map (.string []) (.iface none)
      (some [(.string [97], .iface (some (.ptr (.int 64 0) none)))])
    Built v ∧ encodeBytes { methods := nofun } v = .ok [100, 49, 58, 97, 101] ∧
      ¬ DecodesWhole [100, 49, 58, 97, 101] := by
  refine ⟨?_, rfl, ?_⟩
  · refine .map _ _ (List.forall_mem_singleton.mpr (.string _)) (List.forall_mem_singleton.mpr ?_)
    refine .iface ?_
    rintro u ⟨⟩
    exact .ptr _ nofun
  · rintro ⟨d, w, decoded, _⟩
    have fails : (decode ({ methods := nofun } : Env Empty) { r := [100, 49, 58, 97, 101] }
        (.iface none)).2.2 ≠ none := by decide +kernel
    exact fails (by rw [decoded])

end GoBt.Bencode
