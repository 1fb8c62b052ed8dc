/-
**Decoding keeps the type of a value.**

* `decodeNext_ok`, `decodeListInto_ok`, `decodeDictInto_ok` — what happened if decoding succeeded.
* `Keeps env P` — whatever is decoded into a value with `P`, it has `P` again. A rule for strings,
  integers, slices and types with methods.
* `Held`, `decodeInto_iface` — **what is decoded into an interface** is a value of the format, and the
  interface holds integers within 64 bits, strings shorter than 2^31 bytes, lists of such, or a map.
* `decodeInto_struct` — **the fields of a struct**, each with a property that may depend on the entries
  read so far.
-/

import GoBt.Bencode.RoundTrip

namespace GoBt.Bencode

variable {χ : Type} {env : Env χ}

/-! ### What happened if decoding succeeded -/

section Inversion

variable {into : Into χ} {d d' : Decoder} {addr : Bool} {v w : Value χ}

theorem decodeNext_ok (typed : d.raw = false)
    (decoded : decodeNext env into d addr v = (d', w, none)) :
    (∃ digits, storeInt digits addr v = (w, none)) ∨
      (∃ token s, StringToken token s ∧ storeString s addr v = (w, none)) ∨
      decodeList into d addr v = (d', w, none) ∨ decodeDict env into d addr v = (d', w, none) := by
  obtain ⟨digits, _, _, stored⟩ | ⟨token, s, token', _, _, stored⟩ | list | dict :=
    decodeNext_cases decoded
  · exact .inl ⟨digits, stored typed⟩
  · exact .inr (.inl ⟨token, s, token', stored typed⟩)
  · exact .inr (.inr (.inl list))
  · exact .inr (.inr (.inr dict))

theorem decodeListInto_ok (typed : d.raw = false)
    (decoded : decodeListInto into d addr v = (d', w, none)) :
    (v.kind = .array ∨ v.kind = .slice) ∧ ∃ rest, d.r = 108 :: rest ∧
      listLoop into addr (rest.length + 1) (d.took [108] rest) v 0 = (d', w, none) := by
  obtain ⟨rest, input, ⟨raw, _⟩ | ⟨_, kind, loop⟩⟩ := decodeListInto_cases decoded
  · rw [typed] at raw
    cases raw
  · exact ⟨kind, rest, input, loop⟩

theorem decodeDictInto_ok (typed : d.raw = false)
    (decoded : decodeDictInto env into d addr v = (d', w, none)) :
    ∃ rest v', d.r = 100 :: rest ∧ dictTarget env addr v = .ok v' ∧
      dictLoop env into addr (rest.length + 1) (d.took [100] rest) v' none = (d', w, none) := by
  obtain ⟨rest, input, ⟨raw, _⟩ | ⟨_, v', target, loop⟩⟩ := decodeDictInto_cases decoded
  · rw [typed] at raw
    cases raw
  · exact ⟨rest, v', input, target, loop⟩

theorem decodeList_ne_ok (typed : d.raw = false) (array : v.kind ≠ .array) (slice : v.kind ≠ .slice)
    (interface : v.kind ≠ .interface) : decodeList into d addr v ≠ (d', w, none) := by
  intro decoded
  unfold decodeList at decoded
  split at decoded
  · exact interface rfl
  · rcases (decodeListInto_ok typed decoded).1 with kind | kind
    · exact array kind
    · exact slice kind

theorem decodeDict_ne_ok (typed : d.raw = false) (target : ∀ v', dictTarget env addr v ≠ .ok v')
    (interface : v.kind ≠ .interface) : decodeDict env into d addr v ≠ (d', w, none) := by
  intro decoded
  unfold decodeDict at decoded
  split at decoded
  · exact interface rfl
  · obtain ⟨_, v', _, found, _⟩ := decodeDictInto_ok typed decoded
    exact target v' found

theorem StringToken.short {token s : GoString} (isString : StringToken token s) :
    s.length < 2 ^ 31 := by
  obtain ⟨_, _, _, parsed⟩ := isString
  have range := (parseInt_range parsed).2
  norm_num at range
  omega

end Inversion

/-! ### Properties that decoding keeps -/

/-- Whatever is decoded into a value with the property, it has the property again. -/
def Keeps (env : Env χ) (P : Value χ → Prop) : Prop :=
  ∀ (fuel : Nat) (d d' : Decoder) (v w : Value χ), P v → d.raw = false →
    decodeInto env fuel d true v = (d', w, none) → P w

theorem Keeps.of_next {P : Value χ → Prop} (plain : ∀ v, P v → Plain env v)
    (next : ∀ (fuel : Nat) (d d' : Decoder) (v w : Value χ), P v → d.raw = false →
      decodeNext env (decodeInto env fuel) d true v = (d', w, none) → P w) : Keeps env P := by
  intro fuel d d' v w start typed decoded
  cases fuel with
  | zero => cases decoded
  | succ fuel =>
    rw [decodeInto_plain (plain v start) fuel typed] at decoded
    exact next fuel d d' v w start typed decoded

def ShortString (v : Value χ) : Prop := ∃ s, v = .string s ∧ s.length < 2 ^ 31

theorem keeps_string (env : Env χ) : Keeps env ShortString := by
  refine .of_next ?_ ?_
  · rintro _ ⟨s, rfl, _⟩
    exact ⟨rfl, nofun⟩
  · rintro fuel d d' _ w ⟨s, rfl, _⟩ typed decoded
    rcases decodeNext_ok typed decoded with ⟨_, stored⟩ | ⟨token, t, token', stored⟩ | list | dict
    · cases stored
    · cases stored
      exact ⟨t, rfl, token'.short⟩
    · exact absurd list (decodeList_ne_ok typed nofun nofun nofun)
    · exact absurd dict (decodeDict_ne_ok typed nofun nofun)

def Int64Value (v : Value χ) : Prop := ∃ n : Int, v = .int 64 n ∧ -2 ^ 63 ≤ n ∧ n < 2 ^ 63

theorem keeps_int (env : Env χ) : Keeps env Int64Value := by
  refine .of_next ?_ ?_
  · rintro _ ⟨n, rfl, _⟩
    exact ⟨rfl, by simp⟩
  · rintro fuel d d' _ w ⟨n, rfl, _⟩ typed decoded
    rcases decodeNext_ok typed decoded with ⟨digits, stored⟩ | ⟨_, _, _, stored⟩ | list | dict
    · simp only [storeInt, if_true] at stored
      split at stored
      · cases stored
      · rename_i m parsed
        obtain ⟨low, high⟩ := parseInt_range parsed
        cases stored
        have wraps : m.bmod (2 ^ 64) = m := int64_of_range low high
        exact ⟨m, by rw [wraps], low, high⟩
    · cases stored
    · exact absurd list (decodeList_ne_ok typed (by simp [Value.kind]) (by simp [Value.kind])
        (by simp [Value.kind]))
    · exact absurd dict (decodeDict_ne_ok typed (by simp [dictTarget]) (by simp [Value.kind]))

/-- A slice whose elements have a property. -/
def SliceOf (z : Value χ) (P : Value χ → Prop) (v : Value χ) : Prop :=
  ∃ elems, v = .slice z elems ∧ ∀ x ∈ elems.getD [], P x

theorem Value.elemAddr_true (v : Value χ) : v.elemAddr true = true := by
  cases v <;> rfl

theorem SliceOf.step {z v v' x x' : Value χ} {P : Value χ → Prop} {i : Nat} (zero : P z)
    (start : SliceOf z P v) (grown : (if v.len ≤ i then v.grow true else some v) = some v')
    (found : v'.index i = some x) :
    P x ∧ (P x' → SliceOf z P (v'.setIndex i x')) := by
  obtain ⟨elems, rfl, each⟩ := start
  obtain ⟨elems', rfl, each'⟩ : SliceOf z P v' := by
    split at grown
    · cases grown
      refine ⟨_, rfl, fun y member => ?_⟩
      rcases List.mem_append.mp member with inside | last
      · exact each y inside
      · rwa [List.mem_singleton.mp last]
    · cases grown
      exact ⟨elems, rfl, each⟩
  have member : x ∈ elems'.getD [] := List.mem_of_getElem? found
  refine ⟨each' x member, fun here => ⟨elems'.map fun elems => elems.set i x', rfl, ?_⟩⟩
  cases elems' with
  | none => exact absurd member List.not_mem_nil
  | some elems' =>
    intro y inside
    rcases List.mem_or_eq_of_mem_set inside with old | rfl
    · exact each' y old
    · exact here

theorem keeps_slice (noText : NoText env) {z : Value χ} {P : Value χ → Prop} (keeps : Keeps env P)
    (zero : P z) : Keeps env (SliceOf z P) := by
  refine .of_next ?_ ?_
  · rintro _ ⟨elems, rfl, _⟩
    exact ⟨rfl, nofun⟩
  · intro fuel d d' v w start typed decoded
    obtain ⟨elems, rfl, each⟩ := id start
    rcases decodeNext_ok typed decoded with ⟨_, stored⟩ | ⟨_, _, _, stored⟩ | list | dict
    · cases stored
    · cases stored
    · unfold decodeList at list
      rw [typed] at list
      obtain ⟨_, rest, _, loop⟩ := decodeListInto_ok typed list
      have step : ∀ (i : Nat) (v v' x : Value χ) (d d' : Decoder) (x' : Value χ), SliceOf z P v →
          (if v.len ≤ i then v.grow true else some v) = some v' → v'.index i = some x →
          d.raw = false → decodeInto env fuel d (v'.elemAddr true) x = (d', x', none) →
          SliceOf z P (v'.setIndex i x') := by
        intro i v v' x d d' x' kept grown found typed value
        obtain ⟨here, next⟩ := kept.step zero grown found
        rw [Value.elemAddr_true] at value
        exact next (keeps fuel d d' x x' here typed value)
      have typed' : (d.took [108] rest).raw = false := typed
      obtain ⟨_, _, last⟩ := listLoop_ok (decodeInto_sound noText fuel) trivial
        (P := fun _ => SliceOf z P) step start typed' loop
      exact last
    · exact absurd dict (decodeDict_ne_ok typed nofun nofun)

def NamedOf (type : χ) (P : Value χ → Prop) (v : Value χ) : Prop := ∃ x, v = .named type x ∧ P x

theorem keeps_named {type : χ} {P : Value χ → Prop}
    {call : Value χ → GoString → Value χ × Option Fault}
    (method : (env.methods type).unmarshalBencode = some call)
    (keeps : ∀ x b w, P x → Item b → call x b = (w, none) → P w) :
    Keeps env (NamedOf type P) := by
  rintro fuel d d' _ w ⟨x, rfl, start⟩ typed decoded
  cases fuel with
  | zero => cases decoded
  | succ fuel =>
    have target : indirect env true (.named type x) = (.unmarshaler (call x), .named type) := by
      simp only [indirect, method]
    rw [decodeInto, if_neg (by simp [typed]), target] at decoded
    dsimp only at decoded
    split at decoded
    · cases decoded
    · rename_i d₁ y captured
      obtain ⟨token, item, _, rfl⟩ := decodeInto_captures typed captured
      obtain ⟨_, done⟩ := Prod.mk.inj decoded
      obtain ⟨rfl, fine⟩ := Prod.mk.inj done
      exact ⟨_, rfl, keeps x token _ start item (Prod.ext rfl fine)⟩

/-! ### Interfaces -/

/-- What an interface holds after decoding. -/
inductive Held : Value χ → Prop
  | int {n : Int} (low : -2 ^ 63 ≤ n) (high : n < 2 ^ 63) : Held (.int 64 n)
  | string {s : GoString} (short : s.length < 2 ^ 31) : Held (.string s)
  | list {elems : Option (List (Value χ))} (each : ∀ v ∈ elems.getD [], Held v) :
      Held (.slice (.iface none) (elems.map fun vs => vs.map fun v => .iface (some v)))
  | map (entries : Option (List (Value χ × Value χ))) :
      Held (.map (.string []) (.iface none) entries)

/-- The elements of a `[]interface{}` while they are decoded one by one. -/
def HeldList (i : Nat) (v : Value χ) : Prop :=
  ∃ elems : Option (List (Value χ)),
    v = .slice (.iface none) (elems.map fun vs => vs.map fun v => .iface (some v)) ∧
    (elems.getD []).length = i ∧ ∀ v ∈ elems.getD [], Held v

theorem HeldList.step {v v' x u : Value χ} {i : Nat} (start : HeldList i v)
    (grown : (if v.len ≤ i then v.grow true else some v) = some v')
    (found : v'.index i = some x) :
    x = .iface none ∧ (Held u → HeldList (i + 1) (v'.setIndex i (.iface (some u)))) := by
  obtain ⟨elems, rfl, length, each⟩ := start
  have whole : (elems.map fun vs => vs.map fun v => (Value.iface (some v) : Value χ)).getD [] =
      (elems.getD []).map fun v => .iface (some v) := by
    cases elems <;> rfl
  have size : ((elems.getD []).map fun v => (Value.iface (some v) : Value χ)).length = i := by
    rw [List.length_map, length]
  rw [Value.len, whole, if_pos size.le, Value.grow, if_pos rfl, whole] at grown
  cases grown
  rw [Value.index, Option.getD_some, ← size, List.getElem?_concat_length] at found
  refine ⟨(Option.some.inj found).symm, fun here => ⟨some (elems.getD [] ++ [u]), ?_, ?_, ?_⟩⟩
  · rw [← size, setIndex_concat, Option.map_some, List.map_append]
    rfl
  · rw [Option.getD_some, List.length_append, length]
    rfl
  · intro y member
    rcases List.mem_append.mp member with inside | last
    · exact each y inside
    · rwa [List.mem_singleton.mp last]

theorem dictEntry_map {into : Into χ} {d d' : Decoder} {addr : Bool} {k elem w : Value χ}
    {entries : Option (List (Value χ × Value χ))} {key : GoString}
    (decoded : dictEntry env into d addr (.map k elem entries) key = (d', w, none)) :
    ∃ x entries', into d true elem = (d', x, none) ∧ w = .map k elem entries' := by
  unfold dictEntry at decoded
  dsimp only at decoded
  split at decoded
  · cases decoded
  · split at decoded
    · cases decoded
    · rename_i value
      cases decoded
      exact ⟨_, _, value, rfl⟩

/-- **What is decoded into an interface** is a value of the format, and what the interface holds. -/
theorem decodeInto_iface (fuel : Nat) {d d' : Decoder} {w : Value χ} (typed : d.raw = false)
    (decoded : decodeInto env fuel d true (.iface none) = (d', w, none)) :
    (∃ token, Bencoded token ∧ Read d token d') ∧ ∃ v, w = .iface (some v) ∧ Held v := by
  induction fuel generalizing d d' w with
  | zero => cases decoded
  | succ fuel ih =>
    have plain : Plain env (.iface none) := ⟨rfl, nofun⟩
    rw [decodeInto_plain plain fuel typed] at decoded
    obtain ⟨digits, open', read, stored⟩ | ⟨token, s, token', digit, read, stored⟩ | list | dict :=
      decodeNext_cases decoded
    · have stored := stored typed
      simp only [storeInt, if_true] at stored
      split at stored
      · cases stored
      · rename_i n parsed
        obtain ⟨low, high⟩ := parseInt_range parsed
        cases stored
        exact ⟨⟨_, .int open' parsed, read⟩, _, rfl, .int low high⟩
    · cases stored typed
      exact ⟨⟨token, .string token' digit, read⟩, _, rfl, .string token'.short⟩
    · unfold decodeList at list
      rw [typed] at list
      generalize value : decodeListInto (decodeInto env fuel) d true
        (.slice (.iface none) none) = result at list
      obtain ⟨d₁, x, fault⟩ := result
      cases list
      obtain ⟨_, rest, input, loop⟩ := decodeListInto_ok typed value
      have step : ∀ (i : Nat) (v v' x : Value χ) (d d' : Decoder) (x' : Value χ), HeldList i v →
          (if v.len ≤ i then v.grow true else some v) = some v' → v'.index i = some x →
          d.raw = false → decodeInto env fuel d (v'.elemAddr true) x = (d', x', none) →
          (∃ token, Bencoded token ∧ Read d token d') ∧ HeldList (i + 1) (v'.setIndex i x') := by
        intro i v v' x d d' x' kept grown found typed value
        obtain ⟨rfl, _⟩ := kept.step (u := .invalid) grown found
        rw [Value.elemAddr_true] at value
        obtain ⟨read, u, rfl, held⟩ := ih typed value
        exact ⟨read, (kept.step grown found).2 held⟩
      have head : Read d [108] (d.took [108] rest) := .took input
      have start : HeldList 0 (.slice (.iface none) none : Value χ) :=
        ⟨none, rfl, rfl, fun _ member => absurd member List.not_mem_nil⟩
      obtain ⟨⟨items, isItem, read⟩, _, elems, rfl, _, each⟩ :=
        listLoop_reads step start (head.raw.trans typed) loop
      exact ⟨⟨_, .list isItem, head.trans read⟩, _, rfl, .list each⟩
    · unfold decodeDict at dict
      rw [typed] at dict
      generalize value : decodeDictInto env (decodeInto env fuel) d true
        (.map (.string []) (.iface none) none) = result at dict
      obtain ⟨d₁, x, fault⟩ := result
      cases dict
      obtain ⟨rest, v', input, target, loop⟩ := decodeDictInto_ok typed value
      cases target
      have head : Read d [100] (d.took [100] rest) := .took input
      obtain ⟨_, keys, values, read, entries, rfl⟩ := dictLoop_reads env (Q := Bencoded)
        (P := fun _ v => ∃ entries, v = .map (.string []) (.iface none) entries)
        (fun _ v d d' v' keyToken key kept typed decoded => by
          obtain ⟨entries, rfl⟩ := kept
          obtain ⟨x, entries', value, rfl⟩ := dictEntry_map decoded
          obtain ⟨⟨token, bencoded, read⟩, _⟩ := ih typed value
          exact ⟨token, bencoded, read, entries', rfl⟩) [] ⟨_, rfl⟩ (head.raw.trans typed) loop
      exact ⟨⟨_, .dict keys values, head.trans read⟩, _, rfl, .map entries⟩

/-! ### Structs -/

section Structs

variable {into : Into χ} {d d' : Decoder} {addr : Bool} {w : Value χ}
  {fields : List (Field × Value χ)}

theorem dictEntry_struct_ok (tagged : ∀ p ∈ fields, p.1.Tagged env)
    (distinct : (fields.map fun p => p.1.key).Nodup) {key : GoString}
    (decoded : dictEntry env into d addr (.struct fields) key = (d', w, none)) :
    (∃ before f x after x', fields = before ++ (f, x) :: after ∧ f.key = key ∧
      into d addr x = (d', x', none) ∧ w = .struct (before ++ (f, x') :: after)) ∨
    ((∀ p ∈ fields, p.1.key ≠ key) ∧ w = .struct fields) := by
  by_cases known : ∃ p ∈ fields, p.1.key = key
  · obtain ⟨⟨f, x⟩, member, rfl⟩ := known
    obtain ⟨before, after, rfl⟩ := List.append_of_mem member
    have last : ∀ p ∈ after, p.1.key ≠ f.key := by
      rw [List.map_append, List.map_cons, List.nodup_append, List.nodup_cons] at distinct
      exact fun p inside same => distinct.2.1.1 (same ▸ List.mem_map_of_mem inside)
    rw [dictEntry_field (fun p member => (tagged p member).keyed) last] at decoded
    obtain ⟨rfl, done⟩ := Prod.mk.inj decoded
    obtain ⟨rfl, fine⟩ := Prod.mk.inj done
    exact .inl ⟨before, f, x, after, _, rfl, rfl, Prod.ext rfl (Prod.ext rfl fine), rfl⟩
  · push Not at known
    rw [dictEntry_unknown (fun p member => (tagged p member).keyed) known] at decoded
    obtain ⟨_, done⟩ := Prod.mk.inj decoded
    exact .inr ⟨known, (Prod.mk.inj done).1.symm⟩

/-- A field and the property of its value, given the entries that were read. -/
abbrev FieldSpec (χ : Type) := Field × (List Entry → Value χ → Prop)

def StructOf (specs : List (FieldSpec χ)) (entries : List Entry) (v : Value χ) : Prop :=
  ∃ fields, v = .struct fields ∧
    List.Forall₂ (fun spec p => p.1 = spec.1 ∧ spec.2 entries p.2) specs fields

theorem forall₂_imp_of_mem {α β : Type} {R R' : α → β → Prop} {as : List α} {bs : List β}
    (all : List.Forall₂ R as bs) (imp : ∀ a ∈ as, ∀ b ∈ bs, R a b → R' a b) :
    List.Forall₂ R' as bs := by
  induction all with
  | nil => exact .nil
  | cons first later ih =>
    refine .cons (imp _ List.mem_cons_self _ List.mem_cons_self first) (ih fun a inside b member => ?_)
    exact imp a (List.mem_cons_of_mem _ inside) b (List.mem_cons_of_mem _ member)

theorem forall₂_update {α β : Type} {R R' : α → β → Prop} {as : List α} {before after : List β}
    {b b' : β} (all : List.Forall₂ R as (before ++ b :: after))
    (others : ∀ a ∈ as, ∀ c ∈ before ++ after, R a c → R' a c)
    (here : ∀ a ∈ as, R a b → R' a b') : List.Forall₂ R' as (before ++ b' :: after) := by
  induction before generalizing as with
  | nil =>
    obtain ⟨a, rest, first, later, rfl⟩ := List.forall₂_cons_right_iff.mp all
    refine .cons (here a List.mem_cons_self first) (forall₂_imp_of_mem later ?_)
    exact fun a inside => others a (List.mem_cons_of_mem _ inside)
  | cons c before ih =>
    obtain ⟨a, rest, first, later, rfl⟩ := List.forall₂_cons_right_iff.mp all
    refine .cons (others a List.mem_cons_self c List.mem_cons_self first) (ih later ?_ ?_)
    · exact fun a inside c member =>
        others a (List.mem_cons_of_mem _ inside) c (List.mem_cons_of_mem _ member)
    · exact fun a inside => here a (List.mem_cons_of_mem _ inside)

theorem map_fst_of_structOf {specs : List (FieldSpec χ)} {entries : List Entry}
    (all : List.Forall₂ (fun spec p => p.1 = spec.1 ∧ spec.2 entries p.2) specs fields) :
    fields.map Prod.fst = specs.map Prod.fst := by
  induction all with
  | nil => rfl
  | cons here _ ih => rw [List.map_cons, List.map_cons, here.1, ih]

/-- **The fields of a struct keep their properties** through an entry, if the field with its key
does, and the others do not mind the entry. -/
theorem StructOf.step {specs : List (FieldSpec χ)} (tagged : ∀ spec ∈ specs, spec.1.Tagged env)
    (distinct : (specs.map fun spec => spec.1.key).Nodup)
    (hit : ∀ spec ∈ specs, ∀ before e d d' x x', spec.1.key = e.key → spec.2 before x →
      d.raw = false → into d true x = (d', x', none) → Item e.value → Read d e.value d' →
      spec.2 (before ++ [e]) x')
    (miss : ∀ spec ∈ specs, ∀ before e x, spec.1.key ≠ e.key → spec.2 before x →
      spec.2 (before ++ [e]) x)
    (before : List Entry) (v : Value χ) (d d' : Decoder) (v' : Value χ) (e : Entry)
    (start : StructOf specs before v) (typed : d.raw = false)
    (decoded : dictEntry env into d true v e.key = (d', v', none)) (item : Item e.value)
    (read : Read d e.value d') : StructOf specs (before ++ [e]) v' := by
  obtain ⟨fields, rfl, all⟩ := start
  have same := map_fst_of_structOf all
  have tagged' : ∀ p ∈ fields, p.1.Tagged env := by
    intro p member
    have inside : p.1 ∈ specs.map Prod.fst := same ▸ List.mem_map_of_mem member
    obtain ⟨spec, member, eq⟩ := List.mem_map.mp inside
    exact eq ▸ tagged spec member
  have keys : fields.map (fun p => p.1.key) = specs.map fun spec => spec.1.key := by
    have mapped := congrArg (List.map Field.key) same
    rwa [List.map_map, List.map_map] at mapped
  rcases dictEntry_struct_ok tagged' (keys ▸ distinct) decoded with
    ⟨left, f, x, right, x', rfl, key, value, rfl⟩ | ⟨other, rfl⟩
  · refine ⟨_, rfl, forall₂_update all ?_ ?_⟩
    · rintro spec inside p member ⟨field, kept⟩
      refine ⟨field, miss spec inside before e p.2 (fun same => ?_) kept⟩
      have distinct' := keys ▸ distinct
      rw [List.map_append, List.map_cons, List.nodup_append, List.nodup_cons] at distinct'
      have sameKey : p.1.key = f.key := by rw [field, same, key]
      rcases List.mem_append.mp member with inLeft | inRight
      · exact distinct'.2.2 _ (List.mem_map_of_mem inLeft) _ List.mem_cons_self sameKey
      · exact distinct'.2.1.1 (sameKey ▸ List.mem_map_of_mem inRight)
    · rintro spec inside ⟨field, kept⟩
      have specKey : spec.1.key = e.key := by rw [← field, key]
      exact ⟨field, hit spec inside before e d d' x x' specKey kept typed value item read⟩
  · refine ⟨fields, rfl, forall₂_imp_of_mem all ?_⟩
    rintro spec inside p member ⟨field, kept⟩
    exact ⟨field, miss spec inside before e p.2 (field ▸ other p member) kept⟩

/-- **A struct is decoded from a dictionary**, entry by entry. -/
theorem decodeInto_struct (noText : NoText env) {specs : List (FieldSpec χ)}
    (tagged : ∀ spec ∈ specs, spec.1.Tagged env)
    (distinct : (specs.map fun spec => spec.1.key).Nodup)
    (hit : ∀ spec ∈ specs, ∀ fuel before e d d' x x', spec.1.key = e.key → spec.2 before x →
      d.raw = false → decodeInto env fuel d true x = (d', x', none) → Item e.value →
      Read d e.value d' → spec.2 (before ++ [e]) x')
    (miss : ∀ spec ∈ specs, ∀ before e x, spec.1.key ≠ e.key → spec.2 before x →
      spec.2 (before ++ [e]) x)
    {fuel : Nat} {v : Value χ} (start : StructOf specs [] v) (typed : d.raw = false)
    (decoded : decodeInto env fuel d true v = (d', w, none)) :
    ∃ entries, WellFormed entries ∧
      Read d (100 :: (entries.flatMap Entry.bytes ++ [101])) d' ∧ StructOf specs entries w := by
  obtain ⟨fields, rfl, _⟩ := id start
  cases fuel with
  | zero => cases decoded
  | succ fuel =>
    have plain : Plain env (.struct fields) := ⟨rfl, nofun⟩
    rw [decodeInto_plain plain fuel typed] at decoded
    rcases decodeNext_ok typed decoded with ⟨_, stored⟩ | ⟨_, _, _, stored⟩ | list | dict
    · cases stored
    · cases stored
    · exact absurd list (decodeList_ne_ok typed nofun nofun nofun)
    · unfold decodeDict at dict
      rw [typed] at dict
      obtain ⟨rest, v', input, target, loop⟩ := decodeDictInto_ok typed dict
      cases target
      have typed' : (d.took [100] rest).raw = false := typed
      have head : Read d [100] (d.took [100] rest) := .took input
      obtain ⟨entries, fine, read, last⟩ := dictLoop_ok env (decodeInto_sound noText fuel) trivial
        (StructOf.step tagged distinct (fun spec inside => hit spec inside fuel) miss) [] start
        typed' loop
      exact ⟨entries, fine, head.trans read, last⟩

end Structs

end GoBt.Bencode
