/-
**Query strings of URLs** (`net/url`).

A query is a map from keys to lists of values, in the order in which they are given.

* `Values` — the map; `Values.list` — the values of a key; `Values.set`, `Values.add` — a value in
  their place, and one more of them.
* `parseQuery`, `encode` — the source's functions; `escape`, `unescape` — of a key or a value.
* **`list_parseQuery_encode`** — `parseQuery` inverts `encode`, also with a pair in front.
-/

import GoBt.Go.Encoding
import GoBt.Lib.GoMap

namespace GoBt.Url

open GoBt.Lib

/-! ### Values -/

abbrev Values := GoMap GoString (List GoString)

namespace Values

/-- `vs[key]`. -/
def list (vs : Values) (key : GoString) : List GoString := (vs.lookup key).getD []

def get (vs : Values) (key : GoString) : GoString := (vs.list key).headD []

def set (vs : Values) (key value : GoString) : Values := vs.insert key [value]

/-- `if cond { vs.Set(key, value) }`. -/
def setIf (vs : Values) (cond : Prop) [Decidable cond] (key value : GoString) : Values :=
  if cond then vs.set key value else vs

def add (vs : Values) (key value : GoString) : Values := vs.insert key (vs.list key ++ [value])

/-- No key is there without a value. -/
def Proper (vs : Values) : Prop := ∀ key, vs.lookup key ≠ some []

theorem list_insert (vs : Values) (key key' : GoString) (values : List GoString) :
    Values.list (vs.insert key values) key' = if key' = key then values else vs.list key' := by
  rw [Values.list, GoMap.lookup_insert]
  split <;> rfl

theorem list_erase (vs : Values) (key key' : GoString) :
    Values.list (vs.erase key) key' = if key' = key then [] else vs.list key' := by
  rw [Values.list, GoMap.lookup_erase]
  split <;> rfl

theorem list_set (vs : Values) (key value key' : GoString) :
    (vs.set key value).list key' = if key' = key then [value] else vs.list key' :=
  list_insert vs key key' [value]

theorem list_setIf (vs : Values) (cond : Prop) [Decidable cond] (key value key' : GoString) :
    (vs.setIf cond key value).list key' =
      if key' = key then (if cond then [value] else vs.list key') else vs.list key' := by
  rw [setIf]
  by_cases holds : cond
  · rw [if_pos holds, if_pos holds, list_set]
  · rw [if_neg holds, if_neg holds, ite_self]

theorem list_add (vs : Values) (key value key' : GoString) :
    (vs.add key value).list key' = vs.list key' ++ if key = key' then [value] else [] := by
  rw [add, list_insert]
  by_cases same : key' = key
  · rw [if_pos same, if_pos same.symm, same]
  · rw [if_neg same, if_neg (Ne.symm same), List.append_nil]

theorem list_foldl_add (vs : Values) (pairs : List (GoString × GoString)) (key : GoString) :
    (pairs.foldl (fun vs pair => vs.add pair.1 pair.2) vs).list key =
      vs.list key ++ (pairs.filter (·.1 = key)).map Prod.snd := by
  induction pairs generalizing vs with
  | nil => exact (List.append_nil _).symm
  | cons pair pairs ih =>
    rw [List.foldl_cons, ih, list_add, List.append_assoc, List.filter_cons]
    by_cases same : pair.1 = key
    · rw [if_pos same, if_pos (decide_eq_true same)]
      rfl
    · rw [if_neg same, if_neg (by simpa using same)]
      rfl

theorem Proper.insert {vs : Values} (proper : Proper vs) (key : GoString) {values : List GoString}
    (some' : values ≠ []) : Proper (vs.insert key values) := by
  intro key'
  rw [GoMap.lookup_insert]
  split
  · exact fun same => some' (Option.some.inj same)
  · exact proper key'

theorem Proper.erase {vs : Values} (proper : Proper vs) (key : GoString) :
    Proper (vs.erase key) := by
  intro key'
  rw [GoMap.lookup_erase]
  split
  · exact nofun
  · exact proper key'

theorem Proper.add {vs : Values} (proper : Proper vs) (key value : GoString) :
    Proper (vs.add key value) :=
  proper.insert key (List.append_ne_nil_of_right_ne_nil _ (List.cons_ne_nil _ _))

theorem proper_empty : Proper ∅ := fun _ => nofun

theorem Proper.lookup_eq {vs : Values} (proper : Proper vs) (key : GoString) :
    vs.lookup key = if vs.list key = [] then none else some (vs.list key) := by
  rw [Values.list]
  cases found : vs.lookup key with
  | none => rfl
  | some values =>
    have some' : values ≠ [] := fun empty => proper key (found.trans (congrArg some empty))
    exact (if_neg some').symm

end Values

/-! ### Escaping -/

def shouldEscape (c : UInt8) : Bool :=
  !(48 ≤ c && c ≤ 57 || 65 ≤ c && c ≤ 90 || 97 ≤ c && c ≤ 122 || c == 45 || c == 95 || c == 46 ||
    c == 126)

/-- What `QueryEscape` writes for a byte. -/
def escapeByte (c : UInt8) : GoString :=
  if c = 32 then [43]
  else if shouldEscape c then [37, Hex.upperDigit (c.toNat / 16), Hex.upperDigit (c.toNat % 16)]
  else [c]

/-- `QueryEscape(s)`. -/
def escape (s : GoString) : GoString := s.flatMap escapeByte

/-- `QueryUnescape(s)`; `none` is an `EscapeError`. -/
def unescape : GoString → Option GoString
  | [] => some []
  | c :: rest =>
      if c = 37 then
        match rest with
        | a :: b :: rest =>
            match Hex.value a, Hex.value b with
            | some x, some y => (unescape rest).map ((x <<< 4 ||| y) :: ·)
            | _, _ => none
        | _ => none
      else (unescape rest).map ((if c = 43 then 32 else c) :: ·)

/-- A character of a query that stands for itself in a URL. -/
def IsPlain (c : UInt8) : Prop := 32 < c ∧ c < 127 ∧ c ≠ 35

instance (c : UInt8) : Decidable (IsPlain c) := inferInstanceAs (Decidable (_ ∧ _))

theorem of_bytes {P : UInt8 → Prop} (all : ∀ n < 256, P (UInt8.ofNat n)) (c : UInt8) : P c := by
  have here := all c.toNat c.toNat_lt
  rwa [UInt8.ofNat_toNat] at here

theorem escapeByte_plain (c : UInt8) :
    ∀ b ∈ escapeByte c, IsPlain b ∧ b ≠ 38 ∧ b ≠ 59 ∧ b ≠ 61 := by
  refine of_bytes (P := fun c => ∀ b ∈ escapeByte c, IsPlain b ∧ b ≠ 38 ∧ b ≠ 59 ∧ b ≠ 61) ?_ c
  have all : ∀ n < 256, ((escapeByte (UInt8.ofNat n)).all fun b =>
      decide (IsPlain b ∧ b ≠ 38 ∧ b ≠ 59 ∧ b ≠ 61)) = true := by
    decide +kernel
  exact fun n small b member => of_decide_eq_true (List.all_eq_true.mp (all n small) b member)

theorem escape_plain {s : GoString} :
    ∀ b ∈ escape s, IsPlain b ∧ b ≠ 38 ∧ b ≠ 59 ∧ b ≠ 61 := by
  intro b member
  obtain ⟨c, _, inside⟩ := List.mem_flatMap.mp member
  exact escapeByte_plain c b inside

theorem value_upperDigit : ∀ n < 16, Hex.value (Hex.upperDigit n) = some (UInt8.ofNat n) := by
  decide

theorem unescape_percent (a b : UInt8) (rest : GoString) {x y : UInt8} (high : Hex.value a = some x)
    (low : Hex.value b = some y) :
    unescape (37 :: a :: b :: rest) = (unescape rest).map ((x <<< 4 ||| y) :: ·) := by
  rw [unescape, if_pos rfl, high, low]

theorem unescape_cons {c : UInt8} (percent : c ≠ 37) (rest : GoString) :
    unescape (c :: rest) = (unescape rest).map ((if c = 43 then 32 else c) :: ·) := by
  rw [unescape.eq_def]
  exact if_neg percent

theorem unescape_escapeByte (c : UInt8) (rest : GoString) :
    unescape (escapeByte c ++ rest) = (unescape rest).map (c :: ·) := by
  unfold escapeByte
  by_cases space : c = 32
  · rw [if_pos space, space]
    exact unescape_cons (by decide) rest
  by_cases escaped : shouldEscape c = true
  · have high : c.toNat / 16 < 16 := by
      have := c.toNat_lt
      omega
    have low : c.toNat % 16 < 16 := Nat.mod_lt _ (by decide)
    rw [if_neg space, if_pos escaped]
    show unescape (37 :: Hex.upperDigit (c.toNat / 16) :: Hex.upperDigit (c.toNat % 16) :: rest) = _
    rw [unescape_percent _ _ rest (value_upperDigit _ high) (value_upperDigit _ low), Hex.nibbles]
  · have percent : c ≠ 37 := by
      rintro rfl
      exact escaped rfl
    have plus : c ≠ 43 := by
      rintro rfl
      exact escaped rfl
    rw [if_neg space, if_neg escaped]
    show unescape (c :: rest) = _
    rw [unescape_cons percent, if_neg plus]

/-- **What is escaped is read back.** -/
theorem unescape_escape (s : GoString) : unescape (escape s) = some s := by
  induction s with
  | nil => rfl
  | cons c s ih =>
    rw [escape, List.flatMap_cons, unescape_escapeByte, ← escape, ih]
    rfl

theorem unescape_of_plain {s : GoString} (plain : ∀ c ∈ s, c ≠ 37 ∧ c ≠ 43) :
    unescape s = some s := by
  induction s with
  | nil => rfl
  | cons c s ih =>
    obtain ⟨⟨percent, plus⟩, later⟩ := List.forall_mem_cons.mp plain
    rw [unescape_cons percent, if_neg plus, ih later]
    rfl

/-! ### Queries -/

def cut (part : GoString) : GoString × GoString :=
  (part.takeWhile (· != 61), (part.dropWhile (· != 61)).drop 1)

/-- One part of a query, between two `&`. -/
def addPart (vs : Values) (part : GoString) : Values :=
  if 59 ∈ part ∨ part = [] then vs
  else
    match unescape (cut part).1, unescape (cut part).2 with
    | some key, some value => vs.add key value
    | _, _ => vs

/-- `ParseQuery(query)`; parts that are not well formed are left out. -/
def parseQuery (query : GoString) : Values := (query.splitOn 38).foldl addPart ∅

/-- The pairs of keys and values, by the order of the keys. -/
def pairs (vs : Values) : List (GoString × GoString) :=
  (vs.keys.insertionSort fun a b => ¬ b < a).flatMap fun key => (vs.list key).map fun v => (key, v)

def pairText (pair : GoString × GoString) : GoString := escape pair.1 ++ 61 :: escape pair.2

def encode (vs : Values) : GoString := [38].intercalate ((pairs vs).map pairText)

theorem cut_append {key : GoString} (apart : ∀ c ∈ key, c ≠ 61) (value : GoString) :
    cut (key ++ 61 :: value) = (key, value) := by
  have before : ∀ c ∈ key, (c != 61) = true := fun c member => by simpa using apart c member
  rw [cut, List.takeWhile_append_of_pos before, List.dropWhile_append_of_pos before]
  simp

theorem addPart_of_pair (vs : Values) {key value key' value' : GoString}
    (apart : ∀ c ∈ key, c ≠ 61) (semicolons : 59 ∉ key ++ 61 :: value)
    (readKey : unescape key = some key') (readValue : unescape value = some value') :
    addPart vs (key ++ 61 :: value) = vs.add key' value' := by
  have some' : key ++ 61 :: value ≠ [] := List.append_ne_nil_of_right_ne_nil _ (List.cons_ne_nil _ _)
  rw [addPart, if_neg (fun either => either.elim semicolons some'), cut_append apart]
  dsimp only
  rw [readKey, readValue]

theorem pairText_plain (pair : GoString × GoString) :
    ∀ c ∈ pairText pair, IsPlain c ∧ c ≠ 38 ∧ c ≠ 59 := by
  intro c member
  rcases List.mem_append.mp member with inside | inside
  · obtain ⟨plain, ampersand, semicolon, _⟩ := escape_plain c inside
    exact ⟨plain, ampersand, semicolon⟩
  · rcases List.mem_cons.mp inside with rfl | later
    · decide
    · obtain ⟨plain, ampersand, semicolon, _⟩ := escape_plain c later
      exact ⟨plain, ampersand, semicolon⟩

theorem addPart_pairText (vs : Values) (pair : GoString × GoString) :
    addPart vs (pairText pair) = vs.add pair.1 pair.2 :=
  addPart_of_pair vs (fun c member => (escape_plain c member).2.2.2)
    (fun member => (pairText_plain pair 59 member).2.2 rfl) (unescape_escape _) (unescape_escape _)

theorem foldl_addPart_encode (vs start : Values) :
    ((encode vs).splitOn 38).foldl addPart start =
      (pairs vs).foldl (fun vs pair => vs.add pair.1 pair.2) start := by
  rw [encode]
  generalize pairs vs = list
  cases list with
  | nil => rfl
  | cons pair rest =>
    rw [List.splitOn_intercalate _ ?_ (by simp), List.foldl_map]
    · simp only [addPart_pairText]
    · intro text member inside
      obtain ⟨pair, _, rfl⟩ := List.mem_map.mp member
      exact (pairText_plain pair 38 inside).2.1 rfl

theorem filter_flatMap (vs : Values) {keys : List GoString} (distinct : keys.Nodup)
    (key : GoString) :
    ((keys.flatMap fun k => (vs.list k).map fun v => (k, v)).filter (·.1 = key)).map Prod.snd =
      if key ∈ keys then vs.list key else [] := by
  induction keys with
  | nil => rfl
  | cons first rest ih =>
    obtain ⟨fresh, distinctRest⟩ := List.nodup_cons.mp distinct
    rw [List.flatMap_cons, List.filter_append, List.map_append, ih distinctRest]
    by_cases here : first = key
    · subst here
      have kept : ((vs.list first).map fun v => (first, v)).filter (·.1 = first) =
          (vs.list first).map fun v => (first, v) :=
        List.filter_eq_self.mpr fun pair member => by
          obtain ⟨v, _, rfl⟩ := List.mem_map.mp member
          exact decide_eq_true rfl
      rw [kept, List.map_map, if_neg fresh, if_pos List.mem_cons_self, List.append_nil]
      exact List.map_id' _
    · have dropped : ((vs.list first).map fun v => (first, v)).filter (·.1 = key) = [] :=
        List.filter_eq_nil_iff.mpr fun pair member => by
          obtain ⟨v, _, rfl⟩ := List.mem_map.mp member
          simpa using here
      have same : key ∈ first :: rest ↔ key ∈ rest :=
        List.mem_cons.trans (or_iff_right (Ne.symm here))
      rw [dropped, List.map_nil, List.nil_append]
      simp only [same]

theorem filter_pairs (vs : Values) (key : GoString) :
    ((pairs vs).filter (·.1 = key)).map Prod.snd = vs.list key := by
  have perm : (vs.keys.insertionSort fun a b => ¬ b < a).Perm vs.keys := List.perm_insertionSort _ _
  rw [pairs, filter_flatMap vs (perm.nodup_iff.mpr vs.nodupKeys)]
  split
  · rfl
  · next absent =>
      rw [Values.list, AList.lookup_eq_none.mpr fun member => absent (perm.mem_iff.mpr member)]
      rfl

theorem proper_parseQuery (query : GoString) : (parseQuery query).Proper := by
  rw [parseQuery]
  generalize query.splitOn 38 = parts
  have keeps : ∀ vs : Values, vs.Proper → (parts.foldl addPart vs).Proper := by
    induction parts with
    | nil => exact fun _ proper => proper
    | cons part parts ih =>
      refine fun vs proper => ih _ ?_
      rw [addPart]
      split
      · exact proper
      · split
        · exact proper.add _ _
        · exact proper
  exact keeps ∅ Values.proper_empty

section Front

variable {key value : GoString}
  (plain : ∀ c ∈ key ++ 61 :: value, c ≠ 37 ∧ c ≠ 43 ∧ c ≠ 38 ∧ c ≠ 59)
  (noSign : ∀ c ∈ key, c ≠ 61)

include plain

theorem splitOn_plain : (key ++ 61 :: value).splitOn 38 = [key ++ 61 :: value] :=
  List.splitOnP_eq_singleton fun c member => by simpa using (plain c member).2.2.1

include noSign

theorem addPart_plain (vs : Values) : addPart vs (key ++ 61 :: value) = vs.add key value := by
  refine addPart_of_pair vs noSign (fun member => (plain 59 member).2.2.2 rfl) ?_ ?_
  · refine unescape_of_plain fun c member => ?_
    obtain ⟨percent, plus, _⟩ := plain c (List.mem_append_left _ member)
    exact ⟨percent, plus⟩
  · refine unescape_of_plain fun c member => ?_
    obtain ⟨percent, plus, _⟩ :=
      plain c (List.mem_append_right _ (List.mem_cons_of_mem _ member))
    exact ⟨percent, plus⟩

theorem list_parseQuery_single (key' : GoString) :
    (parseQuery (key ++ 61 :: value)).list key' = if key = key' then [value] else [] := by
  rw [parseQuery, splitOn_plain plain, List.foldl_cons, List.foldl_nil,
    addPart_plain plain noSign, Values.list_add]
  rfl

/-- **`ParseQuery` inverts `Encode`**, also with a pair in front. -/
theorem list_parseQuery_encode (vs : Values) (key' : GoString) :
    (parseQuery (key ++ 61 :: value ++ 38 :: encode vs)).list key' =
      (if key = key' then [value] else []) ++ vs.list key' := by
  have split : (key ++ 61 :: value ++ 38 :: encode vs).splitOn 38 =
      (key ++ 61 :: value) :: (encode vs).splitOn 38 := by
    have parts := List.splitOnP_append_cons (p := (· == (38 : UInt8))) (key ++ 61 :: value)
      (encode vs) (beq_self_eq_true 38)
    exact parts.trans (congrArg (· ++ _) (splitOn_plain plain))
  rw [parseQuery, split, List.foldl_cons, addPart_plain plain noSign, foldl_addPart_encode,
    Values.list_foldl_add, filter_pairs, Values.list_add]
  rfl

end Front

theorem mem_intercalate {sep c : UInt8} {texts : List GoString}
    (member : c ∈ [sep].intercalate texts) : c = sep ∨ ∃ text ∈ texts, c ∈ text := by
  induction texts with
  | nil => exact absurd member List.not_mem_nil
  | cons text rest ih =>
    cases rest with
    | nil =>
      rw [List.intercalate_singleton] at member
      exact .inr ⟨text, List.mem_cons_self, member⟩
    | cons next rest =>
      rw [List.intercalate_cons_cons, List.append_assoc] at member
      rcases List.mem_append.mp member with here | later
      · exact .inr ⟨text, List.mem_cons_self, here⟩
      · rcases List.mem_cons.mp later with same | behind
        · exact .inl same
        · exact (ih behind).imp_right fun ⟨other, inside, here⟩ =>
            ⟨other, List.mem_cons_of_mem _ inside, here⟩

theorem encode_plain (vs : Values) : ∀ c ∈ encode vs, IsPlain c := by
  intro c member
  rcases mem_intercalate member with rfl | ⟨text, inside, here⟩
  · decide
  · obtain ⟨pair, _, rfl⟩ := List.mem_map.mp inside
    exact (pairText_plain pair c here).1

end GoBt.Url
