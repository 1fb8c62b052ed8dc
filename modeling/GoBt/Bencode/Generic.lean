/-
**Values without a type of their own**: integers, strings, `[]interface{}` and
`map[string]interface{}`, nested in any way.

* `Generic` — these values, with nothing nil inside.
* `SameValue` — two of them are equal in Go: the order in which the entries of a map are listed does
  not matter, and a list without elements may be nil.
* `generic_round_trip` — **every such value is decoded again from its encoding**, whatever bytes
  follow, and the decoder stops right behind it.
* `Codes.ifaceSlice`, `Codes.ifaceStruct` — what a slice or a struct is decoded as if its type is not
  known.
-/

import GoBt.Bencode.RoundTrip

namespace GoBt.Bencode

variable {χ : Type} {env : Env χ}

/-- A value of `int64`, `string`, `[]interface{}` or `map[string]interface{}`. -/
inductive Generic : Value χ → Prop
  | int {n : Int} (low : -2 ^ 63 ≤ n) (high : n < 2 ^ 63) : Generic (.int 64 n)
  | string {s : GoString} (short : s.length < 2 ^ 31) : Generic (.string s)
  | list {elems : List (Value χ)} (each : ∀ v ∈ elems, Generic v) :
      Generic (.slice (.iface none) (some (elems.map fun v => .iface (some v))))
  | map {entries : List (GoString × Value χ)} (short : ∀ e ∈ entries, e.1.length < 2 ^ 31)
      (distinct : (entries.map Prod.fst).Nodup) (each : ∀ e ∈ entries, Generic e.2) :
      Generic (mapOf entries Prod.fst fun e => .iface (some e.2))

/-- Two values are equal, where nil and empty lists are not told apart. -/
inductive SameValue : Value χ → Value χ → Prop
  | int (n : Int) : SameValue (.int 64 n) (.int 64 n)
  | string (s : GoString) : SameValue (.string s) (.string s)
  | iface {v w : Value χ} (same : SameValue v w) : SameValue (.iface (some v)) (.iface (some w))
  | list {elem : Value χ} {elems elems' : Option (List (Value χ))}
      (each : List.Forall₂ SameValue (elems.getD []) (elems'.getD [])) :
      SameValue (.slice elem elems) (.slice elem elems')
  | map {key elem : Value χ} {entries order entries' : List (Value χ × Value χ)}
      (perm : entries.Perm order) (keys : order.map Prod.fst = entries'.map Prod.fst)
      (values : List.Forall₂ SameValue (order.map Prod.snd) (entries'.map Prod.snd)) :
      SameValue (.map key elem (some entries)) (.map key elem (some entries'))

/-- The encoding of a value, however it was reached, and what is decoded from it. -/
def Carries (env : Env χ) (v : Value χ) (token : GoString) (w : Value χ) : Prop :=
  (∀ mode, encodeValue env mode v = .ok token) ∧ Item token ∧
    Reads env (.iface none) token (.iface (some w)) ∧ SameValue v w

theorem Carries.iface {v w : Value χ} {token : GoString} (carries : Carries env v token w) :
    encodeValue env {} (.iface (some v)) = .ok token := by
  rw [encodeValue]
  exact carries.1 _

theorem carries_list {elems : List (Value χ)} {token : Value χ → GoString}
    {result : Value χ → Value χ} (each : ∀ v ∈ elems, Carries env v (token v) (result v)) :
    Carries env (.slice (.iface none) (some (elems.map fun v => .iface (some v))))
      (108 :: (elems.flatMap token ++ [101]))
      (sliceOf (.iface none) (elems.map fun v => .iface (some (result v)))) := by
  have items : ∀ v ∈ elems, Item (token v) := fun v member => (each v member).2.1
  refine ⟨fun mode => ?_, ?_, .ifaceList items fun v member => (each v member).2.2.1, ?_⟩
  · rw [encodeValue, encodeElems_map fun v member => (each v member).iface]
    rfl
  · have list : Item (108 :: ((elems.map token).flatten ++ [101])) := .list (by simpa using items)
    rwa [List.flatMap_def]
  · refine .list ?_
    rw [Option.getD_some, getD_ite_nil, List.forall₂_map_left_iff, List.forall₂_map_right_iff,
      List.forall₂_same]
    exact fun v member => .iface (each v member).2.2.2

theorem mapEntries_map {entries : List (GoString × Value χ)} :
    mapEntries env (entries.map fun e => (.string e.1, .iface (some e.2))) =
      entries.map fun e => (e.1, do
        let bytes ← encodeValue env {} (.string e.1)
        let more ← encodeValue env {} (.iface (some e.2))
        return bytes ++ more) := by
  induction entries with
  | nil => rfl
  | cons e entries ih =>
    rw [List.map_cons, mapEntries, if_neg (by simp [Value.isNilValue]), ih]
    rfl

theorem carries_map {entries : List (GoString × Value χ)} {token : Value χ → GoString}
    {result : Value χ → Value χ} (short : ∀ e ∈ entries, e.1.length < 2 ^ 31)
    (distinct : (entries.map Prod.fst).Nodup)
    (each : ∀ e ∈ entries, Carries env e.2 (token e.2) (result e.2)) :
    Carries env (mapOf entries Prod.fst fun e => .iface (some e.2))
      (100 :: (entryBytes Prod.fst (fun e => token e.2) (env.sorter.sortOn Prod.fst entries) ++ [101]))
      (mapOf (env.sorter.sortOn Prod.fst entries) Prod.fst fun e => .iface (some (result e.2))) := by
  have perm : (env.sorter.sortOn Prod.fst entries).Perm entries := env.sorter.perm_sortOn _ _
  have short' : ∀ e ∈ env.sorter.sortOn Prod.fst entries, e.1.length < 2 ^ 31 := fun e member =>
    short e (perm.mem_iff.mp member)
  have each' : ∀ e ∈ env.sorter.sortOn Prod.fst entries, Carries env e.2 (token e.2) (result e.2) :=
    fun e member => each e (perm.mem_iff.mp member)
  have distinct' : ((env.sorter.sortOn Prod.fst entries).map Prod.fst).Nodup :=
    (perm.map Prod.fst).nodup_iff.mpr distinct
  refine ⟨fun mode => ?_, item_dict short' fun e member => (each' e member).2.1,
    .ifaceDict short' (pairwise_sortOn _ _ _) distinct' fun e member => (each' e member).2.2.1,
    ?_⟩
  · have parts : ∀ e ∈ env.sorter.sortOn Prod.fst entries, (do
        let bytes ← encodeValue env {} (.string e.1)
        let more ← encodeValue env {} (.iface (some e.2))
        return bytes ++ more : Except Fault GoString) = .ok (encodeString e.1 ++ token e.2) := by
      intro e member
      rw [(each' e member).iface, encodeValue_string]
      rfl
    have body := sequence_map parts
    rw [mapOf, encodeValue, mapEntries_map, env.sorter.sortOn_map, List.map_map]
    dsimp only [Function.comp_def]
    rw [body]
    rfl
  · refine .map (perm.symm.map _) ?_ ?_
    · simp
    · rw [List.map_map, List.map_map, List.forall₂_map_left_iff, List.forall₂_map_right_iff,
        List.forall₂_same]
      exact fun e member => .iface (each' e member).2.2.2

/-- **Every value without a type of its own has an encoding**, from which it is decoded again. -/
theorem Generic.carries (env : Env χ) {v : Value χ} (generic : Generic v) :
    ∃ token w, Carries env v token w := by
  induction generic with
  | @int n low high =>
    exact ⟨_, _, fun mode => encodeValue_int env mode 64 n, item_encodeInt n, .ifaceInt low high, .int n⟩
  | @string s short =>
    exact ⟨_, _, fun mode => encodeValue_string env mode s, item_encodeString short, .ifaceString short,
      .string s⟩
  | list each ih =>
    choose! token result carries using ih
    exact ⟨_, _, carries_list carries⟩
  | @map entries short distinct each ih =>
    have values : ∀ v ∈ entries.map Prod.snd, ∃ token w, Carries env v token w := by
      intro v member
      obtain ⟨e, inside, rfl⟩ := List.mem_map.mp member
      exact ih e inside
    choose! token result carries using values
    exact ⟨_, _, carries_map short distinct fun e member =>
      carries e.2 (List.mem_map_of_mem member)⟩

/-- **Generic round trip.** The encoding succeeds; from it, with any bytes behind it, the same value
is decoded into a nil interface, also where unordered keys are refused; and the decoder has read
exactly the encoding. -/
theorem generic_round_trip (env : Env χ) {v : Value χ} (generic : Generic v) (t : GoString)
    (failUnordered : Bool) :
    ∃ bytes w d, encodeBytes env v = .ok bytes ∧
      decode env { r := bytes ++ t, failUnordered := failUnordered } (.iface none) =
        (d, .iface (some w), none) ∧
      SameValue v w ∧ d.n = bytes.length ∧ d.r = t := by
  obtain ⟨bytes, w, encoded, _, reads, same⟩ := generic.carries env
  let start : Decoder := { r := bytes ++ t, failUnordered := failUnordered }
  have enough : bytes.length < start.r.length + 2 := by
    show bytes.length < (bytes ++ t).length + 2
    rw [List.length_append]
    omega
  obtain ⟨d, decoded, read⟩ := reads _ enough start t rfl rfl
  have plain : valueOf v = v := by cases generic <;> rfl
  refine ⟨bytes, w, d, by rw [encodeBytes, plain, encoded], decoded, same, ?_, read.rest_eq rfl⟩
  rw [read.n]
  exact Nat.zero_add _

/-- A map in a list, with its keys out of order and an empty list inside. -/
theorem generic_round_trip_nested :
    let entries : List (GoString × Value Empty) :=
      [([98], .int 64 (-2 ^ 63)), ([97], .slice (.iface none) (some []))]
    let v : Value Empty := .slice (.iface none)
      (some [.iface (some (mapOf entries Prod.fst fun e => .iface (some e.2)))])
    Generic v ∧ ∃ bytes w d, encodeBytes { methods := nofun } v = .ok bytes ∧
      decode { methods := nofun } { r := bytes ++ [0], failUnordered := true } (.iface none) =
        (d, .iface (some w), none) ∧
      SameValue v w ∧ d.n = bytes.length ∧ d.r = [0] := by
  intro entries v
  have empty : Generic (.slice (.iface none) (some []) : Value Empty) :=
    Generic.list fun _ member => absurd member List.not_mem_nil
  have inner : Generic (mapOf entries Prod.fst fun e => .iface (some e.2)) := by
    refine .map ?_ (by decide) ?_
    · simp [entries]
    · refine List.forall_mem_cons.mpr ⟨.int (by decide) (by decide), ?_⟩
      exact List.forall_mem_singleton.mpr empty
  have generic : Generic v := Generic.list fun w member => by
    obtain rfl := List.mem_singleton.mp member
    exact inner
  exact ⟨generic, generic_round_trip _ generic [0] true⟩

/-! ### Typed values that are decoded without a type -/

section Interfaces

variable {α : Type}

theorem Codes.ifaceString {s : GoString} (short : s.length < 2 ^ 31) :
    Codes env (.iface none) (.string s) (.iface (some (.string s))) :=
  ⟨_, encodeValue_string env _ s, item_encodeString short, .ifaceString short⟩

theorem Codes.ifaceUint {bits n : Nat} (small : n < 2 ^ 63) :
    Codes env (.iface none) (.uint bits n) (.iface (some (.int 64 n))) :=
  ⟨_, encodeValue_uint env _ bits n, item_encodeInt n, .ifaceInt (by omega) (by omega)⟩

theorem Codes.ifaceSlice {elems : Option (List α)} {elem : Value χ} {value result : α → Value χ}
    (each : ∀ a ∈ elems.getD [], Codes env (.iface none) (value a) (result a)) :
    Codes env (.iface none) (.slice elem (elems.map fun as => as.map value))
      (.iface (some (sliceOf (.iface none) ((elems.getD []).map result)))) := by
  choose! token encoded items reads using each
  refine ⟨_, encodeValue_slice encoded, .list (by simpa using items), ?_⟩
  rw [← List.flatMap_def]
  exact .ifaceList items reads

theorem Codes.ifaceStruct {parts : List (FieldPart χ)} (layout : FieldPart.Layout env parts)
    (each : ∀ p ∈ FieldPart.dict env parts, Codes env (.iface none) p.value p.result) :
    Codes env (.iface none) (.struct (parts.map fun p => (p.field, p.value)))
      (.iface (some (mapOf (FieldPart.dict env parts) FieldPart.key FieldPart.result))) := by
  choose! token encoded items reads using each
  exact ⟨_, encodeValue_struct layout.keyed encoded, item_dict layout.short_dict items,
    .ifaceDict layout.short_dict (pairwise_sortOn _ _ _) (FieldPart.nodup_dict layout.distinct) reads⟩

end Interfaces

end GoBt.Bencode
