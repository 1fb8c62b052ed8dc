/-
**Finite maps with the operations of a built-in map.**

A map is Mathlib's association list without duplicate keys: reading is `lookup`, writing is
`insert`, `delete` is `erase`. Added here are the two ways a loop over a map changes it: deleting
the entries a test picks, and rewriting the values; and the order of such a loop, which the
language leaves open.

* `GoMap.lookup_insert`, `GoMap.lookup_erase`, `GoMap.lookup_deleteIf`, `GoMap.lookup_mapValues` —
  every operation seen through `lookup`.
* `GoMap.insertAll` — a loop that writes entries; each is found again if no key is written twice.
-/

import Mathlib.Data.List.AList
import Mathlib.Tactic

namespace GoBt.Lib

/-- A map from `Key` to `Value`. -/
abbrev GoMap (Key Value : Type*) := AList fun _ : Key => Value

namespace GoMap

variable {Key Value : Type*} [DecidableEq Key]

/-- The keys with their values, in the order of the entries. -/
def pairs (m : GoMap Key Value) : List (Key × Value) := m.entries.map fun entry => (entry.1, entry.2)

/-- The values, in the order of the entries. -/
def values (m : GoMap Key Value) : List Value := m.entries.map Sigma.snd

/-- `for k, v := range m { if p(k, v) { delete(m, k) } }`. -/
def deleteIf (p : Key → Value → Bool) (m : GoMap Key Value) : GoMap Key Value where
  entries := m.entries.filter fun entry => !p entry.1 entry.2
  nodupKeys := m.nodupKeys.sublist List.filter_sublist

/-- `for k, v := range pairs { m[k] = v }`. -/
def insertAll (m : GoMap Key Value) (pairs : List (Key × Value)) : GoMap Key Value :=
  pairs.foldl (fun m pair => m.insert pair.1 pair.2) m

def mapValues {Value' : Type*} (f : Key → Value → Value') (m : GoMap Key Value) :
    GoMap Key Value' where
  entries := m.entries.map fun entry => ⟨entry.1, f entry.1 entry.2⟩
  nodupKeys := by
    have keys :
        (m.entries.map fun entry => (⟨entry.1, f entry.1 entry.2⟩ : Sigma fun _ => Value')).keys
        = m.entries.keys := by
      simp [List.keys, Function.comp_def]
    rw [List.NodupKeys, keys]
    exact m.nodupKeys

/-- The order in which a loop over a map visits what it ranges over. -/
structure RangeOrder (Item : Type*) where
  visit : List Item → List Item
  perm : ∀ items, (visit items).Perm items

def RangeOrder.asStored (Item : Type*) : RangeOrder Item := ⟨fun items => items, List.Perm.refl⟩

/-- The order of the entries with the first two exchanged. -/
def RangeOrder.swapped (Item : Type*) : RangeOrder Item where
  visit
    | first :: second :: items => second :: first :: items
    | items => items
  perm
    | [] => .nil
    | [_] => .refl _
    | first :: second :: items => .swap first second items

theorem RangeOrder.visit_of_length_le_one {Item : Type*} (order : RangeOrder Item) {items : List Item}
    (few : items.length ≤ 1) : order.visit items = items := by
  match items, few with
  | [], _ => exact (order.perm []).eq_nil
  | [item], _ => exact List.perm_singleton.mp (order.perm [item])

theorem lookup_eq_some_iff {m : GoMap Key Value} {key : Key} {value : Value} :
    m.lookup key = some value ↔ ⟨key, value⟩ ∈ m.entries :=
  AList.mem_lookup_iff

theorem mem_values_iff {m : GoMap Key Value} {value : Value} :
    value ∈ values m ↔ ∃ key, m.lookup key = some value := by
  unfold values
  rw [List.mem_map]
  constructor
  · rintro ⟨entry, inside, rfl⟩
    exact ⟨entry.1, lookup_eq_some_iff.mpr inside⟩
  · rintro ⟨key, found⟩
    exact ⟨⟨key, value⟩, lookup_eq_some_iff.mp found, rfl⟩

theorem nodup_map_values {Value' : Type*} {f : Value → Value'} {m : GoMap Key Value}
    (tells : ∀ key key' value value', m.lookup key = some value → m.lookup key' = some value' →
      f value = f value' → key = key') : ((values m).map f).Nodup := by
  rw [values, List.map_map]
  refine m.nodupKeys.nodup.map_on fun entry inside entry' inside' same => ?_
  have found := lookup_eq_some_iff.mpr inside
  have found' := lookup_eq_some_iff.mpr inside'
  have sameKey := tells _ _ _ _ found found' same
  rw [sameKey, found'] at found
  exact Sigma.ext sameKey (heq_of_eq (Option.some.inj found).symm)

theorem lookup_insert (m : GoMap Key Value) (key key' : Key) (value : Value) :
    (m.insert key value).lookup key' = if key' = key then some value else m.lookup key' := by
  by_cases same : key' = key
  · subst same
    rw [if_pos rfl, AList.lookup_insert]
  · rw [if_neg same, AList.lookup_insert_ne same]

theorem lookup_erase (m : GoMap Key Value) (key key' : Key) :
    (m.erase key).lookup key' = if key' = key then none else m.lookup key' := by
  by_cases same : key' = key
  · subst same
    rw [if_pos rfl, AList.lookup_erase]
  · rw [if_neg same, AList.lookup_erase_ne same]

theorem lookup_deleteIf (p : Key → Value → Bool) (m : GoMap Key Value) (key : Key) :
    (deleteIf p m).lookup key = (m.lookup key).filter fun value => !p key value := by
  ext value
  rw [lookup_eq_some_iff, Option.filter_eq_some_iff, lookup_eq_some_iff]
  exact List.mem_filter

theorem lookup_mapValues {Value' : Type*} (f : Key → Value → Value') (m : GoMap Key Value)
    (key : Key) : (mapValues f m).lookup key = (m.lookup key).map (f key) := by
  ext value
  rw [lookup_eq_some_iff, Option.map_eq_some_iff]
  constructor
  · intro member
    obtain ⟨entry, inside, same⟩ := List.mem_map.mp member
    obtain ⟨rfl, equal⟩ := Sigma.mk.inj_iff.mp same
    exact ⟨entry.2, lookup_eq_some_iff.mpr inside, eq_of_heq equal⟩
  · rintro ⟨old, found, rfl⟩
    exact List.mem_map.mpr ⟨⟨key, old⟩, lookup_eq_some_iff.mp found, rfl⟩

theorem lookup_insertAll_of_not_mem {pairs : List (Key × Value)} {key : Key}
    (absent : key ∉ pairs.map Prod.fst) (m : GoMap Key Value) :
    (insertAll m pairs).lookup key = m.lookup key := by
  induction pairs generalizing m with
  | nil => rfl
  | cons pair rest ih =>
    rw [List.map_cons, List.mem_cons, not_or] at absent
    show (insertAll (m.insert pair.1 pair.2) rest).lookup key = _
    rw [ih absent.2, lookup_insert, if_neg absent.1]

/-- **Every entry is found again**, if no key is written twice. -/
theorem lookup_insertAll_of_mem {pairs : List (Key × Value)} {key : Key} {value : Value}
    (distinct : (pairs.map Prod.fst).Nodup) (member : (key, value) ∈ pairs) (m : GoMap Key Value) :
    (insertAll m pairs).lookup key = some value := by
  induction pairs generalizing m with
  | nil => cases member
  | cons pair rest ih =>
    obtain ⟨fresh, distinct'⟩ := List.nodup_cons.mp distinct
    show (insertAll (m.insert pair.1 pair.2) rest).lookup key = _
    rcases List.mem_cons.mp member with rfl | later
    · rw [lookup_insertAll_of_not_mem fresh, lookup_insert, if_pos rfl]
    · exact ih distinct' later _

omit [DecidableEq Key] in
theorem nodup_fst_pairs (m : GoMap Key Value) : ((pairs m).map Prod.fst).Nodup := by
  rw [pairs, List.map_map]
  exact m.nodupKeys

/-- **A map is rebuilt from its entries.** -/
theorem lookup_insertAll_pairs (m : GoMap Key Value) (key : Key) :
    (insertAll ∅ (pairs m)).lookup key = m.lookup key := by
  cases found : m.lookup key with
  | some value =>
    refine lookup_insertAll_of_mem (nodup_fst_pairs m) ?_ ∅
    exact List.mem_map_of_mem (lookup_eq_some_iff.mp found)
  | none =>
    refine lookup_insertAll_of_not_mem (fun member => ?_) ∅
    obtain ⟨pair, inside, rfl⟩ := List.mem_map.mp member
    obtain ⟨entry, stored, rfl⟩ := List.mem_map.mp inside
    rw [lookup_eq_some_iff.mpr stored] at found
    cases found

end GoMap

end GoBt.Lib
