/-
**Sorting.**

* `Sorter less` — a sort of which only the result is known: it has the elements of its argument and
  none of them lies before an earlier one. `sort_eq`: elements in strictly increasing order stay.
* `KeySorter less` — a sort of keys and their positions; `sortOn key` — that of elements by their keys.
  `sortOn_map`: it commutes with maps; `perm_sortOn`, `sorted_sortOn`: what is known of the result.
* **`sortOn_injective`** — for lists with the same keys the result tells what was sorted.
-/

import Mathlib.Data.List.Sort
import Mathlib.Tactic

namespace GoBt.Lib

/-- A sort by `less`, which need not be stable. -/
structure Sorter {α : Type*} (less : α → α → Bool) where
  sort : List α → List α
  perm : ∀ l, (sort l).Perm l
  sorted : ∀ l, (sort l).Pairwise fun a b => less b a = false

namespace Sorter

variable {α : Type*} {less : α → α → Bool}

theorem sort_eq (sorter : Sorter less) {l : List α} (strict : l.Pairwise fun a b => less a b = true) :
    sorter.sort l = l := by
  have ordered : (sorter.sort l).Pairwise fun a b => less b a = false := sorter.sorted l
  generalize sorter.sort l = m, sorter.perm l = perm at ordered
  induction m generalizing l with
  | nil => exact perm.nil_eq
  | cons a m ih =>
    obtain ⟨least, orderedRest⟩ := List.pairwise_cons.mp ordered
    match l, strict with
    | [], _ => exact absurd perm.length_eq (by simp)
    | b :: rest, strict =>
      obtain ⟨first, strictRest⟩ := List.pairwise_cons.mp strict
      -- an element other than the first of the list would have to lie behind it
      have same : a = b := by
        rcases List.mem_cons.mp (perm.mem_iff.mp List.mem_cons_self) with same | later
        · exact same
        · have behind := first a later
          rcases List.mem_cons.mp (perm.mem_iff.mpr List.mem_cons_self) with same | member
          · exact same.symm
          · exact absurd behind (by rw [least b member]; decide)
      subst same
      rw [ih strictRest perm.cons_inv orderedRest]

def insertion (less : α → α → Bool) (total : Std.Total fun a b : α => less b a = false)
    (trans' : IsTrans α fun a b => less b a = false) : Sorter less where
  sort l := l.insertionSort fun a b => less b a = false
  perm l := List.perm_insertionSort _ l
  sorted l := List.pairwise_insertionSort _ l

end Sorter

/-! ### Sorting by keys -/

/-- A sort by keys, which sees the keys and their positions only. -/
abbrev KeySorter {κ : Type*} (less : κ → κ → Bool) := Sorter fun a b : κ × ℕ => less a.1 b.1

namespace KeySorter

variable {κ α β : Type*} {less : κ → κ → Bool} (sorter : KeySorter less)

def sortOn (key : α → κ) (l : List α) : List α :=
  (sorter.sort (l.map key).zipIdx).filterMap fun e => l[e.2]?

theorem sortOn_map (f : α → β) (key : β → κ) (l : List α) :
    sorter.sortOn key (l.map f) = (sorter.sortOn (fun a => key (f a)) l).map f := by
  simp only [sortOn, List.map_map, List.map_filterMap, List.getElem?_map, Function.comp_def]

theorem exists_of_mem_sort {key : α → κ} {l : List α} {e : κ × ℕ}
    (member : e ∈ sorter.sort (l.map key).zipIdx) : ∃ a, l[e.2]? = some a ∧ key a = e.1 := by
  have place := List.mem_zipIdx_iff_getElem?.mp ((sorter.perm _).mem_iff.mp member)
  rw [List.getElem?_map, Option.map_eq_some_iff] at place
  exact place

theorem filterMap_zipIdx (key : α → κ) (l : List α) :
    (l.map key).zipIdx.filterMap (fun e => l[e.2]?) = l := by
  rw [List.zipIdx_map, List.filterMap_map]
  have place : ∀ e ∈ l.zipIdx, l[e.2]? = some e.1 := fun e member =>
    List.mem_zipIdx_iff_getElem?.mp member
  calc l.zipIdx.filterMap (fun e => l[e.2]?)
      = l.zipIdx.filterMap (some ∘ Prod.fst) := List.filterMap_congr place
    _ = l.zipIdx.map Prod.fst := by rw [List.filterMap_eq_map]
    _ = l := List.zipIdx_map_fst _ _

theorem perm_sortOn (key : α → κ) (l : List α) : (sorter.sortOn key l).Perm l :=
  ((sorter.perm _).filterMap _).trans (.of_eq (filterMap_zipIdx key l))

theorem sorted_sortOn (key : α → κ) (l : List α) :
    (sorter.sortOn key l).Pairwise fun a b => less (key b) (key a) = false := by
  rw [sortOn, List.pairwise_filterMap]
  refine (sorter.sorted _).imp_of_mem ?_
  intro e f inside inside' ordered a here b there
  obtain ⟨a', here', keyA⟩ := exists_of_mem_sort sorter inside
  obtain ⟨b', there', keyB⟩ := exists_of_mem_sort sorter inside'
  obtain rfl := Option.some.inj (here.symm.trans here')
  obtain rfl := Option.some.inj (there.symm.trans there')
  rw [keyA, keyB]
  exact ordered

theorem sortOn_eq {key : α → κ} {l : List α}
    (strict : l.Pairwise fun a b => less (key a) (key b) = true) : sorter.sortOn key l = l := by
  rw [sortOn, sorter.sort_eq, filterMap_zipIdx]
  have keys : (((l.map key).zipIdx).map Prod.fst).Pairwise fun a b => less a b = true := by
    rw [List.zipIdx_map_fst, List.pairwise_map]
    exact strict
  exact List.pairwise_map.mp keys

theorem map_some_sortOn (key : α → κ) (l : List α) :
    (sorter.sortOn key l).map some = (sorter.sort (l.map key).zipIdx).map fun e => l[e.2]? := by
  have found : ∀ e ∈ sorter.sort (l.map key).zipIdx, ∃ a, l[e.2]? = some a ∧ key a = e.1 :=
    fun _ => exists_of_mem_sort sorter
  rw [sortOn]
  generalize sorter.sort (l.map key).zipIdx = es at found
  induction es with
  | nil => rfl
  | cons e es ih =>
    obtain ⟨a, here, _⟩ := found e List.mem_cons_self
    have rest := ih fun e member => found e (List.mem_cons_of_mem _ member)
    rw [List.filterMap_cons, here, List.map_cons, List.map_cons, here, rest]

/-- **The result tells what was sorted**, if the keys are known. -/
theorem sortOn_injective {key : α → κ} {l l' : List α} (keys : l.map key = l'.map key)
    (same : sorter.sortOn key l = sorter.sortOn key l') : l = l' := by
  have equal := congrArg (List.map some) same
  rw [map_some_sortOn, map_some_sortOn, ← keys, List.map_inj_left] at equal
  refine List.ext_getElem? fun i => ?_
  cases place : (l.map key)[i]? with
  | some k =>
    exact equal (k, i) ((sorter.perm _).mem_iff.mpr (List.mem_zipIdx_iff_getElem?.mpr place))
  | none =>
    have place' := place
    rw [keys] at place'
    rw [List.getElem?_map, Option.map_eq_none_iff] at place place'
    rw [place, place']

end KeySorter

end GoBt.Lib
