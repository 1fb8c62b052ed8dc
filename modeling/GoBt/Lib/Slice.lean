/-
**Slice idioms as list functions.**

* `copyTo l dst src` — `copy(l[dst:], l[src:])` on one backing array: the elements from `src` on
  overwrite those from `dst` on, and the length stays.
* `search n f` — `sort.Search`: the binary search for the least index at which `f` holds.
* `SliceHeap` — slices that share backing arrays; an `append` within the capacity writes the shared
  array. A slice without spare capacity (`Owned`) is a value: an `append` to it copies, and it reads
  the same in every heap with more arrays (`read_of_extends`).
* `copyTo_succ` — copying one place down removes an element **and doubles the last one**.
* `set_copyTo` — copying one place up and writing the gap inserts an element and drops the last one.
* `countP_eq_length_filter_range` — the number of places at which a test holds.
* `search_le`, `search_below`, `search_above` — the result splits `[0, n)` for a monotone `f`.
-/

import Mathlib.Data.List.GetD
import Mathlib.Data.List.TakeDrop
import Mathlib.Tactic

namespace GoBt.Lib

section Copy

variable {α : Type*}

/-- `copy(l[dst:], l[src:])`, the two windows in one array. -/
def copyTo (l : List α) (dst src : Nat) : List α :=
  l.take dst ++ (l.drop src).take (l.length - dst) ++
    l.drop (dst + min (l.length - src) (l.length - dst))

/-- **Copying one place down** overwrites the element at `i` and leaves the last one twice. -/
theorem copyTo_succ (l : List α) (i : Nat) (inside : i < l.length) :
    copyTo l i (i + 1) = l.eraseIdx i ++ [l.getLast (List.ne_nil_of_length_pos (by omega))] := by
  have tail : (l.drop (i + 1)).take (l.length - i) = l.drop (i + 1) :=
    List.take_of_length_le (by rw [List.length_drop]; omega)
  have last : i + min (l.length - (i + 1)) (l.length - i) = l.length - 1 := by omega
  rw [copyTo, tail, last, List.eraseIdx_eq_take_drop_succ, List.drop_length_sub_one]

/-- **Copying one place up and writing the gap** inserts `x` at `i` and drops the last element. -/
theorem set_copyTo (l : List α) (i : Nat) (inside : i < l.length) (x : α) :
    (copyTo l (i + 1) i).set i x = l.take i ++ x :: (l.drop i).dropLast := by
  have rest : l.drop (i + 1 + min (l.length - i) (l.length - (i + 1))) = [] :=
    List.drop_of_length_le (by omega)
  have middle : (l.drop i).take (l.length - (i + 1)) = (l.drop i).dropLast := by
    rw [List.dropLast_eq_take, List.length_drop]
    congr 1
  have front : l.take (i + 1) = l.take i ++ [l[i]] := List.take_succ_eq_append_getElem inside
  rw [copyTo, rest, List.append_nil, middle, front, List.append_assoc,
    List.set_append_right _ _ (by rw [List.length_take]; omega)]
  simp [List.length_take, Nat.min_eq_left (Nat.le_of_lt inside)]

end Copy

theorem countP_eq_length_filter_range {α : Type} (test : α → Bool) (items : List α) :
    items.countP test =
      ((List.range items.length).filter fun i => items[i]?.any test).length := by
  induction items using List.reverseRecOn with
  | nil => rfl
  | append_singleton items item ih =>
    have same : (List.range items.length).filter (fun i => (items ++ [item])[i]?.any test) =
        (List.range items.length).filter fun i => items[i]?.any test :=
      List.filter_congr fun i inside => by
        rw [List.getElem?_append_left (List.mem_range.mp inside)]
    rw [List.countP_append, List.length_append, List.length_singleton, List.range_succ,
      List.filter_append, List.length_append, same, ih]
    cases holds : test item <;> simp [holds]

/-! ### Shared arrays -/

/-- A slice: where its array is, its length and its capacity. -/
structure SliceRef where
  array : Nat
  len : Nat
  cap : Nat
  deriving DecidableEq

def SliceRef.nil : SliceRef := ⟨0, 0, 0⟩

/-- The arrays allocated so far, each as far as it has been written. -/
structure SliceHeap (α : Type*) where
  arrays : List (List α)

namespace SliceHeap

variable {α : Type*}

def read (heap : SliceHeap α) (s : SliceRef) : List α := (heap.arrays.getD s.array []).take s.len

/-- A new array with the given elements. -/
def alloc (heap : SliceHeap α) (items : List α) (cap : Nat) : SliceRef × SliceHeap α :=
  (⟨heap.arrays.length, items.length, cap⟩, ⟨heap.arrays ++ [items]⟩)

/-- `append(s, a)`: in place if the capacity allows it, else into a new array whose capacity `grow`
chooses. -/
def append (heap : SliceHeap α) (grow : Nat → Nat) (s : SliceRef) (a : α) :
    SliceRef × SliceHeap α :=
  if s.len < s.cap then
    ({ s with len := s.len + 1 },
      ⟨heap.arrays.modify s.array fun cells => cells.take s.len ++ a :: cells.drop (s.len + 1)⟩)
  else heap.alloc (heap.read s ++ [a]) (grow (s.len + 1))

/-! #### Slices as values -/

/-- Arrays were added to the heap, and none was written. -/
def Extends (heap heap' : SliceHeap α) : Prop := heap.arrays <+: heap'.arrays

theorem Extends.refl (heap : SliceHeap α) : heap.Extends heap := List.prefix_refl _

theorem Extends.trans {heap heap' heap'' : SliceHeap α} (first : heap.Extends heap')
    (second : heap'.Extends heap'') : heap.Extends heap'' := List.IsPrefix.trans first second

/-- The slice has no spare capacity, and its array has all of its elements. -/
structure Owned (heap : SliceHeap α) (s : SliceRef) : Prop where
  full : s.cap ≤ s.len
  whole : (heap.read s).length = s.len

theorem owned_nil (heap : SliceHeap α) : heap.Owned SliceRef.nil := ⟨le_rfl, rfl⟩

theorem read_of_extends {heap heap' : SliceHeap α} {s : SliceRef} (owned : heap.Owned s)
    (more : heap.Extends heap') : heap'.read s = heap.read s := by
  obtain ⟨added, eq⟩ := more
  unfold read
  rw [← eq]
  by_cases inside : s.array < heap.arrays.length
  · rw [List.getD_append _ _ _ _ inside]
  · have empty : heap.read s = [] := by
      rw [read, List.getD_eq_default _ _ (not_lt.mp inside), List.take_nil]
    have none : s.len = 0 := by
      rw [← owned.whole, empty, List.length_nil]
    rw [none, List.take_zero, List.take_zero]

theorem Owned.of_extends {heap heap' : SliceHeap α} {s : SliceRef} (owned : heap.Owned s)
    (more : heap.Extends heap') : heap'.Owned s :=
  ⟨owned.full, (congrArg List.length (read_of_extends owned more)).trans owned.whole⟩

theorem alloc_extends (heap : SliceHeap α) (items : List α) (cap : Nat) :
    heap.Extends (heap.alloc items cap).2 := List.prefix_append _ _

theorem read_alloc (heap : SliceHeap α) (items : List α) (cap : Nat) :
    (heap.alloc items cap).2.read (heap.alloc items cap).1 = items := by
  simp [alloc, read]

theorem alloc_owned (heap : SliceHeap α) {items : List α} {cap : Nat} (exact : cap = items.length) :
    (heap.alloc items cap).2.Owned (heap.alloc items cap).1 :=
  ⟨exact.le, congrArg List.length (read_alloc heap items cap)⟩

theorem append_of_owned {heap : SliceHeap α} {s : SliceRef} (owned : heap.Owned s)
    (grow : Nat → Nat) (a : α) :
    heap.append grow s a = heap.alloc (heap.read s ++ [a]) (grow (s.len + 1)) :=
  if_neg (not_lt.mpr owned.full)

end SliceHeap

section Search

/-- The loop of `sort.Search` on the interval `[i, j)`. -/
def searchLoop (f : Nat → Bool) : Nat → Nat → Nat → Nat
  | 0, i, _ => i
  | fuel + 1, i, j =>
      if i < j then
        let h := (i + j) / 2
        if f h then searchLoop f fuel i h else searchLoop f fuel (h + 1) j
      else i

/-- `sort.Search(n, f)`. Every round halves the interval, so `n` rounds are enough. -/
def search (n : Nat) (f : Nat → Bool) : Nat := searchLoop f n 0 n

variable {f : Nat → Bool} {n : Nat}

/-- The loop keeps `f` false below the interval and true above it, and ends on an empty one. -/
theorem searchLoop_spec (mono : ∀ i j, i ≤ j → j < n → f i = true → f j = true) :
    ∀ (fuel i j : Nat), j - i ≤ fuel → i ≤ j → j ≤ n → (∀ k < i, f k = false) →
      (∀ k, j ≤ k → k < n → f k = true) →
        searchLoop f fuel i j ≤ n ∧ (∀ k < searchLoop f fuel i j, f k = false) ∧
          ∀ k, searchLoop f fuel i j ≤ k → k < n → f k = true := by
  intro fuel
  induction fuel with
  | zero =>
    intro i j short ordered bound below above
    have same : i = j := by omega
    subst same
    exact ⟨bound, below, above⟩
  | succ fuel ih =>
    intro i j short ordered bound below above
    simp only [searchLoop]
    by_cases open' : i < j
    · rw [if_pos open']
      by_cases holds : f ((i + j) / 2) = true
      · rw [if_pos holds]
        refine ih i ((i + j) / 2) (by omega) (by omega) (by omega) below fun k low high => ?_
        exact mono _ _ low high holds
      · rw [if_neg holds]
        refine ih ((i + j) / 2 + 1) j (by omega) (by omega) bound (fun k low => ?_) above
        by_contra true'
        exact holds (mono k _ (by omega) (by omega) (by simpa using true'))
    · rw [if_neg open']
      have same : i = j := by omega
      subst same
      exact ⟨bound, below, above⟩

variable (mono : ∀ i j, i ≤ j → j < n → f i = true → f j = true)

include mono

theorem search_spec : search n f ≤ n ∧ (∀ k < search n f, f k = false) ∧
    ∀ k, search n f ≤ k → k < n → f k = true :=
  searchLoop_spec mono n 0 n (by omega) (by omega) le_rfl (fun k low => by omega)
    fun k low high => by omega

theorem search_le : search n f ≤ n := (search_spec mono).1

theorem search_below {k : Nat} (low : k < search n f) : f k = false := (search_spec mono).2.1 k low

theorem search_above {k : Nat} (low : search n f ≤ k) (high : k < n) : f k = true :=
  (search_spec mono).2.2 k low high

end Search

theorem flatMap_eq_of_others_nil {α β : Type*} {items : List α} (distinct : items.Nodup) {a : α}
    (member : a ∈ items) {f : α → List β} (others : ∀ b ∈ items, b ≠ a → f b = []) :
    items.flatMap f = f a := by
  obtain ⟨before, after, rfl⟩ := List.append_of_mem member
  obtain ⟨_, behind, apart⟩ := List.nodup_append.mp distinct
  have front : before.flatMap f = [] := List.flatMap_eq_nil_iff.mpr fun b inside =>
    others b (List.mem_append_left _ inside) fun same => apart b inside a List.mem_cons_self same
  have back : after.flatMap f = [] := List.flatMap_eq_nil_iff.mpr fun b inside =>
    others b (by simp [inside]) fun same => (List.nodup_cons.mp behind).1 (same ▸ inside)
  rw [List.flatMap_append, List.flatMap_cons, front, back, List.append_nil, List.nil_append]

end GoBt.Lib
