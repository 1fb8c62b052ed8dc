/-
**The `k` nearest elements of a list.**

`d : α → β` is a distance into a linear order.

* `IsNearest d k table picked` — `picked` is a choice of `min k table.length` entries of `table`
  such that no entry left out is nearer than an entry chosen. Entries count with multiplicity.
* `insertAfter d x l` — insert `x` into a sorted list, behind everything at most as far.
* `IsNearest.push` — inserting and cutting to `k` keeps the choice nearest when `x` joins the table;
  `nearestOf` does so for every entry in turn.
* `IsNearest.count_eq` — **how often an entry is chosen**: as often as it occurs, or as often as
  places are left behind the strictly nearer entries, whichever is less. So the choice is
  determined up to its order (`IsNearest.perm`), and two distances choose alike exactly when these
  numbers agree (`isNearest_iff_places`).
* `nearestOf_perm` — the order of the table does not matter if distances tell its entries apart.
-/

import Mathlib.Data.List.Perm.Subperm
import Mathlib.Order.Defs.LinearOrder
import Mathlib.Tactic

namespace GoBt.Lib

section Nearest

variable {α β : Type*} [LinearOrder β]

/-- A choice of the `k` entries with the least distance. -/
structure IsNearest (d : α → β) (k : Nat) (table picked : List α) : Prop where
  size : picked.length = min k table.length
  rest : ∃ left, (picked ++ left).Perm table ∧ ∀ x ∈ left, ∀ y ∈ picked, d y ≤ d x

def SortedBy (d : α → β) (l : List α) : Prop := l.Pairwise fun x y => d x ≤ d y

/-- Insert `x` behind everything at most as far. -/
def insertAfter (d : α → β) (x : α) : List α → List α
  | [] => [x]
  | y :: l => if d x < d y then x :: y :: l else y :: insertAfter d x l

variable {d : α → β}

theorem insertAfter_perm (x : α) (l : List α) : (insertAfter d x l).Perm (x :: l) := by
  induction l with
  | nil => exact List.Perm.refl _
  | cons y l ih =>
    rw [insertAfter]
    split
    · exact List.Perm.refl _
    · exact (ih.cons y).trans (List.Perm.swap x y l)

theorem length_insertAfter (x : α) (l : List α) :
    (insertAfter d x l).length = l.length + 1 :=
  (insertAfter_perm x l).length_eq

theorem SortedBy.insertAfter {l : List α} (sorted : SortedBy d l) (x : α) :
    SortedBy d (insertAfter d x l) := by
  induction l with
  | nil => exact List.pairwise_singleton _ _
  | cons y l ih =>
    obtain ⟨least, sortedRest⟩ := List.pairwise_cons.mp sorted
    rw [Lib.insertAfter]
    split
    · rename_i less
      refine List.pairwise_cons.mpr ⟨fun z member => ?_, sorted⟩
      rcases List.mem_cons.mp member with rfl | member
      · exact less.le
      · exact less.le.trans (least z member)
    · rename_i notLess
      refine List.pairwise_cons.mpr ⟨fun z member => ?_, ih sortedRest⟩
      rcases List.mem_cons.mp ((insertAfter_perm x l).mem_iff.mp member) with rfl | member
      · exact not_lt.mp notLess
      · exact least z member

theorem insertAfter_split {x : α} {front back : List α} (near : ∀ y ∈ front, d y ≤ d x)
    (far : ∀ y ∈ back, d x < d y) : insertAfter d x (front ++ back) = front ++ x :: back := by
  induction front with
  | nil =>
    cases back with
    | nil => rfl
    | cons y back =>
      rw [List.nil_append, insertAfter, if_pos (far y List.mem_cons_self), List.nil_append]
  | cons y front ih =>
    rw [List.cons_append, insertAfter, if_neg (not_lt.mpr (near y List.mem_cons_self)),
      ih fun z member => near z (List.mem_cons_of_mem _ member)]
    rfl

namespace IsNearest

variable {k : Nat} {table picked : List α}

theorem nil (d : α → β) (k : Nat) : IsNearest d k [] ([] : List α) :=
  ⟨by simp, [], List.Perm.refl _, fun x member => by cases member⟩

theorem length_le (near : IsNearest d k table picked) : picked.length ≤ k := by
  rw [near.size]
  exact min_le_left _ _

theorem mem (near : IsNearest d k table picked) {x : α} (chosen : x ∈ picked) : x ∈ table := by
  obtain ⟨left, perm, _⟩ := near.rest
  exact perm.mem_iff.mp (List.mem_append_left _ chosen)

/-- **One more entry**: insert it into the sorted choice and cut to `k`. -/
theorem push (near : IsNearest d k table picked) (sorted : SortedBy d picked) (x : α) :
    IsNearest d k (table ++ [x]) ((insertAfter d x picked).take k) := by
  obtain ⟨left, perm, far⟩ := near.rest
  have size := near.size
  have inserted := insertAfter_perm (d := d) x picked
  refine ⟨by rw [List.length_take, length_insertAfter, List.length_append, size,
    List.length_singleton]; omega, (insertAfter d x picked).drop k ++ left, ?_, ?_⟩
  · rw [← List.append_assoc, List.take_append_drop]
    calc (insertAfter d x picked ++ left).Perm ((x :: picked) ++ left) := inserted.append_right left
      _ |>.Perm (x :: (picked ++ left)) := List.Perm.refl _
      _ |>.Perm (x :: table) := perm.cons x
      _ |>.Perm (table ++ [x]) := (List.perm_append_singleton x table).symm
  · intro y later z early
    have sortedAll : SortedBy d (insertAfter d x picked) := sorted.insertAfter x
    rcases List.mem_append.mp later with dropped | outside
    · rw [SortedBy, ← List.take_append_drop k (insertAfter d x picked)] at sortedAll
      exact (List.pairwise_append.mp sortedAll).2.2 z early y dropped
    · -- an old leftover exists only when the choice is full, and then `z` is at most the last one
      rcases List.mem_cons.mp (inserted.mem_iff.mp (List.mem_of_mem_take early)) with rfl | old
      · have full : picked.length = k := by
          have total := perm.length_eq
          have some := List.length_pos_of_mem outside
          rw [List.length_append] at total
          omega
        by_contra nearer
        have behind : ∀ w ∈ picked, d w ≤ d z := fun w member =>
          (far y outside w member).trans (not_le.mp nearer).le
        have atEnd : insertAfter d z picked = picked ++ [z] := by
          have split : insertAfter d z (picked ++ []) = picked ++ [z] :=
            insertAfter_split behind fun w member => by cases member
          rwa [List.append_nil] at split
        rw [atEnd, List.take_append_of_le_length full.ge, ← full, List.take_length] at early
        exact nearer (far y outside z early)
      · exact far y outside z old

end IsNearest

def nearestOf (d : α → β) (k : Nat) (table : List α) : List α :=
  table.foldl (fun picked x => (insertAfter d x picked).take k) []

theorem nearestOf_concat (k : Nat) (table : List α) (x : α) :
    nearestOf d k (table ++ [x]) = (insertAfter d x (nearestOf d k table)).take k := by
  rw [nearestOf, List.foldl_append]
  rfl

theorem SortedBy.take {l : List α} (sorted : SortedBy d l) (k : Nat) : SortedBy d (l.take k) :=
  List.Pairwise.sublist (List.take_sublist k l) sorted

theorem nearestOf_spec (k : Nat) (table : List α) :
    IsNearest d k table (nearestOf d k table) ∧ SortedBy d (nearestOf d k table) := by
  -- induction on the part of the table already seen, from its end
  induction table using List.reverseRecOn with
  | nil => exact ⟨IsNearest.nil d k, List.Pairwise.nil⟩
  | append_singleton table x ih =>
    rw [nearestOf_concat]
    exact ⟨ih.1.push ih.2 x, (ih.2.insertAfter x).take k⟩

/-! ### How often an entry is chosen -/

section Places

variable [DecidableEq α]

/-- The number of entries strictly nearer than `x`. -/
def nearer (d : α → β) (table : List α) (x : α) : Nat := table.countP fun y => d y < d x

/-- The number of places `x` takes among the `k` nearest entries: it comes behind the strictly
nearer ones and cannot take more places than it has entries. -/
def places (d : α → β) (k : Nat) (table : List α) (x : α) : Nat :=
  min (table.count x) (k - nearer d table x)

/-- Distinct entries are at distinct distances. -/
def NoTies (d : α → β) (table : List α) : Prop :=
  ∀ x ∈ table, ∀ y ∈ table, d x = d y → x = y

variable {k : Nat} {table picked : List α}

theorem length_eq_nearer_add_count {l : List α} {x : α} (close : ∀ y ∈ l, d y ≤ d x)
    (ties : ∀ y ∈ l, d y = d x → y = x) :
    l.length = nearer d l x + l.count x := by
  have others : l.countP (fun y => decide ¬ (decide (d y < d x)) = true) = l.count x := by
    rw [List.count_eq_countP]
    refine List.countP_congr fun y member => ?_
    simp only [decide_eq_true_eq, beq_iff_eq, not_lt]
    constructor
    · exact fun far => ties y member (le_antisymm (close y member) far)
    · rintro rfl
      exact le_rfl
  rw [nearer, List.length_eq_countP_add_countP (fun y => decide (d y < d x)), others]

theorem nearer_add_count_le (l : List α) (x : α) : nearer d l x + l.count x ≤ l.length := by
  rw [nearer, List.length_eq_countP_add_countP (fun y => decide (d y < d x)),
    List.count_eq_countP]
  refine Nat.add_le_add_left (List.countP_mono_left fun y _ same => ?_) _
  rw [beq_iff_eq] at same
  simp [same]

/-- **How often an entry is chosen.** -/
theorem IsNearest.count_eq (near : IsNearest d k table picked) (ties : NoTies d table) (x : α) :
    picked.count x = places d k table x := by
  obtain ⟨left, perm, far⟩ := near.rest
  have size := near.size
  have total := perm.length_eq
  have counts : table.count x = picked.count x + left.count x := by
    rw [← perm.count_eq, List.count_append]
  have nearers : nearer d table x = nearer d picked x + nearer d left x := by
    rw [nearer, ← perm.countP_eq, List.countP_append]
    rfl
  have chosenTies : ∀ y ∈ picked, x ∈ table → d y = d x → y = x := fun y member inside =>
    ties y (near.mem member) x inside
  rw [List.length_append] at total
  rw [places, counts, nearers]
  by_cases outside : x ∈ left
  · have full : picked.length = k := by
      have := List.length_pos_of_mem outside
      omega
    have inside : x ∈ table := perm.mem_iff.mp (List.mem_append_right _ outside)
    have all : picked.length = nearer d picked x + picked.count x :=
      length_eq_nearer_add_count (fun y member => far x outside y member)
        fun y member => chosenTies y member inside
    by_cases chosen : x ∈ picked
    · have none : nearer d left x = 0 :=
        List.countP_eq_zero.mpr fun y member => by simpa using far y member x chosen
      omega
    · rw [List.count_eq_zero_of_not_mem chosen] at all ⊢
      omega
  · rw [List.count_eq_zero_of_not_mem outside]
    by_cases chosen : x ∈ picked
    · have none : nearer d left x = 0 :=
        List.countP_eq_zero.mpr fun y member => by simpa using far y member x chosen
      have bound := nearer_add_count_le (d := d) picked x
      omega
    · rw [List.count_eq_zero_of_not_mem chosen]
      omega

theorem IsNearest.perm {picked' : List α} (near : IsNearest d k table picked)
    (near' : IsNearest d k table picked') (ties : NoTies d table) : picked.Perm picked' := by
  rw [List.perm_iff_count]
  intro x
  rw [near.count_eq ties, near'.count_eq ties]

omit [DecidableEq α] in
theorem IsNearest.congr {picked' : List α} (near : IsNearest d k table picked)
    (perm : picked.Perm picked') : IsNearest d k table picked' := by
  obtain ⟨left, split, far⟩ := near.rest
  refine ⟨by rw [← perm.length_eq, near.size], left, (perm.symm.append_right left).trans split, ?_⟩
  exact fun x outside y chosen => far x outside y (perm.mem_iff.mpr chosen)

omit [DecidableEq α] in
theorem IsNearest.of_perm {table' : List α} (near : IsNearest d k table picked)
    (perm : table.Perm table') : IsNearest d k table' picked := by
  obtain ⟨left, split, far⟩ := near.rest
  exact ⟨by rw [near.size, perm.length_eq], left, split.trans perm, far⟩

/-- **The order of the table does not matter** if distances tell its entries apart. -/
theorem nearestOf_perm {table' : List α} (perm : table.Perm table') (ties : NoTies d table) (k : Nat) :
    nearestOf d k table = nearestOf d k table' := by
  obtain ⟨near, sorted⟩ := nearestOf_spec (d := d) k table
  obtain ⟨near', sorted'⟩ := nearestOf_spec (d := d) k table'
  replace near' := near'.of_perm perm.symm
  refine List.Perm.eq_of_pairwise (fun x y xChosen yChosen less more => ?_) sorted sorted'
    (near.perm near' ties)
  exact ties x (near.mem xChosen) y (near'.mem yChosen) (le_antisymm less more)

/-- **Two distances choose alike** exactly when every entry takes as many places under both. -/
theorem isNearest_iff_places {e : α → β} (near : IsNearest e k table picked)
    (ties : NoTies d table) (ties' : NoTies e table) :
    IsNearest d k table picked ↔ ∀ x ∈ table, places d k table x = places e k table x := by
  constructor
  · intro alike x _
    rw [← alike.count_eq ties, near.count_eq ties']
  · intro alike
    refine (nearestOf_spec k table).1.congr (List.perm_iff_count.mpr fun x => ?_)
    rw [(nearestOf_spec k table).1.count_eq ties, near.count_eq ties']
    by_cases inside : x ∈ table
    · exact alike x inside
    · simp [places, List.count_eq_zero_of_not_mem inside]

end Places

end Nearest

end GoBt.Lib
