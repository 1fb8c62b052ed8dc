/-
**The first distinct values of a list.**

`List.eraseDups` keeps the first occurrence of every value. A loop that appends a value unless it has
it already, until it has enough of them, collects the first of these.

* `gather keep count` — a round of such a loop, which also leaves out the values that are not kept.
* **`foldl_gather`** — the loop collects the first `count` distinct values among those that are kept.
* `foldl_gather_of_forall` — these are the first distinct values of all, if all of them are kept.
-/

import Mathlib.Data.List.Induction
import Mathlib.Tactic

namespace GoBt.Lib

variable {α : Type} [DecidableEq α]

/-- A value is appended if there is room for it, it is kept, and it is not there yet. -/
def gather (keep : α → Bool) (count : Nat) (acc : List α) (v : α) : List α :=
  if acc.length < count ∧ keep v = true ∧ v ∉ acc then acc ++ [v] else acc

theorem eraseDups_concat (l : List α) (v : α) :
    (l ++ [v]).eraseDups = if v ∈ l then l.eraseDups else l.eraseDups ++ [v] := by
  rw [List.eraseDups_append]
  by_cases member : v ∈ l
  · simp [List.removeAll, member]
  · simp [List.removeAll, member, List.eraseDups_cons]

theorem eraseDups_filter (keep : α → Bool) (l : List α) :
    (l.filter keep).eraseDups = l.eraseDups.filter keep := by
  induction l using List.reverseRecOn with
  | nil => rfl
  | append_singleton l v ih =>
    rw [List.filter_append, eraseDups_concat]
    by_cases kept : keep v = true
    · rw [List.filter_cons_of_pos kept, List.filter_nil, eraseDups_concat, ih]
      by_cases member : v ∈ l
      · rw [if_pos (List.mem_filter.mpr ⟨member, kept⟩), if_pos member]
      · rw [if_neg fun both => member (List.mem_filter.mp both).1, if_neg member,
          List.filter_append, List.filter_cons_of_pos kept, List.filter_nil]
    · rw [List.filter_cons_of_neg kept, List.filter_nil, List.append_nil, ih]
      split
      · rfl
      · rw [List.filter_append, List.filter_cons_of_neg kept, List.filter_nil, List.append_nil]

variable {keep : α → Bool} {count : Nat}

theorem foldl_gather_of_full {acc : List α} (full : count ≤ acc.length) (l : List α) :
    l.foldl (gather keep count) acc = acc := by
  induction l with
  | nil => rfl
  | cons v l ih => rw [List.foldl_cons, gather, if_neg fun room => absurd room.1 (not_lt.mpr full), ih]

theorem foldl_gather (l : List α) :
    l.foldl (gather keep count) [] = (l.filter keep).eraseDups.take count := by
  induction l using List.reverseRecOn with
  | nil => exact List.take_nil.symm
  | append_singleton l v ih =>
    rw [List.foldl_append, List.foldl_cons, List.foldl_nil, ih, List.filter_append, gather]
    by_cases kept : keep v = true
    · rw [List.filter_cons_of_pos kept, List.filter_nil, eraseDups_concat]
      by_cases room : (l.filter keep).eraseDups.length < count
      · -- all distinct values so far have been collected
        rw [List.take_of_length_le room.le]
        by_cases member : v ∈ l.filter keep
        · rw [if_neg fun fresh => fresh.2.2 (List.mem_eraseDups.mpr member), if_pos member,
            List.take_of_length_le room.le]
        · have whole : ((l.filter keep).eraseDups ++ [v]).length ≤ count := by
            rw [List.length_append, List.length_singleton]
            exact room
          have fresh : v ∉ (l.filter keep).eraseDups := fun old => member (List.mem_eraseDups.mp old)
          rw [if_pos ⟨room, kept, fresh⟩, if_neg member, List.take_of_length_le whole]
      · have full : count ≤ (l.filter keep).eraseDups.length := not_lt.mp room
        rw [if_neg fun fresh => by rw [List.length_take_of_le full] at fresh; omega]
        split
        · rfl
        · rw [List.take_append_of_le_length full]
    · rw [if_neg fun fresh => kept fresh.2.1, List.filter_cons_of_neg kept, List.filter_nil,
        List.append_nil]

theorem keep_of_mem_foldl_gather {l : List α} {v : α}
    (member : v ∈ l.foldl (gather keep count) []) : keep v = true := by
  rw [foldl_gather] at member
  have kept := List.mem_eraseDups.mp (List.mem_of_mem_take member)
  exact (List.mem_filter.mp kept).2

theorem foldl_gather_of_forall {l : List α} (enough : count ≤ l.eraseDups.length)
    (all : ∀ v ∈ l.eraseDups.take count, keep v = true) :
    l.foldl (gather keep count) [] = l.eraseDups.take count := by
  rw [foldl_gather, eraseDups_filter]
  nth_rewrite 1 [← List.take_append_drop count l.eraseDups]
  rw [List.filter_append, List.filter_eq_self.mpr all, List.take_append_of_le_length, List.take_take,
    Nat.min_self]
  rw [List.length_take_of_le enough]

end GoBt.Lib
