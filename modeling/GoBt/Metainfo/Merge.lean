/-
**Merging the pieces of files** (`metainfo/piece.go`).

`Merge` sorts the ranges, cuts the list into groups of one index and joins the ranges of a group that
lie end to end. The sort is a `Sorter`, since `sort.Sort` is not stable.

* `FilePieces.merge` — the source's function, with both of its loops.
* `merge_eq` — the two loops are one pass that joins neighbours (`FilePiece.join`).
* **`merge_maximal`** — the result is in order and covers every position as often as the argument. If
  the ranges are not empty and have no position in common, the result is the only list in order
  without empty or touching ranges that does so, and merging it again changes nothing.
-/

import GoBt.Lib.Ranges
import GoBt.Lib.Sorter
import GoBt.Metainfo.FilePieces

namespace GoBt.Metainfo

open GoBt.Lib

/-! ### The source's functions -/

/-- `fps.Less(i, j)`, for the entries at `i` and `j`. -/
def FilePiece.less (a b : FilePiece) : Bool :=
  if a.index < b.index then true
  else if a.index = b.index ∧ a.offset < b.offset then true
  else false

namespace FilePieces

/-- The variables of the loop of `merge`. -/
structure Run where
  offset : UInt32
  length : UInt32
  last : Nat
  results : List FilePiece

/-- The loop of `merge` over the entries from the `i`-th on. -/
def mergeLoop (index : UInt32) : List FilePiece → Nat → Run → Run
  | [], _, run => run
  | fp :: rest, i, run =>
      if run.offset + run.length = fp.offset then
        mergeLoop index rest (i + 1) { run with length := run.length + fp.length }
      else
        mergeLoop index rest (i + 1)
          { offset := fp.offset
            length := fp.length
            last := i
            results := run.results ++ [⟨index, run.offset, run.length⟩] }

/-- `fps.merge(fpset, results)`. -/
def mergeInto (fpset results : List FilePiece) : List FilePiece :=
  match fpset with
  | [] => results
  | [fp] => results ++ [fp]
  | fp :: rest =>
      let run := mergeLoop fp.index rest 1 ⟨fp.offset, fp.length, 0, results⟩
      if run.last < rest.length + 1 then run.results ++ [⟨fp.index, run.offset, run.length⟩]
      else run.results

/-- The loop of `Merge` over the entries from the `i`-th on: the last `lastpos`, and `results`. -/
def groupLoop (fps : List FilePiece) :
    List FilePiece → Nat → Nat → UInt32 → List FilePiece → Nat × List FilePiece
  | [], _, lastpos, _, results => (lastpos, results)
  | fp :: rest, i, lastpos, curindex, results =>
      if fp.index ≠ curindex then
        groupLoop fps rest (i + 1) i fp.index (mergeInto ((fps.take i).drop lastpos) results)
      else groupLoop fps rest (i + 1) lastpos curindex results

/-- `fps.Merge()`, behind the sort. -/
def mergeSorted : List FilePiece → List FilePiece
  | [] => []
  | first :: rest =>
      let fps := first :: rest
      let (lastpos, results) := groupLoop fps fps 0 0 first.index []
      if lastpos < fps.length then mergeInto (fps.drop lastpos) results else results

def merge (sorter : Sorter FilePiece.less) (fps : List FilePiece) : List FilePiece :=
  if fps.length < 2 then fps else mergeSorted (sorter.sort fps)

end FilePieces

/-! ### The loops as one pass -/

/-- The two ranges as one, if they lie end to end. -/
def FilePiece.join (a b : FilePiece) : Option FilePiece :=
  if a.index = b.index ∧ a.offset + a.length = b.offset then
    some { a with length := a.length + b.length }
  else none

namespace FilePieces

open FilePiece (join)

theorem index_of_join {index : UInt32} (a b c : FilePiece) (first : a.index = index)
    (_ : b.index = index) (joined : join a b = some c) : c.index = index := by
  unfold FilePiece.join at joined
  split at joined
  · cases joined
    exact first
  · cases joined

theorem mergeLoop_spec {index : UInt32} {fpset : List FilePiece}
    (group : ∀ fp ∈ fpset, fp.index = index) (i : Nat) (run : Run) (early : run.last < i) :
    let final := mergeLoop index fpset i run
    final.last < i + fpset.length ∧
      final.results ++ [⟨index, final.offset, final.length⟩] =
        run.results ++ coalesceFrom join ⟨index, run.offset, run.length⟩ fpset := by
  induction fpset generalizing i run with
  | nil => exact ⟨early, rfl⟩
  | cons fp rest ih =>
    obtain ⟨here, later⟩ := List.forall_mem_cons.mp group
    rw [mergeLoop, List.length_cons, Nat.add_comm rest.length, ← Nat.add_assoc]
    by_cases meets : run.offset + run.length = fp.offset
    · have joined : join ⟨index, run.offset, run.length⟩ fp =
          some ⟨index, run.offset, run.length + fp.length⟩ := if_pos ⟨here.symm, meets⟩
      rw [if_pos meets, coalesceFrom_some joined]
      exact ih later (i + 1) _ (Nat.lt_succ_of_lt early)
    · have apart : join ⟨index, run.offset, run.length⟩ fp = none :=
        if_neg fun both => meets both.2
      have same : fp = ⟨index, fp.offset, fp.length⟩ := by rw [← here]
      rw [if_neg meets, coalesceFrom_none apart]
      obtain ⟨bound, result⟩ := ih later (i + 1)
        ⟨fp.offset, fp.length, i, run.results ++ [⟨index, run.offset, run.length⟩]⟩
        (Nat.lt_succ_self i)
      refine ⟨bound, result.trans ?_⟩
      rw [← same, List.append_assoc]
      rfl

theorem mergeInto_eq {index : UInt32} {fpset : List FilePiece}
    (group : ∀ fp ∈ fpset, fp.index = index) (results : List FilePiece) :
    mergeInto fpset results = results ++ coalesce join fpset := by
  match fpset, group with
  | [], _ => exact (List.append_nil results).symm
  | [fp], _ => rfl
  | fp :: next :: rest, group =>
    obtain ⟨rfl, later⟩ := List.forall_mem_cons.mp group
    obtain ⟨bound, result⟩ :=
      mergeLoop_spec later 1 ⟨fp.offset, fp.length, 0, results⟩ Nat.zero_lt_one
    rw [mergeInto, if_pos (by omega), result]
    · rfl
    · nofun

theorem groupLoop_spec {fps rest : List FilePiece} (done group : List FilePiece) (curindex : UInt32)
    (results : List FilePiece) (split : fps = done ++ group ++ rest)
    (same : ∀ fp ∈ group, fp.index = curindex) :
    let final := groupLoop fps rest (done.length + group.length) done.length curindex results
    mergeInto (fps.drop final.1) final.2 = results ++ coalesce join (group ++ rest) := by
  induction rest generalizing done group curindex results with
  | nil =>
    rw [List.append_nil] at split ⊢
    show mergeInto (fps.drop done.length) results = _
    rw [split, List.drop_left]
    exact mergeInto_eq same results
  | cons fp rest ih =>
    rw [groupLoop]
    split
    · next other =>
        have slice : (fps.take (done.length + group.length)).drop done.length = group := by
          rw [split, ← List.length_append, List.take_left, List.drop_left]
        have apart : ∀ a : FilePiece, a.index = curindex →
            ∀ b ∈ (fp :: rest).head?, join a b = none := by
          rintro a here b first
          cases first
          exact if_neg fun both => other (both.1.symm.trans here)
        have next := ih (done ++ group) [fp] fp.index (mergeInto group results)
          (by rw [split, List.append_assoc _ [fp]]; rfl) (List.forall_mem_singleton.mpr rfl)
        rw [List.length_append] at next
        rw [slice, coalesce_append index_of_join same apart, ← List.append_assoc,
          ← mergeInto_eq same results]
        exact next
    · next same' =>
        have grown : ∀ a ∈ group ++ [fp], a.index = curindex := by
          rintro a member
          rcases List.mem_append.mp member with old | new
          · exact same a old
          · rw [List.mem_singleton.mp new]
            exact not_not.mp same'
        have next := ih done (group ++ [fp]) curindex results (by rw [split]; simp) grown
        rw [List.length_append, ← Nat.add_assoc, List.append_assoc] at next
        exact next

theorem mergeSorted_eq (fps : List FilePiece) : mergeSorted fps = coalesce join fps := by
  cases fps with
  | nil => rfl
  | cons first rest =>
    let final := groupLoop (first :: rest) (first :: rest) 0 0 first.index []
    have spec : mergeInto ((first :: rest).drop final.1) final.2 =
        coalesce join (first :: rest) :=
      groupLoop_spec [] [] first.index [] rfl (List.forall_mem_nil _)
    show (if final.1 < (first :: rest).length then
      mergeInto ((first :: rest).drop final.1) final.2 else final.2) = _
    split
    · exact spec
    · next beyond =>
        rw [List.drop_eq_nil_of_le (not_lt.mp beyond)] at spec
        exact spec

/-- **`Merge` is one pass over the sorted list.** -/
theorem merge_eq (sorter : Sorter FilePiece.less) (fps : List FilePiece) :
    merge sorter fps = coalesce join (sorter.sort fps) := by
  rw [merge]
  split
  · next short =>
      match fps, short with
      | [], _ => rw [(sorter.perm []).eq_nil, coalesce]
      | [fp], _ => rw [List.perm_singleton.mp (sorter.perm [fp]), coalesce, coalesceFrom]
  · exact mergeSorted_eq _

end FilePieces

/-! ### What a join does -/

namespace FilePiece

def range (fp : FilePiece) : Range Nat := ⟨fp.index.toNat, fp.offset.toNat, fp.length.toNat⟩

theorem range_injective : Function.Injective range := by
  intro a b same
  rw [range, range, Range.mk.injEq] at same
  obtain ⟨index, offset, length⟩ := same
  cases a
  cases b
  rw [UInt32.toNat_inj] at index offset length
  cases index
  cases offset
  cases length
  rfl

/-- The end of the range does not overflow. -/
def Bounded (fp : FilePiece) : Prop := fp.offset.toNat + fp.length.toNat < 2 ^ 32

theorem toNat_end {fp : FilePiece} (bounded : fp.Bounded) :
    (fp.offset + fp.length).toNat = fp.offset.toNat + fp.length.toNat := by
  rw [UInt32.toNat_add, Nat.mod_eq_of_lt bounded]

theorem join_eq_some_iff {a b c : FilePiece} :
    join a b = some c ↔ a.index = b.index ∧ a.offset + a.length = b.offset ∧
      c = { a with length := a.length + b.length } := by
  unfold join
  split
  · next both => simp [both, eq_comm]
  · next apart => exact iff_of_false nofun fun ⟨index, meets, _⟩ => apart ⟨index, meets⟩

theorem join_eq_none_iff {a b : FilePiece} :
    join a b = none ↔ ¬ (a.index = b.index ∧ a.offset + a.length = b.offset) := by
  unfold join
  split
  · next both => simp [both]
  · next apart => exact iff_of_true rfl apart

theorem join_eq_none_iff_touches {a b : FilePiece} (bounded : a.Bounded) :
    join a b = none ↔ ¬ a.range.Touches b.range := by
  rw [join_eq_none_iff, ← UInt32.toNat_inj, ← UInt32.toNat_inj, toNat_end bounded]
  rfl

theorem length_of_join {a b : FilePiece} (bounded : a.Bounded) (bounded' : b.Bounded)
    (meets : a.offset + a.length = b.offset) :
    (a.length + b.length).toNat = a.length.toNat + b.length.toNat := by
  have place : b.offset.toNat = a.offset.toNat + a.length.toNat := by
    rw [← meets, toNat_end bounded]
  unfold Bounded at bounded'
  rw [UInt32.toNat_add, Nat.mod_eq_of_lt (by omega)]

theorem bounded_of_join (a b c : FilePiece) (bounded : a.Bounded) (bounded' : b.Bounded)
    (joined : join a b = some c) : c.Bounded := by
  obtain ⟨_, meets, rfl⟩ := join_eq_some_iff.mp joined
  have size := length_of_join bounded bounded' meets
  have place : b.offset.toNat = a.offset.toNat + a.length.toNat := by
    rw [← meets, toNat_end bounded]
  unfold Bounded at bounded' ⊢
  show a.offset.toNat + (a.length + b.length).toNat < 2 ^ 32
  omega

theorem covers_of_join (a b c : FilePiece) (bounded : a.Bounded) (bounded' : b.Bounded)
    (joined : join a b = some c) (index position : Nat) :
    (if c.range.Covers index position then 1 else 0) =
      (if a.range.Covers index position then 1 else 0) +
        if b.range.Covers index position then 1 else 0 := by
  obtain ⟨row, meets, rfl⟩ := join_eq_some_iff.mp joined
  have first : range { a with length := a.length + b.length } =
      ⟨a.index.toNat, a.offset.toNat, a.length.toNat + b.length.toNat⟩ := by
    rw [← length_of_join bounded bounded' meets]
    rfl
  have second : b.range =
      ⟨a.index.toNat, a.offset.toNat + a.length.toNat, b.length.toNat⟩ := by
    rw [← toNat_end bounded, meets, row]
    rfl
  rw [first, second]
  exact Range.covers_cut _ _ _ _ index position

end FilePiece

/-! ### The result -/

namespace FilePieces

open FilePiece (join)

/-- How many of the ranges cover a byte of a piece. -/
def coverage (fps : List FilePiece) (index position : Nat) : Nat :=
  Range.coverage (fps.map FilePiece.range) index position

/-- The list is in the order of the indexes, and of the offsets in a piece. -/
def Sorted (fps : List FilePiece) : Prop :=
  fps.Pairwise fun a b => a.index < b.index ∨ a.index = b.index ∧ a.offset ≤ b.offset

/-- Two of the ranges are adjacent: one ends where the other starts. -/
def Adjacent (a b : FilePiece) : Prop :=
  a.index = b.index ∧ a.offset.toNat + a.length.toNat = b.offset.toNat

/-- **A maximal merge**: the list is in order, has no empty and no adjacent ranges, and covers every
position as often as the given one. -/
structure IsMaximalMerge (fps merged : List FilePiece) : Prop where
  sorted : Sorted merged
  nonempty : ∀ fp ∈ merged, 0 < fp.length
  apart : ∀ a ∈ merged, ∀ b ∈ merged, ¬ Adjacent a b
  covers : ∀ index position, coverage merged index position = coverage fps index position

variable {fps merged : List FilePiece}

theorem startsBy_iff {a b : FilePiece} :
    a.range.StartsBy b.range ↔ a.index < b.index ∨ a.index = b.index ∧ a.offset ≤ b.offset := by
  unfold Range.StartsBy FilePiece.range
  rw [UInt32.toNat_inj, UInt32.lt_iff_toNat_lt, UInt32.le_iff_toNat_le]

theorem less_eq_false_iff {a b : FilePiece} : b.less a = false ↔ a.range.StartsBy b.range := by
  rw [startsBy_iff]
  unfold FilePiece.less
  have index := UInt32.toNat_inj (a := a.index) (b := b.index)
  simp only [UInt32.lt_iff_toNat_lt, UInt32.le_iff_toNat_le, ← UInt32.toNat_inj]
  split_ifs <;> simp only [false_iff, true_iff] <;> omega

theorem sorted_iff : Sorted fps ↔ (fps.map FilePiece.range).Pairwise Range.StartsBy := by
  rw [Sorted, List.pairwise_map]
  simp only [startsBy_iff]

theorem adjacent_iff {a b : FilePiece} : Adjacent a b ↔ a.range.Touches b.range := by
  rw [Adjacent, ← UInt32.toNat_inj]
  rfl

theorem sorted_merge (sorter : Sorter FilePiece.less) (fps : List FilePiece) :
    Sorted (merge sorter fps) := by
  have blind : ∀ a b c x : FilePiece, join a b = some c →
      (x.less a = false ↔ x.less c = false) ∧ (a.less x = false ↔ c.less x = false) := by
    intro a b c x joined
    obtain ⟨_, _, rfl⟩ := FilePiece.join_eq_some_iff.mp joined
    exact ⟨Iff.rfl, Iff.rfl⟩
  rw [merge_eq, sorted_iff, List.pairwise_map]
  exact (pairwise_coalesce blind (sorter.sorted fps)).imp fun order => less_eq_false_iff.mp order

theorem coverage_perm {other : List FilePiece} (perm : fps.Perm other) (index position : Nat) :
    coverage fps index position = coverage other index position :=
  (perm.map _).countP_eq _

theorem coverage_merge (sorter : Sorter FilePiece.less) (bounded : ∀ fp ∈ fps, fp.Bounded)
    (index position : Nat) :
    coverage (merge sorter fps) index position = coverage fps index position := by
  have each : ∀ fp ∈ sorter.sort fps, fp.Bounded :=
    fun fp member => bounded fp ((sorter.perm fps).mem_iff.mp member)
  rw [merge_eq, ← coverage_perm (sorter.perm fps), coverage, coverage, Range.coverage_eq_sum,
    Range.coverage_eq_sum, List.map_map, List.map_map]
  exact sum_coalesce FilePiece.bounded_of_join
    (fun a b c first second joined =>
      FilePiece.covers_of_join a b c first second joined index position) each

theorem bounded_merge (sorter : Sorter FilePiece.less) (bounded : ∀ fp ∈ fps, fp.Bounded) :
    ∀ fp ∈ merge sorter fps, fp.Bounded := by
  rw [merge_eq]
  exact forall_coalesce FilePiece.bounded_of_join
    fun fp member => bounded fp ((sorter.perm fps).mem_iff.mp member)

theorem isChain_merge (sorter : Sorter FilePiece.less) (fps : List FilePiece) :
    (merge sorter fps).IsChain fun a b => join a b = none := by
  rw [merge_eq]
  refine isChain_coalesce (fun a b c d joined apart => ?_) _
  obtain ⟨_, _, rfl⟩ := FilePiece.join_eq_some_iff.mp joined
  have different := FilePiece.join_eq_none_iff.mp apart
  exact FilePiece.join_eq_none_iff.mpr different

section Disjoint

variable (nonempty : ∀ fp ∈ fps, 0 < fp.length)
  (disjoint : fps.Pairwise fun a b => a.range.Apart b.range)

include nonempty in
theorem nonempty_merge (sorter : Sorter FilePiece.less) (bounded : ∀ fp ∈ fps, fp.Bounded) :
    ∀ fp ∈ merge sorter fps, 0 < fp.length := by
  have keeps : ∀ a b c : FilePiece, (a.Bounded ∧ 0 < a.length) → (b.Bounded ∧ 0 < b.length) →
      join a b = some c → c.Bounded ∧ 0 < c.length := by
    intro a b c first second joined
    refine ⟨FilePiece.bounded_of_join a b c first.1 second.1 joined, ?_⟩
    obtain ⟨_, meets, rfl⟩ := FilePiece.join_eq_some_iff.mp joined
    have size := FilePiece.length_of_join first.1 second.1 meets
    have positive := UInt32.lt_iff_toNat_lt.mp first.2
    rw [UInt32.lt_iff_toNat_lt]
    show (0 : UInt32).toNat < (a.length + b.length).toNat
    omega
  rw [merge_eq]
  intro fp member
  exact (forall_coalesce keeps (fun fp member =>
    have old := (sorter.perm fps).mem_iff.mp member
    ⟨bounded fp old, nonempty fp old⟩) fp member).2

include disjoint in
theorem apart_of_coverage
    (covers : ∀ index position, coverage merged index position = coverage fps index position) :
    (merged.map FilePiece.range).Pairwise Range.Apart := by
  refine Range.pairwise_apart_iff.mpr fun index position => ?_
  have once := Range.pairwise_apart_iff.mp (List.pairwise_map.mpr disjoint) index position
  exact (covers index position).le.trans once

theorem nonempty_ranges (each : ∀ fp ∈ merged, 0 < fp.length) :
    ∀ r ∈ merged.map FilePiece.range, 0 < r.size := by
  intro r member
  obtain ⟨fp, inside, rfl⟩ := List.mem_map.mp member
  exact UInt32.lt_iff_toNat_lt.mp (each fp inside)

include disjoint in
theorem IsMaximalMerge.separated (maximal : IsMaximalMerge fps merged) :
    (merged.map FilePiece.range).Pairwise Range.Before := by
  refine Range.pairwise_before (nonempty_ranges maximal.nonempty) (sorted_iff.mp maximal.sorted)
    (apart_of_coverage disjoint maximal.covers) (List.Pairwise.isChain ?_)
  refine List.pairwise_map.mpr (List.pairwise_of_forall_mem_list fun a memberA b memberB => ?_)
  exact fun touches => maximal.apart a memberA b memberB (adjacent_iff.mpr touches)

include disjoint in
theorem IsMaximalMerge.unique {other : List FilePiece} (maximal : IsMaximalMerge fps merged)
    (maximal' : IsMaximalMerge fps other) : merged = other := by
  refine List.map_injective_iff.mpr FilePiece.range_injective
    (Range.eq_of_covers (nonempty_ranges maximal.nonempty) (nonempty_ranges maximal'.nonempty)
      (maximal.separated disjoint) (maximal'.separated disjoint) fun index position => ?_)
  have same : coverage merged index position = coverage other index position :=
    (maximal.covers index position).trans (maximal'.covers index position).symm
  rw [← Range.coverage_pos_iff, ← Range.coverage_pos_iff]
  show 0 < coverage merged index position ↔ 0 < coverage other index position
  rw [same]

include nonempty disjoint in
theorem separated_merge (sorter : Sorter FilePiece.less) (bounded : ∀ fp ∈ fps, fp.Bounded) :
    ((merge sorter fps).map FilePiece.range).Pairwise Range.Before := by
  refine Range.pairwise_before (nonempty_ranges (nonempty_merge nonempty sorter bounded))
    (sorted_iff.mp (sorted_merge sorter fps))
    (apart_of_coverage disjoint (coverage_merge sorter bounded)) ?_
  rw [List.isChain_map]
  refine (isChain_merge sorter fps).imp_of_mem_imp fun a b memberA _ apart => ?_
  exact (FilePiece.join_eq_none_iff_touches (bounded_merge sorter bounded a memberA)).mp apart

include nonempty disjoint in
theorem isMaximalMerge_merge (sorter : Sorter FilePiece.less) (bounded : ∀ fp ∈ fps, fp.Bounded) :
    IsMaximalMerge fps (merge sorter fps) where
  sorted := sorted_merge sorter fps
  nonempty := nonempty_merge nonempty sorter bounded
  covers := coverage_merge sorter bounded
  apart _ memberA _ memberB adjacent :=
    Range.not_touches (nonempty_ranges (nonempty_merge nonempty sorter bounded))
      (separated_merge nonempty disjoint sorter bounded) (List.mem_map_of_mem memberA)
      (List.mem_map_of_mem memberB) (adjacent_iff.mp adjacent)

include nonempty disjoint in
theorem merge_merge (sorter : Sorter FilePiece.less) (bounded : ∀ fp ∈ fps, fp.Bounded) :
    merge sorter (merge sorter fps) = merge sorter fps := by
  have strict : (merge sorter fps).Pairwise fun a b => a.less b = true := by
    refine (List.pairwise_map.mp (separated_merge nonempty disjoint sorter bounded)).imp ?_
    intro a b before
    refine Bool.not_eq_false _ ▸ fun order => ?_
    rcases less_eq_false_iff.mp order with less | ⟨same, behind⟩
    · rcases before with less' | ⟨same, _⟩
      · exact lt_asymm less less'
      · exact absurd same (ne_of_gt less)
    · rcases before with less' | ⟨_, gap⟩
      · exact absurd same (ne_of_gt less')
      · omega
  rw [merge_eq sorter (merge sorter fps), sorter.sort_eq strict,
    coalesce_of_isChain (isChain_merge sorter fps)]

end Disjoint

/-- **`Merge` keeps what is covered and is the maximal merge.** -/
theorem merge_maximal (sorter : Sorter FilePiece.less) (fps : List FilePiece)
    (bounded : ∀ fp ∈ fps, fp.offset.toNat + fp.length.toNat < 2 ^ 32) :
    Sorted (merge sorter fps) ∧
      (∀ index position,
        coverage (merge sorter fps) index position = coverage fps index position) ∧
      ((∀ fp ∈ fps, 0 < fp.length) → (fps.Pairwise fun a b => a.range.Apart b.range) →
        (∀ a ∈ merge sorter fps, ∀ b ∈ merge sorter fps, ¬ Adjacent a b) ∧
          (∀ merged, IsMaximalMerge fps merged ↔ merged = merge sorter fps) ∧
          merge sorter (merge sorter fps) = merge sorter fps) := by
  refine ⟨sorted_merge sorter fps, coverage_merge sorter bounded, fun nonempty disjoint => ?_⟩
  have maximal := isMaximalMerge_merge nonempty disjoint sorter bounded
  refine ⟨maximal.apart, fun merged => ⟨fun maximal' => maximal'.unique disjoint maximal, ?_⟩,
    merge_merge nonempty disjoint sorter bounded⟩
  rintro rfl
  exact maximal

def insertionSorter : Sorter FilePiece.less :=
  .insertion _
    ⟨fun a b => by
      rw [less_eq_false_iff, less_eq_false_iff]
      exact Range.StartsBy.total _ _⟩
    ⟨fun a b c first second => by
      rw [less_eq_false_iff] at first second ⊢
      exact first.trans second⟩

theorem merge_maximal_two :
    (∀ merged, IsMaximalMerge [⟨1, 100, 100⟩, ⟨1, 0, 100⟩] merged ↔
        merged = merge insertionSorter [⟨1, 100, 100⟩, ⟨1, 0, 100⟩]) ∧
      merge insertionSorter [⟨1, 100, 100⟩, ⟨1, 0, 100⟩] = [⟨1, 0, 200⟩] := by
  have apart : Range.Apart (FilePiece.range ⟨1, 100, 100⟩) (FilePiece.range ⟨1, 0, 100⟩) :=
    (Range.apart_iff (by decide) (by decide)).mpr (by decide)
  obtain ⟨_, _, maximal⟩ :=
    merge_maximal insertionSorter [⟨1, 100, 100⟩, ⟨1, 0, 100⟩] (by decide)
  exact ⟨(maximal (by decide) (List.pairwise_pair.mpr apart)).2.1, by decide +kernel⟩

end FilePieces

end GoBt.Metainfo
