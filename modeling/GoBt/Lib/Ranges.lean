/-
**Merging and covering ranges.**

* `coalesce join` — one pass that joins an element to the one before it where `join` allows it.
  `isChain_coalesce`: no two neighbours of the result can be joined; `sum_coalesce`: what is additive
  under `join` has the same sum; `coalesce_of_isChain`: nothing happens where nothing can be joined.
* `Range` — positions of one row, from `start` on. `coverage`: how often a position is covered.
* **`eq_of_covers`** — ranges that are not empty, in order and with gaps between them, are determined
  by the positions they cover.
-/

import Mathlib.Data.List.Sort
import Mathlib.Tactic

namespace GoBt.Lib

/-! ### Joining neighbours -/

section Coalesce

variable {α : Type*} (join : α → α → Option α)

/-- The elements from `a` on, where each is joined to the one before it if it can be. -/
def coalesceFrom : α → List α → List α
  | a, [] => [a]
  | a, b :: rest =>
      match join a b with
      | some c => coalesceFrom c rest
      | none => a :: coalesceFrom b rest

def coalesce : List α → List α
  | [] => []
  | a :: rest => coalesceFrom join a rest

variable {join}

theorem coalesceFrom_some {a b c : α} (joined : join a b = some c) (rest : List α) :
    coalesceFrom join a (b :: rest) = coalesceFrom join c rest := by
  rw [coalesceFrom, joined]

theorem coalesceFrom_none {a b : α} (apart : join a b = none) (rest : List α) :
    coalesceFrom join a (b :: rest) = a :: coalesceFrom join b rest := by
  rw [coalesceFrom, apart]

/-- **Induction over the pass**: what holds of single elements, and is kept where two are joined and
where one is left behind. -/
theorem coalesceFrom_induction {motive : α → List α → List α → Prop}
    (single : ∀ a, motive a [] [a])
    (joins : ∀ a b c rest result, join a b = some c → motive c rest result →
      motive a (b :: rest) result)
    (leaves : ∀ a b rest result, join a b = none → motive b rest result →
      motive a (b :: rest) (a :: result))
    (a : α) (l : List α) : motive a l (coalesceFrom join a l) := by
  induction l generalizing a with
  | nil => exact single a
  | cons b rest ih =>
    cases step : join a b with
    | some c =>
      rw [coalesceFrom_some step]
      exact joins a b c rest _ step (ih c)
    | none =>
      rw [coalesceFrom_none step]
      exact leaves a b rest _ step (ih b)

theorem isChain_coalesceFrom
    (stable : ∀ a b c d, join b c = some d → join a b = none → join a d = none) (a : α)
    (l : List α) :
    (coalesceFrom join a l).IsChain (fun a b => join a b = none) ∧
      ∀ x, join x a = none → ∀ y ∈ (coalesceFrom join a l).head?, join x y = none := by
  refine coalesceFrom_induction (motive := fun a _ result =>
    result.IsChain (fun a b => join a b = none) ∧
      ∀ x, join x a = none → ∀ y ∈ result.head?, join x y = none) ?_ ?_ ?_ a l
  · rintro a
    refine ⟨.singleton a, fun x apart y first => ?_⟩
    cases first
    exact apart
  · rintro a b c rest result joined ⟨chain, heads⟩
    exact ⟨chain, fun x apart => heads x (stable x a b c joined apart)⟩
  · rintro a b rest result apart ⟨chain, heads⟩
    refine ⟨List.isChain_cons.mpr ⟨heads a apart, chain⟩, fun x apart y first => ?_⟩
    cases first
    exact apart

/-- **No two neighbours of the result can be joined.** -/
theorem isChain_coalesce
    (stable : ∀ a b c d, join b c = some d → join a b = none → join a d = none) (l : List α) :
    (coalesce join l).IsChain fun a b => join a b = none := by
  cases l with
  | nil => exact .nil
  | cons a rest => exact (isChain_coalesceFrom stable a rest).1

theorem coalesce_of_isChain {l : List α} (chain : l.IsChain fun a b => join a b = none) :
    coalesce join l = l := by
  cases l with
  | nil => rfl
  | cons a rest =>
    show coalesceFrom join a rest = a :: rest
    induction rest generalizing a with
    | nil => rfl
    | cons b rest ih =>
      obtain ⟨apart, chainRest⟩ := List.isChain_cons_cons.mp chain
      rw [coalesceFrom_none apart, ih b chainRest]

theorem forall_coalesce {fine : α → Prop}
    (keeps : ∀ a b c, fine a → fine b → join a b = some c → fine c) {l : List α}
    (each : ∀ a ∈ l, fine a) : ∀ a ∈ coalesce join l, fine a := by
  cases l with
  | nil => exact each
  | cons a rest =>
    refine coalesceFrom_induction (motive := fun a rest result =>
      (∀ x ∈ a :: rest, fine x) → ∀ x ∈ result, fine x) (fun _ each => each) ?_ ?_ a rest each
    · intro a b c rest result joined ih each
      obtain ⟨first, second, later⟩ := by
        simpa only [List.forall_mem_cons] using each
      exact ih (List.forall_mem_cons.mpr ⟨keeps a b c first second joined, later⟩)
    · intro a b rest result _ ih each
      obtain ⟨first, later⟩ := List.forall_mem_cons.mp each
      exact List.forall_mem_cons.mpr ⟨first, ih later⟩

theorem coalesce_append {fine : α → Prop}
    (keeps : ∀ a b c, fine a → fine b → join a b = some c → fine c) {xs ys : List α}
    (each : ∀ a ∈ xs, fine a) (apart : ∀ a, fine a → ∀ b ∈ ys.head?, join a b = none) :
    coalesce join (xs ++ ys) = coalesce join xs ++ coalesce join ys := by
  cases xs with
  | nil => rfl
  | cons a xs =>
    refine coalesceFrom_induction (motive := fun a xs result =>
      (∀ x ∈ a :: xs, fine x) → coalesceFrom join a (xs ++ ys) = result ++ coalesce join ys)
      ?_ ?_ ?_ a xs each
    · intro a each
      cases ys with
      | nil => rfl
      | cons b ys => exact coalesceFrom_none (apart a (each a List.mem_cons_self) b rfl) ys
    · intro a b c rest result joined ih each
      obtain ⟨first, second, later⟩ := by
        simpa only [List.forall_mem_cons] using each
      rw [List.cons_append, coalesceFrom_some joined]
      exact ih (List.forall_mem_cons.mpr ⟨keeps a b c first second joined, later⟩)
    · intro a b rest result step ih each
      rw [List.cons_append, coalesceFrom_none step, ih (List.forall_mem_cons.mp each).2]
      rfl

/-- **What is additive under `join` has the same sum.** -/
theorem sum_coalesce {fine : α → Prop} {weight : α → Nat}
    (keeps : ∀ a b c, fine a → fine b → join a b = some c → fine c)
    (additive : ∀ a b c, fine a → fine b → join a b = some c → weight c = weight a + weight b)
    {l : List α} (each : ∀ a ∈ l, fine a) :
    ((coalesce join l).map weight).sum = (l.map weight).sum := by
  cases l with
  | nil => rfl
  | cons a rest =>
    refine coalesceFrom_induction (motive := fun a rest result =>
      (∀ x ∈ a :: rest, fine x) →
        (result.map weight).sum = ((a :: rest).map weight).sum) (fun _ _ => rfl) ?_ ?_ a rest each
    · intro a b c rest result joined ih each
      obtain ⟨first, second, later⟩ := by
        simpa only [List.forall_mem_cons] using each
      rw [ih (List.forall_mem_cons.mpr ⟨keeps a b c first second joined, later⟩)]
      simp only [List.map_cons, List.sum_cons, additive a b c first second joined]
      omega
    · intro a b rest result _ ih each
      rw [List.map_cons, List.sum_cons, ih (List.forall_mem_cons.mp each).2]
      rfl

theorem pairwise_coalesce {R : α → α → Prop}
    (blind : ∀ a b c x, join a b = some c → (R a x ↔ R c x) ∧ (R x a ↔ R x c)) {l : List α}
    (ordered : l.Pairwise R) : (coalesce join l).Pairwise R := by
  cases l with
  | nil => exact ordered
  | cons a rest =>
    refine (coalesceFrom_induction (motive := fun a rest result => (a :: rest).Pairwise R →
      result.Pairwise R ∧ ∀ x, (∀ y ∈ a :: rest, R x y) → ∀ y ∈ result, R x y)
      (fun _ ordered => ⟨ordered, fun _ each => each⟩) ?_ ?_ a rest ordered).1
    · intro a b c rest result joined ih ordered
      obtain ⟨first, orderedRest⟩ := List.pairwise_cons.mp ordered
      obtain ⟨_, orderedLater⟩ := List.pairwise_cons.mp orderedRest
      obtain ⟨done, least⟩ := ih (List.pairwise_cons.mpr ⟨fun y member =>
        (blind a b c y joined).1.mp (first y (List.mem_cons_of_mem b member)), orderedLater⟩)
      refine ⟨done, fun x each => least x ?_⟩
      obtain ⟨here, later⟩ := List.forall_mem_cons.mp each
      exact List.forall_mem_cons.mpr ⟨(blind a b c x joined).2.mp here,
        (List.forall_mem_cons.mp later).2⟩
    · intro a b rest result _ ih ordered
      obtain ⟨first, orderedRest⟩ := List.pairwise_cons.mp ordered
      obtain ⟨done, least⟩ := ih orderedRest
      refine ⟨List.pairwise_cons.mpr ⟨least a first, done⟩, fun x each => ?_⟩
      obtain ⟨here, later⟩ := List.forall_mem_cons.mp each
      exact List.forall_mem_cons.mpr ⟨here, least x later⟩

end Coalesce

/-! ### Ranges -/

/-- The positions of `row` from `start` on, as many as `size`. -/
@[ext]
structure Range (ι : Type*) where
  row : ι
  start : Nat
  size : Nat
  deriving DecidableEq

namespace Range

variable {ι : Type*} {a b : Range ι} {l m : List (Range ι)}

def Covers (a : Range ι) (row : ι) (position : Nat) : Prop :=
  a.row = row ∧ a.start ≤ position ∧ position < a.start + a.size

def Apart (a b : Range ι) : Prop := ∀ row position, ¬ (a.Covers row position ∧ b.Covers row position)

theorem apart_iff (nonemptyA : 0 < a.size) (nonemptyB : 0 < b.size) :
    Apart a b ↔ a.row = b.row → a.start + a.size ≤ b.start ∨ b.start + b.size ≤ a.start := by
  constructor
  · intro apart same
    by_contra overlap
    exact apart a.row (max a.start b.start)
      ⟨⟨rfl, by omega, by omega⟩, same.symm, by omega, by omega⟩
  · rintro disjoint row position ⟨⟨rfl, low, high⟩, same, low', high'⟩
    have := disjoint same.symm
    omega

section Coverage

variable [DecidableEq ι]

instance (a : Range ι) (row : ι) (position : Nat) : Decidable (a.Covers row position) :=
  inferInstanceAs (Decidable (_ ∧ _))

/-- How many of the ranges cover a position. -/
def coverage (l : List (Range ι)) (row : ι) (position : Nat) : Nat :=
  l.countP fun a => a.Covers row position

theorem coverage_pos_iff {row : ι} {position : Nat} :
    0 < coverage l row position ↔ ∃ a ∈ l, a.Covers row position := by
  simp [coverage, List.countP_pos_iff]

theorem coverage_eq_sum (l : List (Range ι)) (row : ι) (position : Nat) :
    coverage l row position = (l.map fun a => if a.Covers row position then 1 else 0).sum := by
  induction l with
  | nil => rfl
  | cons a l ih =>
    rw [coverage] at ih ⊢
    rw [List.countP_cons, ih, List.map_cons, List.sum_cons, Nat.add_comm]
    simp only [decide_eq_true_eq]

theorem covers_cut (row : ι) (start first second : Nat) (row' : ι) (position : Nat) :
    (if Covers ⟨row, start, first + second⟩ row' position then 1 else 0) =
      (if Covers ⟨row, start, first⟩ row' position then 1 else 0) +
        if Covers ⟨row, start + first, second⟩ row' position then 1 else 0 := by
  by_cases here : row = row'
  · have cut : ∀ start size, Covers ⟨row, start, size⟩ row' position ↔
        start ≤ position ∧ position < start + size := fun _ _ => and_iff_right here
    simp only [cut]
    split_ifs <;> omega
  · have outside : ∀ start size, ¬ Covers ⟨row, start, size⟩ row' position :=
      fun _ _ covered => here covered.1
    rw [if_neg (outside _ _), if_neg (outside _ _), if_neg (outside _ _)]

theorem pairwise_apart_iff : l.Pairwise Apart ↔ ∀ row position, coverage l row position ≤ 1 := by
  induction l with
  | nil => simp [coverage]
  | cons a l ih =>
    rw [List.pairwise_cons, ih]
    constructor
    · rintro ⟨first, later⟩ row position
      rw [coverage, List.countP_cons]
      by_cases here : a.Covers row position
      · have none : l.countP (fun b => b.Covers row position) = 0 := by
          refine List.countP_eq_zero.mpr fun b member covered => ?_
          exact first b member row position ⟨here, of_decide_eq_true covered⟩
        rw [none]
        split <;> omega
      · rw [if_neg (by simpa using here)]
        exact later row position
    · intro once
      refine ⟨fun b member row position both => ?_, fun row position => ?_⟩
      · have bound := once row position
        have positive : 0 < l.countP fun b => b.Covers row position :=
          List.countP_pos_iff.mpr ⟨b, member, decide_eq_true both.2⟩
        rw [coverage, List.countP_cons, if_pos (decide_eq_true both.1)] at bound
        omega
      · have bound := once row position
        rw [coverage, List.countP_cons] at bound
        exact (Nat.le_add_right _ _).trans bound

end Coverage

section Separated

variable [LinearOrder ι]

/-- The range does not start behind the other one. -/
def StartsBy (a b : Range ι) : Prop := a.row < b.row ∨ a.row = b.row ∧ a.start ≤ b.start

theorem StartsBy.total (a b : Range ι) : StartsBy a b ∨ StartsBy b a := by
  rcases lt_trichotomy a.row b.row with less | same | more
  · exact .inl (.inl less)
  · exact (le_total a.start b.start).imp (fun order => .inr ⟨same, order⟩)
      fun order => .inr ⟨same.symm, order⟩
  · exact .inr (.inl more)

theorem StartsBy.trans {c : Range ι} (first : StartsBy a b) (second : StartsBy b c) :
    StartsBy a c := by
  rcases first with less | ⟨same, order⟩
  · rcases second with less' | ⟨same', _⟩
    · exact .inl (less.trans less')
    · exact .inl (same' ▸ less)
  · rcases second with less' | ⟨same', order'⟩
    · exact .inl (same ▸ less')
    · exact .inr ⟨same.trans same', order.trans order'⟩

/-- The range ends where the other one starts. -/
def Touches (a b : Range ι) : Prop := a.row = b.row ∧ a.start + a.size = b.start

/-- The range ends before the other one starts, with a gap between them. -/
def Before (a b : Range ι) : Prop := a.row < b.row ∨ a.row = b.row ∧ a.start + a.size < b.start

theorem Before.trans {c : Range ι} (first : Before a b) (second : Before b c) : Before a c := by
  rcases first with less | ⟨same, gap⟩
  · rcases second with less' | ⟨same', _⟩
    · exact .inl (less.trans less')
    · exact .inl (same' ▸ less)
  · rcases second with less' | ⟨same', gap'⟩
    · exact .inl (same ▸ less')
    · exact .inr ⟨same.trans same', by omega⟩

theorem Before.apart (before : Before a b) : Apart a b := by
  rintro row position ⟨⟨rfl, low, high⟩, same, low', high'⟩
  rcases before with less | ⟨_, gap⟩
  · exact absurd same (ne_of_gt less)
  · omega

theorem StartsBy.before (starts : StartsBy a b) (apart : Apart a b) (nonemptyA : 0 < a.size)
    (nonemptyB : 0 < b.size) (gap : ¬ Touches a b) : Before a b := by
  rcases starts with less | ⟨same, order⟩
  · exact .inl less
  · rcases (apart_iff nonemptyA nonemptyB).mp apart same with ends | ends
    · exact .inr ⟨same, lt_of_le_of_ne ends fun touch => gap ⟨same, touch⟩⟩
    · omega

theorem pairwise_before (nonempty : ∀ a ∈ l, 0 < a.size) (ordered : l.Pairwise StartsBy)
    (apart : l.Pairwise Apart) (gaps : l.IsChain fun a b => ¬ Touches a b) :
    l.Pairwise Before := by
  induction l with
  | nil => exact .nil
  | cons a l ih =>
    obtain ⟨positive, nonemptyRest⟩ := List.forall_mem_cons.mp nonempty
    obtain ⟨first, orderedRest⟩ := List.pairwise_cons.mp ordered
    obtain ⟨outside, apartRest⟩ := List.pairwise_cons.mp apart
    obtain ⟨gap, gapsRest⟩ := List.isChain_cons.mp gaps
    have later : l.Pairwise Before := ih nonemptyRest orderedRest apartRest gapsRest
    refine List.pairwise_cons.mpr ⟨?_, later⟩
    cases l with
    | nil => exact fun _ member => absurd member List.not_mem_nil
    | cons c rest =>
      have next : Before a c := (first c List.mem_cons_self).before
        (outside c List.mem_cons_self) positive (nonemptyRest c List.mem_cons_self) (gap c rfl)
      intro b member
      rcases List.mem_cons.mp member with rfl | behind
      · exact next
      · exact next.trans (List.rel_of_pairwise_cons later behind)

theorem not_touches (nonempty : ∀ a ∈ l, 0 < a.size) (separated : l.Pairwise Before)
    (memberA : a ∈ l) (memberB : b ∈ l) : ¬ Touches a b := by
  rintro ⟨row, touch⟩
  have positiveA := nonempty a memberA
  have positiveB := nonempty b memberB
  obtain ⟨i, rfl⟩ := List.get_of_mem memberA
  obtain ⟨j, rfl⟩ := List.get_of_mem memberB
  have order := List.pairwise_iff_get.mp separated
  rcases lt_trichotomy i j with less | same | more
  · rcases order i j less with differ | ⟨_, gap⟩
    · exact absurd row (ne_of_lt differ)
    · omega
  · subst same
    omega
  · rcases order j i more with differ | ⟨_, gap⟩
    · exact absurd row (ne_of_gt differ)
    · omega

theorem le_of_covers (separated : (a :: l).Pairwise Before) {row : ι} {position : Nat}
    (covered : ∃ b ∈ a :: l, b.Covers row position) :
    a.row < row ∨ a.row = row ∧ a.start ≤ position := by
  obtain ⟨b, member, here, low, _⟩ := covered
  rcases List.mem_cons.mp member with rfl | later
  · exact .inr ⟨here, low⟩
  · rcases List.rel_of_pairwise_cons separated later with less | ⟨same, gap⟩
    · exact .inl (here ▸ less)
    · exact .inr ⟨same.trans here, by omega⟩

theorem not_covers_end (separated : (a :: l).Pairwise Before) :
    ¬ ∃ b ∈ a :: l, b.Covers a.row (a.start + a.size) := by
  rintro ⟨b, member, here, low, high⟩
  rcases List.mem_cons.mp member with rfl | later
  · omega
  · rcases List.rel_of_pairwise_cons separated later with less | ⟨_, gap⟩
    · exact absurd here (ne_of_gt less)
    · omega

theorem start_eq (nonemptyA : 0 < a.size) (nonemptyB : 0 < b.size)
    (separated : (a :: l).Pairwise Before) (separated' : (b :: m).Pairwise Before)
    (same : ∀ row position, (∃ c ∈ a :: l, c.Covers row position) ↔
      ∃ c ∈ b :: m, c.Covers row position) : a.row = b.row ∧ a.start = b.start := by
  have fromB := le_of_covers separated' ((same a.row a.start).mp
    ⟨a, List.mem_cons_self, rfl, le_rfl, by omega⟩)
  have fromA := le_of_covers separated ((same b.row b.start).mpr
    ⟨b, List.mem_cons_self, rfl, le_rfl, by omega⟩)
  rcases fromA with less | ⟨row, low⟩
  · rcases fromB with less' | ⟨row, _⟩
    · exact absurd less (lt_asymm less')
    · exact absurd row (ne_of_gt less)
  · rcases fromB with less' | ⟨_, high⟩
    · exact absurd row (ne_of_gt less')
    · exact ⟨row, le_antisymm low high⟩

theorem size_le (separated : (a :: l).Pairwise Before) (starts : a.row = b.row ∧ a.start = b.start)
    (same : ∀ row position, (∃ c ∈ b :: m, c.Covers row position) →
      ∃ c ∈ a :: l, c.Covers row position) : b.size ≤ a.size := by
  by_contra longer
  refine not_covers_end separated (same _ _ ⟨b, List.mem_cons_self, starts.1.symm, ?_, ?_⟩)
  · omega
  · omega

/-- **Separated ranges are determined by the positions they cover.** -/
theorem eq_of_covers (nonemptyL : ∀ a ∈ l, 0 < a.size) (nonemptyM : ∀ a ∈ m, 0 < a.size)
    (separated : l.Pairwise Before) (separated' : m.Pairwise Before)
    (same : ∀ row position, (∃ a ∈ l, a.Covers row position) ↔ ∃ a ∈ m, a.Covers row position) :
    l = m := by
  induction l generalizing m with
  | nil =>
    cases m with
    | nil => rfl
    | cons b m =>
      have positive := nonemptyM b List.mem_cons_self
      obtain ⟨_, member, _⟩ := (same b.row b.start).mpr
        ⟨b, List.mem_cons_self, rfl, le_rfl, by omega⟩
      exact absurd member List.not_mem_nil
  | cons a l ih =>
    obtain ⟨positive, nonemptyL⟩ := List.forall_mem_cons.mp nonemptyL
    cases m with
    | nil =>
      obtain ⟨_, member, _⟩ := (same a.row a.start).mp
        ⟨a, List.mem_cons_self, rfl, le_rfl, by omega⟩
      exact absurd member List.not_mem_nil
    | cons b m =>
      obtain ⟨positive', nonemptyRest⟩ := List.forall_mem_cons.mp nonemptyM
      have starts := start_eq positive positive' separated separated' same
      have size : a.size = b.size := le_antisymm
        (size_le separated' ⟨starts.1.symm, starts.2.symm⟩ fun row position => (same _ _).mp)
        (size_le separated starts fun row position => (same _ _).mpr)
      have first : a = b := Range.ext starts.1 starts.2 size
      subst first
      obtain ⟨before, separatedL⟩ := List.pairwise_cons.mp separated
      obtain ⟨before', separatedM⟩ := List.pairwise_cons.mp separated'
      -- behind the first range, the positions are those that it does not cover
      refine congrArg (a :: ·) (ih nonemptyL nonemptyRest separatedL separatedM
        fun row position => ⟨?_, ?_⟩)
      · rintro ⟨c, member, covered⟩
        obtain ⟨d, member', covered'⟩ :=
          (same row position).mp ⟨c, List.mem_cons_of_mem a member, covered⟩
        rcases List.mem_cons.mp member' with rfl | later
        · exact absurd ⟨covered', covered⟩ ((before c member).apart row position)
        · exact ⟨d, later, covered'⟩
      · rintro ⟨c, member, covered⟩
        obtain ⟨d, member', covered'⟩ :=
          (same row position).mpr ⟨c, List.mem_cons_of_mem a member, covered⟩
        rcases List.mem_cons.mp member' with rfl | later
        · exact absurd ⟨covered', covered⟩ ((before' c member).apart row position)
        · exact ⟨d, later, covered'⟩

end Separated

end Range

end GoBt.Lib
