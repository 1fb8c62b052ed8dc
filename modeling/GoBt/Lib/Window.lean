/-
**Slices with a capacity.**

A slice is a window of an array: it shows `len` elements, and behind them the array goes on up to
the capacity. Re-slicing is bounded by the capacity and not by the length, so a slice expression can
bring elements back that the slice did not show.

* `Panic` — why a call panics; code that may panic returns an `Except Panic`.
* `w.slice lo hi`, `w.tail lo` — `w[lo:hi]` and `w[lo:]`; `w.read lo hi` — the elements of
  `w[lo:hi]`.
* `cut l lo hi` — the part of a list from `lo` up to `hi`.
* `read_of_le`, `tail_of_le` — within the length, they show what the slice shows;
  `tail_of_lt` — **an open slice expression panics past the length**, whatever the capacity is.
* `eachBlock step f w` — the loop `for i := step; i <= len(w); i += step` over the blocks of a
  slice; `eachBlock_eq` — it maps over the whole blocks and does not panic.
-/

import GoBt.Lib.Blocks

namespace GoBt.Lib

/-- Why a call panics. -/
inductive Panic
  | bounds
  | explicit (text : List UInt8)
  deriving DecidableEq

theorem ok_bind {ε α β : Type} (a : α) (next : α → Except ε β) :
    ((Except.ok a : Except ε α) >>= next) = next a := rfl

theorem error_bind {ε α β : Type} (e : ε) (next : α → Except ε β) :
    ((Except.error e : Except ε α) >>= next) = .error e := rfl

theorem bind_eq_ok_iff {ε α β : Type} {first : Except ε α} {next : α → Except ε β} {b : β} :
    (first >>= next) = .ok b ↔ ∃ a, first = .ok a ∧ next a = .ok b := by
  cases first with
  | ok a => simp [ok_bind]
  | error e => simp [error_bind]

theorem bind_ne_error {ε α β : Type} {e : ε} {first : Except ε α} {next : α → Except ε β}
    (before : first ≠ .error e) (after : ∀ a, next a ≠ .error e) : (first >>= next) ≠ .error e := by
  cases first with
  | error e' => exact fun same => before (by rw [Except.error.inj same])
  | ok a => exact after a

/-- The elements from `lo` up to `hi`. -/
def cut {α : Type*} (l : List α) (lo hi : Nat) : List α := (l.drop lo).take (hi - lo)

theorem drop_skip {α : Type*} {front rest : List α} {lo : Nat} (before : front.length ≤ lo) :
    (front ++ rest).drop lo = rest.drop (lo - front.length) := by
  rw [List.drop_append, List.drop_of_length_le before, List.nil_append]

theorem cut_skip {α : Type*} {front rest : List α} {lo hi : Nat} (before : front.length ≤ lo) :
    cut (front ++ rest) lo hi = cut rest (lo - front.length) (hi - front.length) := by
  rw [cut, cut, drop_skip before]
  congr 1
  omega

theorem cut_front {α : Type*} {part rest : List α} {hi : Nat} (size : part.length = hi) :
    cut (part ++ rest) 0 hi = part := by
  rw [cut, List.drop_zero, Nat.sub_zero, ← size, List.take_left]

theorem cut_take {α : Type*} {l : List α} {lo hi n : Nat} (inside : hi ≤ n) :
    cut (l.take n) lo hi = cut l lo hi := by
  rw [cut, cut, List.drop_take, List.take_take]
  congr 1
  omega

theorem length_cut {α : Type*} {l : List α} {lo hi : Nat} (inside : hi ≤ l.length) :
    (cut l lo hi).length = hi - lo := by
  rw [cut, List.length_take, List.length_drop]
  omega

/-- A slice: `array` starts where the slice starts and ends at its capacity. -/
structure Window (α : Type*) where
  array : List α
  len : Nat
  fits : len ≤ array.length

namespace Window

variable {α β : Type}

def items (w : Window α) : List α := w.array.take w.len

@[simp] theorem length_items (w : Window α) : w.items.length = w.len := by
  rw [items, List.length_take, Nat.min_eq_left w.fits]

/-- The slice of all elements of a list, with `beyond` behind it in the array. -/
def of (items beyond : List α) : Window α where
  array := items ++ beyond
  len := items.length
  fits := by
    rw [List.length_append]
    exact Nat.le_add_right _ _

@[simp] theorem items_of (items beyond : List α) : (of items beyond).items = items :=
  List.take_left

@[simp] theorem len_of (items beyond : List α) : (of items beyond).len = items.length := rfl

/-- `w[lo:hi]`. -/
def slice (w : Window α) (lo hi : Nat) : Except Panic (Window α) :=
  if inside : lo ≤ hi ∧ hi ≤ w.array.length then
    .ok ⟨w.array.drop lo, hi - lo, by rw [List.length_drop]; omega⟩
  else .error .bounds

/-- `w[lo:]`. -/
def tail (w : Window α) (lo : Nat) : Except Panic (Window α) := w.slice lo w.len

/-- The elements of `w[lo:hi]`. -/
def read (w : Window α) (lo hi : Nat) : Except Panic (List α) := do
  let part ← w.slice lo hi
  return part.items

theorem slice_of_le {w : Window α} {lo hi : Nat} (ordered : lo ≤ hi) (inside : hi ≤ w.len) :
    ∃ part, w.slice lo hi = .ok part ∧ part.items = cut w.items lo hi := by
  have fits : lo ≤ hi ∧ hi ≤ w.array.length := ⟨ordered, inside.trans w.fits⟩
  refine ⟨_, dif_pos fits, ?_⟩
  show (w.array.drop lo).take (hi - lo) = ((w.array.take w.len).drop lo).take (hi - lo)
  rw [List.drop_take, List.take_take, Nat.min_eq_left (by omega)]

/-- **Within the length, a slice expression shows what the slice shows.** -/
theorem read_of_le {w : Window α} {lo hi : Nat} (ordered : lo ≤ hi) (inside : hi ≤ w.len) :
    w.read lo hi = .ok (cut w.items lo hi) := by
  obtain ⟨part, eq, shown⟩ := slice_of_le ordered inside
  rw [read, eq]
  exact congrArg Except.ok shown

theorem read_cases (w : Window α) (lo hi : Nat) :
    (∃ items, w.read lo hi = .ok items) ∨ w.read lo hi = .error .bounds := by
  rw [read, slice]
  split
  · exact Or.inl ⟨_, rfl⟩
  · exact Or.inr rfl

theorem tail_of_le {w : Window α} {lo : Nat} (inside : lo ≤ w.len) :
    ∃ part, w.tail lo = .ok part ∧ part.items = w.items.drop lo := by
  obtain ⟨part, eq, shown⟩ := slice_of_le inside le_rfl
  refine ⟨part, eq, ?_⟩
  rw [shown, cut, List.take_of_length_le]
  rw [List.length_drop, length_items]

/-- **An open slice expression panics past the length**, whatever the capacity is. -/
theorem tail_of_lt {w : Window α} {lo : Nat} (outside : w.len < lo) :
    w.tail lo = .error .bounds :=
  dif_neg fun inside => absurd inside.1 (Nat.not_le.mpr outside)

/-! ### Blocks -/

/-- The rounds of the loop from index `i` on. -/
def eachBlockFrom (step : Nat) (f : Window α → Except Panic β) (w : Window α) :
    Nat → Nat → Except Panic (List β)
  | 0, _ => .ok []
  | fuel + 1, i =>
      if i ≤ w.len then do
        let part ← w.slice (i - step) i
        let first ← f part
        let rest ← eachBlockFrom step f w fuel (i + step)
        return first :: rest
      else .ok []

/-- `for i := step; i <= len(w); i += step`, with `f(w[i-step:i])` appended to the result. A slice
of `len` elements has at most `len` blocks. -/
def eachBlock (step : Nat) (f : Window α → Except Panic β) (w : Window α) :
    Except Panic (List β) :=
  eachBlockFrom step f w w.len step

theorem eachBlockFrom_eq {step : Nat} (positive : 0 < step) {f : Window α → Except Panic β}
    {g : List α → β} (each : ∀ part : Window α, part.len = step → f part = .ok (g part.items))
    (w : Window α) (fuel done : Nat) (enough : w.len / step ≤ done + fuel) :
    eachBlockFrom step f w fuel (done * step + step) = .ok
      ((List.range' done (w.len / step - done)).map fun i => g (block w.items step i)) := by
  induction fuel generalizing done with
  | zero =>
    rw [Nat.sub_eq_zero_of_le (by omega)]
    rfl
  | succ fuel ih =>
    rw [eachBlockFrom]
    by_cases more : done * step + step ≤ w.len
    · have room : done + 1 ≤ w.len / step := by
        rw [Nat.le_div_iff_mul_le positive, Nat.succ_mul]
        exact more
      have ordered : done * step + step - step ≤ done * step + step := Nat.sub_le _ _
      obtain ⟨part, eq, shown⟩ := slice_of_le ordered more
      rw [Nat.add_sub_cancel, cut, Nat.add_sub_cancel_left] at shown
      have size : part.len = step := by
        rw [← part.length_items, shown, List.length_take, List.length_drop, length_items]
        omega
      have next : done * step + step + step = (done + 1) * step + step := by
        rw [Nat.succ_mul]
      have count : w.len / step - done = w.len / step - (done + 1) + 1 := by omega
      rw [if_pos more, eq, next, count, List.range'_succ, List.map_cons]
      simp only [ok_bind, each part size, ih (done + 1) (by omega), shown]
      rfl
    · have none' : w.len / step - done = 0 := by
        have : w.len / step < done + 1 := by
          rw [Nat.div_lt_iff_lt_mul positive, Nat.succ_mul]
          omega
        omega
      rw [if_neg more, none']
      rfl

/-- **The loop maps over the whole blocks.** -/
theorem eachBlock_eq {step : Nat} (positive : 0 < step) {f : Window α → Except Panic β}
    {g : List α → β} (each : ∀ part : Window α, part.len = step → f part = .ok (g part.items))
    (w : Window α) : eachBlock step f w = .ok
      ((List.range (w.len / step)).map fun i => g (block w.items step i)) := by
  have all := eachBlockFrom_eq positive each w w.len 0 (by
    rw [Nat.zero_add]
    exact Nat.div_le_self _ _)
  rwa [Nat.zero_mul, Nat.zero_add, Nat.sub_zero, ← List.range_eq_range'] at all

end Window

end GoBt.Lib
