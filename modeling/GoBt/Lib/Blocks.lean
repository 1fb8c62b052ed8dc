/-
**A list cut into blocks, and put together again.**

* `block l size i` — the `i`-th block of `size` elements, the last one possibly shorter;
  `blockCount len size` — how many there are.
* `blocks l size` — all of them; `blocks_cons` — the first one and those of the rest.
* `flatten_blocks` — the blocks in order are the list.
* `slots part num got` — `num` places, of which those in `got` hold their part and the others
  nothing; `set_slots`: one more part arrives. `slots_full_iff`: no place is empty exactly when
  every part has arrived.
-/

import Mathlib.Data.List.Basic
import Mathlib.Tactic

namespace GoBt.Lib

variable {α : Type*}

/-! ### Blocks -/

/-- The `i`-th block of `size` elements. -/
def block (l : List α) (size i : Nat) : List α := (l.drop (i * size)).take size

theorem length_block (l : List α) (size i : Nat) :
    (block l size i).length = min size (l.length - i * size) := by
  rw [block, List.length_take, List.length_drop]

theorem block_ne_nil {l : List α} {size i : Nat} (positive : 0 < size)
    (inside : i * size < l.length) : block l size i ≠ [] := by
  rw [← List.length_pos_iff, length_block]
  omega

/-- How many blocks `len` elements make. -/
def blockCount (len size : Nat) : Nat := (len + size - 1) / size

theorem blockCount_le_iff {len size num : Nat} (positive : 0 < size) :
    blockCount len size ≤ num ↔ len ≤ num * size := by
  rw [blockCount, Nat.div_le_iff_le_mul positive]
  omega

theorem lt_blockCount_iff {len size i : Nat} (positive : 0 < size) :
    i < blockCount len size ↔ i * size < len := by
  rw [← Nat.not_le, blockCount_le_iff positive, Nat.not_le]

theorem blockCount_eq (len size : Nat) (positive : 0 < size) :
    blockCount len size = if len % size ≠ 0 then len / size + 1 else len / size := by
  have whole := Nat.div_add_mod len size
  have bound := Nat.mod_lt len positive
  rw [Nat.mul_comm] at whole
  split
  · refine le_antisymm ((blockCount_le_iff positive).mpr ?_) ((lt_blockCount_iff positive).mpr ?_)
    · rw [Nat.succ_mul]
      omega
    · omega
  · exact le_antisymm ((blockCount_le_iff positive).mpr (by omega))
      (Nat.div_le_div_right (by omega))

theorem flatten_blocks_take (l : List α) (size num : Nat) :
    ((List.range num).map (block l size)).flatten = l.take (num * size) := by
  induction num with
  | zero => simp
  | succ num ih =>
    rw [List.range_succ, List.map_append, List.flatten_append, ih, Nat.succ_mul, List.take_add]
    simp [block]

/-- **The blocks in order are the list**, if there are enough of them. -/
theorem flatten_blocks {l : List α} {size num : Nat} (enough : l.length ≤ num * size) :
    ((List.range num).map (block l size)).flatten = l := by
  rw [flatten_blocks_take, List.take_of_length_le enough]

def blocks (l : List α) (size : Nat) : List (List α) :=
  (List.range (blockCount l.length size)).map (block l size)

theorem blocks_nil {size : Nat} (positive : 0 < size) : blocks ([] : List α) size = [] := by
  rw [blocks, List.length_nil, Nat.le_zero.mp ((blockCount_le_iff positive).mpr (Nat.zero_le _))]
  rfl

theorem blocks_cons {l : List α} {size : Nat} (positive : 0 < size) (some' : l ≠ []) :
    blocks l size = l.take size :: blocks (l.drop size) size := by
  have length := List.length_pos_iff.mpr some'
  have count : blockCount l.length size = blockCount (l.drop size).length size + 1 := by
    rw [List.length_drop]
    refine le_antisymm ((blockCount_le_iff positive).mpr ?_) ((lt_blockCount_iff positive).mpr ?_)
    · have rest : l.length - size ≤ blockCount (l.length - size) size * size :=
        (blockCount_le_iff positive).mp le_rfl
      rw [Nat.succ_mul]
      omega
    · cases eq : blockCount (l.length - size) size with
      | zero => rwa [Nat.zero_mul]
      | succ k =>
        have last : k * size < l.length - size := (lt_blockCount_iff positive).mp (by omega)
        rw [Nat.succ_mul]
        omega
  rw [blocks, count, List.range_succ_eq_map, List.map_cons, List.map_map, blocks]
  congr 1
  · simp [block]
  · refine List.map_congr_left fun i _ => ?_
    simp only [Function.comp_apply, block, List.drop_drop, Nat.succ_mul, Nat.add_comm]

/-- **Parts of one size are the blocks of the list they make.** -/
theorem blocks_flatMap {β : Type} {as : List β} {part : β → List α} {size : Nat}
    (positive : 0 < size) (each : ∀ a ∈ as, (part a).length = size) :
    blocks (as.flatMap part) size = as.map part := by
  induction as with
  | nil => exact blocks_nil positive
  | cons a as ih =>
    obtain ⟨here, later⟩ := List.forall_mem_cons.mp each
    have some' : part a ++ as.flatMap part ≠ [] := by
      intro empty
      have none' := (List.append_eq_nil_iff.mp empty).1
      rw [none', List.length_nil] at here
      exact positive.ne here
    rw [List.flatMap_cons, blocks_cons positive some', List.take_left' here, List.drop_left' here,
      ih later, List.map_cons]

/-! ### Parts that arrive in any order -/

/-- Places for `num` parts; those in `got` are there. -/
def slots (part : Nat → List α) (num : Nat) (got : List Nat) : List (List α) :=
  (List.range num).map fun i => if i ∈ got then part i else []

@[simp] theorem length_slots (part : Nat → List α) (num : Nat) (got : List Nat) :
    (slots part num got).length = num := by
  simp [slots]

theorem slots_nil (part : Nat → List α) (num : Nat) :
    slots part num [] = List.replicate num [] := by
  simp [slots, List.map_const']

theorem set_slots (part : Nat → List α) (num i : Nat) (got : List Nat) :
    (slots part num got).set i (part i) = slots part num (i :: got) := by
  refine List.ext_getElem (by simp) fun j first second => ?_
  simp only [slots, List.getElem_set, List.getElem_map, List.getElem_range, List.mem_cons]
  by_cases same : i = j
  · simp [same]
  · simp [same, Ne.symm same]

/-- **No place is empty exactly when every part has arrived.** -/
theorem slots_full_iff {part : Nat → List α} {num : Nat} (filled : ∀ i < num, part i ≠ [])
    {got : List Nat} : (∀ place ∈ slots part num got, place ≠ []) ↔ ∀ i < num, i ∈ got := by
  simp only [slots, List.mem_map, List.mem_range, forall_exists_index, and_imp,
    forall_apply_eq_imp_iff₂]
  constructor
  · intro full i inside
    by_contra missing
    exact full i inside (if_neg missing)
  · intro all i inside
    rw [if_pos (all i inside)]
    exact filled i inside

theorem slots_of_all {part : Nat → List α} {num : Nat} {got : List Nat}
    (all : ∀ i < num, i ∈ got) : slots part num got = (List.range num).map part := by
  refine List.map_congr_left fun i inside => ?_
  rw [if_pos (all i (List.mem_range.mp inside))]

end GoBt.Lib
