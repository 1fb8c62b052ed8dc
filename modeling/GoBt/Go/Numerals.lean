/-
**Numbers in a base up to 36.**

`numeral base n` is the text of the digits that Mathlib's `Nat.digits` gives, the highest first.

* `mem_numeral` — the characters of a numeral are digits of its base.
* **`numeral_injective`** — a number is determined by its text.
* `lt_pow_length_numeral` — a text of `k` digits stands for a number below `base ^ k`.
-/

import GoBt.Go.Basic

namespace GoBt

def digitValue (c : UInt8) : Nat := if c.toNat < 58 then c.toNat - 48 else c.toNat - 87

theorem digit_toNat {value : Nat} (small : value < 36) :
    (digit value).toNat = if value < 10 then 48 + value else 87 + value := by
  unfold digit
  split
  · exact Nat.mod_eq_of_lt (by omega)
  · exact Nat.mod_eq_of_lt (by omega)

theorem digitValue_digit {value : Nat} (small : value < 36) : digitValue (digit value) = value := by
  unfold digitValue
  rw [digit_toNat small]
  by_cases decimal : value < 10
  · rw [if_pos decimal, if_pos (by omega), Nat.add_sub_cancel_left]
  · rw [if_neg decimal, if_neg (by omega), Nat.add_sub_cancel_left]

/-- The digits of a number, the highest first; zero has one digit. -/
def digitsOf (base n : Nat) : List Nat := if n = 0 then [0] else (Nat.digits base n).reverse

section Base

variable {base : Nat}

theorem digitsOf_ne_nil (n : Nat) : digitsOf base n ≠ [] := by
  unfold digitsOf
  split
  · exact List.cons_ne_nil _ _
  · rename_i positive
    rw [Ne, List.reverse_eq_nil_iff]
    exact Nat.digits_ne_nil_iff_ne_zero.mpr positive

theorem ofDigits_digitsOf (n : Nat) : Nat.ofDigits base (digitsOf base n).reverse = n := by
  unfold digitsOf
  split
  · rename_i zero
    rw [zero]
    rfl
  · rw [List.reverse_reverse, Nat.ofDigits_digits]

theorem digitsOf_of_lt {n : Nat} (small : n < base) : digitsOf base n = [n] := by
  unfold digitsOf
  split
  · rename_i zero
    rw [zero]
  · rename_i positive
    rw [Nat.digits_of_lt base n positive small]
    rfl

variable (two : 2 ≤ base)

include two

theorem lt_of_mem_digitsOf {n d : Nat} (member : d ∈ digitsOf base n) : d < base := by
  unfold digitsOf at member
  split at member
  · rw [List.mem_singleton.mp member]
    omega
  · exact Nat.digits_lt_base two (List.mem_reverse.mp member)

theorem digitsOf_of_le {n : Nat} (large : base ≤ n) :
    digitsOf base n = digitsOf base (n / base) ++ [n % base] := by
  have positive : n / base ≠ 0 := (Nat.div_pos large (by omega)).ne'
  unfold digitsOf
  rw [if_neg (by omega), if_neg positive, Nat.digits_def' two (by omega), List.reverse_cons]

theorem numeralLoop_eq {fuel n : Nat} (enough : n < fuel) (acc : GoString) :
    numeralLoop base fuel n acc = (digitsOf base n).map digit ++ acc := by
  induction fuel generalizing n acc with
  | zero => cases enough
  | succ fuel ih =>
    unfold numeralLoop
    split
    · rename_i small
      rw [digitsOf_of_lt small]
      rfl
    · rename_i large
      have less : n / base < fuel :=
        (Nat.div_lt_self (by omega) two).trans_le (Nat.lt_succ_iff.mp enough)
      rw [ih less, digitsOf_of_le two (not_lt.mp large), List.map_append, List.append_assoc]
      rfl

theorem numeral_eq (n : Nat) : numeral base n = (digitsOf base n).map digit := by
  rw [numeral, numeralLoop_eq two (Nat.lt_succ_self n), List.append_nil]

theorem numeral_nonempty (n : Nat) : numeral base n ≠ [] := by
  rw [numeral_eq two, Ne, List.map_eq_nil_iff]
  exact digitsOf_ne_nil n

theorem mem_numeral {n : Nat} {c : UInt8} (member : c ∈ numeral base n) :
    ∃ value, value < base ∧ c = digit value := by
  rw [numeral_eq two] at member
  obtain ⟨value, inside, rfl⟩ := List.mem_map.mp member
  exact ⟨value, lt_of_mem_digitsOf two inside, rfl⟩

/-- **A number is determined by its text.** -/
theorem numeral_injective (most : base ≤ 36) : Function.Injective (numeral base) := by
  have readBack : ∀ n, Nat.ofDigits base ((numeral base n).map digitValue).reverse = n := by
    intro n
    have digits : ((digitsOf base n).map digit).map digitValue = digitsOf base n := by
      rw [List.map_map]
      refine (List.map_congr_left fun value member => ?_).trans (List.map_id _)
      exact digitValue_digit ((lt_of_mem_digitsOf two member).trans_le most)
    rw [numeral_eq two, digits, ofDigits_digitsOf]
  intro n m same
  rw [← readBack n, same, readBack m]

theorem lt_pow_length_numeral (n : Nat) : n < base ^ (numeral base n).length := by
  rw [numeral_eq two, List.length_map]
  unfold digitsOf
  split
  · rename_i zero
    rw [zero]
    exact Nat.pow_pos (by omega)
  · rw [List.length_reverse]
    exact Nat.lt_base_pow_length_digits two

end Base

end GoBt
