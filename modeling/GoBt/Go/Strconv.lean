/-
**Decimal numbers as text** (`strconv`, and `%d` of `fmt`).

* `parseUint`, `parseInt` — the numbers of a text, within a number of bits; `formatInt` — the text of
  a number.
* `parseUint_numeral`, `parseInt_formatInt` — **a number is read back from its text.**
* `parseInt_range` — what is read fits into the bits.
* `integerIn` — the integer that a text means; `integerIn_of_parseUint`, `integerIn_of_parseInt` —
  it is what is read.
-/

import GoBt.Go.Basic

namespace GoBt

/-- The two causes of a `strconv.NumError`. -/
inductive NumError
  | invalid
  | range
  deriving DecidableEq

def IsDigit (c : UInt8) : Prop := 48 ≤ c.toNat ∧ c.toNat ≤ 57

instance (c : UInt8) : Decidable (IsDigit c) := inferInstanceAs (Decidable (_ ∧ _))

/-- The loop of `ParseUint` in base ten. -/
def parseUintLoop (maxVal : Nat) : GoString → Nat → Except NumError Nat
  | [], n => .ok n
  | c :: rest, n =>
      if ¬ IsDigit c then .error .invalid
      else if maxVal < n * 10 + (c.toNat - 48) then .error .range
      else parseUintLoop maxVal rest (n * 10 + (c.toNat - 48))

def parseUint (s : GoString) (bits : Nat) : Except NumError Nat :=
  if s = [] then .error .invalid else parseUintLoop (2 ^ bits - 1) s 0

/-- The sign in front of a number, and the rest. -/
def splitSign : GoString → Bool × GoString
  | 43 :: rest => (false, rest)
  | 45 :: rest => (true, rest)
  | s => (false, s)

/-- The end of `ParseInt`: the value with its sign, if it is in range. -/
def signed : Bool → Nat → Nat → Except NumError Int
  | false, bits, un => if 2 ^ (bits - 1) ≤ un then .error .range else .ok un
  | true, bits, un => if 2 ^ (bits - 1) < un then .error .range else .ok (-un)

def parseInt (s : GoString) (bits : Nat) : Except NumError Int :=
  (parseUint (splitSign s).2 bits).bind (signed (splitSign s).1 bits)

/-- `%d` of a signed number. -/
def formatInt (n : Int) : GoString :=
  if n < 0 then 45 :: numeral 10 n.natAbs else numeral 10 n.natAbs

theorem formatInt_natCast (n : Nat) : formatInt n = numeral 10 n :=
  if_neg (not_lt.mpr (Int.natCast_nonneg n))

/-! ### Digits -/

theorem toNat_digit {value : Nat} (small : value < 10) : (digit value).toNat = 48 + value := by
  rw [digit, if_pos small]
  exact Nat.mod_eq_of_lt (by omega)

theorem isDigit_digit {value : Nat} (small : value < 10) : IsDigit (digit value) := by
  rw [IsDigit, toNat_digit small]
  omega

/-- The value of digits behind those that make `start`. -/
def decimalValue (start : Nat) (digits : GoString) : Nat :=
  digits.foldl (fun n c => n * 10 + (c.toNat - 48)) start

theorem le_decimalValue (start : Nat) (digits : GoString) : start ≤ decimalValue start digits := by
  induction digits generalizing start with
  | nil => exact le_rfl
  | cons c rest ih =>
    refine le_trans ?_ (ih _)
    dsimp only
    omega

theorem numeralLoop_spec (fuel n : Nat) (acc : GoString) (enough : n < fuel)
    (digits : ∀ c ∈ acc, IsDigit c) :
    numeralLoop 10 fuel n acc ≠ [] ∧ (∀ c ∈ numeralLoop 10 fuel n acc, IsDigit c) ∧
      decimalValue 0 (numeralLoop 10 fuel n acc) = decimalValue n acc := by
  induction fuel generalizing n acc with
  | zero => cases enough
  | succ fuel ih =>
    unfold numeralLoop
    split
    · rename_i small
      refine ⟨List.cons_ne_nil _ _, List.forall_mem_cons.mpr ⟨isDigit_digit small, digits⟩, ?_⟩
      rw [decimalValue, List.foldl_cons, toNat_digit small, Nat.add_sub_cancel_left, Nat.zero_mul,
        Nat.zero_add]
      rfl
    · have last := Nat.mod_lt n (show 0 < 10 by decide)
      obtain ⟨nonempty, all, value⟩ := ih (n / 10) (digit (n % 10) :: acc) (by omega)
        (List.forall_mem_cons.mpr ⟨isDigit_digit last, digits⟩)
      refine ⟨nonempty, all, value.trans ?_⟩
      rw [decimalValue, List.foldl_cons, toNat_digit last, Nat.add_sub_cancel_left,
        Nat.div_add_mod']
      rfl

theorem numeral_ne_nil (n : Nat) : numeral 10 n ≠ [] :=
  (numeralLoop_spec (n + 1) n [] (Nat.lt_succ_self n) (by simp)).1

theorem isDigit_of_mem_numeral {n : Nat} {c : UInt8} (member : c ∈ numeral 10 n) : IsDigit c :=
  (numeralLoop_spec (n + 1) n [] (Nat.lt_succ_self n) (by simp)).2.1 c member

theorem decimalValue_numeral (n : Nat) : decimalValue 0 (numeral 10 n) = n :=
  (numeralLoop_spec (n + 1) n [] (Nat.lt_succ_self n) (by simp)).2.2

/-! ### Reading numbers -/

theorem parseUintLoop_digits {maxVal : Nat} {s : GoString} {n : Nat}
    (digits : ∀ c ∈ s, IsDigit c) (fits : decimalValue n s ≤ maxVal) :
    parseUintLoop maxVal s n = .ok (decimalValue n s) := by
  induction s generalizing n with
  | nil => rfl
  | cons c rest ih =>
    obtain ⟨here, later⟩ := List.forall_mem_cons.mp digits
    have step := le_decimalValue (n * 10 + (c.toNat - 48)) rest
    have fits' : decimalValue (n * 10 + (c.toNat - 48)) rest ≤ maxVal := fits
    unfold parseUintLoop
    rw [if_neg (not_not.mpr here), if_neg (by omega), ih later fits']
    rfl

theorem decimalValue_of_parseUintLoop {maxVal : Nat} {s : GoString} {start n : Nat}
    (parsed : parseUintLoop maxVal s start = .ok n) : decimalValue start s = n := by
  induction s generalizing start with
  | nil =>
    cases parsed
    rfl
  | cons c rest ih =>
    unfold parseUintLoop at parsed
    split_ifs at parsed
    exact ih parsed

theorem parseUint_numeral {n bits : Nat} (fits : n < 2 ^ bits) :
    parseUint (numeral 10 n) bits = .ok n := by
  have value := decimalValue_numeral n
  rw [parseUint, if_neg (numeral_ne_nil n),
    parseUintLoop_digits (fun c => isDigit_of_mem_numeral) (by omega), value]

theorem splitSign_numeral (n : Nat) : splitSign (numeral 10 n) = (false, numeral 10 n) := by
  obtain ⟨first, rest, eq⟩ := List.exists_cons_of_ne_nil (numeral_ne_nil n)
  have isDigit : IsDigit first := isDigit_of_mem_numeral (by rw [eq]; exact List.mem_cons_self)
  rw [eq]
  unfold splitSign
  split
  · rename_i same
    obtain ⟨rfl, _⟩ := List.cons.inj same
    exact absurd isDigit (by decide)
  · rename_i same
    obtain ⟨rfl, _⟩ := List.cons.inj same
    exact absurd isDigit (by decide)
  · rfl

theorem parseInt_formatInt {n : Int} {bits : Nat} (low : -2 ^ (bits - 1) ≤ n)
    (high : n < 2 ^ (bits - 1)) (some' : 0 < bits) : parseInt (formatInt n) bits = .ok n := by
  have cast : ((2 ^ (bits - 1) : Nat) : Int) = 2 ^ (bits - 1) := by norm_num
  have double : 2 ^ bits = 2 * 2 ^ (bits - 1) := by
    rw [← Nat.pow_succ', Nat.succ_eq_add_one, Nat.sub_add_cancel some']
  have fits : n.natAbs < 2 ^ bits := by omega
  rw [parseInt, formatInt]
  split
  · show (parseUint (numeral 10 n.natAbs) bits).bind (signed true bits) = _
    rw [parseUint_numeral fits]
    show signed true bits n.natAbs = _
    rw [signed, if_neg (by omega)]
    congr 1
    omega
  · rw [splitSign_numeral, parseUint_numeral fits]
    show signed false bits n.natAbs = _
    rw [signed, if_neg (by omega)]
    congr 1
    omega

theorem numeral_ne_formatInt {n : Int} (negative : n < 0) (m : Nat) : numeral 10 m ≠ formatInt n := by
  intro same
  have sign : (45 : UInt8) ∈ numeral 10 m := by
    rw [same, formatInt, if_pos negative]
    exact List.mem_cons_self
  exact absurd (isDigit_of_mem_numeral sign) (by decide)

theorem formatInt_ne_nil (n : Int) : formatInt n ≠ [] := by
  unfold formatInt
  split
  · exact List.cons_ne_nil _ _
  · exact numeral_ne_nil _

theorem parseInt_range {s : GoString} {bits : Nat} {n : Int} (parsed : parseInt s bits = .ok n) :
    -2 ^ (bits - 1) ≤ n ∧ n < 2 ^ (bits - 1) := by
  have cast : ((2 ^ (bits - 1) : Nat) : Int) = 2 ^ (bits - 1) := by norm_num
  have positive := Nat.two_pow_pos (bits - 1)
  unfold parseInt at parsed
  cases read : parseUint (splitSign s).2 bits with
  | error err => rw [read] at parsed; cases parsed
  | ok un =>
    rw [read] at parsed
    replace parsed : signed (splitSign s).1 bits un = .ok n := parsed
    cases sign : (splitSign s).1 with
    | false | true =>
      rw [sign, signed] at parsed
      split_ifs at parsed with large
      cases parsed
      omega

/-! ### The meaning of a text -/

/-- The integer that a decimal text means. -/
def integerIn (s : GoString) : Int :=
  if (splitSign s).1 then -decimalValue 0 (splitSign s).2 else decimalValue 0 (splitSign s).2

theorem decimalValue_of_parseUint {s : GoString} {bits n : Nat} (parsed : parseUint s bits = .ok n) :
    decimalValue 0 s = n := by
  unfold parseUint at parsed
  split_ifs at parsed
  exact decimalValue_of_parseUintLoop parsed

theorem splitSign_of_parseUint {s : GoString} {bits n : Nat} (parsed : parseUint s bits = .ok n) :
    splitSign s = (false, s) := by
  unfold splitSign
  split
  · cases parsed
  · cases parsed
  · rfl

theorem integerIn_of_parseUint {s : GoString} {bits n : Nat} (parsed : parseUint s bits = .ok n) :
    integerIn s = n := by
  rw [integerIn, splitSign_of_parseUint parsed, if_neg Bool.false_ne_true,
    decimalValue_of_parseUint parsed]

theorem integerIn_of_parseInt {s : GoString} {bits : Nat} {n : Int} (parsed : parseInt s bits = .ok n) :
    integerIn s = n := by
  unfold parseInt at parsed
  cases read : parseUint (splitSign s).2 bits with
  | error err => rw [read] at parsed; cases parsed
  | ok un =>
    rw [read] at parsed
    replace parsed : signed (splitSign s).1 bits un = .ok n := parsed
    rw [integerIn, decimalValue_of_parseUint read]
    cases sign : (splitSign s).1 with
    | false | true =>
      rw [sign, signed] at parsed
      split_ifs at parsed
      exact Except.ok.inj parsed

end GoBt
