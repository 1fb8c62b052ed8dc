/-
**Hexadecimal and base32 texts** (`encoding/hex`, `encoding/base32`).

* `Hex.encode`, `Hex.decode` — `decode` gives what it has written also if it fails.
  `Hex.decode_encode`: what is encoded is decoded; `Hex.decode_eq_nil_iff`: when nothing is written.
* `Base32.decode` — the standard encoding, with padding. **`Base32.length_decode`**: without padding
  and line breaks, eight characters are five bytes; with them, they are fewer.
-/

import GoBt.Go.Strconv

namespace GoBt

/-! ### Hexadecimal texts -/

namespace Hex

/-- `reverseHexTable[c]`, if `c` is a digit. -/
def value (c : UInt8) : Option UInt8 :=
  if 48 ≤ c ∧ c ≤ 57 then some (c - 48)
  else if 97 ≤ c ∧ c ≤ 102 then some (c - 87)
  else if 65 ≤ c ∧ c ≤ 70 then some (c - 55)
  else none

/-- The errors of `hex.Decode`. -/
inductive Error
  /-- `InvalidByteError`. -/
  | invalidByte (b : UInt8)
  /-- `ErrLength`. -/
  | length
  deriving DecidableEq

/-- `hex.Decode(dst, src)`: the bytes that are written, and the error. -/
def decode : GoString → List UInt8 × Option Error
  | [] => ([], none)
  | [p] => ([], some (if value p = none then .invalidByte p else .length))
  | p :: q :: rest =>
      match value p, value q with
      | none, _ => ([], some (.invalidByte p))
      | some _, none => ([], some (.invalidByte q))
      | some a, some b =>
          let done := decode rest
          ((a <<< 4 ||| b) :: done.1, done.2)

def upperDigit (n : Nat) : UInt8 := UInt8.ofNat (if n < 10 then 48 + n else 55 + n)

/-- A byte as a character, in UTF-8. -/
def latin1 (b : UInt8) : GoString :=
  if b < 128 then [b] else [(192 : UInt8) ||| (b >>> 6), (128 : UInt8) ||| (b &&& 63)]

/-- `%#U` of a byte. -/
def formatRune (b : UInt8) : GoString :=
  let printable := 32 ≤ b ∧ b ≤ 126 ∨ 161 ≤ b ∧ b ≠ 173
  str "U+00" ++ [upperDigit (b.toNat / 16), upperDigit (b.toNat % 16)] ++
    if printable then str " '" ++ latin1 b ++ str "'" else []

def Error.text : Error → GoString
  | .invalidByte b => str "encoding/hex: invalid byte: " ++ formatRune b
  | .length => str "encoding/hex: odd length hex string"

/-- `hex.EncodeToString(bytes)`. -/
def encode (bytes : List UInt8) : GoString :=
  bytes.flatMap fun b => [digit (b.toNat / 16), digit (b.toNat % 16)]

theorem length_encode (bytes : List UInt8) : (encode bytes).length = 2 * bytes.length := by
  induction bytes with
  | nil => rfl
  | cons b bytes ih =>
    rw [encode, List.flatMap_cons, List.length_append, ← encode, ih, List.length_cons]
    simp only [List.length_cons, List.length_nil]
    omega

theorem value_digit : ∀ n < 16, value (digit n) = some (UInt8.ofNat n) := by decide

theorem nibbles (b : UInt8) :
    UInt8.ofNat (b.toNat / 16) <<< 4 ||| UInt8.ofNat (b.toNat % 16) = b := by
  have all : ∀ n < 256, UInt8.ofNat (n / 16) <<< 4 ||| UInt8.ofNat (n % 16) = UInt8.ofNat n := by
    decide +kernel
  rw [all b.toNat b.toNat_lt, UInt8.ofNat_toNat]

theorem decode_encode (bytes : List UInt8) : decode (encode bytes) = (bytes, none) := by
  induction bytes with
  | nil => rfl
  | cons b bytes ih =>
    have high : b.toNat / 16 < 16 := by
      have := b.toNat_lt
      omega
    have low : b.toNat % 16 < 16 := Nat.mod_lt _ (by decide)
    rw [encode, List.flatMap_cons, ← encode]
    show decode (digit (b.toNat / 16) :: digit (b.toNat % 16) :: encode bytes) = _
    rw [decode, value_digit _ high, value_digit _ low, ih]
    dsimp only
    rw [nibbles]

theorem encode_injective {bytes bytes' : List UInt8} (same : encode bytes = encode bytes') :
    bytes = bytes' := by
  have decoded := congrArg decode same
  rw [decode_encode, decode_encode] at decoded
  exact (Prod.mk.inj decoded).1

/-- The first two characters are digits. -/
def StartsWithByte : GoString → Prop
  | p :: q :: _ => value p ≠ none ∧ value q ≠ none
  | _ => False

instance : DecidablePred StartsWithByte
  | [] => isFalse id
  | [_] => isFalse id
  | p :: q :: _ => inferInstanceAs (Decidable (value p ≠ none ∧ value q ≠ none))

/-- **What is written**, also before an error: nothing, unless the text starts with a byte. -/
theorem decode_eq_nil_iff (s : GoString) : (decode s).1 = [] ↔ ¬ StartsWithByte s := by
  match s with
  | [] => exact iff_of_true rfl id
  | [p] => exact iff_of_true rfl id
  | p :: q :: rest =>
    rw [decode, StartsWithByte]
    cases value p <;> cases value q <;> simp

theorem length_decode {s : GoString} (fine : (decode s).2 = none) :
    2 * (decode s).1.length = s.length := by
  induction s using decode.induct with
  | case1 => rfl
  | case2 p => cases fine
  | case3 p q rest bad => simp [decode, bad] at fine
  | case4 p q rest a good bad => simp [decode, good, bad] at fine
  | case5 p q rest a b first second ih =>
    simp only [decode, first, second] at fine ⊢
    rw [List.length_cons, List.length_cons, List.length_cons, ← ih fine]
    omega

theorem length_decode_le (s : GoString) : 2 * (decode s).1.length ≤ s.length := by
  induction s using decode.induct with
  | case1 => exact le_rfl
  | case2 p => exact Nat.zero_le _
  | case3 p q rest bad => simp [decode, bad]
  | case4 p q rest a good bad => simp [decode, good, bad]
  | case5 p q rest a b first second ih =>
    simp only [decode, first, second, List.length_cons]
    omega

end Hex

/-! ### Base32 texts -/

namespace Base32

/-- `decodeMap[c]` of the standard alphabet, if `c` is in it. -/
def value (c : UInt8) : Option UInt8 :=
  if 65 ≤ c ∧ c ≤ 90 then some (c - 65)
  else if 50 ≤ c ∧ c ≤ 55 then some (c - 24)
  else none

def pad : UInt8 := 61

/-- The bytes of the characters of one quantum. -/
def pack (dbuf : List UInt8) : List UInt8 :=
  let b := fun i => dbuf.getD i 0
  let bytes := [b 0 <<< 3 ||| b 1 >>> 2, b 1 <<< 6 ||| b 2 <<< 1 ||| b 3 >>> 4,
    b 3 <<< 4 ||| b 4 >>> 1, b 4 <<< 7 ||| b 5 <<< 2 ||| b 6 >>> 3, b 6 <<< 5 ||| b 7]
  match dbuf.length with
  | 8 => bytes
  | 7 => bytes.take 4
  | 5 => bytes.take 3
  | 4 => bytes.take 2
  | 2 => bytes.take 1
  | _ => []

/-- The loops of `enc.decode`, where `dbuf` is what was read of a quantum; an error is the offset of a
`CorruptInputError`. -/
def decodeFrom (olen : Nat) : List UInt8 → List UInt8 → Except Int (List UInt8)
  | dbuf, [] => if dbuf = [] then .ok [] else .error (olen - dbuf.length)
  | dbuf, c :: src =>
      let j := dbuf.length
      if c = pad ∧ 2 ≤ j ∧ src.length < 8 then
        if src.length + j < 7 then .error olen
        else
          match (src.take (7 - j)).findIdx? (· ≠ pad) with
          | some k => .error (olen - src.length + k - 1)
          | none =>
              if j = 1 ∨ j = 3 ∨ j = 6 then .error (olen - src.length - 1) else .ok (pack dbuf)
      else
        match value c with
        | none => .error (olen - src.length - 1)
        | some v =>
            if j = 7 then do
              let more ← decodeFrom olen [] src
              return pack (dbuf ++ [v]) ++ more
            else decodeFrom olen (dbuf ++ [v]) src

def stripNewlines (src : List UInt8) : List UInt8 := src.filter fun c => c ≠ 13 ∧ c ≠ 10

/-- `base32.StdEncoding.DecodeString(s)`. -/
def decode (s : GoString) : Except Int (List UInt8) :=
  let src := stripNewlines s
  decodeFrom src.length [] src

def errorText (offset : Int) : GoString := str "illegal base32 data at input byte " ++ formatInt offset

theorem length_pack {dbuf : List UInt8} (full : dbuf.length = 8) : (pack dbuf).length = 5 := by
  rw [pack, full]
  rfl

theorem length_pack_lt {dbuf : List UInt8} (part : dbuf.length < 8) : (pack dbuf).length ≤ 4 := by
  rw [pack]
  split <;> first | omega | simp

theorem length_decodeFrom {olen : Nat} {dbuf src bytes : List UInt8} (part : dbuf.length < 8)
    (decoded : decodeFrom olen dbuf src = .ok bytes) :
    (pad ∉ src → bytes.length * 8 = (dbuf.length + src.length) * 5) ∧
      (pad ∈ src → bytes.length * 8 < (dbuf.length + src.length) * 5) := by
  induction src generalizing dbuf bytes with
  | nil =>
    rw [decodeFrom] at decoded
    split at decoded
    · next empty =>
        cases decoded
        rw [empty]
        exact ⟨fun _ => rfl, fun padded => absurd padded List.not_mem_nil⟩
    · cases decoded
  | cons c src ih =>
    rw [decodeFrom] at decoded
    split at decoded
    · next padding =>
        -- the padding ends the text, with four bytes at most in the last quantum
        obtain ⟨rfl, _, _⟩ := padding
        refine ⟨fun absent => absurd List.mem_cons_self absent, fun _ => ?_⟩
        split at decoded
        · cases decoded
        split at decoded
        · cases decoded
        split at decoded
        · cases decoded
        cases decoded
        have few := length_pack_lt part
        rw [List.length_cons]
        omega
    · next other =>
        cases symbol : value c with
        | none =>
          rw [symbol] at decoded
          cases decoded
        | some v =>
          rw [symbol] at decoded
          have notPad : pad ≠ c := by
            rintro rfl
            cases symbol
          have member : pad ∈ c :: src ↔ pad ∈ src :=
            List.mem_cons.trans (or_iff_right notPad)
          rw [member, List.length_cons]
          dsimp only at decoded
          split at decoded
          · next last =>
              cases rest : decodeFrom olen [] src with
              | error offset =>
                rw [rest] at decoded
                cases decoded
              | ok more =>
                rw [rest] at decoded
                cases decoded
                obtain ⟨plain, padded⟩ := ih (by decide) rest
                have five : (pack (dbuf ++ [v])).length = 5 := length_pack (by simp [last])
                simp only [List.length_append, five, List.length_nil, last] at plain padded ⊢
                refine ⟨fun absent => ?_, fun present => ?_⟩
                · have := plain absent
                  omega
                · have := padded present
                  omega
          · next more =>
              have grown : (dbuf ++ [v]).length = dbuf.length + 1 := by simp
              have next := ih (by omega) decoded
              rw [grown] at next
              rw [Nat.add_comm src.length, ← Nat.add_assoc]
              exact next

/-- A character that `DecodeString` passes over: the padding or a line break. -/
def IsFiller (c : UInt8) : Prop := c = pad ∨ c = 13 ∨ c = 10

instance (c : UInt8) : Decidable (IsFiller c) := inferInstanceAs (Decidable (_ ∨ _))

theorem length_decode {s : GoString} {bytes : List UInt8} (decoded : decode s = .ok bytes) :
    ((∀ c ∈ s, ¬ IsFiller c) → bytes.length * 8 = s.length * 5) ∧
      ((∃ c ∈ s, IsFiller c) → bytes.length * 8 < s.length * 5) := by
  obtain ⟨plain, padded⟩ := length_decodeFrom (by decide) decoded
  have shorter : (stripNewlines s).length ≤ s.length := List.length_filter_le _ _
  rw [List.length_nil, Nat.zero_add] at plain padded
  constructor
  · intro none
    have kept : stripNewlines s = s := List.filter_eq_self.mpr fun c member => by
      have := none c member
      simp only [IsFiller, not_or] at this
      simpa using this.2
    rw [kept] at plain
    exact plain fun member => none pad member (.inl rfl)
  · rintro ⟨c, member, filler⟩
    by_cases inside : pad ∈ stripNewlines s
    · have := padded inside
      omega
    · have exact := plain inside
      rcases filler with rfl | breaks
      · exact absurd (List.mem_filter.mpr ⟨member, by decide⟩) inside
      · have strict : (stripNewlines s).length < s.length :=
          List.length_filter_lt_length_iff_exists.mpr ⟨c, member, by
            rcases breaks with rfl | rfl <;> decide⟩
        omega

end Base32

end GoBt
