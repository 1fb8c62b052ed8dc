/-
**Reading the text of an IP** (`net.ParseIP`, by `netip.ParseAddr`).

* `parseIPv4Fields` — four decimal octets between dots.
* `ipv6Loop`, `parseIPv6` — groups of hexadecimal digits between colons, with a run of zeros behind
  `::` and four octets at the end.
* `parseIP` — an IPv4 address comes in its 16-byte form.
* `parseIP_text` — a text that is read has no characters below the dot, and two of them for every
  byte from 16 on of the compact form of the IP.
-/

import GoBt.Go.Encoding
import GoBt.Krpc.AddrText

namespace GoBt.Krpc

/-! ### The parser -/

/-- One octet: decimal digits without a leading zero, up to 255. -/
def octet (field : GoString) : Option UInt8 :=
  if field ≠ [] ∧ (field.all fun c => IsDigit c) ∧ (field.length = 1 ∨ field.head? ≠ some 48) ∧
      decimalValue 0 field ≤ 255 then
    some (UInt8.ofNat (decimalValue 0 field))
  else none

/-- `parseIPv4Fields`: the octets of an IPv4 address. -/
def parseIPv4Fields (s : GoString) : Option Ip :=
  match s.splitOn 46 with
  | [a, b, c, d] => do return [← octet a, ← octet b, ← octet c, ← octet d]
  | _ => none

def hexDigit (c : UInt8) : Option Nat := (Hex.value c).map UInt8.toNat

def isHexDigit (c : UInt8) : Bool := (hexDigit c).isSome

def hexValue (digits : GoString) : Nat :=
  digits.foldl (fun acc c => 16 * acc + (hexDigit c).getD 0) 0

/-- The loop of `parseIPv6` over the groups, with the place of `::` if it was there and the bytes so
far: what is left of the text, and the two. Every turn adds two bytes, so that eight are enough. -/
def ipv6Loop : Nat → GoString → Option Nat → Ip → Option (GoString × Option Nat × Ip)
  | 0, s, ellipsis, ip => some (s, ellipsis, ip)
  | fuel + 1, s, ellipsis, ip =>
      let digits := s.takeWhile isHexDigit
      let rest := s.dropWhile isHexDigit
      if digits = [] ∨ 4 < digits.length then none
      else if rest.head? = some 46 then
        -- an IPv4 address at the end
        if ellipsis = none ∧ ip.length ≠ 12 ∨ 16 < ip.length + 4 then none
        else (parseIPv4Fields s).map fun v4 => ([], ellipsis, ip ++ v4)
      else
        let acc := hexValue digits
        let ip := ip ++ [UInt8.ofNat (acc / 256), UInt8.ofNat acc]
        match rest with
        | [] => some ([], ellipsis, ip)
        | [_] => none
        | colon :: next :: s =>
            if colon ≠ 58 then none
            else if next ≠ 58 then ipv6Loop fuel (next :: s) ellipsis ip
            else if ellipsis.isSome then none
            else if s = [] then some ([], some ip.length, ip)
            else ipv6Loop fuel s (some ip.length) ip

/-- The end of `parseIPv6`: the zeros are put where `::` was. -/
def ipv6Expand : GoString × Option Nat × Ip → Option Ip
  | (_ :: _, _, _) => none
  | ([], none, ip) => if ip.length < 16 then none else some ip
  | ([], some ellipsis, ip) =>
      if ip.length < 16 then
        some (ip.take ellipsis ++ List.replicate (16 - ip.length) 0 ++ ip.drop ellipsis)
      else none

/-- `parseIPv6`, for a text without a zone. -/
def parseIPv6 : GoString → Option Ip
  | [58, 58] => some (List.replicate 16 0)
  | 58 :: 58 :: s => (ipv6Loop 8 s (some 0) []).bind ipv6Expand
  | s => (ipv6Loop 8 s none []).bind ipv6Expand

/-- `net.ParseIP(s)`; `none` is the nil slice. The first dot or colon decides the family, and a zone
is refused. -/
def parseIP (s : GoString) : Option Ip :=
  match s.find? fun c => c == 46 || c == 58 || c == 37 with
  | some 46 => (parseIPv4Fields s).map (v4InV6Prefix ++ ·)
  | some 58 => if 37 ∈ s then none else parseIPv6 s
  | _ => none

example : parseIP (str "127.0.0.1") = some (v4InV6Prefix ++ [127, 0, 0, 1]) := by decide +kernel

example : parseIP (str "2001:db8::1:0.0.0.2") =
    some [0x20, 1, 0xd, 0xb8, 0, 0, 0, 0, 0, 0, 0, 1, 0, 0, 0, 2] := by decide +kernel

example : ([str "1.2.3", str "1.2.3.04", str "1.2.3.256", str "1:2", str "::1::", str "1::2%eth0",
    str ":1:2:3:4:5:6:7:8", str "1:2:3:4:5:6:7::8"].map parseIP).all Option.isNone = true := by
  decide +kernel

/-! ### Characters and sizes -/

/-- The number of bytes that take two hexadecimal digits. -/
def large (bytes : List UInt8) : Nat := bytes.countP fun byte => 16 ≤ byte.toNat

theorem large_append (bytes more : List UInt8) : large (bytes ++ more) = large bytes + large more :=
  List.countP_append

theorem large_of_forall {bytes : List UInt8} (all : ∀ byte ∈ bytes, 46 ≤ byte.toNat) :
    large bytes = bytes.length := by
  refine List.countP_eq_length.mpr fun byte member => decide_eq_true ?_
  exact le_trans (by decide) (all byte member)

theorem octet_text {field : GoString} {byte : UInt8} (read : octet field = some byte) :
    2 * large [byte] ≤ field.length ∧ ∀ c ∈ field, 46 ≤ c.toNat := by
  unfold octet at read
  split at read
  · rename_i fine
    obtain ⟨full, allDigits, _, most⟩ := fine
    have digits : ∀ c ∈ field, IsDigit c := fun c member =>
      of_decide_eq_true (List.all_eq_true.mp allDigits c member)
    have positive := List.length_pos_iff.mpr full
    refine ⟨?_, fun c member => le_trans (by decide) (digits c member).1⟩
    by_cases small : 16 ≤ byte.toNat
    · rw [large, List.countP_singleton, decide_eq_true small, if_pos rfl]
      by_contra short
      -- A single digit is less than ten.
      obtain ⟨c, rfl⟩ := List.length_eq_one_iff.mp (by omega : field.length = 1)
      have digit := digits c List.mem_cons_self
      have value : byte.toNat = decimalValue 0 [c] := by
        rw [← Option.some.inj read]
        exact UInt8.toNat_ofNat_of_lt' (lt_of_le_of_lt most (by decide))
      have one : decimalValue 0 [c] = c.toNat - 48 := by simp [decimalValue]
      have bound := digit.2
      omega
    · rw [large, List.countP_singleton, decide_eq_false small, if_neg (by decide)]
      exact Nat.zero_le _
  · cases read

theorem parseIPv4Fields_text {s : GoString} {v4 : Ip} (read : parseIPv4Fields s = some v4) :
    v4.length = 4 ∧ 2 * large v4 ≤ s.length ∧ ∀ c ∈ s, 46 ≤ c.toNat := by
  unfold parseIPv4Fields at read
  split at read
  · rename_i a b c d split
    simp only [Option.pure_def, Option.bind_eq_bind, Option.bind_eq_some_iff,
      Option.some.injEq] at read
    obtain ⟨w, readW, x, readX, y, readY, z, readZ, rfl⟩ := read
    obtain ⟨sizeA, charsA⟩ := octet_text readW
    obtain ⟨sizeB, charsB⟩ := octet_text readX
    obtain ⟨sizeC, charsC⟩ := octet_text readY
    obtain ⟨sizeD, charsD⟩ := octet_text readZ
    have whole : s = a ++ 46 :: (b ++ 46 :: (c ++ 46 :: d)) := by
      have joined : [46].intercalate (s.splitOn 46) = s := List.intercalate_splitOn 46
      rw [← joined, split]
      simp [List.intercalate]
    have count : large [w, x, y, z] = large [w] + large [x] + large [y] + large [z] := by
      rw [← large_append, ← large_append, ← large_append]
      rfl
    refine ⟨rfl, ?_, ?_⟩
    · rw [whole, count]
      simp only [List.length_append, List.length_cons]
      omega
    · rw [whole]
      simp only [List.forall_mem_append, List.forall_mem_cons]
      exact ⟨charsA, by decide, charsB, by decide, charsC, by decide, charsD⟩
  · cases read

theorem hexDigit_some {c : UInt8} {value : Nat} (digit : hexDigit c = some value) :
    value < 16 ∧ 46 ≤ c.toNat := by
  have all : ∀ n < 256, ∀ value ∈ hexDigit (UInt8.ofNat n),
      value < 16 ∧ 46 ≤ (UInt8.ofNat n).toNat := by decide +kernel
  have here := all c.toNat c.toNat_lt value
  rw [UInt8.ofNat_toNat] at here
  exact here digit

theorem hexValue_lt (digits : GoString) : hexValue digits < 16 ^ digits.length := by
  have step : ∀ acc, digits.foldl (fun acc c => 16 * acc + (hexDigit c).getD 0) acc <
      (acc + 1) * 16 ^ digits.length := by
    induction digits with
    | nil => simp
    | cons c rest ih =>
      intro acc
      have digit : (hexDigit c).getD 0 < 16 := by
        cases value : hexDigit c with
        | none => decide
        | some value' => exact (hexDigit_some value).1
      calc _ < (16 * acc + (hexDigit c).getD 0 + 1) * 16 ^ rest.length := ih _
        _ ≤ (16 * (acc + 1)) * 16 ^ rest.length := Nat.mul_le_mul_right _ (by omega)
        _ = (acc + 1) * 16 ^ (c :: rest).length := by rw [List.length_cons, pow_succ']; ring
  exact (step 0).trans_eq (by rw [Nat.zero_add, Nat.one_mul])

theorem large_group {digits : GoString} (some' : digits ≠ []) :
    2 * large [UInt8.ofNat (hexValue digits / 256), UInt8.ofNat (hexValue digits)] ≤
      digits.length := by
  have value := hexValue_lt digits
  have positive := List.length_pos_iff.mpr some'
  have most : large [UInt8.ofNat (hexValue digits / 256), UInt8.ofNat (hexValue digits)] ≤ 2 :=
    List.countP_le_length
  have high : (UInt8.ofNat (hexValue digits / 256)).toNat = hexValue digits / 256 % 256 :=
    UInt8.toNat_ofNat'
  have low : (UInt8.ofNat (hexValue digits)).toNat = hexValue digits % 256 := UInt8.toNat_ofNat'
  by_cases four : 4 ≤ digits.length
  · omega
  have size : digits.length = 1 ∨ digits.length = 2 ∨ digits.length = 3 := by omega
  -- With fewer than four digits the first byte is small, and with one digit the second one, too.
  rcases size with size | size | size <;> rw [size] at value ⊢ <;>
    simp only [large, List.countP_cons, List.countP_nil, high, low, decide_eq_true_eq] <;>
    split <;> split <;> omega

/-- What the loop reads: no small characters, and two of them for every large byte. -/
theorem ipv6Loop_text {fuel : Nat} {s rest : GoString} {ellipsis ellipsis' : Option Nat} {ip ip' : Ip}
    (room : ip.length + 2 * fuel = 16)
    (read : ipv6Loop fuel s ellipsis ip = some (rest, ellipsis', ip')) :
    ip'.length ≤ 16 ∧ 2 * large ip' + rest.length ≤ 2 * large ip + s.length ∧
      ∀ c ∈ s, c ∈ rest ∨ 46 ≤ c.toNat := by
  induction fuel generalizing s ellipsis ip with
  | zero =>
    cases read
    exact ⟨by omega, le_rfl, fun _ => .inl⟩
  | succ fuel ih =>
    have cut : s.takeWhile isHexDigit ++ s.dropWhile isHexDigit = s := List.takeWhile_append_dropWhile
    have chars : ∀ c ∈ s.takeWhile isHexDigit, 46 ≤ c.toNat := by
      intro c member
      have isSome : isHexDigit c = true := List.mem_takeWhile_imp member
      obtain ⟨value, digit⟩ := Option.isSome_iff_exists.mp isSome
      exact (hexDigit_some digit).2
    rw [ipv6Loop] at read
    dsimp only at read
    generalize s.takeWhile isHexDigit = digits at cut chars read
    generalize s.dropWhile isHexDigit = behind at cut read
    subst cut
    split at read
    · cases read
    rename_i few
    obtain ⟨some', _⟩ := not_or.mp few
    split at read
    · -- four octets at the end
      split at read
      · cases read
      rename_i _ fits
      obtain ⟨v4, octets, eq⟩ := Option.map_eq_some_iff.mp read
      cases eq
      obtain ⟨size, count, all⟩ := parseIPv4Fields_text octets
      refine ⟨?_, ?_, fun c member => .inr (all c member)⟩
      · rw [List.length_append, size]
        exact not_lt.mp (not_or.mp fits).2
      · rw [large_append, List.length_nil]
        omega
    · have group := large_group some'
      have length : (ip ++ [UInt8.ofNat (hexValue digits / 256),
          UInt8.ofNat (hexValue digits)]).length + 2 * fuel = 16 := by
        rw [List.length_append, List.length_cons, List.length_singleton]
        omega
      have count := large_append ip [UInt8.ofNat (hexValue digits / 256),
        UInt8.ofNat (hexValue digits)]
      generalize ip ++ [UInt8.ofNat (hexValue digits / 256), UInt8.ofNat (hexValue digits)] = ip₁
        at read length count
      rcases behind with _ | ⟨colon, _ | ⟨next, tail⟩⟩
      · cases read
        refine ⟨by omega, ?_, fun c member => .inr (chars c (by simpa using member))⟩
        rw [List.append_nil, List.length_nil]
        omega
      · cases read
      · dsimp only at read
        split at read
        · cases read
        rename_i isColon
        obtain rfl : colon = 58 := not_not.mp isColon
        have front : ∀ c ∈ digits ++ 58 :: next :: tail, c ∈ next :: tail ∨ 46 ≤ c.toNat := by
          intro c member
          rcases List.mem_append.mp member with inside | inside
          · exact .inr (chars c inside)
          · rcases List.mem_cons.mp inside with rfl | inside
            · exact .inr (by decide)
            · exact .inl inside
        rw [List.length_append, List.length_cons]
        split at read
        · obtain ⟨most, size, all⟩ := ih length read
          refine ⟨most, by omega, fun c member => ?_⟩
          exact (front c member).elim (all c) .inr
        · rename_i isColon
          obtain rfl : next = 58 := not_not.mp isColon
          split at read
          · cases read
          split at read
          · rename_i empty
            cases read
            subst empty
            refine ⟨by omega, by simp only [List.length_cons, List.length_nil]; omega, ?_⟩
            intro c member
            rcases front c member with inside | fine
            · rw [List.mem_singleton.mp inside]
              exact .inr (by decide)
            · exact .inr fine
          · obtain ⟨most, size, all⟩ := ih length read
            refine ⟨most, by rw [List.length_cons]; omega, fun c member => ?_⟩
            rcases front c member with inside | fine
            · rcases List.mem_cons.mp inside with rfl | inside
              · exact .inr (by decide)
              · exact all c inside
            · exact .inr fine

theorem ipv6Expand_text {rest : GoString} {ellipsis : Option Nat} {ip ip' : Ip}
    (most : ip.length ≤ 16) (read : ipv6Expand (rest, ellipsis, ip) = some ip') :
    rest = [] ∧ ip'.length = 16 ∧ large ip' = large ip := by
  cases rest with
  | cons _ _ => cases read
  | nil =>
    cases ellipsis with
    | none =>
      rw [ipv6Expand] at read
      split at read
      · cases read
      · cases read
        exact ⟨rfl, by omega, rfl⟩
    | some place =>
      rw [ipv6Expand] at read
      split at read
      · cases read
        have parts : large (ip.take place) + large (ip.drop place) = large ip := by
          rw [← large_append, List.take_append_drop]
        have zeros : large (List.replicate (16 - ip.length) 0) = 0 :=
          List.countP_eq_zero.mpr fun byte member => by
            rw [List.eq_of_mem_replicate member]
            decide
        refine ⟨rfl, ?_, ?_⟩
        · simp only [List.length_append, List.length_take, List.length_replicate,
            List.length_drop]
          omega
        · rw [large_append, large_append, zeros]
          omega
      · cases read

theorem parseIPv6_text {s : GoString} {ip : Ip} (read : parseIPv6 s = some ip) :
    ip.length = 16 ∧ 2 * large ip ≤ s.length ∧ ∀ c ∈ s, 46 ≤ c.toNat := by
  have loop : ∀ {tail : GoString} {ellipsis : Option Nat},
      (ipv6Loop 8 tail ellipsis []).bind ipv6Expand = some ip →
      ip.length = 16 ∧ 2 * large ip ≤ tail.length ∧ ∀ c ∈ tail, 46 ≤ c.toNat := by
    intro tail ellipsis read
    obtain ⟨⟨rest, ellipsis', ip'⟩, looped, expanded⟩ := Option.bind_eq_some_iff.mp read
    obtain ⟨most, size, all⟩ := ipv6Loop_text rfl looped
    obtain ⟨rfl, length, same⟩ := ipv6Expand_text most expanded
    refine ⟨length, ?_, fun c member => (all c member).resolve_left List.not_mem_nil⟩
    have none' : large ([] : Ip) = 0 := rfl
    rw [same]
    omega
  unfold parseIPv6 at read
  split at read
  · cases read
    decide +kernel
  · obtain ⟨length, size, all⟩ := loop read
    refine ⟨length, size.trans (by rw [List.length_cons, List.length_cons]; omega), ?_⟩
    exact List.forall_mem_cons.mpr ⟨by decide, List.forall_mem_cons.mpr ⟨by decide, all⟩⟩
  · exact loop read

theorem to4_mapped {v4 : Ip} (size : v4.length = 4) : Ip.to4 (v4InV6Prefix ++ v4) = some v4 := by
  have length : (v4InV6Prefix ++ v4).length = 16 := by rw [List.length_append, size]; rfl
  rw [Ip.to4, if_neg (by omega), if_pos ⟨length, List.take_left' rfl⟩]
  exact congrArg some (List.drop_left' rfl)

/-- **What a text is like that is read as an IP**: no character is below the dot, and there are two
of them for every byte from 16 on of the compact form. -/
theorem parseIP_text {s : GoString} {ip : Ip} (read : parseIP s = some ip) :
    ip.length = 16 ∧ 2 * large (ip.to4.getD ip) ≤ s.length ∧ ∀ c ∈ s, 46 ≤ c.toNat := by
  unfold parseIP at read
  split at read
  · obtain ⟨v4, octets, rfl⟩ := Option.map_eq_some_iff.mp read
    obtain ⟨size, count, all⟩ := parseIPv4Fields_text octets
    rw [to4_mapped size]
    exact ⟨by rw [List.length_append, size]; rfl, count, all⟩
  · split at read
    · cases read
    obtain ⟨size, count, all⟩ := parseIPv6_text read
    refine ⟨size, le_trans ?_ count, all⟩
    rw [Ip.to4, if_neg (by omega)]
    split
    · exact Nat.mul_le_mul_left 2 ((List.drop_sublist 12 ip).countP_le)
    · exact le_rfl
  · cases read

end GoBt.Krpc
