/-
**Hashes from texts** (`metainfo/infohash.go`).

`FromString` takes 20 bytes, 40 hexadecimal digits, 32 characters in base32, or any other text to be
hashed. `hex.Decode` writes into the hash as it goes, and what base32 gives is copied over it.

* `Determined` — the new hash depends on the text alone, and an error leaves the hash as it was.
* **`fromString_determined_iff`** — `FromString` and `UnmarshalBencode` are determined unless the text
  is in hexadecimal digits with an error behind the first byte, or in base32 with padding or line
  breaks (`KeepsStale`). The keys of maps start from the zero hash, and are always determined.
* `fromString_keeps_stale` — the two kinds of texts.
-/

import GoBt.Go.Encoding
import GoBt.Metainfo.Compact

namespace GoBt.Metainfo

open GoBt.Lib GoBt.Krpc GoBt.Bencode

/-- What the standard library does; `sha1` is any function. -/
def standardText (sha1 : List UInt8 → Hash) : HashText where
  hexDecode h s :=
    let done := Hex.decode s
    (h.copyOver done.1, done.2.map Hex.Error.text)
  base32Decode s := (Base32.decode s).mapError Base32.errorText
  sha1 := sha1

namespace Hash

/-! ### Copying over a hash -/

theorem bytes_copyOver (h : Hash) {bytes : List UInt8} (fits : bytes.length ≤ hashSize) :
    (h.copyOver bytes).bytes = bytes ++ h.bytes.drop bytes.length := by
  refine List.take_of_length_le ?_
  rw [List.length_append, List.length_drop, h.size]
  omega

theorem copyOver_nil (h : Hash) : h.copyOver [] = h := by
  refine Hash.ext ?_
  rw [bytes_copyOver h (Nat.zero_le _)]
  rfl

theorem copyOver_full (h o : Hash) {bytes : List UInt8} (full : bytes.length = hashSize) :
    h.copyOver bytes = o.copyOver bytes := by
  refine Hash.ext ?_
  rw [bytes_copyOver h full.le, bytes_copyOver o full.le, List.drop_of_length_le (by rw [h.size, full]),
    List.drop_of_length_le (by rw [o.size, full])]

theorem exists_copyOver_ne {bytes : List UInt8} (some' : bytes ≠ [])
    (fits : bytes.length ≤ hashSize) : ∃ h : Hash, h.copyOver bytes ≠ h := by
  obtain ⟨b, rest, rfl⟩ := List.exists_cons_of_ne_nil some'
  refine ⟨.fill (b + 1), fun same => ?_⟩
  have first := congrArg (fun h => h.bytes.head?) same
  rw [bytes_copyOver _ fits] at first
  have equal : b = b + 1 := Option.some.inj first
  have number := congrArg UInt8.toNat equal
  rw [UInt8.toNat_add, show (1 : UInt8).toNat = 1 from rfl] at number
  omega

theorem exists_copyOver_differ {bytes : List UInt8} (short : bytes.length < hashSize) :
    ∃ h o : Hash, h.copyOver bytes ≠ o.copyOver bytes := by
  refine ⟨.fill 0, .fill 1, fun same => ?_⟩
  have equal := congrArg Hash.bytes same
  rw [bytes_copyOver _ short.le, bytes_copyOver _ short.le] at equal
  have rest := List.append_cancel_left equal
  rw [Hash.fill, Hash.fill, List.drop_replicate, List.drop_replicate] at rest
  have last := List.eq_of_mem_replicate (rest ▸ List.mem_replicate.mpr
    ⟨Nat.sub_ne_zero_of_lt short, rfl⟩ : (0 : UInt8) ∈ List.replicate _ 1)
  exact absurd last (by decide)

/-! ### When the old value shows -/

/-- **The result depends on the input alone**: from any two hashes, it fails for both or for none;
the hashes are equal if it succeeds, and the old ones if it fails. -/
def Determined (f : Hash → Hash × Option Fault) : Prop :=
  ∀ h o, ((f h).2 = none ↔ (f o).2 = none) ∧ ((f h).2 = none → (f h).1 = (f o).1) ∧
    ((f h).2 ≠ none → (f h).1 = h ∧ (f o).1 = o)

/-- The texts that leave bytes of an old hash, or of themselves where they are refused. -/
def KeepsStale (s : GoString) : Prop :=
  s.length = 40 ∧ Hex.StartsWithByte s ∧ (Hex.decode s).2 ≠ none ∨
    s.length = 32 ∧ (∃ bytes, Base32.decode s = .ok bytes) ∧ ∃ c ∈ s, Base32.IsFiller c

theorem determined_copyOver_iff {bytes : List UInt8} (fits : bytes.length ≤ hashSize) :
    (Determined fun h => (h.copyOver bytes, none)) ↔ bytes.length = hashSize := by
  constructor
  · intro determined
    by_contra short
    obtain ⟨h, o, differ⟩ := exists_copyOver_differ (lt_of_le_of_ne fits short)
    exact differ ((determined h o).2.1 rfl)
  · intro full h o
    exact ⟨Iff.rfl, fun _ => copyOver_full h o full, fun failed => absurd rfl failed⟩

theorem determined_unchanged (fault : Fault) : Determined fun h => (h, some fault) := by
  intro h o
  have failed : some fault ≠ none := Option.some_ne_none fault
  exact ⟨iff_of_false failed failed, fun fine => absurd fine failed, fun _ => ⟨rfl, rfl⟩⟩

theorem determined_failed_iff {bytes : List UInt8} (fits : bytes.length ≤ hashSize) (fault : Fault) :
    (Determined fun h => (h.copyOver bytes, some fault)) ↔ bytes = [] := by
  constructor
  · intro determined
    by_contra some'
    obtain ⟨h, differ⟩ := exists_copyOver_ne some' fits
    exact differ ((determined h h).2.2 nofun).1
  · rintro rfl
    simp only [copyOver_nil]
    exact determined_unchanged fault

variable (sha1 : List UInt8 → Hash)

theorem determined_hex_iff {s : GoString} (size : s.length = 40) :
    (Determined fun h => h.fromString (standardText sha1) s) ↔ ¬ KeepsStale s := by
  have isHex : ∀ h : Hash, h.fromString (standardText sha1) s =
      (h.copyOver (Hex.decode s).1,
        ((Hex.decode s).2.map Hex.Error.text).map fun text => .err (.text text)) := by
    intro h
    rw [fromString, if_neg (by rw [size]; decide), if_pos (by rw [size]; decide), fromHexString,
      if_neg (by rw [size]; decide)]
    rfl
  have fits : (Hex.decode s).1.length ≤ hashSize := by
    have bound := Hex.length_decode_le s
    rw [size] at bound
    rw [hashSize]
    omega
  have stale : KeepsStale s ↔ (Hex.decode s).1 ≠ [] ∧ (Hex.decode s).2 ≠ none := by
    rw [KeepsStale, ne_eq (Hex.decode s).1, Hex.decode_eq_nil_iff, not_not]
    constructor
    · rintro (⟨_, both⟩ | ⟨other, _⟩)
      · exact both
      · rw [size] at other
        exact absurd other (by decide)
    · exact fun both => .inl ⟨size, both⟩
  simp only [isHex]
  rw [stale]
  cases failed : (Hex.decode s).2 with
  | none =>
    have full := Hex.length_decode failed
    refine iff_of_true ((determined_copyOver_iff fits).mpr ?_) fun both => both.2 rfl
    rw [hashSize]
    omega
  | some err =>
    refine (determined_failed_iff fits _).trans ?_
    simp

theorem fromString_base32 {s : GoString} (size : s.length = 32) (h : Hash) :
    h.fromString (standardText sha1) s =
      match Base32.decode s with
      | .ok bytes => (h.copyOver bytes, none)
      | .error offset => (h, some (.err (.text (Base32.errorText offset)))) := by
  have decoded : (standardText sha1).base32Decode s =
      (Base32.decode s).mapError Base32.errorText := rfl
  rw [fromString, if_neg (by rw [size]; decide), if_neg (by rw [size]; decide), if_pos size, decoded]
  cases Base32.decode s <;> rfl

theorem determined_base32_iff {s : GoString} (size : s.length = 32) :
    (Determined fun h => h.fromString (standardText sha1) s) ↔ ¬ KeepsStale s := by
  have stale : KeepsStale s ↔
      (∃ bytes, Base32.decode s = .ok bytes) ∧ ∃ c ∈ s, Base32.IsFiller c := by
    constructor
    · rintro (⟨other, _⟩ | ⟨_, both⟩)
      · rw [size] at other
        exact absurd other (by decide)
      · exact both
    · exact fun both => .inr ⟨size, both⟩
  rw [stale]
  cases decoded : Base32.decode s with
  | error offset =>
    simp only [fromString_base32 sha1 size, decoded]
    exact iff_of_true (determined_unchanged _) (by rintro ⟨⟨_, same⟩, _⟩; cases same)
  | ok bytes =>
    simp only [fromString_base32 sha1 size, decoded]
    obtain ⟨plain, filled⟩ := Base32.length_decode decoded
    rw [size] at plain filled
    by_cases filler : ∃ c ∈ s, Base32.IsFiller c
    · have short := filled filler
      have less : bytes.length < hashSize := by rw [hashSize]; omega
      refine iff_of_false (fun determined => ?_) fun fine => fine ⟨⟨bytes, rfl⟩, filler⟩
      exact absurd ((determined_copyOver_iff less.le).mp determined) (ne_of_lt less)
    · have full := plain fun c member is => filler ⟨c, member, is⟩
      have size : bytes.length = hashSize := by rw [hashSize]; omega
      exact iff_of_true ((determined_copyOver_iff size.le).mpr size) fun both => filler both.2

theorem determined_fromString_iff (s : GoString) :
    (Determined fun h => h.fromString (standardText sha1) s) ↔ ¬ KeepsStale s := by
  by_cases hex : s.length = 40
  · exact determined_hex_iff sha1 hex
  by_cases base32 : s.length = 32
  · exact determined_base32_iff sha1 base32
  refine iff_of_true ?_ (by rintro (⟨size, _⟩ | ⟨size, _⟩) <;> contradiction)
  by_cases raw : s.length = hashSize
  · have isRaw : ∀ h : Hash, h.fromString (standardText sha1) s = (h.copyOver s, none) :=
      fun h => if_pos raw
    simp only [isRaw]
    exact (determined_copyOver_iff raw.le).mpr raw
  · have isHash : ∀ h : Hash, h.fromString (standardText sha1) s = (sha1 s, none) := by
      intro h
      rw [fromString, if_neg raw, if_neg (show ¬ s.length = 2 * hashSize from hex),
        if_neg base32]
      rfl
    simp only [isHash]
    exact fun h o => ⟨Iff.rfl, fun _ => rfl, fun failed => absurd rfl failed⟩

/-! ### Unmarshalling, and the keys of maps -/

theorem determined_unmarshalBencode_iff (b : GoString) :
    (Determined fun h => h.unmarshalBencode (standardText sha1) b) ↔
      ¬ ∃ v, decodeBytes noMethods b (.string []) = (v, none) ∧ KeepsStale (textOf v) := by
  rcases decoded : decodeBytes noMethods b (.string []) with ⟨v, _ | fault⟩
  · have read : ∀ h : Hash, h.unmarshalBencode (standardText sha1) b =
        h.fromString (standardText sha1) (textOf v) := by
      intro h
      rw [unmarshalBencode, decoded]
    simp only [read]
    refine (determined_fromString_iff sha1 (textOf v)).trans (not_congr ⟨fun stale => ?_, ?_⟩)
    · exact ⟨v, rfl, stale⟩
    · rintro ⟨_, same, stale⟩
      cases same
      exact stale
  · have failed : ∀ h : Hash, h.unmarshalBencode (standardText sha1) b = (h, some fault) := by
      intro h
      rw [unmarshalBencode, decoded]
    simp only [failed]
    exact iff_of_true (determined_unchanged _) (by rintro ⟨_, same, _⟩; cases same)

/-- The method `FromString` of a hash, as the decoder calls it for the keys of a map. -/
def keyMethods (lib : HashText) : Methods Unit where
  fromString := some fun v s =>
    let read := (ofValue v).fromString lib s
    (read.1.toValue, read.2)

/-- The type of a map with hashes as its keys: the zero key. -/
def keyType : Value Unit := .named () zeroHash.toValue

theorem mapKey_keyType (lib : HashText) (s : GoString) :
    mapKey { methods := fun _ => keyMethods lib } keyType s =
      (.named () (zeroHash.fromString lib s).1.toValue, (zeroHash.fromString lib s).2) := by
  rw [keyType, mapKey]
  dsimp only [keyMethods]
  rw [ofValue_toValue]

/-- **An entry is put into a map with its key read from the zero hash**, whatever the map holds: the
same key and the same element for all maps, or the same fault, and then the maps are unchanged. -/
def KeyDetermined (lib : HashText) (s : GoString) : Prop :=
  ∀ (into : Into Unit) (d : Decoder) (addr : Bool) (elem : Value Unit),
    let entry := fun entries => dictEntry { methods := fun _ => keyMethods lib } into d addr
      (.map keyType elem entries) s
    (∃ d' fault, ∀ entries, entry entries = (d', .map keyType elem entries, some fault)) ∨
      ∃ d' x, (zeroHash.fromString lib s).2 = none ∧ ∀ entries, entry entries =
        (d', .map keyType elem (some (setMapIndex (entries.getD [])
          (.named () (zeroHash.fromString lib s).1.toValue) x)), none)

theorem keyDetermined (lib : HashText) (s : GoString) : KeyDetermined lib s := by
  intro into d addr elem entry
  have key := mapKey_keyType lib s
  cases read : (zeroHash.fromString lib s).2 with
  | some fault =>
    rw [read] at key
    refine .inl ⟨d, fault, fun entries => ?_⟩
    show dictEntry _ _ _ _ _ _ = _
    rw [dictEntry, key]
  | none =>
    rw [read] at key
    rcases value : into d true elem with ⟨d', x, _ | fault⟩
    · refine .inr ⟨d', x, rfl, fun entries => ?_⟩
      show dictEntry _ _ _ _ _ _ = _
      rw [dictEntry, key]
      dsimp only
      rw [value]
    · refine .inl ⟨d', fault, fun entries => ?_⟩
      show dictEntry _ _ _ _ _ _ = _
      rw [dictEntry, key]
      dsimp only
      rw [value]

/-- **When hashes are read from their texts alone.** -/
theorem fromString_determined_iff :
    (∀ s, (Determined fun h => h.fromString (standardText sha1) s) ↔ ¬ KeepsStale s) ∧
      (∀ b, (Determined fun h => h.unmarshalBencode (standardText sha1) b) ↔
        ¬ ∃ v, decodeBytes noMethods b (.string []) = (v, none) ∧ KeepsStale (textOf v)) ∧
      ∀ s, KeyDetermined (standardText sha1) s :=
  ⟨determined_fromString_iff sha1, determined_unmarshalBencode_iff sha1,
    keyDetermined (standardText sha1)⟩

/-- 31 characters with a padding are 19 bytes, behind which the last byte of the old hash stays; and
of 40 digits with an error behind the first two, a byte is written before the error. -/
theorem fromString_keeps_stale :
    let text := standardText fun _ => zeroHash
    let short := List.replicate 31 65 ++ [61]
    let bad := str "ff" ++ List.replicate 38 120
    ((Hash.fill 7).fromString text short).2 = none ∧
      ((Hash.fill 9).fromString text short).2 = none ∧
      ((Hash.fill 7).fromString text short).1.bytes = List.replicate 19 0 ++ [7] ∧
      ((Hash.fill 9).fromString text short).1.bytes = List.replicate 19 0 ++ [9] ∧
      ((Hash.fill 7).fromString text bad).2 ≠ none ∧
      ((Hash.fill 7).fromString text bad).1.bytes = 255 :: List.replicate 19 7 := by
  decide +kernel

end Hash

end GoBt.Metainfo
