/-
**Hashes and compact lists on the wire** (`metainfo/infohash.go`, `metainfo/addr_compact.go`).

The lists of nodes and addresses of one family are strings of records of one size. `hex.Decode`,
`base32` and `sha1` are parameters: only strings that are not 20 bytes long reach them.

* `marshalCompact`, `unmarshalCompact` — the loops that the compact lists share.
* `IsRecord` — the records that make a list: all of one size, and all strings of that size.
* `unmarshalCompact_flatMap` — **a list is read back if all its records have the size.**
* `IsRecord.inverse` — the bencode methods of a list of records are inverse.
* `Hash.unmarshalBencode_marshalBencode` — a hash is read back.
-/

import GoBt.Lib.Blocks
import GoBt.Metainfo.CompactAddr
import GoBt.Metainfo.Reload

namespace GoBt.Metainfo

open GoBt.Lib GoBt.Krpc GoBt.Bencode

/-! ### Byte strings -/

/-- `bencode.EncodeBytes(b)` for what a method has written. -/
def encodeData (written : Except Fault (List UInt8)) : Except Fault GoString := do
  encodeBytes noMethods (.bytes (some (← written)))

/-- `bencode.DecodeBytes(b, &data)`. -/
def decodeData (b : GoString) : Except Fault (List UInt8) :=
  match decodeBytes noMethods b (.bytes none) with
  | (_, some fault) => .error fault
  | (.bytes data, none) => .ok (data.getD [])
  | (_, none) => .ok []

theorem encodeData_ok (data : List UInt8) : encodeData (.ok data) = .ok (encodeString data) := by
  rw [encodeData, ok_bind, encodeBytes_bytes]
  rfl

theorem decodeData_encodeString {data : List UInt8} (short : data.length < 2 ^ 31) :
    decodeData (encodeString data) = .ok data := by
  have reads : Reads noMethods (.bytes none) (encodeString data) (.bytes (some data)) :=
    .string ⟨rfl, nofun⟩ short rfl
  rw [decodeData, reads.decodeBytes]
  rfl

/-! ### Compact lists -/

section Compact

variable {α : Type}

/-- The loop of `MarshalBinary` of a compact list. -/
def marshalCompact (size : Nat) (skip : α → Bool) (write : α → List UInt8) :
    List α → Except Fault (List UInt8)
  | [] => .ok []
  | a :: rest =>
      if skip a then marshalCompact size skip write rest
      else if (write a).length ≠ size then .error .panicked
      else do
        let more ← marshalCompact size skip write rest
        return write a ++ more

/-- `UnmarshalBinary` of a compact list; `text` is the front of the error. -/
def unmarshalCompact (size : Nat) (text : String) (read : List UInt8 → Except GoError α)
    (b : List UInt8) : Except Fault (List α) :=
  if b.length % size ≠ 0 then .error (.err (.text (str text ++ numeral 10 b.length ++ str "'")))
  else (blocks b size).mapM fun part => (read part).mapError fun e => .err (.text (str e.text))

variable {size : Nat} {skip : α → Bool} {write : α → List UInt8}

theorem marshalCompact_filterMap {β : Type} {embed : β → α} {normal : β → Option α} {as : List β}
    (skipped : ∀ a ∈ as, normal a = none → skip (embed a) = true)
    (kept : ∀ a ∈ as, ∀ x, normal a = some x →
      embed a = x ∧ skip x = false ∧ (write x).length = size) :
    marshalCompact size skip write (as.map embed) = .ok ((as.filterMap normal).flatMap write) := by
  induction as with
  | nil => rfl
  | cons a as ih =>
    obtain ⟨skips, skipped⟩ := List.forall_mem_cons.mp skipped
    obtain ⟨keeps, kept⟩ := List.forall_mem_cons.mp kept
    rw [List.map_cons, marshalCompact, ih skipped kept]
    cases found : normal a with
    | none => rw [if_pos (skips found), List.filterMap_cons_none found]
    | some x =>
      obtain ⟨rfl, keep, length⟩ := keeps x found
      rw [if_neg (by simp [keep]), if_neg (not_not.mpr length), List.filterMap_cons_some found,
        List.flatMap_cons]
      rfl

theorem marshalCompact_of_size {as : List α} (kept : ∀ a ∈ as, skip a = false)
    (each : ∀ a ∈ as, (write a).length = size) :
    marshalCompact size skip write as = .ok (as.flatMap write) := by
  have all : marshalCompact size skip write (as.map id) = .ok ((as.filterMap some).flatMap write) := by
    refine marshalCompact_filterMap (fun a _ none' => nomatch none') ?_
    rintro a member _ ⟨⟩
    exact ⟨rfl, kept a member, each a member⟩
  rwa [List.map_id, List.filterMap_some] at all

theorem mapM_map_ok {ε β γ : Type} {f : β → Except ε γ} {part : α → β} {result : α → γ}
    {as : List α} (each : ∀ a ∈ as, f (part a) = .ok (result a)) :
    (as.map part).mapM f = .ok (as.map result) := by
  induction as with
  | nil => rfl
  | cons a as ih =>
    obtain ⟨here, later⟩ := List.forall_mem_cons.mp each
    rw [List.map_cons, List.mapM_cons, here, ih later]
    rfl

theorem length_flatMap_of_size {as : List α} (each : ∀ a ∈ as, (write a).length = size) :
    (as.flatMap write).length = as.length * size := by
  rw [List.length_flatMap, List.map_congr_left each, List.map_const', List.sum_replicate,
    smul_eq_mul]

/-- **A compact list is read back**, if every record has the size and is read back. -/
theorem unmarshalCompact_flatMap {as : List α} {text : String}
    {read : List UInt8 → Except GoError α} (positive : 0 < size)
    (each : ∀ a ∈ as, (write a).length = size) (reads : ∀ a ∈ as, read (write a) = .ok a) :
    unmarshalCompact size text read (as.flatMap write) = .ok as := by
  have whole : (as.flatMap write).length % size = 0 := by
    rw [length_flatMap_of_size each, Nat.mul_mod_left]
  rw [unmarshalCompact, if_neg (not_not.mpr whole), blocks_flatMap positive each]
  have same : as.map (fun a => a) = as := List.map_id' as
  nth_rewrite 2 [← same]
  refine mapM_map_ok fun a member => ?_
  rw [reads a member]
  rfl

/-! ### Records of one size -/

/-- The bytes of one size are those of the records that fit, and each record is read back from its
own. -/
structure IsRecord (size : Nat) (write : α → List UInt8) (read : List UInt8 → Except GoError α)
    (Fits : α → Prop) : Prop where
  positive : 0 < size
  length_write : ∀ a, Fits a → (write a).length = size
  read_write : ∀ a, Fits a → read (write a) = .ok a
  write_onto : ∀ bytes : List UInt8, bytes.length = size → ∃ a, Fits a ∧ write a = bytes

namespace IsRecord

variable {read : List UInt8 → Except GoError α} {Fits : α → Prop}
  (record : IsRecord size write read Fits)
include record

theorem unmarshal {as : List α} (fits : ∀ a ∈ as, Fits a) (text : String) :
    unmarshalCompact size text read (as.flatMap write) = .ok as :=
  unmarshalCompact_flatMap record.positive (fun a member => record.length_write a (fits a member))
    fun a member => record.read_write a (fits a member)

theorem exists_records {bytes : List UInt8} (whole : bytes.length % size = 0) :
    ∃ as : List α, (∀ a ∈ as, Fits a) ∧ as.flatMap write = bytes := by
  obtain ⟨count, length⟩ := Nat.dvd_of_mod_eq_zero whole
  induction count generalizing bytes with
  | zero =>
    rw [Nat.mul_zero] at length
    exact ⟨[], nofun, (List.length_eq_zero_iff.mp length).symm⟩
  | succ count ih =>
    rw [Nat.mul_succ] at length
    obtain ⟨a, fits, first⟩ := record.write_onto (bytes.take size)
      (List.length_take_of_le (by omega))
    have rest : (bytes.drop size).length = size * count := by
      rw [List.length_drop]
      omega
    obtain ⟨as, fitsRest, others⟩ := ih (by rw [rest, Nat.mul_mod_right]) rest
    refine ⟨a :: as, List.forall_mem_cons.mpr ⟨fits, fitsRest⟩, ?_⟩
    rw [List.flatMap_cons, first, others, List.take_append_drop]

end IsRecord

/-! ### The bencode methods of a compact list -/

/-- `MarshalBencode` and `UnmarshalBencode` of a type of lists. -/
structure ListCodec (α : Type) where
  marshalBencode : List α → Except Fault GoString
  unmarshalBencode : Option (List α) → GoString → Option (List α) × Option Fault

/-- The methods as all compact lists have them: the list is changed only if nothing fails. -/
def compactCodec (marshalBinary : List α → Except Fault (List UInt8))
    (unmarshalBinary : List UInt8 → Except Fault (List α)) : ListCodec α where
  marshalBencode l := encodeData (marshalBinary l)
  unmarshalBencode l b :=
    match decodeData b >>= unmarshalBinary with
    | .ok read => (some read, none)
    | .error fault => (l, some fault)

/-- **The two methods are inverse**, for strings of fewer than 2^31 bytes: a list comes back as its
normal one, a string of whole records comes back, any other is refused, and a call that fails
leaves the list as it was. -/
structure ListCodec.Inverse (codec : ListCodec α) (size : Nat) (Valid : α → Prop)
    (normal : α → Option α) : Prop where
  decode_encode : ∀ l dest, (∀ a ∈ l, Valid a) → (l.filterMap normal).length * size < 2 ^ 31 →
    ∃ b, codec.marshalBencode l = .ok b ∧
      codec.unmarshalBencode dest b = (some (l.filterMap normal), none)
  encode_decode : ∀ (data : GoString) dest, data.length < 2 ^ 31 → data.length % size = 0 →
    ∃ l, codec.unmarshalBencode dest (encodeString data) = (some l, none) ∧
      codec.marshalBencode l = .ok (encodeString data)
  fails_iff : ∀ (data : GoString) dest, data.length < 2 ^ 31 →
    ((codec.unmarshalBencode dest (encodeString data)).2 ≠ none ↔ data.length % size ≠ 0)
  unchanged : ∀ b dest, (codec.unmarshalBencode dest b).2 ≠ none →
    (codec.unmarshalBencode dest b).1 = dest

section Codec

variable {marshalBinary : List α → Except Fault (List UInt8)}
  {unmarshalBinary : List UInt8 → Except Fault (List α)}

theorem compactCodec_marshal {l : List α} {data : List UInt8} (written : marshalBinary l = .ok data) :
    (compactCodec marshalBinary unmarshalBinary).marshalBencode l = .ok (encodeString data) := by
  show encodeData (marshalBinary l) = _
  rw [written, encodeData_ok]

theorem compactCodec_unmarshal {data : List UInt8} (short : data.length < 2 ^ 31)
    (dest : Option (List α)) :
    (compactCodec marshalBinary unmarshalBinary).unmarshalBencode dest (encodeString data) =
      match unmarshalBinary data with
      | .ok read => (some read, none)
      | .error fault => (dest, some fault) := by
  simp only [compactCodec, decodeData_encodeString short, ok_bind]

/-- Lists of records have inverse methods, if those that fit are normal and the others are left out
or brought into a form that fits. -/
theorem IsRecord.inverse {read : List UInt8 → Except GoError α} {Fits Valid : α → Prop}
    (record : IsRecord size write read Fits) {normal : α → Option α} (text : String)
    (marshal : ∀ l, (∀ a ∈ l, Valid a) →
      marshalBinary l = .ok ((l.filterMap normal).flatMap write))
    (fits : ∀ a x, Valid a → normal a = some x → Fits x)
    (fixed : ∀ a, Fits a → Valid a ∧ normal a = some a) :
    (compactCodec marshalBinary (unmarshalCompact size text read)).Inverse size Valid normal where
  decode_encode l dest valid short := by
    have all : ∀ x ∈ l.filterMap normal, Fits x := by
      intro x member
      obtain ⟨a, inside, found⟩ := List.mem_filterMap.mp member
      exact fits a x (valid a inside) found
    have length := length_flatMap_of_size fun x member => record.length_write x (all x member)
    refine ⟨_, compactCodec_marshal (marshal l valid), ?_⟩
    rw [compactCodec_unmarshal (by rw [length]; exact short), record.unmarshal all]
  encode_decode data dest short whole := by
    obtain ⟨as, all, rfl⟩ := record.exists_records whole
    have same : as.filterMap normal = as := by
      have each : ∀ a ∈ as, normal a = some a := fun a member => (fixed a (all a member)).2
      rw [List.filterMap_congr each, List.filterMap_some]
    refine ⟨as, by rw [compactCodec_unmarshal short, record.unmarshal all], ?_⟩
    have written := marshal as fun a member => (fixed a (all a member)).1
    rw [same] at written
    exact compactCodec_marshal written
  fails_iff data dest short := by
    rw [compactCodec_unmarshal short]
    by_cases whole : data.length % size = 0
    · obtain ⟨as, all, rfl⟩ := record.exists_records whole
      rw [record.unmarshal all]
      exact iff_of_false (fun failed => failed rfl) fun other => other whole
    · rw [unmarshalCompact, if_pos whole]
      exact iff_of_true (Option.some_ne_none _) whole
  unchanged b dest failed := by
    dsimp only [compactCodec] at failed ⊢
    split at failed
    · exact absurd rfl failed
    · rfl

end Codec

end Compact

/-! ### Lists of addresses -/

theorem write_addr {bytes : List UInt8} {size : Nat} (length : bytes.length = size + 2) :
    bytes.take size ++ bePut 2 (beUInt16 (bytes.drop size)).toNat = bytes := by
  have two : (bytes.drop size).length = 2 := by
    rw [List.length_drop]
    omega
  rw [bePut_beUInt16 two, List.take_append_drop]

namespace CompactAddr

theorem isRecord {size : Nat} (family : size = 4 ∨ size = 16) :
    IsRecord (size + 2) writeBinary unmarshalBinary fun a => a.ip.length = size where
  positive := by omega
  length_write a length := by rw [writeBinary, List.length_append, length_bePut, length]
  read_write a length := unmarshalBinary_writeBinary a (by rwa [length])
  write_onto bytes length :=
    ⟨⟨bytes.take size, beUInt16 (bytes.drop size)⟩, List.length_take_of_le (by omega),
      write_addr length⟩

end CompactAddr

/-- A type of elements with an IP that can be replaced. -/
structure HasIp (α : Type) where
  ip : α → Ip
  withIp : α → Ip → α
  ip_withIp : ∀ a x, ip (withIp a x) = x
  withIp_ip : ∀ a, withIp a (ip a) = a

/-- The element with its IP in the form of a family; nil if it has none. -/
def HasIp.inForm {α : Type} (has : HasIp α) (form : Ip → Option Ip) (a : α) : α :=
  has.withIp a ((form (has.ip a)).getD [])

def compactAddrIp : HasIp CompactAddr :=
  ⟨CompactAddr.ip, fun a x => { a with ip := x }, fun _ _ => rfl, fun _ => rfl⟩

abbrev CompactAddr.inForm : (Ip → Option Ip) → CompactAddr → CompactAddr := compactAddrIp.inForm

theorem CompactAddr.inForm_eq (form : Ip → Option Ip) (a : CompactAddr) :
    a.inForm form = { a with ip := (form a.ip).getD [] } := rfl

def CompactIPv4Addrs.marshalBinary (cas : List CompactAddr) : Except Fault (List UInt8) :=
  marshalCompact 6 (fun a => a.ip.isEmpty) CompactAddr.writeBinary (cas.map (.inForm Ip.to4))

def CompactIPv4Addrs.unmarshalBinary (b : List UInt8) : Except Fault (List CompactAddr) :=
  unmarshalCompact 6 "CompactIPv4Addrs: invalid addr info length '" CompactAddr.unmarshalBinary b

def CompactIPv6Addrs.marshalBinary (cas : List CompactAddr) : Except Fault (List UInt8) :=
  marshalCompact 18 (fun _ => false) CompactAddr.writeBinary (cas.map (.inForm Ip.to16))

def CompactIPv6Addrs.unmarshalBinary (b : List UInt8) : Except Fault (List CompactAddr) :=
  unmarshalCompact 18 "CompactIPv4Addrs: invalid addr info length '" CompactAddr.unmarshalBinary b

/-! ### Hashes -/

/-- What the hash uses of the standard library. -/
structure HashText where
  /-- `hex.Decode(h[:], s)`: the array after it, and the text of an error. -/
  hexDecode : Hash → GoString → Hash × Option GoString
  /-- `base32.StdEncoding.DecodeString(s)`. -/
  base32Decode : GoString → Except GoString (List UInt8)
  sha1 : List UInt8 → Hash

namespace Hash

/-- `copy(h[:], bytes)`. -/
def copyOver (h : Hash) (bytes : List UInt8) : Hash :=
  ⟨(bytes ++ h.bytes.drop bytes.length).take hashSize, by
    rw [List.length_take, List.length_append, List.length_drop, h.size]
    omega⟩

/-- `h.FromHexString(s)`. Forty digits that are fine are twenty bytes. -/
def fromHexString (lib : HashText) (h : Hash) (s : GoString) : Hash × Option Fault :=
  if s.length ≠ 2 * hashSize then
    (h, some (.err (.text (str "hash hex string has bad length: " ++ numeral 10 s.length))))
  else
    let (h, failed) := lib.hexDecode h s
    (h, failed.map fun text => .err (.text text))

def fromString (lib : HashText) (h : Hash) (s : GoString) : Hash × Option Fault :=
  if s.length = hashSize then (h.copyOver s, none)
  else if s.length = 2 * hashSize then h.fromHexString lib s
  else if s.length = 32 then
    match lib.base32Decode s with
    | .ok bytes => (h.copyOver bytes, none)
    | .error text => (h, some (.err (.text text)))
  else (lib.sha1 s, none)

def marshalBencode (h : Hash) : Except Fault GoString := encodeData (.ok h.bytes)

def unmarshalBencode (lib : HashText) (h : Hash) (b : GoString) : Hash × Option Fault :=
  match decodeBytes noMethods b (.string []) with
  | (_, some fault) => (h, some fault)
  | (s, none) => h.fromString lib (textOf s)

variable {χ : Type}

def toValue (h : Hash) : Value χ := .array (h.bytes.map fun byte => .uint 8 byte.toNat)

/-- The byte that an element of the array holds. -/
def byteOf : Value χ → UInt8
  | .uint _ n => UInt8.ofNat n
  | _ => 0

def ofValue : Value χ → Hash
  | .array elems => copyFrom (elems.map byteOf)
  | _ => zeroHash

@[simp] theorem ofValue_toValue (h : Hash) : ofValue (h.toValue : Value χ) = h := by
  simp [ofValue, toValue, Function.comp_def, byteOf]

theorem copyOver_of_size (h o : Hash) : h.copyOver o.bytes = o :=
  Hash.ext (List.take_left' o.size)

theorem unmarshalBencode_marshalBencode (lib : HashText) (h z : Hash) :
    h.marshalBencode = .ok (encodeString h.bytes) ∧ Item (encodeString h.bytes) ∧
      z.unmarshalBencode lib (encodeString h.bytes) = (h, none) := by
  have short : h.bytes.length < 2 ^ 31 := by
    rw [h.size]
    decide
  have reads : Reads noMethods (.string []) (encodeString h.bytes) (.string h.bytes) :=
    .string ⟨rfl, nofun⟩ short rfl
  refine ⟨encodeData_ok _, item_encodeString short, ?_⟩
  rw [unmarshalBencode, reads.decodeBytes]
  dsimp only [textOf]
  rw [fromString, if_pos h.size, copyOver_of_size]

theorem isRecord :
    IsRecord hashSize Hash.bytes (fun part => .ok (copyFrom part)) (fun _ => True) where
  positive := by decide
  length_write h _ := h.size
  read_write h _ := by rw [copyFrom_bytes]
  write_onto bytes size := ⟨copyFrom bytes, trivial, bytes_copyFrom size⟩

theorem allZero_bytes {bytes : List UInt8}
    (zero : Value.allZero (bytes.map fun byte => (.uint 8 byte.toNat : Value χ)) = true) :
    bytes = List.replicate bytes.length 0 := by
  induction bytes with
  | nil => rfl
  | cons byte bytes ih =>
    rw [List.map_cons, Value.allZero, Bool.and_eq_true] at zero
    have number : byte.toNat = 0 := eq_of_beq zero.1
    have here : byte = 0 := UInt8.toNat_inj.mp number
    rw [List.length_cons, List.replicate_succ, ← ih zero.2, here]

theorem eq_zero_of_isZero {h : Hash} (zero : (h.toValue : Value χ).isZero = true) :
    h = zeroHash := by
  refine Hash.ext ?_
  rw [allZero_bytes zero, h.size]
  rfl

end Hash

def hashesCodec : ListCodec Hash :=
  compactCodec (fun hs => .ok (hs.flatMap Hash.bytes))
    (unmarshalCompact hashSize "Hashes: invalid bytes length '" fun part => .ok (.copyFrom part))

end GoBt.Metainfo
