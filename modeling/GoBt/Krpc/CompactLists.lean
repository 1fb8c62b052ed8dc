/-
**The compact lists** (`krpc/addr.go`, `krpc/node.go`, `metainfo/addr_compact.go`,
`metainfo/infohash.go`).

Six types of lists have the same methods: the elements are brought into the form of a family, those
that have none are left out, and what is left are records of one size.

* `HasIp` — elements with an IP; `HasIp.inverse`: lists of them in the form of a family have inverse
  methods.
* `compact_lists_inverse` — the methods of all six types are inverse.
* `longHashes_not_decoded` — a list that makes a string of 2^31 bytes is written and not read.
* `CompactIPv6Addrs.marshalBinary_eq` — the list of `krpc` that looks for the wrong family;
  `sameBytes_iff`: it agrees with that of `metainfo` on the empty list only.
-/

import GoBt.Bencode.Refusal
import GoBt.Krpc.Codec

/-! ### Elements with an IP -/

namespace GoBt.Metainfo.HasIp

open GoBt.Bencode GoBt.Krpc GoBt.Lib

variable {α : Type} (has : HasIp α)

def Valid (a : α) : Prop := (has.ip a).length = 4 ∨ (has.ip a).length = 16

/-- The element with its IP in the form of a family, if it has one. -/
def normal (form : Ip → Option Ip) (a : α) : Option α := (form (has.ip a)).map (has.withIp a)

/-- A family of IPs: a form of one length, which an IP of that length has already. -/
structure Family (form : Ip → Option Ip) (size : Nat) : Prop where
  sizes : size = 4 ∨ size = 16
  length_form : ∀ ip x, form ip = some x → x.length = size
  form_of_length : ∀ ip : Ip, ip.length = size → form ip = some ip

/-- **Lists of elements with their IPs in the form of a family** have inverse methods. -/
theorem inverse {form : Ip → Option Ip} {size bytes : Nat} (family : Family form size)
    {write : α → List UInt8} {read : List UInt8 → Except GoError α}
    (record : IsRecord bytes write read fun a => (has.ip a).length = size) {skip : α → Bool}
    (keeps : ∀ a, (has.ip a).length = size → skip a = false)
    (skips : ∀ a, has.Valid a → form (has.ip a) = none → skip (has.withIp a []) = true)
    (text : String) :
    (compactCodec (fun l => marshalCompact bytes skip write (l.map (has.inForm form)))
      (unmarshalCompact bytes text read)).Inverse bytes has.Valid (has.normal form) := by
  have formed : ∀ {a x}, has.normal form a = some x →
      has.inForm form a = x ∧ (has.ip x).length = size := by
    intro a x found
    obtain ⟨ip, inForm', rfl⟩ := Option.map_eq_some_iff.mp found
    refine ⟨by rw [inForm, inForm', Option.getD_some], ?_⟩
    rw [has.ip_withIp]
    exact family.length_form _ _ inForm'
  refine record.inverse text (fun l valid => ?_) (fun a x _ found => (formed found).2) fun a fits => ?_
  · refine marshalCompact_filterMap (fun a member none' => ?_) fun a member x found => ?_
    · have missing : form (has.ip a) = none := Option.map_eq_none_iff.mp none'
      rw [inForm, missing, Option.getD_none]
      exact skips a (valid a member) missing
    · obtain ⟨same, length⟩ := formed found
      exact ⟨same, keeps x length, record.length_write x length⟩
  · refine ⟨by rw [Valid, fits]; exact family.sizes, ?_⟩
    rw [normal, family.form_of_length _ fits, Option.map_some, has.withIp_ip]

theorem family4 : Family Ip.to4 4 where
  sizes := .inl rfl
  length_form _ _ := Ip.length_to4
  form_of_length _ length := if_pos length

theorem family16 : Family Ip.to16 16 where
  sizes := .inr rfl
  length_form _ _ := Ip.length_to16
  form_of_length ip length := by rw [Ip.to16, if_neg (by omega), if_pos length]

theorem to16_ne_none {a : α} (valid : has.Valid a) : (has.ip a).to16 ≠ none := by
  unfold Ip.to16
  rcases valid with four | sixteen
  · rw [if_pos four]
    exact Option.some_ne_none _
  · rw [if_neg (by omega), if_pos sixteen]
    exact Option.some_ne_none _

end GoBt.Metainfo.HasIp

namespace GoBt.Krpc.CompactLists

open GoBt.Lib GoBt.Metainfo GoBt.Bencode

def addrIp : HasIp Addr := ⟨Addr.ip, fun a x => { a with ip := x }, fun _ _ => rfl, fun _ => rfl⟩

theorem isEmpty_of_length {ip : Ip} (size : ip.length = 4) : ip.isEmpty = false := by
  rw [List.isEmpty_eq_false_iff, ← List.length_pos_iff, size]
  decide

/-! ### The six types -/

def CompactIPv4Addrs.marshalBinary (cas : List Addr) : Except Fault (List UInt8) :=
  marshalCompact 6 (fun a => a.ip.isEmpty) Addr.writeBinary (cas.map (addrIp.inForm Ip.to4))

def CompactIPv4Addrs.unmarshalBinary (b : List UInt8) : Except Fault (List Addr) :=
  unmarshalCompact 6 "CompactIPv4Addrs: invalid addr info length '" Addr.unmarshalBinary b

/-- The methods of `krpc.CompactIPv4Addrs`. -/
def krpcAddrs4 : ListCodec Addr :=
  compactCodec CompactIPv4Addrs.marshalBinary CompactIPv4Addrs.unmarshalBinary

/-- The methods of `krpc.CompactIPv4Nodes`. -/
def krpcNodes4 : ListCodec Node :=
  compactCodec CompactIPv4Nodes.marshalBinary CompactIPv4Nodes.unmarshalBinary

/-- The methods of `krpc.CompactIPv6Nodes`. -/
def krpcNodes6 : ListCodec Node :=
  compactCodec CompactIPv6Nodes.marshalBinary CompactIPv6Nodes.unmarshalBinary

/-- The methods of `metainfo.CompactIPv4Addrs`. -/
def metainfoAddrs4 : ListCodec CompactAddr :=
  compactCodec Metainfo.CompactIPv4Addrs.marshalBinary Metainfo.CompactIPv4Addrs.unmarshalBinary

/-- The methods of `metainfo.CompactIPv6Addrs`. -/
def metainfoAddrs6 : ListCodec CompactAddr :=
  compactCodec Metainfo.CompactIPv6Addrs.marshalBinary Metainfo.CompactIPv6Addrs.unmarshalBinary

/-- **The compact lists have inverse methods.** -/
theorem compact_lists_inverse :
    krpcAddrs4.Inverse 6 addrIp.Valid (addrIp.normal Ip.to4) ∧
      krpcNodes4.Inverse 26 nodeIp.Valid (nodeIp.normal Ip.to4) ∧
      krpcNodes6.Inverse 38 nodeIp.Valid (nodeIp.normal Ip.to16) ∧
      metainfoAddrs4.Inverse 6 compactAddrIp.Valid (compactAddrIp.normal Ip.to4) ∧
      metainfoAddrs6.Inverse 18 compactAddrIp.Valid (compactAddrIp.normal Ip.to16) ∧
      hashesCodec.Inverse hashSize (fun _ => True) some := by
  refine ⟨?_, ?_, ?_, ?_, ?_, ?_⟩
  · exact addrIp.inverse HasIp.family4 (Addr.isRecord (.inl rfl))
      (fun _ length => isEmpty_of_length length) (fun _ _ _ => rfl) _
  · exact nodeIp.inverse HasIp.family4 (Node.isRecord (.inl rfl))
      (fun _ length => isEmpty_of_length length) (fun _ _ _ => rfl) _
  · exact nodeIp.inverse HasIp.family16 (Node.isRecord (.inr rfl)) (fun _ _ => rfl)
      (fun _ valid none' => absurd none' (nodeIp.to16_ne_none valid)) _
  · exact compactAddrIp.inverse HasIp.family4 (CompactAddr.isRecord (.inl rfl))
      (fun _ length => isEmpty_of_length length) (fun _ _ _ => rfl) _
  · exact compactAddrIp.inverse HasIp.family16 (CompactAddr.isRecord (.inr rfl)) (fun _ _ => rfl)
      (fun _ valid none' => absurd none' (compactAddrIp.to16_ne_none valid)) _
  · refine Hash.isRecord.inverse _ (fun l _ => ?_) (fun _ _ _ _ => trivial) fun _ _ => ⟨trivial, rfl⟩
    rw [List.filterMap_some]

/-! ### Strings of 2^31 bytes -/

theorem decodeData_of_long {data : List UInt8} (long : 2 ^ 31 ≤ data.length) (read : List UInt8) :
    decodeData (encodeString data) ≠ .ok read := by
  have failed := decodeBytes_of_long long noMethods_noText (.bytes none)
  unfold decodeData
  generalize decodeBytes noMethods (encodeString data) (.bytes none) = result at failed ⊢
  rcases result with ⟨v, _ | fault⟩
  · exact absurd rfl failed
  · exact nofun

theorem compactCodec_of_long {α : Type} (marshalBinary : List α → Except Fault (List UInt8))
    (unmarshalBinary : List UInt8 → Except Fault (List α)) (dest : Option (List α))
    {data : List UInt8} (long : 2 ^ 31 ≤ data.length) :
    ((compactCodec marshalBinary unmarshalBinary).unmarshalBencode dest (encodeString data)).2 ≠
      none := by
  dsimp only [compactCodec]
  rcases read : decodeData (encodeString data) with fault | bytes
  · exact Option.some_ne_none _
  · exact absurd read (decodeData_of_long long bytes)

theorem hashes_of_long {hs : List Hash} (long : 2 ^ 31 ≤ hs.length * hashSize) :
    ∃ b, hashesCodec.marshalBencode hs = .ok b ∧ (hashesCodec.unmarshalBencode none b).2 ≠ none := by
  have length : (hs.flatMap Hash.bytes).length = hs.length * hashSize :=
    length_flatMap_of_size fun h _ => h.size
  exact ⟨_, compactCodec_marshal rfl, compactCodec_of_long _ _ none (by rw [length]; exact long)⟩

/-- **A list that nobody decodes**: 2^27 hashes make a string of more than 2^31 bytes. -/
theorem longHashes_not_decoded :
    ∃ b, hashesCodec.marshalBencode (List.replicate (2 ^ 27) zeroHash) = .ok b ∧
      (hashesCodec.unmarshalBencode none b).2 ≠ none :=
  hashes_of_long (by rw [List.length_replicate]; decide)

/-! ### The other list of `krpc` -/

/-- `krpc.CompactIPv6Addrs.MarshalBinary`: it looks for the 4-byte form, and then for 18 bytes. -/
def CompactIPv6Addrs.marshalBinary (cas : List Addr) : Except Fault (List UInt8) :=
  marshalCompact 18 (fun a => a.ip.isEmpty) Addr.writeBinary (cas.map (addrIp.inForm Ip.to4))

/-- **It writes nothing**: an IPv6 address is left out, and an IPv4 address makes it panic. -/
theorem CompactIPv6Addrs.marshalBinary_eq (cas : List Addr) :
    CompactIPv6Addrs.marshalBinary cas =
      if ∀ a ∈ cas, a.ip.to4 = none then .ok [] else .error .panicked := by
  unfold marshalBinary
  induction cas with
  | nil => rfl
  | cons a cas ih =>
    rw [List.map_cons, marshalCompact, HasIp.inForm]
    cases family : Ip.to4 (addrIp.ip a) with
    | none =>
      have here : a.ip.to4 = none := family
      have skip : (addrIp.withIp a ((none : Option Ip).getD [])).ip.isEmpty = true := rfl
      rw [if_pos skip, ih]
      simp only [List.forall_mem_cons, here, true_and]
    | some v4 =>
      have four := Ip.length_to4 family
      have here : a.ip.to4 ≠ none := by
        rw [show a.ip.to4 = some v4 from family]
        exact Option.some_ne_none v4
      have keep : (addrIp.withIp a v4).ip.isEmpty = false := isEmpty_of_length four
      have six : (addrIp.withIp a v4).writeBinary.length ≠ 18 := by
        rw [Addr.length_writeBinary]
        show v4.length + 2 ≠ 18
        omega
      rw [Option.getD_some, if_neg (by simp [keep]), if_pos six, if_neg]
      exact fun none' => here (none' a List.mem_cons_self)

def CompactIPv6Addrs.unmarshalBinary (b : List UInt8) : Except Fault (List Addr) :=
  unmarshalCompact 18 "CompactIPv4Addrs: invalid addr info length '" Addr.unmarshalBinary b

/-- An address as `metainfo` has it. -/
def compactOf (a : Addr) : CompactAddr := ⟨a.ip, a.port⟩

/-- Both packages write the same bytes, 18 for each address, and `krpc` reads the list back. -/
def SameBytes (cas : List Addr) : Prop :=
  ∃ data, CompactIPv6Addrs.marshalBinary cas = .ok data ∧
    Metainfo.CompactIPv6Addrs.marshalBinary (cas.map compactOf) = .ok data ∧
    data.length = 18 * cas.length ∧
    CompactIPv6Addrs.unmarshalBinary data = .ok (cas.map (addrIp.inForm Ip.to16))

/-- **The two encoders agree on the empty list only.** -/
theorem sameBytes_iff (cas : List Addr) : SameBytes cas ↔ cas = [] := by
  constructor
  · rintro ⟨data, written, _, size, _⟩
    -- whatever is not a panic is the empty string
    have nothing : data = [] := by
      rw [CompactIPv6Addrs.marshalBinary_eq] at written
      split_ifs at written
      exact (Except.ok.inj written).symm
    rw [nothing, List.length_nil] at size
    exact List.length_eq_zero_iff.mp (by omega)
  · rintro rfl
    exact ⟨[], rfl, rfl, rfl, rfl⟩

/-- `::1` is left out by `krpc` only, and `1.2.3.4` makes it panic. -/
theorem addrs6_differ :
    CompactIPv6Addrs.marshalBinary [⟨List.replicate 15 0 ++ [1], 80⟩] = .ok [] ∧
      Metainfo.CompactIPv6Addrs.marshalBinary [⟨List.replicate 15 0 ++ [1], 80⟩] =
        .ok (List.replicate 15 0 ++ [1, 0, 80]) ∧
      CompactIPv6Addrs.marshalBinary [⟨[1, 2, 3, 4], 80⟩] = .error .panicked ∧
      Metainfo.CompactIPv6Addrs.marshalBinary [⟨[1, 2, 3, 4], 80⟩] =
        .ok (v4InV6Prefix ++ [1, 2, 3, 4, 0, 80]) :=
  ⟨rfl, rfl, rfl, rfl⟩

end GoBt.Krpc.CompactLists
