/-
**The announce response of the HTTP tracker** (`tracker/httptracker/http.go`,
`tracker/httptracker/http_peer.go`).

A bencoded dictionary whose peers are compact strings, one for each family, or a list of
dictionaries. `net.ParseIP` is a parameter.

* `Peers`, `Peers6` — `marshalBencode` and `unmarshalBencode` of the lists of peers.
* `AnnounceResponse` — with `encode` and `decode`.
* `Inverts` — `net.ParseIP` inverts `net.IP.String` up to the form of the IP.
* `Peers.of_compactAddrs`, `Peers6.of_compactAddrs` — the compact form of peers.
* **`Peers.round_trip`, `Peers6.round_trip`** — the peers of addresses of one family are one string,
  from which the addresses are read in the form of the family.
* **`AnnounceResponse.decode_encode`** — a response whose peers are read back is read back.
* `AnnounceResponse.decode_of_long` — peers that make a string of 2^31 bytes are encoded and not
  decoded.
-/

import GoBt.Bencode.Refusal
import GoBt.Krpc.AddrText
import GoBt.Krpc.RoundTrip
import GoBt.Metainfo.Compact

namespace GoBt.Tracker.Http

open GoBt.Lib GoBt.Krpc GoBt.Metainfo GoBt.Bencode
open MetaInfo (field)

/-! ### Peers -/

structure Peer where
  id : GoString := []
  ip : GoString := []
  port : UInt16 := 0
  deriving DecidableEq

/-- `net.ParseIP`; `none` is the nil slice. -/
abbrev ParseIP := GoString → Option Ip

def errInvalidPeer : Fault := .err (.text (str "invalid bt peer information format"))

namespace Peer

variable {χ : Type}

def toValue (p : Peer) : Value χ :=
  .struct [(field "ID" "peer id", .string p.id), (field "IP" "ip", .string p.ip),
    (field "Port" "port", .uint 16 p.port.toNat)]

def ofValue : Value χ → Peer
  | .struct [(_, .string id), (_, .string ip), (_, .uint _ port)] => ⟨id, ip, UInt16.ofNat port⟩
  | _ => {}

@[simp] theorem ofValue_toValue (p : Peer) : ofValue (p.toValue : Value χ) = p := by
  simp [ofValue, toValue]

def ofAddr (a : CompactAddr) : Peer := { ip := a.ip.string, port := a.port }

/-- `m[key]` of a `map[string]interface{}`. -/
def entry (entries : List (Value χ × Value χ)) (key : String) : Option (Value χ) :=
  (entries.find? fun e => e.1.sameKey (.string (str key))).map Prod.snd

/-- The peer in a dictionary, with the port as `uint16(port)`. -/
def ofDict : Value χ → Option Peer
  | .iface (some (.map _ _ entries)) =>
      match entry (entries.getD []) "peer id", entry (entries.getD []) "ip",
        entry (entries.getD []) "port" with
      | some (.iface (some (.string id))), some (.iface (some (.string ip))),
        some (.iface (some (.int _ port))) => some ⟨id, ip, UInt16.ofNat (port % 2 ^ 16).toNat⟩
      | _, _, _ => none
  | _ => none

end Peer

def peersValue {χ : Type} (ps : Option (List Peer)) : Value χ :=
  .slice (Peer.toValue {}) (ps.map fun ps => ps.map Peer.toValue)

def peersOf {χ : Type} : Value χ → Option (List Peer)
  | .slice _ elems => elems.map fun vs => vs.map Peer.ofValue
  | _ => none

@[simp] theorem peersOf_peersValue {χ : Type} (ps : Option (List Peer)) :
    peersOf (peersValue ps : Value χ) = ps := by
  cases ps <;> simp [peersOf, peersValue, Function.comp_def]

namespace Peers

/-- The loop of `marshalCompactBencode`. -/
def compactAddrs (parseIP : ParseIP) (ps : List Peer) : Option (List CompactAddr) :=
  ps.mapM fun p => ((parseIP p.ip).bind Ip.to4).map fun ip => ⟨ip, p.port⟩

def marshalCompactBencode (parseIP : ParseIP) (ps : List Peer) : Except Fault GoString :=
  match compactAddrs parseIP ps with
  | some addrs => encodeData (CompactIPv4Addrs.marshalBinary addrs)
  | none => .error errInvalidPeer

/-- `ps.MarshalBencode()`. Only an error makes it fall back to the list of dictionaries. -/
def marshalBencode (parseIP : ParseIP) (ps : List Peer) : Except Fault GoString :=
  match marshalCompactBencode parseIP ps with
  | .ok b => .ok b
  | .error (.err _) => encodeBytes noMethods (peersValue (some ps))
  | .error fault => .error fault

/-- `ps.UnmarshalBencode(b)`: the peers are changed only if nothing fails. -/
def unmarshalBencode (ps : Option (List Peer)) (b : GoString) : Option (List Peer) × Option Fault :=
  match decodeBytes noMethods b (.iface none) with
  | (_, some fault) => (ps, some fault)
  | (.iface (some (.string s)), none) =>
      match CompactIPv4Addrs.unmarshalBinary s with
      | .ok addrs => (some (addrs.map Peer.ofAddr), none)
      | .error fault => (ps, some fault)
  | (.iface (some (.slice _ vs)), none) =>
      match (vs.getD []).mapM Peer.ofDict with
      | some peers => (some peers, none)
      | none => (ps, some errInvalidPeer)
  | (_, none) => (ps, some errInvalidPeer)

end Peers

namespace Peers6

/-- The loop of `MarshalBencode`. -/
def compactAddrs (parseIP : ParseIP) (ps : List Peer) : Option (List CompactAddr) :=
  ps.mapM fun p => (parseIP p.ip).map fun ip => ⟨ip, p.port⟩

def marshalBencode (parseIP : ParseIP) (ps : List Peer) : Except Fault GoString :=
  match compactAddrs parseIP ps with
  | some addrs => encodeData (CompactIPv6Addrs.marshalBinary addrs)
  | none => .error errInvalidPeer

def unmarshalBencode (ps : Option (List Peer)) (b : GoString) : Option (List Peer) × Option Fault :=
  match decodeBytes noMethods b (.string []) with
  | (_, some fault) => (ps, some fault)
  | (s, none) =>
      match CompactIPv6Addrs.unmarshalBinary (textOf s) with
      | .ok addrs => (some (addrs.map Peer.ofAddr), none)
      | .error fault => (ps, some fault)

end Peers6

/-! ### The response -/

structure AnnounceResponse where
  failureReason : GoString := []
  interval : UInt32 := 0
  peers : List Peer := []
  peers6 : List Peer := []
  complete : UInt32 := 0
  incomplete : UInt32 := 0
  trackerID : GoString := []
  deriving DecidableEq

/-- The types of the response that have methods. -/
inductive WireType
  | peers
  | peers6
  deriving DecidableEq

def responseEnv (parseIP : ParseIP) : Env WireType where
  methods
    | .peers =>
        { marshalBencode := some fun v => Peers.marshalBencode parseIP ((peersOf v).getD [])
          unmarshalBencode := some fun v b =>
            let (ps, fault) := Peers.unmarshalBencode (peersOf v) b
            (peersValue ps, fault) }
    | .peers6 =>
        { marshalBencode := some fun v => Peers6.marshalBencode parseIP ((peersOf v).getD [])
          unmarshalBencode := some fun v b =>
            let (ps, fault) := Peers6.unmarshalBencode (peersOf v) b
            (peersValue ps, fault) }

namespace AnnounceResponse

def toValue (r : AnnounceResponse) : Value WireType :=
  .struct [
    (field "FailureReason" "failure reason,omitempty", .string r.failureReason),
    (field "Interval" "interval,omitempty", .uint 32 r.interval.toNat),
    (field "Peers" "peers,omitempty", .named .peers (peersValue (asSlice true r.peers))),
    (field "Peers6" "peers6,omitempty", .named .peers6 (peersValue (asSlice true r.peers6))),
    (field "Complete" "complete,omitempty", .uint 32 r.complete.toNat),
    (field "Incomplete" "incomplete,omitempty", .uint 32 r.incomplete.toNat),
    (field "TrackerID" "tracker id,omitempty", .string r.trackerID)]

def ofValue : Value WireType → AnnounceResponse
  | .struct [(_, .string failureReason), (_, .uint _ interval), (_, .named _ peers),
      (_, .named _ peers6), (_, .uint _ complete), (_, .uint _ incomplete),
      (_, .string trackerID)] =>
      { failureReason := failureReason
        interval := UInt32.ofNat interval
        peers := (peersOf peers).getD []
        peers6 := (peersOf peers6).getD []
        complete := UInt32.ofNat complete
        incomplete := UInt32.ofNat incomplete
        trackerID := trackerID }
  | _ => {}

theorem ofValue_toValue (r : AnnounceResponse) : ofValue r.toValue = r := by
  simp [ofValue, toValue]

/-- `bencode.EncodeBytes(r)`. -/
def encode (parseIP : ParseIP) (r : AnnounceResponse) : Except Fault GoString :=
  encodeBytes (responseEnv parseIP) r.toValue

/-- `bencode.DecodeBytes(b, &r)` for a zero response. -/
def decode (parseIP : ParseIP) (b : GoString) : Except Fault AnnounceResponse :=
  match decodeBytes (responseEnv parseIP) b ({} : AnnounceResponse).toValue with
  | (v, none) => .ok (ofValue v)
  | (_, some fault) => .error fault

end AnnounceResponse

/-! ### Addresses as text -/

/-- The IP is read from its text, up to its form. -/
def ParsesBack (parseIP : ParseIP) (ip : Ip) : Prop :=
  ∃ ip', parseIP ip.string = some ip' ∧ ip'.equal ip = true

/-- `net.ParseIP` inverts `net.IP.String`, up to the form of the IP. -/
def Inverts (parseIP : ParseIP) : Prop :=
  ∀ ip : Ip, ip.length = 4 ∨ ip.length = 16 → ParsesBack parseIP ip

/-- The IP is an IPv4 address, in 4 or in 16 bytes. -/
def IsIPv4 (a : CompactAddr) : Prop := a.ip.to4.isSome = true

/-- The IP is an IPv6 address and not IPv4 in 16 bytes. -/
def IsProperIPv6 (a : CompactAddr) : Prop := a.ip.to4 = none ∧ a.ip.length = 16

theorem to4_of_equal {ip ip' : Ip} (same : ip'.equal ip = true) : ip'.to4 = ip.to4 := by
  unfold Ip.equal at same
  split_ifs at same with sizes four sixteen
  · rw [eq_of_beq same]
  · rw [Bool.and_eq_true, beq_iff_eq, beq_iff_eq] at same
    rw [Ip.to4, Ip.to4, if_pos four.1, if_neg (by omega), if_pos ⟨four.2, same.1⟩, same.2]
  · rw [Bool.and_eq_true, beq_iff_eq, beq_iff_eq] at same
    rw [Ip.to4, Ip.to4, if_neg (by omega), if_pos ⟨sixteen.1, same.1⟩, if_pos sixteen.2, same.2]

theorem eq_of_equal {ip ip' : Ip} (proper : ip.to4 = none) (size : ip.length = 16)
    (same : ip'.equal ip = true) : ip' = ip := by
  have noFour : ip'.to4 = none := (to4_of_equal same).trans proper
  have notShort : ip'.length ≠ 4 := by
    intro short
    rw [Ip.to4, if_pos short] at noFour
    cases noFour
  unfold Ip.equal at same
  split_ifs at same with sizes four sixteen
  · exact eq_of_beq same
  · exact absurd four.1 notShort
  · omega

theorem length_inForm {form : Ip → Option Ip} {size : Nat}
    (fits : ∀ ip x, form ip = some x → x.length = size) {a : CompactAddr}
    (family : (form a.ip).isSome = true) : (a.inForm form).ip.length = size := by
  obtain ⟨x, found⟩ := Option.isSome_iff_exists.mp family
  simp only [CompactAddr.inForm_eq, found, Option.getD_some]
  exact fits _ _ found

theorem inForm_of_to16 {a : CompactAddr} (size : a.ip.length = 16) : a.inForm Ip.to16 = a := by
  have other : a.ip.length ≠ 4 := by omega
  rw [CompactAddr.inForm_eq, Ip.to16, if_neg other, if_pos size]
  rfl

theorem inForm_of_to4 {a : CompactAddr} (size : a.ip.length = 4) : a.inForm Ip.to4 = a := by
  rw [CompactAddr.inForm_eq, Ip.to4, if_pos size]
  rfl

/-- **A compact list of addresses of one size is written and read back.** -/
theorem compact_addrs {size : Nat} (sizes : size = 4 ∨ size = 16) {cas : List CompactAddr}
    (length : ∀ a ∈ cas, a.ip.length = size) (skip : CompactAddr → Bool)
    (keeps : ∀ a : CompactAddr, a.ip.length = size → skip a = false) (text : String) :
    marshalCompact (size + 2) skip CompactAddr.writeBinary cas =
        .ok (cas.flatMap CompactAddr.writeBinary) ∧
      (cas.flatMap CompactAddr.writeBinary).length = cas.length * (size + 2) ∧
      unmarshalCompact (size + 2) text CompactAddr.unmarshalBinary
        (cas.flatMap CompactAddr.writeBinary) = .ok cas := by
  have record := CompactAddr.isRecord sizes
  have written : ∀ a ∈ cas, a.writeBinary.length = size + 2 :=
    fun a member => record.length_write a (length a member)
  exact ⟨marshalCompact_of_size (fun a member => keeps a (length a member)) written,
    length_flatMap_of_size written, record.unmarshal length text⟩

theorem mapM_some {α β : Type} {f : α → Option β} {g : α → β} {as : List α}
    (each : ∀ a ∈ as, f a = some (g a)) : as.mapM f = some (as.map g) := by
  induction as with
  | nil => rfl
  | cons a as ih =>
    obtain ⟨here, later⟩ := List.forall_mem_cons.mp each
    rw [List.mapM_cons, here, ih later]
    rfl

theorem mapM_none {α β : Type} {f : α → Option β} {as : List α} (some' : ∃ a ∈ as, f a = none) :
    as.mapM f = none := by
  induction as with
  | nil => simp at some'
  | cons a as ih =>
    rw [List.mapM_cons]
    cases here : f a with
    | none => rfl
    | some b =>
      have later : ∃ a ∈ as, f a = none := by simpa [here] using some'
      rw [ih later]
      rfl

theorem forall_of_mapM {α β : Type} {f : α → Option β} {P : β → Prop}
    (each : ∀ a b, f a = some b → P b) {as : List α} {bs : List β} (values : as.mapM f = some bs) :
    ∀ b ∈ bs, P b := by
  induction as generalizing bs with
  | nil =>
    cases values
    simp
  | cons a as ih =>
    rw [List.mapM_cons] at values
    cases here : f a with
    | none => rw [here] at values; cases values
    | some b =>
      cases later : as.mapM f with
      | none => rw [here, later] at values; cases values
      | some bs' =>
        rw [here, later] at values
        cases values
        exact List.forall_mem_cons.mpr ⟨each a b here, ih later⟩

section RoundTrip

variable {parseIP : ParseIP} {addrs : List CompactAddr} {ps : List Peer}

/-- **Peers with IPv4 addresses** are one string, from which the addresses are read. -/
theorem Peers.of_compactAddrs (parsed : Peers.compactAddrs parseIP ps = some addrs) :
    ∃ data : List UInt8, Peers.marshalBencode parseIP ps = .ok (encodeString data) ∧
      data.length = addrs.length * 6 ∧ (data.length < 2 ^ 31 → ∀ old,
        Peers.unmarshalBencode old (encodeString data) = (some (addrs.map .ofAddr), none)) := by
  have length : ∀ a ∈ addrs, a.ip.length = 4 := by
    refine forall_of_mapM (fun p a found => ?_) parsed
    obtain ⟨v4, four, rfl⟩ := Option.map_eq_some_iff.mp found
    obtain ⟨ip, _, form⟩ := Option.bind_eq_some_iff.mp four
    exact Ip.length_to4 form
  have keeps : ∀ a : CompactAddr, a.ip.length = 4 → a.ip.isEmpty = false := by
    intro a size
    rw [List.isEmpty_eq_false_iff, ← List.length_pos_iff, size]
    decide
  obtain ⟨written, size, read⟩ := compact_addrs (.inl rfl) length (fun a => a.ip.isEmpty) keeps
    "CompactIPv4Addrs: invalid addr info length '"
  have again : addrs.map (CompactAddr.inForm Ip.to4) = addrs := by
    rw [List.map_congr_left fun a member => inForm_of_to4 (length a member), List.map_id']
  refine ⟨_, ?_, size, fun short old => ?_⟩
  · rw [Peers.marshalBencode, Peers.marshalCompactBencode, parsed]
    dsimp only
    rw [CompactIPv4Addrs.marshalBinary, again, written, encodeData_ok]
  · have reads : Reads noMethods (.iface none) _ _ := .ifaceString short
    have read' : CompactIPv4Addrs.unmarshalBinary _ = .ok _ := read
    rw [Peers.unmarshalBencode, reads.decodeBytes]
    dsimp only
    rw [read']

theorem isSome_to16 {ip : Ip} (size : ip.length = 4 ∨ ip.length = 16) : ip.to16.isSome = true := by
  rcases size with four | sixteen
  · rw [Ip.to16, if_pos four]
    rfl
  · have other : ip.length ≠ 4 := by omega
    rw [Ip.to16, if_neg other, if_pos sixteen]
    rfl

/-- **Peers with IP addresses** are one string of IPv6 addresses, which are read from it. -/
theorem Peers6.of_compactAddrs (parsed : Peers6.compactAddrs parseIP ps = some addrs)
    (sizes : ∀ a ∈ addrs, a.ip.length = 4 ∨ a.ip.length = 16) :
    ∃ data : List UInt8, Peers6.marshalBencode parseIP ps = .ok (encodeString data) ∧
      data.length = addrs.length * 18 ∧ (data.length < 2 ^ 31 → ∀ old,
        Peers6.unmarshalBencode old (encodeString data) =
          (some ((addrs.map (.inForm Ip.to16)).map .ofAddr), none)) := by
  have length : ∀ a ∈ addrs.map (CompactAddr.inForm Ip.to16), a.ip.length = 16 := by
    intro a member
    obtain ⟨a, inside, rfl⟩ := List.mem_map.mp member
    exact length_inForm (fun _ _ => Ip.length_to16) (isSome_to16 (sizes a inside))
  obtain ⟨written, size, read⟩ := compact_addrs (.inr rfl) length (fun _ => false) (fun _ _ => rfl)
    "CompactIPv4Addrs: invalid addr info length '"
  refine ⟨_, ?_, size.trans (by rw [List.length_map]), fun short old => ?_⟩
  · rw [Peers6.marshalBencode, parsed]
    dsimp only
    rw [CompactIPv6Addrs.marshalBinary, written, encodeData_ok]
  · have reads : Reads noMethods (.string []) (encodeString _) (.string _) :=
      .string ⟨rfl, nofun⟩ short rfl
    have read' : CompactIPv6Addrs.unmarshalBinary _ = .ok _ := read
    rw [Peers6.unmarshalBencode, reads.decodeBytes]
    dsimp only [textOf]
    rw [read']

variable (parses : ∀ a ∈ addrs, ParsesBack parseIP a.ip)

include parses

/-- **The peers of IPv4 addresses** are one string, from which the addresses are read in 4 bytes. -/
theorem Peers.round_trip (family : ∀ a ∈ addrs, IsIPv4 a) :
    ∃ data : List UInt8, Peers.marshalBencode parseIP (addrs.map .ofAddr) = .ok (encodeString data) ∧
      data.length = addrs.length * 6 ∧ (data.length < 2 ^ 31 → ∀ ps,
        Peers.unmarshalBencode ps (encodeString data) =
          (some ((addrs.map (.inForm Ip.to4)).map .ofAddr), none)) := by
  have parsed : Peers.compactAddrs parseIP (addrs.map .ofAddr) =
      some (addrs.map (.inForm Ip.to4)) := by
    rw [Peers.compactAddrs, List.mapM_map]
    refine mapM_some fun a member => ?_
    obtain ⟨v4, found⟩ := Option.isSome_iff_exists.mp (family a member)
    obtain ⟨ip', text, same⟩ := parses a member
    dsimp only [Function.comp_apply, Peer.ofAddr]
    rw [text, Option.bind_some, to4_of_equal same, found, CompactAddr.inForm_eq, found]
    rfl
  obtain ⟨data, written, size, read⟩ := Peers.of_compactAddrs parsed
  exact ⟨data, written, size.trans (by rw [List.length_map]), read⟩

/-- **The peers of IPv6 addresses** are one string, from which the addresses are read. -/
theorem Peers6.round_trip (family : ∀ a ∈ addrs, IsProperIPv6 a) :
    ∃ data : List UInt8, Peers6.marshalBencode parseIP (addrs.map .ofAddr) = .ok (encodeString data) ∧
      data.length = addrs.length * 18 ∧ (data.length < 2 ^ 31 → ∀ ps,
        Peers6.unmarshalBencode ps (encodeString data) = (some (addrs.map .ofAddr), none)) := by
  have length : ∀ a ∈ addrs, a.ip.length = 16 := fun a member => (family a member).2
  have parsed : Peers6.compactAddrs parseIP (addrs.map .ofAddr) = some addrs := by
    rw [Peers6.compactAddrs, List.mapM_map]
    have same : addrs.map (fun a => a) = addrs := List.map_id' addrs
    nth_rewrite 2 [← same]
    refine mapM_some fun a member => ?_
    obtain ⟨proper, size⟩ := family a member
    obtain ⟨ip', text, same⟩ := parses a member
    dsimp only [Function.comp_apply, Peer.ofAddr]
    rw [text, eq_of_equal proper size same]
    rfl
  have again : addrs.map (CompactAddr.inForm Ip.to16) = addrs := by
    rw [List.map_congr_left fun a member => inForm_of_to16 (length a member), List.map_id']
  have trip := Peers6.of_compactAddrs parsed fun a member => .inr (length a member)
  rwa [again] at trip

end RoundTrip

/-! ### The round trip of a response -/

/-- The peers are one string, from which `ps'` is read. -/
structure Compacted (marshal : List Peer → Except Fault GoString)
    (unmarshal : Option (List Peer) → GoString → Option (List Peer) × Option Fault)
    (ps ps' : List Peer) : Prop where
  empty : ps = [] ↔ ps' = []
  reads : ∃ data : List UInt8, marshal ps = .ok (encodeString data) ∧ data.length < 2 ^ 31 ∧
    unmarshal none (encodeString data) = (some ps', none)

theorem isEmptyValue_peers {ps : List Peer} :
    (peersValue (asSlice true ps) : Value WireType).isEmptyValue = true ↔ ps = [] := by
  rw [peersValue, isEmptyValue_slice, getD_asSlice]

theorem asSlice_of_ne {ps : List Peer} (some' : ps ≠ []) : asSlice true ps = some ps :=
  if_neg (by simp [some'])

section Response

variable {parseIP : ParseIP}

theorem fine_peers {f : Field} (tagged : f.Tagged (responseEnv parseIP)) {type : WireType}
    {marshal : List Peer → Except Fault GoString}
    {unmarshal : Option (List Peer) → GoString → Option (List Peer) × Option Fault}
    (methods : (responseEnv parseIP).methods type =
      { marshalBencode := some fun v => marshal ((peersOf v).getD [])
        unmarshalBencode := some fun v b =>
          let (ps, fault) := unmarshal (peersOf v) b
          (peersValue ps, fault) })
    {ps ps' : List Peer} (compacted : Compacted marshal unmarshal ps ps')
    (option : optionsContain (parseTag f.tag).2 "omitempty" = true) :
    FieldPart.Fine (responseEnv parseIP) ⟨f, .named type (peersValue none),
      .named type (peersValue (asSlice true ps)), .named type (peersValue (asSlice true ps'))⟩ := by
  refine .of_tagged tagged rfl (fun _ empty => ?_) fun some' => ?_
  · rw [compacted.empty.mp (isEmptyValue_peers.mp empty)]
    rfl
  · have full : ps ≠ [] := fun none' =>
      absurd ((isEmptyValue_peers.mpr none').symm.trans (some' option)) (by decide)
    rw [asSlice_of_ne (mt compacted.empty.mpr full)]
    obtain ⟨data, written, short, read⟩ := compacted.reads
    refine .named ?_ (item_encodeString short) (by rw [methods]) ?_
    · rw [marshalOf, methods]
      dsimp only
      rw [peersOf_peersValue, getD_asSlice, written]
    · rw [peersOf_peersValue, read]

namespace AnnounceResponse

def parts (r : AnnounceResponse) (ps ps6 : List Peer) : List (FieldPart WireType) :=
  [⟨field "FailureReason" "failure reason,omitempty", .string [], .string r.failureReason,
      .string r.failureReason⟩,
    ⟨field "Interval" "interval,omitempty", .uint 32 0, .uint 32 r.interval.toNat,
      .uint 32 r.interval.toNat⟩,
    ⟨field "Peers" "peers,omitempty", .named .peers (peersValue none),
      .named .peers (peersValue (asSlice true r.peers)),
      .named .peers (peersValue (asSlice true ps))⟩,
    ⟨field "Peers6" "peers6,omitempty", .named .peers6 (peersValue none),
      .named .peers6 (peersValue (asSlice true r.peers6)),
      .named .peers6 (peersValue (asSlice true ps6))⟩,
    ⟨field "Complete" "complete,omitempty", .uint 32 0, .uint 32 r.complete.toNat,
      .uint 32 r.complete.toNat⟩,
    ⟨field "Incomplete" "incomplete,omitempty", .uint 32 0, .uint 32 r.incomplete.toNat,
      .uint 32 r.incomplete.toNat⟩,
    ⟨field "TrackerID" "tracker id,omitempty", .string [], .string r.trackerID,
      .string r.trackerID⟩]

theorem layout (r : AnnounceResponse) (ps ps6 : List Peer) :
    FieldPart.Layout (responseEnv parseIP) (r.parts ps ps6) :=
  .of_sample _ (({} : AnnounceResponse).parts [] []) rfl (by decide +kernel)

/-- **A response is decoded from its encoding**, if its peers are. -/
theorem decode_encode {r : AnnounceResponse} {ps ps6 : List Peer}
    (peers : Compacted (Peers.marshalBencode parseIP) Peers.unmarshalBencode r.peers ps)
    (peers6 : Compacted (Peers6.marshalBencode parseIP) Peers6.unmarshalBencode r.peers6 ps6)
    (reason : r.failureReason.length < 2 ^ 31) (trackerID : r.trackerID.length < 2 ^ 31) :
    ∃ b, r.encode parseIP = .ok b ∧
      decode parseIP b = .ok { r with peers := ps, peers6 := ps6 } := by
  have layout : FieldPart.Layout (responseEnv parseIP) (r.parts ps ps6) := r.layout ps ps6
  have tagged := layout.tagged
  have codes : Codes (responseEnv parseIP) ({} : AnnounceResponse).toValue r.toValue
      { r with peers := ps, peers6 := ps6 }.toValue := by
    refine Codes.struct layout.keyed layout.distinct layout.short ?_
    simp only [parts, List.forall_mem_cons] at tagged ⊢
    obtain ⟨tag₀, tag₁, tag₂, tag₃, tag₄, tag₅, tag₆, _⟩ := tagged
    exact ⟨.string tag₀ reason, .uint tag₁ r.interval.toNat_lt (by decide),
      fine_peers tag₂ rfl peers (by decide +kernel), fine_peers tag₃ rfl peers6 (by decide +kernel),
      .uint tag₄ r.complete.toNat_lt (by decide), .uint tag₅ r.incomplete.toNat_lt (by decide),
      .string tag₆ trackerID, by simp⟩
  obtain ⟨b, encoded, decoded⟩ := codes.decodeBytes rfl
  refine ⟨b, encoded, ?_⟩
  rw [decode, decoded]
  exact congrArg Except.ok (ofValue_toValue _)

theorem responseEnv_noText (parseIP : ParseIP) : NoText (responseEnv parseIP) := by
  intro type
  cases type <;> rfl

/-- **Peers that make a string of 2^31 bytes** are encoded, and the response is not decoded. -/
theorem decode_of_long {r : AnnounceResponse} {data : List UInt8}
    (written : Peers.marshalBencode parseIP r.peers = .ok (encodeString data))
    (long : 2 ^ 31 ≤ data.length) (some' : r.peers ≠ []) (none' : r.peers6 = []) :
    ∃ b, r.encode parseIP = .ok b ∧ ∀ r', decode parseIP b ≠ .ok r' := by
  have layout : FieldPart.Layout (responseEnv parseIP) (r.parts [] []) := r.layout [] []
  have tagged := layout.tagged
  have marshal : marshalOf (responseEnv parseIP) .peers (peersValue (asSlice true r.peers)) =
      some (.ok (encodeString data)) := by
    show some (Peers.marshalBencode parseIP ((peersOf (peersValue _)).getD [])) = _
    rw [peersOf_peersValue, getD_asSlice, written]
  have each : ∀ p ∈ r.parts [] [], (fieldKey (responseEnv parseIP) p.field p.value).isSome →
      Encodes (responseEnv parseIP) p.value := by
    simp only [parts, List.forall_mem_cons] at tagged ⊢
    obtain ⟨_, _, _, tag, _⟩ := tagged
    refine ⟨fun _ => .string _, fun _ => .uint _ _, fun _ => .namedString marshal,
      fun kept => absurd kept ?_, fun _ => .uint _ _, fun _ => .uint _ _, fun _ => .string _, by simp⟩
    -- no peers are left out
    have option : optionsContain (parseTag (field "Peers6" "peers6,omitempty").tag).2 "omitempty" =
        true := by
      decide +kernel
    have empty : (Value.named WireType.peers6 (peersValue (asSlice true r.peers6))).isEmptyValue =
        true := isEmptyValue_peers.mpr none'
    rw [fieldKey_tagged tag rfl, if_pos ⟨option, empty⟩]
    decide
  have unreadable : Unreadable (responseEnv parseIP) r.toValue := by
    refine Unreadable.struct layout (fun p member => ?_) ?_
    · obtain ⟨inside, kept⟩ := FieldPart.mem_dict.mp member
      exact each p inside kept
    · have inside : (⟨field "Peers" "peers,omitempty", .named .peers (peersValue none),
          .named .peers (peersValue (asSlice true r.peers)),
          .named .peers (peersValue (asSlice true []))⟩ : FieldPart WireType) ∈ r.parts [] [] := by
        simp [parts]
      refine ⟨_, FieldPart.mem_dict.mpr ⟨inside, ?_⟩, .namedString long marshal⟩
      have full : (Value.named WireType.peers (peersValue (asSlice true r.peers))).isEmptyValue ≠
          true := fun empty => some' (isEmptyValue_peers.mp empty)
      rw [fieldKey_tagged (tagged _ inside) rfl, if_neg fun left => full left.2]
      rfl
  obtain ⟨b, encoded, fails⟩ := unreadable.decodeBytes rfl (responseEnv_noText parseIP)
  refine ⟨b, encoded, fun r' decoded => ?_⟩
  have failed := fails ({} : AnnounceResponse).toValue
  unfold decode at decoded
  split at decoded
  · rename_i v result
    exact failed (by rw [result])
  · cases decoded

end AnnounceResponse

end Response

end GoBt.Tracker.Http
