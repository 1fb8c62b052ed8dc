/-
**Lists of peers in both formats** (`tracker/httptracker/http_peer.go`).

A list whose IPs are all IPv4 is written as one string, any other list as a list of dictionaries, and
the decoder tells the two apart by the type of what it has read.

* `Peer.canonical` — a peer as it comes back from a string: without its ID, and with the text of its IP
  in canonical form.
* `Peers.round_trip_compact`, `Peers.round_trip_dicts`, `Peers6.round_trip_compact` — the formats.
* **`peers_round_trip`** — every list is written, and read back if no string in it has 2^31 bytes.
* `long_peers_not_read` — a list that is written and not read.
-/

import GoBt.Bencode.Generic
import GoBt.Krpc.ParseIP
import GoBt.Tracker.HttpWire

namespace GoBt.Tracker.Http

open GoBt.Lib GoBt.Krpc GoBt.Metainfo GoBt.Bencode
open MetaInfo (field)

/-! ### Peers in a string -/

/-- What `net.ParseIP` returns is an IP. -/
def ReadsIPs (parseIP : ParseIP) : Prop :=
  ∀ s ip, parseIP s = some ip → ip.length = 4 ∨ ip.length = 16

def Peer.HasIPv4 (parseIP : ParseIP) (p : Peer) : Prop :=
  ((parseIP p.ip).bind Ip.to4).isSome = true

instance (parseIP : ParseIP) (p : Peer) : Decidable (p.HasIPv4 parseIP) :=
  inferInstanceAs (Decidable (_ = true))

/-- The peer with the canonical text of its IP, and without its ID. -/
def Peer.canonical (parseIP : ParseIP) (p : Peer) : Peer where
  ip := ((parseIP p.ip).getD []).string
  port := p.port

theorem string_to4 {ip v4 : Ip} (found : ip.to4 = some v4) : v4.string = ip.string := by
  have again : v4.to4 = some v4 := by rw [Ip.to4, if_pos (Ip.length_to4 found)]
  rw [string_of_to4 found, string_of_to4 again]

theorem string_to16 {ip v6 : Ip} (found : ip.to16 = some v6) : v6.string = ip.string := by
  unfold Ip.to16 at found
  split at found
  · rename_i four
    cases found
    have same : ip.to4 = some ip := by rw [Ip.to4, if_pos four]
    rw [string_of_to4 same, string_of_to4 (to4_mapped four)]
  · split at found
    · cases found
      rfl
    · cases found

section Compact

variable {parseIP : ParseIP} {ps : List Peer}

/-- **The compact format**, six bytes for each peer. -/
theorem Peers.round_trip_compact (family : ∀ p ∈ ps, p.HasIPv4 parseIP) :
    ∃ data : List UInt8, Peers.marshalBencode parseIP ps = .ok (encodeString data) ∧
      data.length = ps.length * 6 ∧ (data.length < 2 ^ 31 → ∀ old,
        Peers.unmarshalBencode old (encodeString data) =
          (some (ps.map (.canonical parseIP)), none)) := by
  let addr := fun p : Peer => (⟨((parseIP p.ip).bind Ip.to4).getD [], p.port⟩ : CompactAddr)
  have parsed : Peers.compactAddrs parseIP ps = some (ps.map addr) := by
    refine mapM_some fun p member => ?_
    obtain ⟨v4, found⟩ := Option.isSome_iff_exists.mp (family p member)
    simp only [addr, found, Option.map_some, Option.getD_some]
  have same : (ps.map addr).map Peer.ofAddr = ps.map (.canonical parseIP) := by
    rw [List.map_map]
    refine List.map_congr_left fun p member => ?_
    obtain ⟨v4, found⟩ := Option.isSome_iff_exists.mp (family p member)
    obtain ⟨ip, text, four⟩ := Option.bind_eq_some_iff.mp found
    simp only [Function.comp_apply, addr, Peer.ofAddr, Peer.canonical, text, Option.bind_some, four,
      Option.getD_some, string_to4 four]
  obtain ⟨data, written, size, read⟩ := Peers.of_compactAddrs parsed
  rw [List.length_map] at size
  rw [same] at read
  exact ⟨data, written, size, read⟩

/-- **The compact format of IPv6**, 18 bytes for each peer. -/
theorem Peers6.round_trip_compact (sizes : ReadsIPs parseIP)
    (parses : ∀ p ∈ ps, (parseIP p.ip).isSome = true) :
    ∃ data : List UInt8, Peers6.marshalBencode parseIP ps = .ok (encodeString data) ∧
      data.length = ps.length * 18 ∧ (data.length < 2 ^ 31 → ∀ old,
        Peers6.unmarshalBencode old (encodeString data) =
          (some (ps.map (.canonical parseIP)), none)) := by
  let addr := fun p : Peer => (⟨(parseIP p.ip).getD [], p.port⟩ : CompactAddr)
  have parsed : Peers6.compactAddrs parseIP ps = some (ps.map addr) := by
    refine mapM_some fun p member => ?_
    obtain ⟨ip, found⟩ := Option.isSome_iff_exists.mp (parses p member)
    simp only [addr, found, Option.map_some, Option.getD_some]
  have sizes' : ∀ a ∈ ps.map addr, a.ip.length = 4 ∨ a.ip.length = 16 := by
    intro a member
    obtain ⟨p, inside, rfl⟩ := List.mem_map.mp member
    obtain ⟨ip, found⟩ := Option.isSome_iff_exists.mp (parses p inside)
    simp only [addr, found, Option.getD_some]
    exact sizes _ _ found
  have same : ((ps.map addr).map (.inForm Ip.to16)).map Peer.ofAddr =
      ps.map (.canonical parseIP) := by
    rw [List.map_map, List.map_map]
    refine List.map_congr_left fun p member => ?_
    obtain ⟨v6, found⟩ := Option.isSome_iff_exists.mp
      (isSome_to16 (sizes' (addr p) (List.mem_map_of_mem member)))
    have form : ((parseIP p.ip).getD []).to16 = some v6 := found
    simp only [Function.comp_apply, addr, CompactAddr.inForm_eq, form, Option.getD_some, Peer.ofAddr,
      Peer.canonical, string_to16 form]
  obtain ⟨data, written, size, read⟩ := Peers6.of_compactAddrs parsed sizes'
  rw [List.length_map] at size
  rw [same] at read
  exact ⟨data, written, size, read⟩

end Compact

/-! ### Peers in dictionaries -/

theorem Peer.entry_of_mem {χ α : Type} {as : List α} {key : α → GoString} {result : α → Value χ}
    (distinct : (as.map key).Nodup) {a : α} (member : a ∈ as) {name : String}
    (named : key a = str name) :
    Peer.entry (as.map fun a => (.string (key a), result a)) name = some (result a) := by
  induction as with
  | nil => cases member
  | cons b as ih =>
    rw [List.map_cons, List.nodup_cons] at distinct
    unfold Peer.entry at ih ⊢
    rw [List.map_cons, List.find?_cons]
    rcases List.mem_cons.mp member with rfl | later
    · simp [Value.sameKey, named]
    · have other : (Value.sameKey (.string (key b) : Value χ) (.string (str name))) = false := by
        refine Bool.eq_false_iff.mpr fun same => distinct.1 ?_
        rw [eq_of_beq same, ← named]
        exact List.mem_map_of_mem later
      rw [other]
      exact ih distinct.2 later

namespace Peer

def parts (p : Peer) : List (FieldPart Empty) :=
  [⟨field "ID" "peer id", .iface none, .string p.id, .iface (some (.string p.id))⟩,
    ⟨field "IP" "ip", .iface none, .string p.ip, .iface (some (.string p.ip))⟩,
    ⟨field "Port" "port", .iface none, .uint 16 p.port.toNat, .iface (some (.int 64 p.port.toNat))⟩]

theorem layout (p : Peer) : FieldPart.Layout noMethods p.parts :=
  .of_sample _ (parts {}) rfl (by decide +kernel)

theorem mem_dict (p : Peer) {part : FieldPart Empty} (member : part ∈ p.parts) :
    part ∈ FieldPart.dict noMethods p.parts := by
  have option : ∀ f ∈ (parts {}).map FieldPart.field,
      optionsContain (parseTag f.tag).2 "omitempty" = false := by
    decide +kernel
  have fields : p.parts.map FieldPart.field = (parts {}).map FieldPart.field := rfl
  rw [← fields] at option
  have set' : ∀ part ∈ p.parts, part.value.isNilValue = false := by
    simp [parts, Value.isNilValue]
  refine FieldPart.mem_dict.mpr ⟨member, ?_⟩
  rw [fieldKey_tagged (p.layout.tagged part member) (set' part member),
    option _ (List.mem_map_of_mem member), if_neg fun left => Bool.false_ne_true left.1]
  rfl

/-- The dictionary of a peer, as it is read. -/
def dictValue (p : Peer) : Value Empty :=
  .iface (some (mapOf (FieldPart.dict noMethods p.parts) FieldPart.key FieldPart.result))

theorem ofDict_dictValue (p : Peer) : ofDict p.dictValue = some p := by
  have distinct : ((FieldPart.dict noMethods p.parts).map FieldPart.key).Nodup :=
    FieldPart.nodup_dict p.layout.distinct
  have found : ∀ part ∈ p.parts, ∀ name, part.key = str name →
      entry ((FieldPart.dict noMethods p.parts).map fun part =>
        (.string part.key, part.result)) name = some part.result :=
    fun part member name named => entry_of_mem distinct (p.mem_dict member) named
  have idKey : (field "ID" "peer id").key = str "peer id" := by decide +kernel
  have ipKey : (field "IP" "ip").key = str "ip" := by decide +kernel
  have portKey : (field "Port" "port").key = str "port" := by decide +kernel
  have id := found _ List.mem_cons_self _ idKey
  have ip := found _ (List.mem_cons_of_mem _ List.mem_cons_self) _ ipKey
  have port := found _ (List.mem_cons_of_mem _ (List.mem_cons_of_mem _ List.mem_cons_self)) _ portKey
  have small := p.port.toNat_lt
  have kept : UInt16.ofNat ((p.port.toNat : Int) % 2 ^ 16).toNat = p.port := by
    rw [Int.emod_eq_of_lt (by omega) (by omega), Int.toNat_natCast, UInt16.ofNat_toNat]
  simp only [ofDict, dictValue, mapOf, Option.getD_some, id, ip, port, kept]

theorem codes {p : Peer} (id : p.id.length < 2 ^ 31) (ip : p.ip.length < 2 ^ 31) :
    Codes noMethods (.iface none) p.toValue p.dictValue := by
  have each : ∀ part ∈ p.parts, Codes noMethods (.iface none) part.value part.result := by
    have small := p.port.toNat_lt
    simp only [parts, List.forall_mem_cons]
    exact ⟨.ifaceString id, .ifaceString ip, .ifaceUint (by omega), by simp⟩
  have codes := Codes.ifaceStruct p.layout fun part member =>
    each part (FieldPart.mem_dict.mp member).1
  exact codes

theorem encodes (p : Peer) : Encodes noMethods (p.toValue : Value Empty) := by
  have each : ∀ part ∈ p.parts, Encodes noMethods part.value := by
    simp only [parts, List.forall_mem_cons]
    exact ⟨.string _, .string _, .uint _ _, by simp⟩
  have encodes := Encodes.struct p.layout fun part member =>
    each part (FieldPart.mem_dict.mp member).1
  exact encodes

end Peer

section Dicts

variable {parseIP : ParseIP} {ps : List Peer}

theorem Peers.marshalBencode_dicts (other : ∃ p ∈ ps, ¬ p.HasIPv4 parseIP) :
    Peers.marshalBencode parseIP ps = encodeBytes noMethods (peersValue (some ps)) := by
  have failed : Peers.compactAddrs parseIP ps = none := by
    refine mapM_none ?_
    obtain ⟨p, member, no⟩ := other
    refine ⟨p, member, ?_⟩
    rw [Option.not_isSome_iff_eq_none.mp no]
    rfl
  rw [Peers.marshalBencode, Peers.marshalCompactBencode, failed]
  rfl

/-- **The format of dictionaries**: the same peers are read. -/
theorem Peers.round_trip_dicts (other : ∃ p ∈ ps, ¬ p.HasIPv4 parseIP)
    (short : ∀ p ∈ ps, p.id.length < 2 ^ 31 ∧ p.ip.length < 2 ^ 31) :
    ∃ b, Peers.marshalBencode parseIP ps = .ok b ∧
      ∀ old, Peers.unmarshalBencode old b = (some ps, none) := by
  have each : ∀ p ∈ (some ps).getD [], Codes noMethods (.iface none) p.toValue p.dictValue :=
    fun p member => Peer.codes (short p member).1 (short p member).2
  have codes : Codes noMethods (.iface none) (peersValue (some ps)) _ := Codes.ifaceSlice each
  obtain ⟨b, encoded, decoded⟩ := codes.decodeBytes rfl
  refine ⟨b, (Peers.marshalBencode_dicts other).trans encoded, fun old => ?_⟩
  have read : (ps.map Peer.dictValue).mapM Peer.ofDict = some ps := by
    have back : ∀ p ∈ ps, (Peer.ofDict ∘ Peer.dictValue) p = some p := by
      intro p _
      rw [Function.comp_apply, p.ofDict_dictValue]
    rw [List.mapM_map, mapM_some back, List.map_id']
  rw [Peers.unmarshalBencode, decoded]
  dsimp only [sliceOf]
  rw [getD_ite_nil, Option.getD_some, read]

theorem Peers.marshalBencode_ok (parseIP : ParseIP) (ps : List Peer) :
    ∃ b, Peers.marshalBencode parseIP ps = .ok b := by
  by_cases family : ∀ p ∈ ps, p.HasIPv4 parseIP
  · obtain ⟨data, written, _⟩ := Peers.round_trip_compact family
    exact ⟨_, written⟩
  · push Not at family
    have each : ∀ p ∈ (some ps).getD [], Encodes noMethods (p.toValue : Value Empty) :=
      fun p _ => p.encodes
    obtain ⟨b, encoded, _⟩ : Encodes noMethods (peersValue (some ps)) := Encodes.slice each
    exact ⟨b, (Peers.marshalBencode_dicts family).trans encoded⟩

end Dicts

/-! ### The two formats -/

theorem string_of_equal {ip ip' : Ip} (size : ip.length = 4 ∨ ip.length = 16)
    (same : ip'.equal ip = true) : ip'.string = ip.string := by
  cases four : ip.to4 with
  | some v4 => rw [string_of_to4 four, string_of_to4 ((to4_of_equal same).trans four)]
  | none =>
    have sixteen : ip.length = 16 := by
      refine size.resolve_left fun short => ?_
      rw [Ip.to4, if_pos short] at four
      cases four
    rw [eq_of_equal four sixteen same]

theorem Peer.canonical_ofAddr {parseIP : ParseIP} (inverts : Inverts parseIP) {a : CompactAddr}
    (size : a.ip.length = 4 ∨ a.ip.length = 16) :
    (Peer.ofAddr a).canonical parseIP = Peer.ofAddr a := by
  obtain ⟨ip', text, same⟩ := inverts a.ip size
  have parsed : parseIP (Peer.ofAddr a).ip = some ip' := text
  rw [Peer.canonical, parsed, Option.getD_some, string_of_equal size same]
  rfl

/-- **Lists of peers come back in both formats.** Every list is written. If all its IPs are IPv4, that
is one string of six bytes for each peer, from which the peers are read in canonical form; otherwise the
same peers are read. A list of `Peers6` whose IPs are all fine is a string of 18 bytes for each peer, and
the peers are read in canonical form. What is read must not hold a string of 2^31 bytes. And the canonical
form of a peer at an address is the peer itself. -/
theorem peers_round_trip {parseIP : ParseIP} (sizes : ReadsIPs parseIP) :
    (∀ ps : List Peer, ∃ b, Peers.marshalBencode parseIP ps = .ok b ∧
      ((∀ p ∈ ps, p.HasIPv4 parseIP) →
        (∃ data : List UInt8, b = encodeString data ∧ data.length = ps.length * 6) ∧
        (ps.length * 6 < 2 ^ 31 → ∀ old,
          Peers.unmarshalBencode old b = (some (ps.map (.canonical parseIP)), none))) ∧
      ((∃ p ∈ ps, ¬ p.HasIPv4 parseIP) →
        (∀ p ∈ ps, p.id.length < 2 ^ 31 ∧ p.ip.length < 2 ^ 31) → ∀ old,
          Peers.unmarshalBencode old b = (some ps, none))) ∧
    (∀ ps : List Peer, (∀ p ∈ ps, (parseIP p.ip).isSome = true) →
      ∃ data : List UInt8, Peers6.marshalBencode parseIP ps = .ok (encodeString data) ∧
        data.length = ps.length * 18 ∧
        (ps.length * 18 < 2 ^ 31 → ∀ old, Peers6.unmarshalBencode old (encodeString data) =
          (some (ps.map (.canonical parseIP)), none))) ∧
    (Inverts parseIP → ∀ a : CompactAddr, a.ip.length = 4 ∨ a.ip.length = 16 →
      (Peer.ofAddr a).canonical parseIP = Peer.ofAddr a) := by
  refine ⟨fun ps => ?_, fun ps parses => ?_, fun inverts a size => Peer.canonical_ofAddr inverts size⟩
  · obtain ⟨b, written⟩ := Peers.marshalBencode_ok parseIP ps
    refine ⟨b, written, fun family => ?_, fun other short => ?_⟩
    · obtain ⟨data, written', size, read⟩ := Peers.round_trip_compact family
      obtain rfl := Except.ok.inj (written.symm.trans written')
      exact ⟨⟨data, rfl, size⟩, fun short => read (by rwa [size])⟩
    · obtain ⟨b', written', read⟩ := Peers.round_trip_dicts other short
      obtain rfl := Except.ok.inj (written.symm.trans written')
      exact read
  · obtain ⟨data, written, size, read⟩ := Peers6.round_trip_compact sizes parses
    exact ⟨data, written, size, fun short => read (by rwa [size])⟩

theorem readsIPs_parseIP : ReadsIPs Krpc.parseIP := fun _ _ read => .inr (parseIP_text read).1

/-- A list that mixes IPv4, IPv6 and a host name. -/
def mixedPeers : List Peer :=
  [⟨str "first", str "1.2.3.4", 6881⟩, ⟨[], str "::1", 80⟩, ⟨str "third", str "tracker.local", 65535⟩]

theorem peers_round_trip_mixed :
    ReadsIPs Krpc.parseIP ∧ ∃ b, Peers.marshalBencode Krpc.parseIP mixedPeers = .ok b ∧
      ∀ old, Peers.unmarshalBencode old b = (some mixedPeers, none) := by
  obtain ⟨b, written, _, dicts⟩ := (peers_round_trip readsIPs_parseIP).1 mixedPeers
  exact ⟨readsIPs_parseIP, b, written, dicts (by decide +kernel) (by decide +kernel)⟩

theorem Peers.unmarshalBencode_of_long {data : List UInt8} (long : 2 ^ 31 ≤ data.length)
    (old : Option (List Peer)) : (Peers.unmarshalBencode old (encodeString data)).2 ≠ none := by
  have failed := decodeBytes_of_long long noMethods_noText (.iface none)
  unfold Peers.unmarshalBencode
  generalize decodeBytes noMethods (encodeString data) (.iface none) = result at failed ⊢
  obtain ⟨v, _ | fault⟩ := result
  · exact absurd rfl failed
  · simp

/-- 357913942 peers make a string of more than 2^31 bytes, which is written and not read. -/
theorem long_peers_not_read :
    ∃ b, Peers.marshalBencode Krpc.parseIP
        (List.replicate 357913942 { ip := str "1.2.3.4", port := 80 }) = .ok b ∧
      (Peers.unmarshalBencode none b).2 ≠ none := by
  have many : 2 ^ 31 ≤ 357913942 * 6 := by decide
  generalize 357913942 = num at many ⊢
  have family : ∀ p ∈ List.replicate num ({ ip := str "1.2.3.4", port := 80 } : Peer),
      p.HasIPv4 Krpc.parseIP := by
    intro p member
    rw [(List.mem_replicate.mp member).2]
    decide +kernel
  obtain ⟨data, written, size, _⟩ := Peers.round_trip_compact family
  rw [List.length_replicate] at size
  exact ⟨_, written, Peers.unmarshalBencode_of_long (size ▸ many) none⟩

end GoBt.Tracker.Http
