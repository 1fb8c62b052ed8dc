/-
**The HTTP and the UDP tracker give the same answer** (`tracker/tracker.go`).

An answer of a tracker as a UDP announce response and as an HTTP one, each encoded, decoded and
converted to the response of the package `tracker`.

* `Answer` — an interval, two counts and the addresses of one family; `Answer.udp`, `Answer.http` —
  the two responses.
* `AnnounceResponse.decodeFrom_encodeTo` — the round trip of the UDP response.
* `Answer.http_round_trip` — the round trip of the HTTP response.
* **`http_udp_agree`** — both end in the same response, if the compact string of the addresses has
  less than 2^31 bytes.
* `long_answer_not_decoded` — a longer one is read by the UDP client only.
-/

import GoBt.Krpc.ParseIP
import GoBt.Tracker.HttpWire
import GoBt.Tracker.UdpWire

namespace GoBt.Tracker

open GoBt.Lib GoBt.Krpc GoBt.Metainfo
open Http (ParseIP ParsesBack IsIPv4 IsProperIPv6 Compacted)

/-! ### The common response -/

/-- `tracker.AnnounceResponse`. -/
structure CommonResponse where
  interval : UInt32
  leechers : UInt32
  seeders : UInt32
  addresses : List HostAddr
  deriving DecidableEq

namespace CommonResponse

def hostOf (p : Http.Peer) : HostAddr := ⟨p.ip, p.port⟩

def fromHTTPAnnounceResponse (r : Http.AnnounceResponse) : CommonResponse where
  interval := r.interval
  leechers := r.incomplete
  seeders := r.complete
  addresses := r.peers.map hostOf ++ r.peers6.map hostOf

def fromUDPAnnounceResponse (r : AnnounceResponse) : CommonResponse where
  interval := r.interval
  leechers := r.leechers
  seeders := r.seeders
  addresses := r.addresses.map fun a => ⟨a.ip.string, a.port⟩

end CommonResponse

/-! ### Answers -/

def formOf (ipv4 : Bool) : Ip → Option Ip := if ipv4 then Ip.to4 else Ip.to16

def OfFamily (ipv4 : Bool) (a : CompactAddr) : Prop := if ipv4 then IsIPv4 a else IsProperIPv6 a

/-- What a tracker has to say. -/
structure Answer where
  ipv4 : Bool
  interval : UInt32
  seeders : UInt32
  leechers : UInt32
  addrs : List CompactAddr
  family : ∀ a ∈ addrs, OfFamily ipv4 a

namespace Answer

def udp (answer : Answer) : AnnounceResponse where
  interval := answer.interval
  leechers := answer.leechers
  seeders := answer.seeders
  addresses := answer.addrs

def http (answer : Answer) : Http.AnnounceResponse where
  interval := answer.interval
  complete := answer.seeders
  incomplete := answer.leechers
  peers := if answer.ipv4 then answer.addrs.map .ofAddr else []
  peers6 := if answer.ipv4 then [] else answer.addrs.map .ofAddr

def inForm (answer : Answer) : List CompactAddr :=
  answer.addrs.map (.inForm (formOf answer.ipv4))

def common (answer : Answer) : CommonResponse where
  interval := answer.interval
  leechers := answer.leechers
  seeders := answer.seeders
  addresses := answer.inForm.map fun a => ⟨a.ip.string, a.port⟩

theorem hasForm (answer : Answer) :
    ∀ a ∈ answer.addrs, (formOf answer.ipv4 a.ip).isSome = true := by
  intro a member
  have family := answer.family a member
  cases ipv4 : answer.ipv4 with
  | true =>
    rw [ipv4] at family
    exact family
  | false =>
    rw [ipv4] at family
    obtain ⟨_, size⟩ : IsProperIPv6 a := family
    have other : a.ip.length ≠ 4 := by omega
    show (Ip.to16 a.ip).isSome = true
    rw [Ip.to16, if_neg other, if_pos size]
    rfl

end Answer

/-! ### The UDP response -/

namespace AnnounceResponse

theorem length_formOf {ipv4 : Bool} {ip x : Ip} (found : formOf ipv4 ip = some x) :
    x.length + 2 = addressSize ipv4 := by
  cases ipv4 with
  | true => rw [Ip.length_to4 found, addressSize, if_pos rfl]
  | false =>
    rw [Ip.length_to16 found, addressSize]
    rfl

theorem encodeAddress_of_form {ipv4 : Bool} {a : CompactAddr} {x : Ip}
    (found : formOf ipv4 a.ip = some x) :
    encodeAddress ipv4 a = .ok (a.inForm (formOf ipv4)).writeBinary := by
  have form : (if ipv4 = true then a.ip.to4 else a.ip.to16) = some x := by
    rw [← found, formOf]
    split <;> rfl
  rw [encodeAddress, form, CompactAddr.inForm_eq, found]
  rfl

theorem addressOf_writeBinary (a : CompactAddr) : addressOf a.writeBinary = a := by
  have size : a.writeBinary.length = a.ip.length + 2 := by
    rw [CompactAddr.writeBinary, List.length_append, length_bePut]
  rw [addressOf, size, Nat.add_sub_cancel, CompactAddr.writeBinary, List.take_left, List.drop_left,
    beUInt16_bePut]

/-- **The round trip of a UDP response**, with the addresses in the form of the family. -/
theorem decodeFrom_encodeTo {r : AnnounceResponse} {ipv4 : Bool}
    (family : ∀ a ∈ r.addresses, (formOf ipv4 a.ip).isSome = true) :
    ∃ bytes, r.encodeTo ipv4 = .ok bytes ∧ ∀ b : Window UInt8, b.items = bytes →
      decodeFrom b ipv4 = .ok { r with addresses := r.addresses.map (.inForm (formOf ipv4)) } := by
  let written := fun a : CompactAddr => (a.inForm (formOf ipv4)).writeBinary
  have encoded : r.addresses.mapM (encodeAddress ipv4) = .ok (r.addresses.map written) := by
    have each : ∀ a ∈ r.addresses, encodeAddress ipv4 (id a) = .ok (written a) := by
      intro a member
      obtain ⟨x, found⟩ := Option.isSome_iff_exists.mp (family a member)
      exact encodeAddress_of_form found
    simpa using mapM_map_ok each
  have size : ∀ a ∈ r.addresses, (written a).length = addressSize ipv4 := by
    intro a member
    obtain ⟨x, found⟩ := Option.isSome_iff_exists.mp (family a member)
    simp only [written, CompactAddr.writeBinary, CompactAddr.inForm_eq, found, Option.getD_some,
      List.length_append, length_bePut]
    exact length_formOf found
  have positive : 0 < addressSize ipv4 := by rw [addressSize]; omega
  have flat : (r.addresses.map written).flatten = r.addresses.flatMap written :=
    List.flatMap_def.symm
  refine ⟨_, by rw [encodeTo, encoded]; rfl, fun b items => ?_⟩
  rw [flat] at items
  have long : 12 ≤ b.len := by
    rw [← b.length_items, items]
    simp only [List.length_append, length_bePut]
    omega
  rw [decodeFrom_of_le long, items]
  have count : blockCount (r.addresses.flatMap written).length (addressSize ipv4) =
      (r.addresses.flatMap written).length / addressSize ipv4 := by
    rw [blockCount_eq _ _ positive, length_flatMap_of_size size, Nat.mul_mod_left, if_neg (by decide)]
  have addresses : (List.range ((r.addresses.flatMap written).length / addressSize ipv4)).map
      (fun i => addressOf (block (r.addresses.flatMap written) (addressSize ipv4) i)) =
        r.addresses.map (.inForm (formOf ipv4)) := by
    have parts := congrArg (List.map addressOf) (blocks_flatMap positive size)
    rw [blocks, count, List.map_map, List.map_map] at parts
    refine parts.trans (List.map_congr_left fun a _ => ?_)
    exact addressOf_writeBinary _
  have drop : (bePut 4 r.interval.toNat ++ (bePut 4 r.leechers.toNat ++
      (bePut 4 r.seeders.toNat ++ r.addresses.flatMap written))).drop 12 =
        r.addresses.flatMap written := by
    rw [drop_skip (by simp), drop_skip (by simp), drop_skip (by simp)]
    simp
  have left : (bePut 4 r.interval.toNat ++ (bePut 4 r.leechers.toNat ++
      (bePut 4 r.seeders.toNat ++ r.addresses.flatMap written))).length - 12 =
        (r.addresses.flatMap written).length := by
    rw [← List.length_drop, drop]
  rw [ofBody, drop, left, addresses]
  simp (disch := simp) only [cut_skip, cut_front, length_bePut, Nat.sub_self, Nat.reduceSub,
    beUInt32_bePut]

end AnnounceResponse

/-! ### The HTTP response -/

section Agreement

variable {parseIP : ParseIP} {answer : Answer} (parses : ∀ a ∈ answer.addrs, ParsesBack parseIP a.ip)

include parses

/-- **The round trip of the HTTP response**, with the addresses in the form of the family. -/
theorem Answer.http_round_trip
    (short : answer.addrs.length * AnnounceResponse.addressSize answer.ipv4 < 2 ^ 31) :
    ∃ b r, answer.http.encode parseIP = .ok b ∧ Http.AnnounceResponse.decode parseIP b = .ok r ∧
      CommonResponse.fromHTTPAnnounceResponse r = answer.common := by
  have family := answer.family
  have noText : ([] : GoString).length < 2 ^ 31 := by decide
  have noPeers : Compacted (Http.Peers.marshalBencode parseIP) Http.Peers.unmarshalBencode [] [] := by
    obtain ⟨data, written, size, read⟩ := Http.Peers.round_trip (List.forall_mem_nil _) (List.forall_mem_nil _)
    have short : data.length < 2 ^ 31 := by rw [size]; decide
    exact ⟨by simp, data, written, short, read short none⟩
  have noPeers6 :
      Compacted (Http.Peers6.marshalBencode parseIP) Http.Peers6.unmarshalBencode [] [] := by
    obtain ⟨data, written, size, read⟩ := Http.Peers6.round_trip (List.forall_mem_nil _) (List.forall_mem_nil _)
    have short : data.length < 2 ^ 31 := by rw [size]; decide
    exact ⟨by simp, data, written, short, read short none⟩
  cases ipv4 : answer.ipv4 with
  | true =>
    rw [ipv4] at family short
    obtain ⟨data, written, size, read⟩ := Http.Peers.round_trip parses family
    have peers : Compacted (Http.Peers.marshalBencode parseIP) Http.Peers.unmarshalBencode
        answer.http.peers ((answer.addrs.map (.inForm Ip.to4)).map .ofAddr) := by
      rw [Answer.http, ipv4, if_pos rfl]
      exact ⟨by simp, data, written, size.trans_lt short, read (size.trans_lt short) none⟩
    have peers6 : Compacted (Http.Peers6.marshalBencode parseIP) Http.Peers6.unmarshalBencode
        answer.http.peers6 [] := by
      rw [Answer.http, ipv4, if_pos rfl]
      exact noPeers6
    obtain ⟨b, encoded, decoded⟩ := Http.AnnounceResponse.decode_encode peers peers6
      noText noText
    refine ⟨b, _, encoded, decoded, ?_⟩
    simp [CommonResponse.fromHTTPAnnounceResponse, Answer.common, Answer.http, Answer.inForm, ipv4,
      formOf, CommonResponse.hostOf, Http.Peer.ofAddr]
  | false =>
    rw [ipv4] at family short
    obtain ⟨data, written, size, read⟩ := Http.Peers6.round_trip parses family
    have peers : Compacted (Http.Peers.marshalBencode parseIP) Http.Peers.unmarshalBencode
        answer.http.peers [] := by
      rw [Answer.http, ipv4]
      exact noPeers
    have peers6 : Compacted (Http.Peers6.marshalBencode parseIP) Http.Peers6.unmarshalBencode
        answer.http.peers6 (answer.addrs.map .ofAddr) := by
      rw [Answer.http, ipv4]
      exact ⟨by simp, data, written, size.trans_lt short, read (size.trans_lt short) none⟩
    obtain ⟨b, encoded, decoded⟩ := Http.AnnounceResponse.decode_encode peers peers6
      noText noText
    refine ⟨b, _, encoded, decoded, ?_⟩
    have again : answer.inForm = answer.addrs := by
      rw [Answer.inForm, ipv4]
      refine (List.map_congr_left fun a member => ?_).trans (List.map_id' _)
      exact Http.inForm_of_to16 (family a member).2
    simp [CommonResponse.fromHTTPAnnounceResponse, Answer.common, Answer.http, again,
      CommonResponse.hostOf, Http.Peer.ofAddr]

/-- **HTTP and UDP trackers give the same answer.** The answer is encoded as a UDP and as an HTTP
response; if its addresses make a compact string of less than 2^31 bytes, both are decoded, and both
are converted to the same response, with the counts and the hosts and ports of the answer in order. -/
theorem http_udp_agree
    (short : answer.addrs.length * AnnounceResponse.addressSize answer.ipv4 < 2 ^ 31) :
    ∃ bytes udp b http, answer.udp.encodeTo answer.ipv4 = .ok bytes ∧
      (∀ w : Window UInt8, w.items = bytes →
        AnnounceResponse.decodeFrom w answer.ipv4 = .ok udp) ∧
      answer.http.encode parseIP = .ok b ∧ Http.AnnounceResponse.decode parseIP b = .ok http ∧
      CommonResponse.fromUDPAnnounceResponse udp = CommonResponse.fromHTTPAnnounceResponse http ∧
      CommonResponse.fromUDPAnnounceResponse udp = answer.common := by
  obtain ⟨bytes, written, read⟩ := AnnounceResponse.decodeFrom_encodeTo (r := answer.udp) answer.hasForm
  obtain ⟨b, http, encoded, decoded, same⟩ := answer.http_round_trip parses short
  exact ⟨bytes, _, b, http, written, read, encoded, decoded, same.symm, rfl⟩

end Agreement

/-- An answer with two addresses, one of them in 16 bytes. -/
def twoAddrs : Answer where
  ipv4 := true
  interval := 1800
  seeders := 0
  leechers := 7
  addrs := [⟨v4InV6Prefix ++ [1, 2, 3, 4], 80⟩, ⟨[10, 0, 0, 1], 6881⟩]
  family := List.forall_mem_cons.mpr ⟨by rfl, List.forall_mem_singleton.mpr (by rfl)⟩

theorem parsesBack_mapped : ParsesBack Krpc.parseIP (v4InV6Prefix ++ [1, 2, 3, 4]) :=
  ⟨v4InV6Prefix ++ [1, 2, 3, 4], by decide +kernel, by decide +kernel⟩

theorem http_udp_agree_two :
    ∃ bytes udp b http, twoAddrs.udp.encodeTo true = .ok bytes ∧
      (∀ w : Window UInt8, w.items = bytes → AnnounceResponse.decodeFrom w true = .ok udp) ∧
      twoAddrs.http.encode Krpc.parseIP = .ok b ∧
      Http.AnnounceResponse.decode Krpc.parseIP b = .ok http ∧
      CommonResponse.fromUDPAnnounceResponse udp = CommonResponse.fromHTTPAnnounceResponse http ∧
      CommonResponse.fromUDPAnnounceResponse udp =
        ⟨1800, 7, 0, [⟨str "1.2.3.4", 80⟩, ⟨str "10.0.0.1", 6881⟩]⟩ := by
  have second : ParsesBack Krpc.parseIP [10, 0, 0, 1] :=
    ⟨v4InV6Prefix ++ [10, 0, 0, 1], by decide +kernel, by decide +kernel⟩
  have parses : ∀ a ∈ twoAddrs.addrs, ParsesBack Krpc.parseIP a.ip :=
    List.forall_mem_cons.mpr ⟨parsesBack_mapped, List.forall_mem_singleton.mpr second⟩
  obtain ⟨bytes, udp, b, http, written, read, encoded, decoded, same, common⟩ :=
    http_udp_agree parses (by decide)
  exact ⟨bytes, udp, b, http, written, read, encoded, decoded, same, common.trans (by decide)⟩

/-! ### Addresses that make a long string -/

/-- The answer with one address, `num` times. -/
def repeatedAnswer (num : Nat) : Answer where
  ipv4 := true
  interval := 1800
  seeders := 0
  leechers := 7
  addrs := List.replicate num ⟨v4InV6Prefix ++ [1, 2, 3, 4], 80⟩
  family := by
    intro a member
    rw [(List.mem_replicate.mp member).2]
    rfl

/-- **Peers that only the UDP client reads**: 357913942 addresses make a string of more than 2^31
bytes, which the HTTP response holds and its decoder refuses. -/
theorem long_answer_not_decoded :
    (∀ a ∈ (repeatedAnswer 357913942).addrs, ParsesBack Krpc.parseIP a.ip) ∧
      ∃ bytes udp b, (repeatedAnswer 357913942).udp.encodeTo true = .ok bytes ∧
      (∀ w : Window UInt8, w.items = bytes → AnnounceResponse.decodeFrom w true = .ok udp) ∧
      (repeatedAnswer 357913942).http.encode Krpc.parseIP = .ok b ∧
      ∀ r, Http.AnnounceResponse.decode Krpc.parseIP b ≠ .ok r := by
  have many : 2 ^ 31 ≤ 357913942 * 6 := by decide
  generalize 357913942 = num at many ⊢
  have parses : ∀ a ∈ (repeatedAnswer num).addrs, ParsesBack Krpc.parseIP a.ip := by
    intro a member
    obtain rfl := List.eq_of_mem_replicate member
    exact parsesBack_mapped
  obtain ⟨bytes, written, read⟩ :=
    AnnounceResponse.decodeFrom_encodeTo (r := (repeatedAnswer num).udp) (repeatedAnswer num).hasForm
  obtain ⟨data, compact, size, _⟩ := Http.Peers.round_trip parses (repeatedAnswer num).family
  have length : (repeatedAnswer num).addrs.length = num := List.length_replicate
  have some' : (repeatedAnswer num).http.peers ≠ [] := by
    intro empty
    have none' := List.map_eq_nil_iff.mp empty
    rw [none', List.length_nil] at length
    omega
  obtain ⟨b, encoded, refused⟩ := Http.AnnounceResponse.decode_of_long
    (r := (repeatedAnswer num).http) compact (by rw [size, length]; exact many) some' rfl
  exact ⟨parses, bytes, _, b, written, read, encoded, refused⟩

end GoBt.Tracker
