/-
**The extended handshake message** (`peerprotocol/extension.go`), as the decoder sees it.

The message is decoded into one that may hold something already, with every field of the struct.

* `CompactIP.unmarshalBencode` — the source's method. It reads a `net.IP`, which is read as a text.
* `ExtendedHandshakeMsg.toValue`, `ofValue` — the message as reflection sees it, and back.
* `decodeHandshake` — `bencode.DecodeBytes(payload, &msg)`; `decodeHandshake_of_noKey`: without the
  keys of the message it changes nothing.
-/

import GoBt.Bencode.UnknownKeys
import GoBt.Metainfo.MetaInfo
import GoBt.PeerProtocol.Extension

namespace GoBt.PeerProtocol

open GoBt.Bencode GoBt.Krpc GoBt.Lib
open Metainfo.MetaInfo (field)

/-- The types of the fields that have methods. -/
inductive ExtType
  /-- `net.IP`. -/
  | ip
  /-- `CompactIP`. -/
  | compactIP
  deriving DecidableEq

/-- What is taken from the package `net`. -/
structure NetIP where
  /-- `ip.UnmarshalText(text)`: the new address, or the text of the error. -/
  unmarshalText : GoString → Except GoString (Option Ip)

def errInvalidIP : Fault := .err (.text (str "invalid ipv4 or ipv6"))

/-- The address in a value of one of the types. -/
def ipOf (v : Value ExtType) : Ip :=
  match v.under with
  | .bytes b => b.getD []
  | _ => []

section Decode

variable (net : NetIP)

/-- The methods of `net.IP`, as far as they decode. -/
def ipMethods : Methods ExtType where
  unmarshalText := some fun v text =>
    match net.unmarshalText text with
    | .ok ip => (.bytes ip, none)
    | .error message => (v, some (.err (.text message)))

def CompactIP.unmarshalBencode (ci : Value ExtType) (b : GoString) :
    Value ExtType × Option Fault :=
  match decodeBytes { methods := fun _ => ipMethods net } b (.named .ip (.bytes none)) with
  | (_, some fault) => (ci, some fault)
  | (v, none) =>
      let ip := ipOf v
      if ip.length ≠ 4 ∧ ip.length ≠ 16 then (ci, some errInvalidIP)
      else (.bytes (some (ip.to4.getD ip)), none)

/-- The methods of the types of the fields. -/
def handshakeEnv : Env ExtType where
  methods
    | .ip => ipMethods net
    | .compactIP => { unmarshalBencode := some (CompactIP.unmarshalBencode net) }

end Decode

/-- The field `M` as reflection sees it. -/
def idEntries (m : GoMap GoString UInt8) : List (Value ExtType × Value ExtType) :=
  m.entries.map fun entry => (.string entry.1, .uint 8 entry.2.toNat)

/-- A map from what reflection sees. -/
def idsOf : List (Value ExtType × Value ExtType) → GoMap GoString UInt8
  | [] => ∅
  | (.string key, .uint _ id) :: rest => (idsOf rest).insert key (UInt8.ofNat id)
  | _ :: rest => idsOf rest

theorem idsOf_idEntries (m : GoMap GoString UInt8) : idsOf (idEntries m) = m := by
  obtain ⟨entries, distinct⟩ := m
  refine AList.ext ?_
  show (idsOf (entries.map fun entry => _)).entries = entries
  induction entries with
  | nil => rfl
  | cons entry rest ih =>
    obtain ⟨fresh, distinct⟩ := List.nodupKeys_cons.mp distinct
    have same := ih distinct
    have absent : entry.1 ∉ idsOf (rest.map fun entry => (.string entry.1, .uint 8 entry.2.toNat)) := by
      rwa [AList.mem_keys, AList.keys, same]
    rw [List.map_cons, idsOf, AList.entries_insert_of_notMem absent, same, UInt8.ofNat_toNat]

namespace ExtendedHandshakeMsg

def fields (msg : ExtendedHandshakeMsg) : List (Field × Value ExtType) :=
  [(field "M" "m", .map (.string []) (.uint 8 0) (msg.m.map idEntries)),
    (field "V" "v,omitempty", .string msg.v),
    (field "Reqq" "reqq,omitempty", .uint 64 msg.reqq.toNat),
    (field "Port" "p,omitempty", .uint 16 msg.port.toNat),
    (field "IPv6" "ipv6,omitempty", .named .ip (.bytes msg.ipv6)),
    (field "IPv4" "ipv4,omitempty", .named .compactIP (.bytes msg.ipv4)),
    (field "YourIP" "yourip,omitempty", .named .compactIP (.bytes msg.yourIP)),
    (field "MetadataSize" "metadata_size,omitempty", .uint 64 msg.metadataSize.toNat)]

def toValue (msg : ExtendedHandshakeMsg) : Value ExtType := .struct msg.fields

def ofValue : Value ExtType → ExtendedHandshakeMsg
  | .struct [(_, .map _ _ m), (_, .string v), (_, .uint _ reqq), (_, .uint _ port),
      (_, .named _ (.bytes ipv6)), (_, .named _ (.bytes ipv4)), (_, .named _ (.bytes yourIP)),
      (_, .uint _ metadataSize)] =>
      { m := m.map idsOf
        v := v
        reqq := UInt64.ofNat reqq
        port := UInt16.ofNat port
        ipv6 := ipv6
        ipv4 := ipv4
        yourIP := yourIP
        metadataSize := UInt64.ofNat metadataSize }
  | _ => {}

@[simp] theorem ofValue_toValue (msg : ExtendedHandshakeMsg) : ofValue msg.toValue = msg := by
  have ids : (msg.m.map idEntries).map idsOf = msg.m := by
    rw [Option.map_map, show idsOf ∘ idEntries = id from funext idsOf_idEntries, Option.map_id, id]
  simp [ofValue, toValue, fields, ids]

end ExtendedHandshakeMsg

/-- `bencode.DecodeBytes(payload, &msg)`: the message, also after an error. -/
def decodeHandshake (net : NetIP) (msg : ExtendedHandshakeMsg) (payload : GoString) :
    ExtendedHandshakeMsg × Option Fault :=
  let (v, fault) := decodeBytes (handshakeEnv net) payload msg.toValue
  (.ofValue v, fault)

def handshakeKeys : List GoString :=
  ["m", "v", "reqq", "p", "ipv6", "ipv4", "yourip", "metadata_size"].map str

/-- **A payload without these keys leaves the message as it was**, also if it is refused. -/
theorem decodeHandshake_of_noKey (net : NetIP) (msg : ExtendedHandshakeMsg) {payload : GoString}
    (noKey : NoKeyOf handshakeKeys payload) : (decodeHandshake net msg payload).1 = msg := by
  have ascii : ∀ p ∈ ({} : ExtendedHandshakeMsg).fields, p.1.asciiTagged = true := by
    decide +kernel
  have names : ({} : ExtendedHandshakeMsg).fields.map (fun p => p.1.key) = handshakeKeys := by
    decide +kernel
  have keyed : ∀ p ∈ msg.fields, p.1.Keyed (handshakeEnv net) := by
    intro p member
    have named : p.1 ∈ msg.fields.map Prod.fst := List.mem_map_of_mem member
    obtain ⟨q, inside, same⟩ := List.mem_map.mp
      (show p.1 ∈ ({} : ExtendedHandshakeMsg).fields.map Prod.fst from named)
    rw [← same]
    exact (Field.Tagged.of_ascii _ (ascii q inside)).keyed
  have kept := decodeBytes_of_noKey keyed (s := payload) (by rwa [← names] at noKey)
  show ExtendedHandshakeMsg.ofValue (decodeBytes (handshakeEnv net) payload msg.toValue).1 = msg
  rw [ExtendedHandshakeMsg.toValue, kept]
  exact msg.ofValue_toValue

end GoBt.PeerProtocol
