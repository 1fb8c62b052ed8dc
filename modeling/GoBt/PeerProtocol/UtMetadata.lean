/-
**The "ut_metadata" message** (`peerprotocol/extension.go`).

The payload is a dictionary and, behind it and without a length of its own, the raw data. The decoder
counts the bytes of the dictionary, and what follows them is the data.

* `encodeToPayload`, `encodeToBytes`, `decodeFromPayload` — the source's methods.
* `codes_dict` — the dictionary of a message is an item, from which the same fields are decoded.
* `decodeFromPayload_encodeToBytes` — every message comes back, without what only a data message
  has if it is none.
-/

import GoBt.Bencode.RoundTrip
import GoBt.Metainfo.MetaInfo
import GoBt.PeerProtocol.Extension

namespace GoBt.PeerProtocol.UtMetadataExtendedMsg

open GoBt.Bencode
open Metainfo.MetaInfo (field)

/-! ### The codec -/

/-- No type in the message has methods. -/
def env : Env Empty where
  methods := Empty.elim

def toValue (um : UtMetadataExtendedMsg) : Value Empty :=
  .struct [
    (field "MsgType" "msg_type", .uint 8 um.msgType.toNat),
    (field "Piece" "piece", .int 64 um.piece),
    (field "TotalSize" "total_size,omitempty", .uint 64 um.totalSize.toNat),
    (field "Data" "-", .bytes (some um.data))]

def zero : UtMetadataExtendedMsg := { msgType := 0, piece := 0 }

def ofPointer : Value Empty → UtMetadataExtendedMsg
  | .ptr _ (some (.struct [(_, .uint _ msgType), (_, .int _ piece), (_, .uint _ totalSize),
      (_, .bytes data)])) =>
      { msgType := UInt8.ofNat msgType
        piece := piece
        totalSize := UInt64.ofNat totalSize
        data := data.getD [] }
  | _ => zero

/-- Only a data message has a total size and data. -/
def cleared (um : UtMetadataExtendedMsg) : UtMetadataExtendedMsg :=
  if um.msgType ≠ utMetadataExtendedMsgTypeData then { um with totalSize := 0, data := [] } else um

/-- `um.EncodeToPayload(buf)`: what it appends. -/
def encodeToPayload (um : UtMetadataExtendedMsg) : Except Fault GoString := do
  let um := um.cleared
  let dict ← encodeBytes env um.toValue
  return dict ++ um.data

def encodeToBytes (um : UtMetadataExtendedMsg) : Except Fault GoString := um.encodeToPayload

/-- `um.DecodeFromPayload(b)`: the message, also after an error. What is decoded into is the pointer
`um`, which is not nil. -/
def decodeFromPayload (um : UtMetadataExtendedMsg) (b : GoString) :
    UtMetadataExtendedMsg × Option Fault :=
  match Bencode.decode env { r := b } (.ptr zero.toValue (some um.toValue)) with
  | (_, v, some fault) => (ofPointer v, some fault)
  | (dec, v, none) =>
      -- `b[dec.BytesParsed():]`
      if b.length < dec.n then (ofPointer v, some .panicked)
      else ({ ofPointer v with data := b.drop dec.n }, none)

/-! ### The dictionary -/

/-- The fields: before, as they are encoded, and as they are decoded. -/
def parts (um : UtMetadataExtendedMsg) : List (FieldPart Empty) :=
  [⟨field "MsgType" "msg_type", .uint 8 0, .uint 8 um.msgType.toNat, .uint 8 um.msgType.toNat⟩,
    ⟨field "Piece" "piece", .int 64 0, .int 64 um.piece, .int 64 um.piece⟩,
    ⟨field "TotalSize" "total_size,omitempty", .uint 64 0, .uint 64 um.totalSize.toNat,
      .uint 64 um.totalSize.toNat⟩,
    ⟨field "Data" "-", .bytes (some []), .bytes (some um.data), .bytes (some [])⟩]

theorem parts_keyed (um : UtMetadataExtendedMsg) :
    (∀ p ∈ um.parts, p.field.Keyed env) ∧ (um.parts.map FieldPart.key).Nodup ∧
      ∀ p ∈ um.parts, p.key.length < 2 ^ 31 := by
  have sample : (∀ f ∈ zero.parts.map FieldPart.field, (f.exported = true ∧ f.anonymous = false ∧
      isValidTag env (parseTag f.tag).1 = true) ∧ f.key.length < 2 ^ 31) ∧
      ((zero.parts.map FieldPart.field).map Field.key).Nodup := by
    decide +kernel
  rw [show zero.parts.map FieldPart.field = um.parts.map FieldPart.field from rfl,
    List.forall_mem_map, List.map_map] at sample
  obtain ⟨fields, distinct⟩ := sample
  refine ⟨fun p member => ?_, distinct, fun p member => (fields p member).2⟩
  obtain ⟨⟨exported, own, valid⟩, _⟩ := fields p member
  exact ⟨exported, own, valid⟩

theorem fine_data (data : GoString) :
    FieldPart.Fine env ⟨field "Data" "-", .bytes (some []), .bytes (some data), .bytes (some [])⟩ :=
  .inl ⟨rfl, rfl⟩

/-- **The dictionary of a message**: from it, the fields are decoded but for the data. -/
theorem codes_dict (um : UtMetadataExtendedMsg) (low : -2 ^ 63 ≤ um.piece)
    (high : um.piece < 2 ^ 63) :
    Codes env zero.toValue um.toValue
      { um with data := [] }.toValue := by
  have tagged : ∀ f ∈ [field "MsgType" "msg_type", field "Piece" "piece",
      field "TotalSize" "total_size,omitempty"], f.Tagged env := by
    have ascii : ∀ f ∈ [field "MsgType" "msg_type", field "Piece" "piece",
        field "TotalSize" "total_size,omitempty"], f.asciiTagged = true := by decide +kernel
    exact fun f member => .of_ascii env (ascii f member)
  simp only [List.forall_mem_cons] at tagged
  obtain ⟨msgType, piece, totalSize, _⟩ := tagged
  obtain ⟨keyed, distinct, short⟩ := parts_keyed um
  refine Codes.struct keyed distinct short ?_
  simp only [parts, List.forall_mem_cons, List.not_mem_nil, false_implies, implies_true, and_true]
  exact ⟨.uint msgType um.msgType.toNat_lt (by decide), .int piece low high,
    .uint totalSize um.totalSize.toNat_lt le_rfl, fine_data um.data⟩

@[simp] theorem ofPointer_toValue (elem : Value Empty) (um : UtMetadataExtendedMsg) :
    ofPointer (.ptr elem (some um.toValue)) = um := by
  simp [ofPointer, toValue]

/-! ### The payload -/

theorem decodeFromPayload_append {um : UtMetadataExtendedMsg} {dict : GoString}
    (reads : Reads env zero.toValue dict { um with data := [] }.toValue) (data : List UInt8) :
    decodeFromPayload zero (dict ++ data) = ({ um with data := data }, none) := by
  have plain : Plain env zero.toValue := ⟨rfl, nofun⟩
  obtain ⟨dec, decoded, read⟩ := reads.ptr plain zero.toValue ((dict ++ data).length + 2)
    (by rw [List.length_append]; omega) { r := dict ++ data } data rfl rfl
  have parsed : dec.n = dict.length := by
    rw [read.n]
    exact Nat.zero_add _
  have within : ¬ (dict ++ data).length < dec.n := by
    rw [parsed, List.length_append]
    omega
  unfold decodeFromPayload Bencode.decode
  rw [decoded]
  dsimp only
  rw [if_neg within, ofPointer_toValue, parsed, List.drop_left]

/-- **Every message comes back from its payload**, whatever its data look like; only a data message
has a total size and data. -/
theorem decodeFromPayload_encodeToBytes (msgType : UInt8) (piece : Int64) (totalSize : UInt64)
    (data : List UInt8) :
    ∃ b, encodeToBytes ⟨msgType, piece.toInt, totalSize, data⟩ = .ok b ∧
      decodeFromPayload zero b =
        (if msgType = utMetadataExtendedMsgTypeData then ⟨msgType, piece.toInt, totalSize, data⟩
          else ⟨msgType, piece.toInt, 0, []⟩, none) := by
  have sent : cleared ⟨msgType, piece.toInt, totalSize, data⟩ =
      if msgType = utMetadataExtendedMsgTypeData then ⟨msgType, piece.toInt, totalSize, data⟩
        else ⟨msgType, piece.toInt, 0, []⟩ := by
    rw [cleared, ite_not]
  have same : (cleared ⟨msgType, piece.toInt, totalSize, data⟩).piece = piece.toInt := by
    rw [sent]
    split <;> rfl
  rw [← sent]
  unfold encodeToBytes encodeToPayload
  dsimp only
  generalize cleared ⟨msgType, piece.toInt, totalSize, data⟩ = um at same ⊢
  obtain ⟨dict, encoded, _, reads⟩ := codes_dict um (same ▸ piece.le_toInt) (same ▸ piece.toInt_lt)
  have written : encodeBytes env um.toValue = .ok dict := encoded
  refine ⟨dict ++ um.data, ?_, decodeFromPayload_append reads um.data⟩
  rw [written]
  rfl

end GoBt.PeerProtocol.UtMetadataExtendedMsg
