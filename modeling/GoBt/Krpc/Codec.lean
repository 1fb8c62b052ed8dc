/-
**KRPC messages on the wire** (`krpc/addr.go`, `krpc/node.go`, `krpc/message.go`).

A list of the model stands for a slice of the source; which of the empty ones are nil is said by
`Nils`, since `omitempty` sees the difference in a struct.

* `Addr`, `Node`, `CompactIPv4Nodes`, `CompactIPv6Nodes`, `Error` — the methods of the types.
* `Message.toValue`, `encodeMessage`, `decodeMessage` — messages and their encoding.
-/

import GoBt.Krpc.Message
import GoBt.Metainfo.Compact

namespace GoBt.Krpc

open GoBt.Lib GoBt.Metainfo GoBt.Bencode
open MetaInfo (field)

/-! ### Addresses and nodes -/

namespace Addr

/-- `a.WriteBinary(w)`: what is written. -/
def writeBinary (a : Addr) : List UInt8 := a.ip ++ bePut 2 a.port.toNat

def unmarshalBinary (data : List UInt8) : Except GoError Addr :=
  if data.length = 4 + 2 ∨ data.length = 16 + 2 then
    .ok ⟨data.take (data.length - 2), beUInt16 (data.drop (data.length - 2))⟩
  else .error (.other "invalid compact ip-address/port info")

theorem length_writeBinary (a : Addr) : a.writeBinary.length = a.ip.length + 2 := by
  rw [writeBinary, List.length_append, length_bePut]

theorem unmarshalBinary_writeBinary {a : Addr} (family : a.ip.length = 4 ∨ a.ip.length = 16) :
    unmarshalBinary a.writeBinary = .ok a := by
  have fits : a.writeBinary.length = 4 + 2 ∨ a.writeBinary.length = 16 + 2 := by
    rw [length_writeBinary]
    omega
  rw [unmarshalBinary, if_pos fits, length_writeBinary, Nat.add_sub_cancel, writeBinary,
    List.take_left, List.drop_left, beUInt16_bePut]

theorem isRecord {size : Nat} (family : size = 4 ∨ size = 16) :
    IsRecord (size + 2) writeBinary unmarshalBinary fun a => a.ip.length = size where
  positive := by omega
  length_write a length := by rw [a.length_writeBinary, length]
  read_write a length := unmarshalBinary_writeBinary (by rwa [length])
  write_onto bytes length :=
    ⟨⟨bytes.take size, beUInt16 (bytes.drop size)⟩, List.length_take_of_le (by omega),
      write_addr length⟩

end Addr

namespace Node

/-- `n.WriteBinary(w)`: what is written. -/
def writeBinary (n : Node) : List UInt8 := n.id.bytes ++ n.addr.writeBinary

/-- `n.UnmarshalBinary(b)` on a zero node. -/
def unmarshalBinary (b : List UInt8) : Except GoError Node :=
  if b.length < 26 then .error (.other "short buffer")
  else do
    let addr ← Addr.unmarshalBinary (b.drop 20)
    return ⟨Hash.copyFrom (b.take 20), addr⟩

end Node

def nodeIp : HasIp Node :=
  ⟨fun n => n.addr.ip, fun n x => { n with addr := { n.addr with ip := x } }, fun _ _ => rfl,
    fun _ => rfl⟩

namespace Node

abbrev inForm : (Ip → Option Ip) → Node → Node := nodeIp.inForm

theorem inForm_eq (form : Ip → Option Ip) (n : Node) :
    n.inForm form = { n with addr := { n.addr with ip := (form n.addr.ip).getD [] } } := rfl

theorem length_writeBinary (n : Node) : n.writeBinary.length = n.addr.ip.length + 22 := by
  rw [writeBinary, List.length_append, n.id.size, n.addr.length_writeBinary, hashSize]
  omega

def equal (n o : Node) : Bool := n.id == o.id && n.addr.equal o.addr

theorem unmarshalBinary_writeBinary {n : Node}
    (family : n.addr.ip.length = 4 ∨ n.addr.ip.length = 16) :
    unmarshalBinary n.writeBinary = .ok n := by
  have long : ¬ n.writeBinary.length < 26 := by
    rw [length_writeBinary]
    omega
  have front : n.writeBinary.take 20 = n.id.bytes := List.take_left' n.id.size
  have back : n.writeBinary.drop 20 = n.addr.writeBinary := List.drop_left' n.id.size
  rw [unmarshalBinary, if_neg long, front, back, Addr.unmarshalBinary_writeBinary family,
    Hash.copyFrom_bytes]
  rfl

theorem isRecord {size : Nat} (family : size = 4 ∨ size = 16) :
    IsRecord (size + 22) writeBinary unmarshalBinary fun n => n.addr.ip.length = size where
  positive := by omega
  length_write n length := by rw [n.length_writeBinary, length]
  read_write n length := unmarshalBinary_writeBinary (by rwa [length])
  write_onto bytes length := by
    obtain ⟨addr, fits, written⟩ := (Addr.isRecord family).write_onto (bytes.drop 20)
      (by rw [List.length_drop]; omega)
    refine ⟨⟨Hash.copyFrom (bytes.take 20), addr⟩, fits, ?_⟩
    have id : (Hash.copyFrom (bytes.take 20)).bytes = bytes.take 20 :=
      Hash.bytes_copyFrom (List.length_take_of_le (by omega))
    show (Hash.copyFrom (bytes.take 20)).bytes ++ addr.writeBinary = bytes
    rw [id, written, List.take_append_drop]

end Node

def CompactIPv4Nodes.marshalBinary (cns : List Node) : Except Fault (List UInt8) :=
  marshalCompact 26 (fun n => n.addr.ip.isEmpty) Node.writeBinary (cns.map (.inForm Ip.to4))

def CompactIPv4Nodes.unmarshalBinary (b : List UInt8) : Except Fault (List Node) :=
  unmarshalCompact 26 "CompactIPv4Nodes: invalid node info length '" Node.unmarshalBinary b

def CompactIPv6Nodes.marshalBinary (cns : List Node) : Except Fault (List UInt8) :=
  marshalCompact 38 (fun _ => false) Node.writeBinary (cns.map (.inForm Ip.to16))

def CompactIPv6Nodes.unmarshalBinary (b : List UInt8) : Except Fault (List Node) :=
  unmarshalCompact 38 "CompactIPv6Nodes: invalid node info length '" Node.unmarshalBinary b

/-- `UnmarshalBencode` of a list of nodes, which is changed only if nothing fails. -/
def unmarshalNodes (unmarshalBinary : List UInt8 → Except Fault (List Node))
    (cns : Option (List Node)) (b : GoString) : Option (List Node) × Option Fault :=
  match decodeData b >>= unmarshalBinary with
  | .ok nodes => (some nodes, none)
  | .error fault => (cns, some fault)

/-! ### Errors -/

namespace Error

def marshalBencode (e : Error) : Except Fault GoString :=
  if e.code = 0 ∧ e.reason = [] then .ok []
  else encodeBytes noMethods (.slice (.iface none)
    (some [.iface (some (.int 64 e.code)), .iface (some (.string e.reason))]))

/-- `fmt.Errorf("panic: %v", r)`. -/
def panicError : Fault → Fault
  | .err (.text text) => .err (.text (str "panic: " ++ text))
  | fault => fault

/-- `e.decode(vs)`; a panic is recovered and becomes the error. -/
def decode (e : Error) (vs : List (Value Empty)) : Error × Option Fault :=
  match (vs[0]? : Option (Value Empty)) with
  | none => (e, some (panicError (indexError 0 vs.length)))
  | some (.iface (some (.int _ code))) =>
      let e := { e with code := code }
      match (vs[1]? : Option (Value Empty)) with
      | none => (e, some (panicError (indexError 1 vs.length)))
      | some (.iface (some (.string reason))) => ({ e with reason := reason }, none)
      | some x => (e, some (panicError (conversionError x "string")))
  | some x => (e, some (panicError (conversionError x "int64")))

/-- The error for a value of another type. -/
def unexpectedType (type : GoString) : Fault :=
  .err (.text (str "KRPC error bencode value has unexpected type: " ++ type))

def unmarshalBencode (e : Error) (b : GoString) : Error × Option Fault :=
  match decodeBytes noMethods b (.iface none) with
  | (_, some fault) => (e, some fault)
  | (.iface (some (.slice _ elems)), none) => e.decode (elems.getD [])
  | (.iface (some (.string s)), none) => ({ e with reason := s }, none)
  | (.iface (some v), none) => (e, some (unexpectedType (typeText v)))
  | (_, none) => (e, some (unexpectedType (str "<nil>")))

variable {χ : Type}

def toValue (e : Error) : Value χ :=
  .struct [({ name := "Code" }, .int 64 e.code), ({ name := "Reason" }, .string e.reason)]

def ofValue : Value χ → Error
  | .struct [(_, .int _ code), (_, .string reason)] => { code := code, reason := reason }
  | _ => {}

@[simp] theorem ofValue_toValue (e : Error) : ofValue (e.toValue : Value χ) = e := rfl

end Error

/-! ### Messages as values -/

/-- The types of a message that have methods. -/
inductive WireType
  | hash
  | error
  | nodes4
  | nodes6
  deriving DecidableEq

def hashValue (h : Hash) : Value WireType := .named .hash h.toValue

def nodeValue (n : Node) : Value WireType :=
  .struct [({ name := "ID" }, hashValue n.id),
    ({ name := "Addr" }, .struct [({ name := "IP" }, .bytes (some n.addr.ip)),
      ({ name := "Port" }, .uint 16 n.addr.port.toNat)])]

def hashOf : Value WireType → Hash
  | .named _ v => Hash.ofValue v
  | _ => zeroHash

def nodeOf : Value WireType → Node
  | .struct [(_, id), (_, .struct [(_, .bytes ip), (_, .uint _ port)])] =>
      ⟨hashOf id, ip.getD [], UInt16.ofNat port⟩
  | _ => ⟨zeroHash, [], 0⟩

def nodesValue (cns : Option (List Node)) : Value WireType :=
  .slice (nodeValue ⟨zeroHash, [], 0⟩) (cns.map fun nodes => nodes.map nodeValue)

def nodesOf : Value WireType → Option (List Node)
  | .slice _ elems => elems.map fun vs => vs.map nodeOf
  | _ => none

@[simp] theorem nodeOf_nodeValue (n : Node) : nodeOf (nodeValue n) = n := by
  simp [nodeOf, nodeValue, hashOf, hashValue]

@[simp] theorem nodesOf_nodesValue (cns : Option (List Node)) : nodesOf (nodesValue cns) = cns := by
  cases cns <;> simp [nodesOf, nodesValue, Function.comp_def]

def messageEnv (lib : HashText) : Env WireType where
  methods
    | .hash =>
        { marshalBencode := some fun v => (Hash.ofValue v).marshalBencode
          unmarshalBencode := some fun v b =>
            let (h, fault) := (Hash.ofValue v).unmarshalBencode lib b
            (h.toValue, fault) }
    | .error =>
        { marshalBencode := some fun v => (Error.ofValue v).marshalBencode
          unmarshalBencode := some fun v b =>
            let (e, fault) := (Error.ofValue v).unmarshalBencode b
            (e.toValue, fault) }
    | .nodes4 =>
        { marshalBencode := some fun v =>
            encodeData (CompactIPv4Nodes.marshalBinary ((nodesOf v).getD []))
          unmarshalBencode := some fun v b =>
            let (cns, fault) := unmarshalNodes CompactIPv4Nodes.unmarshalBinary (nodesOf v) b
            (nodesValue cns, fault) }
    | .nodes6 =>
        { marshalBencode := some fun v =>
            encodeData (CompactIPv6Nodes.marshalBinary ((nodesOf v).getD []))
          unmarshalBencode := some fun v b =>
            let (cns, fault) := unmarshalNodes CompactIPv6Nodes.unmarshalBinary (nodesOf v) b
            (nodesValue cns, fault) }

/-- Which of the slices of a message are nil, of those without elements. -/
structure Nils where
  wants : Bool := true
  nodes : Bool := true
  nodes6 : Bool := true
  values : Bool := true

def asSlice {α : Type} (isNil : Bool) (as : List α) : Option (List α) :=
  if isNil ∧ as.isEmpty then none else some as

@[simp] theorem getD_asSlice {α : Type} (isNil : Bool) (as : List α) :
    (asSlice isNil as).getD [] = as := by
  unfold asSlice
  split
  · rename_i empty
    exact (List.isEmpty_iff.mp empty.2).symm
  · rfl

namespace QueryArg

def toValue (nils : Nils) (a : QueryArg) : Value WireType :=
  .struct [
    (field "ID" "id", hashValue a.id),
    (field "Target" "target,omitempty", hashValue a.target),
    (field "InfoHash" "info_hash,omitempty", hashValue a.infoHash),
    (field "Port" "port,omitempty", .uint 16 a.port.toNat),
    (field "Token" "token,omitempty", .string a.token),
    (field "ImpliedPort" "implied_port,omitempty", .bool a.impliedPort),
    (field "Wants" "want,omitempty", stringsValue (asSlice nils.wants a.wants))]

def ofValue : Value WireType → QueryArg
  | .struct [(_, id), (_, target), (_, infoHash), (_, .uint _ port), (_, .string token),
      (_, .bool impliedPort), (_, wants)] =>
      { id := hashOf id
        target := hashOf target
        infoHash := hashOf infoHash
        port := UInt16.ofNat port
        token := token
        impliedPort := impliedPort
        wants := (stringsOf wants).getD [] }
  | _ => {}

theorem ofValue_toValue (nils : Nils) (a : QueryArg) : ofValue (a.toValue nils) = a := by
  simp [ofValue, toValue, hashOf, hashValue]

end QueryArg

namespace ResponseResult

def toValue (nils : Nils) (r : ResponseResult) : Value WireType :=
  .struct [
    (field "ID" "id", hashValue r.id),
    (field "Nodes" "nodes,omitempty", .named .nodes4 (nodesValue (asSlice nils.nodes r.nodes))),
    (field "Nodes6" "nodes6,omitempty", .named .nodes6 (nodesValue (asSlice nils.nodes6 r.nodes6))),
    (field "Token" "token,omitempty", .string r.token),
    (field "Values" "values,omitempty", stringsValue (asSlice nils.values r.values))]

def ofValue : Value WireType → ResponseResult
  | .struct [(_, id), (_, .named _ nodes), (_, .named _ nodes6), (_, .string token),
      (_, values)] =>
      { id := hashOf id
        nodes := (nodesOf nodes).getD []
        nodes6 := (nodesOf nodes6).getD []
        token := token
        values := (stringsOf values).getD [] }
  | _ => {}

theorem ofValue_toValue (nils : Nils) (r : ResponseResult) : ofValue (r.toValue nils) = r := by
  simp [ofValue, toValue, hashOf, hashValue]

end ResponseResult

namespace Message

def toValue (nils : Nils) (m : Message) : Value WireType :=
  .struct [
    (field "T" "t", .string m.t),
    (field "Y" "y", .string m.y),
    (field "Q" "q,omitempty", .string m.q),
    (field "A" "a,omitempty", m.a.toValue nils),
    (field "R" "r,omitempty", m.r.toValue nils),
    (field "E" "e,omitempty", .named .error m.e.toValue),
    (field "RO" "ro,omitempty", .bool m.ro)]

def ofValue : Value WireType → Message
  | .struct [(_, .string t), (_, .string y), (_, .string q), (_, a), (_, r), (_, .named _ e),
      (_, .bool ro)] =>
      { t := t
        y := y
        q := q
        a := QueryArg.ofValue a
        r := ResponseResult.ofValue r
        e := Error.ofValue e
        ro := ro }
  | _ => { t := [], y := [] }

theorem ofValue_toValue (nils : Nils) (m : Message) : ofValue (m.toValue nils) = m := by
  simp [ofValue, toValue, QueryArg.ofValue_toValue, ResponseResult.ofValue_toValue]

def zero : Message := { t := [], y := [] }

end Message

/-- `bencode.EncodeBytes(msg)`. -/
def encodeMessage (lib : HashText) (nils : Nils) (m : Message) : Except Fault GoString :=
  encodeBytes (messageEnv lib) (m.toValue nils)

/-- `bencode.DecodeBytes(b, &msg)` for a zero message. -/
def decodeMessage (lib : HashText) (b : GoString) : Except Fault Message :=
  match decodeBytes (messageEnv lib) b (Message.zero.toValue {}) with
  | (v, none) => .ok (Message.ofValue v)
  | (_, some fault) => .error fault

end GoBt.Krpc
