/-
**The .torrent file** (`metainfo/metainfo.go`, `metainfo/addr_host.go`).

`net.SplitHostPort` is a parameter; it finds the host inside of its argument. Slices of the source
are options of lists here, where `none` is nil.

* `HostAddr`, `URLList` — the types with methods of their own, and what their methods do.
* `MetaInfo`, `load`, `write`, `infoHash` — the file itself.
-/

import GoBt.Bencode.Types
import GoBt.Metainfo.Hash

namespace GoBt.Metainfo

open GoBt.Bencode

/-! ### What an interface holds -/

/-- No type has methods: what `interface{}`, strings and slices of them are decoded with. -/
def noMethods : Env Empty := { methods := nofun }

/-- `%T` of the value that an interface holds. -/
def typeText {χ : Type} : Value χ → GoString
  | .int _ _ => str "int64"
  | .string _ => str "string"
  | .slice _ _ => str "[]interface \x7b\x7d"
  | .map _ _ _ => str "map[string]interface \x7b\x7d"
  | _ => []

/-- The error of a failed `x.(T)`. -/
def conversionError {χ : Type} (x : Value χ) (type : String) : Fault :=
  let held := match x with
    | .iface (some v) => typeText v
    | _ => str "nil"
  .err (.text (str "interface conversion: interface \x7b\x7d is " ++ held ++ str ", not " ++ str type))

/-- The error of `vs[i]` behind the end of `vs`. -/
def indexError (i length : Nat) : Fault :=
  .err (.text (str "runtime error: index out of range [" ++ numeral 10 i ++ str "] with length " ++
    numeral 10 length))

/-! ### Host addresses -/

/-- `net.SplitHostPort`: a host and a port, or the text of an error. -/
structure Net where
  splitHostPort : GoString → Except GoString (GoString × GoString)
  /-- The host is a part of the address. -/
  host_le : ∀ s host port, splitHostPort s = .ok (host, port) → host.length ≤ s.length

structure HostAddr where
  host : GoString := []
  port : UInt16 := 0
  deriving DecidableEq

namespace HostAddr

/-- `ParseHostAddr(s)`; an error comes with the zero address. -/
def parseHostAddr (net : Net) (s : GoString) : HostAddr × Option Fault :=
  match net.splitHostPort s with
  | .error text => ({}, some (.err (.text text)))
  | .ok (host, port) =>
      match parseUint port 16 with
      | .error cause => ({}, some (.err (.number cause)))
      | .ok port => ({ host := host, port := UInt16.ofNat port }, none)

def marshalBencode (a : HostAddr) : Except Fault GoString :=
  encodeBytes noMethods (.slice (.iface none)
    (some [.iface (some (.string a.host)), .iface (some (.uint 16 a.port.toNat))]))

/-- `a.decode(vs)`; a panic is recovered and becomes the error. -/
def decode (a : HostAddr) (vs : List (Value Empty)) : HostAddr × Option Fault :=
  match (vs[0]? : Option (Value Empty)) with
  | none => (a, some (indexError 0 vs.length))
  | some (.iface (some (.string host))) =>
      let a := { a with host := host }
      match (vs[1]? : Option (Value Empty)) with
      | none => (a, some (indexError 1 vs.length))
      | some (.iface (some (.int _ port))) =>
          ({ a with port := UInt16.ofNat (port % 2 ^ 16).toNat }, none)
      | some x => (a, some (conversionError x "int64"))
  | some x => (a, some (conversionError x "string"))

def unmarshalBencode (net : Net) (a : HostAddr) (b : GoString) : HostAddr × Option Fault :=
  match decodeBytes noMethods b (.iface none) with
  | (_, some fault) => (a, some fault)
  | (.iface (some (.string s)), none) => parseHostAddr net s
  | (.iface (some (.slice _ elems)), none) => a.decode (elems.getD [])
  | (.iface (some v), none) => (a, some (.err (.text (str "unsupported type: " ++ typeText v))))
  | (_, none) => (a, some (.err (.text (str "unsupported type: <nil>"))))

def toValue {χ : Type} (a : HostAddr) : Value χ :=
  .struct [({ name := "Host" }, .string a.host), ({ name := "Port" }, .uint 16 a.port.toNat)]

def ofValue {χ : Type} : Value χ → HostAddr
  | .struct [(_, .string host), (_, .uint _ port)] => { host := host, port := UInt16.ofNat port }
  | _ => {}

@[simp] theorem ofValue_toValue {χ : Type} (a : HostAddr) :
    ofValue (a.toValue : Value χ) = a := by
  simp [ofValue, toValue]

end HostAddr

/-! ### Lists of strings -/

def stringsValue {χ : Type} (ss : Option (List GoString)) : Value χ :=
  .slice (.string []) (ss.map fun ss => ss.map .string)

def textOf {χ : Type} : Value χ → GoString
  | .string s => s
  | _ => []

def stringsOf {χ : Type} : Value χ → Option (List GoString)
  | .slice _ elems => elems.map fun vs => vs.map textOf
  | _ => none

@[simp] theorem stringsOf_stringsValue {χ : Type} (ss : Option (List GoString)) :
    stringsOf (stringsValue ss : Value χ) = ss := by
  cases ss <;> simp [stringsOf, stringsValue, textOf, Function.comp_def]

abbrev URLList := Option (List GoString)

namespace URLList

def marshalBencode (us : URLList) : Except Fault GoString := encodeBytes noMethods (stringsValue us)

/-- `u.(string)`. -/
def asString {χ : Type} : Value χ → Option GoString
  | .iface (some (.string s)) => some s
  | _ => none

def unmarshalBencode (us : URLList) (b : GoString) : URLList × Option Fault :=
  match decodeBytes noMethods b (.iface none) with
  | (_, some fault) => (us, some fault)
  | (.iface (some (.string s)), none) => (some [s], none)
  | (.iface (some (.slice _ elems)), none) =>
      match (elems.getD []).mapM asString with
      | none => (us, some (.err (.text (str "the element of 'url-list' is not string"))))
      | some urls => (some urls, none)
  | (_, none) => (us, some (.err (.text (str "invalid 'url-lsit'"))))

end URLList

/-! ### The file -/

/-- The types of a file that have methods. -/
inductive Named
  | hostAddr
  | urlList
  deriving DecidableEq

def fileEnv (net : Net) : Env Named where
  methods
    | .hostAddr =>
        { marshalBencode := some fun v => (HostAddr.ofValue v).marshalBencode
          unmarshalBencode := some fun v b =>
            let (a, fault) := (HostAddr.ofValue v).unmarshalBencode net b
            (a.toValue, fault) }
    | .urlList =>
        { marshalBencode := some fun v => URLList.marshalBencode (stringsOf v)
          unmarshalBencode := some fun v b =>
            let (us, fault) := URLList.unmarshalBencode (stringsOf v) b
            (stringsValue us, fault) }

structure MetaInfo where
  infoBytes : Option GoString := none
  announce : GoString := []
  announceList : Option (List (Option (List GoString))) := none
  nodes : Option (List HostAddr) := none
  urlList : URLList := none
  creationDate : Int := 0
  comment : GoString := []
  createdBy : GoString := []
  encoding : GoString := []
  deriving DecidableEq

namespace MetaInfo

def field (name tag : String) : Field := { name := name, tagged := true, tag := tag }

def nodeValue (a : HostAddr) : Value Named := .named .hostAddr a.toValue

def toValue (mi : MetaInfo) : Value Named :=
  .struct [
    (field "InfoBytes" "info", .raw mi.infoBytes),
    (field "Announce" "announce,omitempty", .string mi.announce),
    (field "AnnounceList" "announce-list,omitempty",
      .slice (stringsValue none) (mi.announceList.map fun tiers => tiers.map stringsValue)),
    (field "Nodes" "nodes,omitempty",
      .slice (nodeValue {}) (mi.nodes.map fun nodes => nodes.map nodeValue)),
    (field "URLList" "url-list,omitempty", .named .urlList (stringsValue mi.urlList)),
    (field "CreationDate" "creation date,omitempty", .int 64 mi.creationDate),
    (field "Comment" "comment,omitempty", .string mi.comment),
    (field "CreatedBy" "created by,omitempty", .string mi.createdBy),
    (field "Encoding" "encoding,omitempty", .string mi.encoding)]

def nodeOf : Value Named → HostAddr
  | .named _ v => HostAddr.ofValue v
  | _ => {}

def ofValue : Value Named → MetaInfo
  | .struct [(_, .raw infoBytes), (_, .string announce), (_, .slice _ tiers), (_, .slice _ nodes),
      (_, .named _ urls), (_, .int _ creationDate), (_, .string comment), (_, .string createdBy),
      (_, .string encoding)] =>
      { infoBytes := infoBytes
        announce := announce
        announceList := tiers.map fun tiers => tiers.map stringsOf
        nodes := nodes.map fun nodes => nodes.map nodeOf
        urlList := stringsOf urls
        creationDate := creationDate
        comment := comment
        createdBy := createdBy
        encoding := encoding }
  | _ => {}

theorem ofValue_toValue (mi : MetaInfo) : ofValue mi.toValue = mi := by
  have nodes : mi.nodes.map (fun nodes => nodes.map fun a => nodeOf (nodeValue a)) = mi.nodes := by
    simp [nodeOf, nodeValue]
  simp only [ofValue, toValue, Option.map_map, Function.comp_def, List.map_map, nodes,
    stringsOf_stringsValue, List.map_id_fun', id_eq, Option.map_id_fun']

/-- `Load(r)` of a reader with these bytes. -/
def load (net : Net) (b : GoString) : Except Fault MetaInfo :=
  match decodeBytes (fileEnv net) b ({} : MetaInfo).toValue with
  | (v, none) => .ok (ofValue v)
  | (_, some fault) => .error fault

/-- `mi.Write(w)`: what is written. -/
def write (net : Net) (mi : MetaInfo) : Except Fault GoString := encodeBytes (fileEnv net) mi.toValue

def infoHash (sha1 : List UInt8 → Hash) (mi : MetaInfo) : Hash := sha1 (mi.infoBytes.getD [])

end MetaInfo

end GoBt.Metainfo
