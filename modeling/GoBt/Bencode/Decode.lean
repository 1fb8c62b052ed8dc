/-
**Decoding** (`bencode/decode.go`).

The decoder reads bytes and fills the value it is given, which keeps what was decoded into it before
an error. In raw mode it only copies what it reads. Functions that decode the parts of a value take
`decodeInto` as an argument; `decodeInto` itself has a fuel, which bounds how deeply values are
nested.

* `Decoder` — the decoder and its reading primitives.
* `indirect` — walks through pointers and interfaces, up to a value or a method.
* `decodeInt`, `decodeString`, `decodeList`, `decodeDict`, `decodeInto` — the source's methods.
* `decode`, `decodeBytes` — with as much fuel as the input can need.
-/

import GoBt.Bencode.Value

namespace GoBt.Bencode

variable {χ : Type}

/-! ### Reading -/

/-- `Decoder`; `r` holds what is left to be read. -/
structure Decoder where
  r : List UInt8
  raw : Bool := false
  buf : List UInt8 := []
  n : Nat := 0
  failUnordered : Bool := false
  deriving DecidableEq

namespace Decoder

/-- The decoder behind bytes that were read. -/
def took (d : Decoder) (bytes rest : List UInt8) : Decoder :=
  { d with
    r := rest
    buf := if d.raw then d.buf ++ bytes else d.buf
    n := d.n + bytes.length }

def readBytes (d : Decoder) (delim : UInt8) : Decoder × List UInt8 × Option Err :=
  let line := d.r.takeWhile (· != delim)
  match d.r.dropWhile (· != delim) with
  | [] => (d.took line [], line, some .eof)
  | _ :: rest => (d.took (line ++ [delim]) rest, line ++ [delim], none)

def readByte (d : Decoder) : Decoder × UInt8 × Option Err :=
  match d.r with
  | [] => (d.took [0] [], 0, some .eof)
  | b :: rest => (d.took [b] rest, b, none)

/-- `d.readFull(p)` for a buffer of `size` bytes. -/
def readFull (d : Decoder) (size : Nat) : Decoder × List UInt8 × Option Err :=
  let p := d.r.take size
  let err := if p.length = size then none else if p = [] then some .eof else some .unexpectedEOF
  (d.took p (d.r.drop size), p, err)

/-- `d.peekByte()`; `none` is an error, `io.EOF`. -/
def peekByte (d : Decoder) : Option UInt8 := d.r.head?

/-- What `decodeString` reads: the bytes behind a length and a colon. -/
def readString (d : Decoder) : Decoder × GoString × Option Fault :=
  match d.readBytes 58 with
  | (d, _, some err) => (d, [], some (.err err))
  | (d, line, none) =>
      match parseInt line.dropLast 32 with
      | .error cause => (d, [], some (.err (.number cause)))
      | .ok l =>
          if l < 0 then (d, [], some (.err (.negativeLength l)))
          else
            match d.readFull l.toNat with
            | (d, buf, some err) => (d, buf, some (.err err))
            | (d, buf, none) => (d, buf, none)

end Decoder

/-- What decoding leaves: the decoder, the value, and the fault if there was one. -/
abbrev Decoded (χ : Type) := Decoder × Value χ × Option Fault

/-- A function that decodes into a value; the value is addressable or not. -/
abbrev Into (χ : Type) := Decoder → Bool → Value χ → Decoded χ

/-! ### Pointers and interfaces -/

/-- Where `d.indirect` stops. -/
inductive Target (χ : Type)
  | unmarshaler (call : GoString → Value χ × Option Fault)
  | textUnmarshaler (call : GoString → Value χ × Option Fault)
  | value (addr : Bool) (v : Value χ)
  /-- A pointer would have to be set where it cannot. -/
  | unsettable

/-- `indirect(v, true)`: nil pointers are set to new values. The function puts a new value where the
old one was found. -/
def indirectAlloc : Bool → Value χ → Target χ × (Value χ → Value χ)
  | addr, .named type v =>
      let (target, put) := indirectAlloc addr v
      (target, fun x => .named type (put x))
  | _, .iface (some held) =>
      let (target, put) := indirectAlloc false held
      (target, fun x => .iface (some (put x)))
  | _, .ptr elem (some v) =>
      let (target, put) := indirectAlloc true v
      (target, fun x => .ptr elem (some (put x)))
  | addr, .ptr elem none =>
      if addr then
        let (target, put) := indirectAlloc true elem
        (target, fun x => .ptr elem (some (put x)))
      else (.unsettable, id)
  | addr, v => (.value addr v, id)

/-- `d.indirect(v)`: the first method on the way, or the value at its end. -/
def indirect (env : Env χ) : Bool → Value χ → Target χ × (Value χ → Value χ)
  | addr, .named type v =>
      -- The methods are those of the pointer to the value.
      match addr, (env.methods type).unmarshalBencode, (env.methods type).unmarshalText with
      | true, some call, _ => (.unmarshaler (call v), .named type)
      | true, none, some call => (.textUnmarshaler (call v), .named type)
      | _, _, _ => indirectAlloc addr (.named type v)
  | _, .iface (some (.ptr elem (some v))) =>
      let (target, put) := indirect env true v
      (target, fun x => .iface (some (.ptr elem (some (put x)))))
  | _, .ptr elem (some v) =>
      let (target, put) := indirect env true v
      (target, fun x => .ptr elem (some (put x)))
  | addr, v => indirectAlloc addr v

/-! ### Integers and strings -/

/-- The end of `decodeInt`: the switch over the kind of the value. -/
def storeInt (digits : GoString) (addr : Bool) (v : Value χ) : Value χ × Option Fault :=
  let store : Value χ → Value χ × Option Fault := fun x =>
    if addr then (x, none) else (v, some .panicked)
  match v with
  | .iface _ =>
      match parseInt digits 64 with
      | .error cause => (v, some (.err (.number cause)))
      | .ok n => store (.iface (some (.int 64 n)))
  | .int bits _ =>
      match parseInt digits 64 with
      | .error cause => (v, some (.err (.number cause)))
      | .ok n => store (.int bits (n.bmod (2 ^ bits)))
  | .uint bits _ =>
      match parseUint digits 64 with
      | .error cause => (v, some (.err (.number cause)))
      | .ok n => store (.uint bits (n % 2 ^ bits))
  | .bool _ =>
      match parseUint digits 64 with
      | .error cause => (v, some (.err (.number cause)))
      | .ok n => store (.bool (n != 0))
  | v => (v, some (.err (.cannotStore "int64" v.kind)))

def decodeInt : Into χ := fun d addr v =>
  match d.readByte with
  | (d, _, some err) => (d, v, some (.err err))
  | (d, ch, none) =>
      if ch ≠ 105 then (d, v, some .panicked)
      else
        match d.readBytes 101 with
        | (d, _, some err) => (d, v, some (.err err))
        | (d, line, none) => if d.raw then (d, v, none) else (d, storeInt line.dropLast addr v)

/-- The end of `decodeString`: the switch over the kind of the value. -/
def storeString (buf : GoString) (addr : Bool) (v : Value χ) : Value χ × Option Fault :=
  let store : Value χ → Value χ × Option Fault := fun x =>
    if addr then (x, none) else (v, some .panicked)
  match v with
  | .bytes _ => store (.bytes (some buf))
  | .string _ => store (.string buf)
  | .iface _ => store (.iface (some (.string buf)))
  | v => (v, some (.err (.cannotStore "string" v.kind)))

def decodeString : Into χ := fun d addr v =>
  match d.readString with
  | (d, _, some fault) => (d, v, some fault)
  | (d, buf, none) => if d.raw then (d, v, none) else (d, storeString buf addr v)

/-! ### Lists -/

namespace Value

/-- `v.Len()` of a slice or an array. -/
def len : Value χ → Nat
  | .slice _ elems => (elems.getD []).length
  | .bytes b | .raw b => (b.getD []).length
  | .array elems => elems.length
  | _ => 0

/-- One more element, a zero value; `none` is a panic. -/
def grow (addr : Bool) : Value χ → Option (Value χ)
  | .slice elem elems => if addr then some (.slice elem (some (elems.getD [] ++ [elem]))) else none
  | .bytes b => if addr then some (.bytes (some (b.getD [] ++ [0]))) else none
  | .raw b => if addr then some (.raw (some (b.getD [] ++ [0]))) else none
  | _ => none

def index (i : Nat) : Value χ → Option (Value χ)
  | .slice _ elems => (elems.getD [])[i]?
  | .bytes b | .raw b => (b.getD [])[i]?.map fun byte => .uint 8 byte.toNat
  | .array elems => elems[i]?
  | _ => none

/-- The byte that an element of type `uint8` is. -/
def toByte : Value χ → UInt8
  | .uint _ n => UInt8.ofNat n
  | _ => 0

/-- Set `v.Index(i)`. -/
def setIndex (v : Value χ) (i : Nat) (x : Value χ) : Value χ :=
  match v with
  | .slice elem elems => .slice elem (elems.map fun elems => elems.set i x)
  | .bytes b => .bytes (b.map fun bytes => bytes.set i x.toByte)
  | .raw b => .raw (b.map fun bytes => bytes.set i x.toByte)
  | .array elems => .array (elems.set i x)
  | v => v

/-- The elements of a slice are addressable, those of an array if it is. -/
def elemAddr (addr : Bool) : Value χ → Bool
  | .array _ => addr
  | _ => true

end Value

/-- The loop of `decodeList` in raw mode. -/
def rawListLoop (into : Into χ) : Nat → Decoder → Decoder × Option Fault
  | 0, d => (d, some .outOfFuel)
  | fuel + 1, d =>
      match d.peekByte with
      | none => (d, some (.err .eof))
      | some ch =>
          if ch = 101 then
            let (d, _, err) := d.readByte
            (d, err.map .err)
          else
            match into d false .invalid with
            | (d, _, some fault) => (d, some fault)
            | (d, _, none) => rawListLoop into fuel d

/-- The loop of `decodeList`. -/
def listLoop (into : Into χ) (addr : Bool) : Nat → Decoder → Value χ → Nat → Decoded χ
  | 0, d, v, _ => (d, v, some .outOfFuel)
  | fuel + 1, d, v, i =>
      match d.peekByte with
      | none => (d, v, some (.err .eof))
      | some ch =>
          if ch = 101 then
            let (d, _, err) := d.readByte
            (d, v, err.map .err)
          else
            match if v.len ≤ i then v.grow addr else some v with
            | none => (d, v, some .panicked)
            | some v =>
                match v.index i with
                | none => (d, v, some .panicked)
                | some x =>
                    match into d (v.elemAddr addr) x with
                    | (d, x, some fault) => (d, v.setIndex i x, some fault)
                    | (d, x, none) => listLoop into addr fuel d (v.setIndex i x) (i + 1)

/-- `d.decodeList(v)` for a value that is no interface. Every turn of the loops takes a byte. -/
def decodeListInto (into : Into χ) : Into χ := fun d addr v =>
  if d.raw = false ∧ v.kind ≠ .array ∧ v.kind ≠ .slice then
    (d, v, some (.err (.cannotStore "[]interface{}" v.kind)))
  else
    match d.readByte with
    | (d, _, some err) => (d, v, some (.err err))
    | (d, ch, none) =>
        if ch ≠ 108 then (d, v, some .panicked)
        else if d.raw then
          let (d, fault) := rawListLoop into (d.r.length + 1) d
          (d, v, fault)
        else listLoop into addr (d.r.length + 1) d v 0

/-- `d.decodeList(v)`: an interface gets a new `[]interface{}`. -/
def decodeList (into : Into χ) : Into χ := fun d addr v =>
  match d.raw, v with
  | false, .iface _ =>
      let (d, x, fault) := decodeListInto into d true (.slice (.iface none) none)
      (d, .iface (some x), fault)
  | _, v => decodeListInto into d addr v

/-! ### Dictionaries -/

/-- The names of the fields themselves, from the `i`-th on. -/
def ownValues (env : Env χ) : Nat → List (Field × Value χ) → List (GoString × List Nat)
  | _, [] => []
  | i, (f, _) :: rest =>
      let (tagName, _) := parseTag f.tag
      let name := if tagName = "" then f.name else tagName
      let here :=
        if f.exported = false ∨ tagName = "" ∧ f.anonymous then []
        else if isValidTag env name then [(utf8 name, [i])] else []
      here ++ ownValues env (i + 1) rest

mutual

/-- `setStructValues(m, v)`: the keys of a struct, each with the path of its field. The field of a
key is that of its last entry. -/
def setStructValues (env : Env χ) : Value χ → List (GoString × List Nat)
  | .struct fields => embeddedValues env 0 fields ++ ownValues env 0 fields
  | .named _ v => setStructValues env v
  | _ => []

/-- The names of the fields of embedded structs. -/
def embeddedValues (env : Env χ) : Nat → List (Field × Value χ) → List (GoString × List Nat)
  | _, [] => []
  | i, (f, v) :: rest =>
      let here :=
        if f.exported ∧ f.anonymous ∧ f.tagged = false then
          (setStructValues env v).map fun (key, path) => (key, i :: path)
        else []
      here ++ embeddedValues env (i + 1) rest

end

def lookupLast (vals : List (GoString × List Nat)) (key : GoString) : Option (List Nat) :=
  (vals.reverse.find? fun entry => entry.1 == key).map Prod.snd

/-- `v.SetMapIndex(key, elem)` on the entries of a map. -/
def setMapIndex (entries : List (Value χ × Value χ)) (key elem : Value χ) :
    List (Value χ × Value χ) :=
  if entries.any fun entry => entry.1.sameKey key then
    entries.map fun entry => if entry.1.sameKey key then (entry.1, elem) else entry
  else entries ++ [(key, elem)]

/-- The key of a map, from a string. -/
def mapKey (env : Env χ) (key : Value χ) (s : GoString) : Value χ × Option Fault :=
  match key with
  | .named type v =>
      match (env.methods type).fromString with
      | some call =>
          let (v, fault) := call v s
          (.named type v, fault)
      | none => (key, some .panicked)
  | _ => (.string s, none)

/-- The part of the loop of `decodeDict` behind the key: decode the value that belongs to it. -/
def dictEntry (env : Env χ) (into : Into χ) (d : Decoder) (addr : Bool) (v : Value χ)
    (key : GoString) : Decoded χ :=
  match v with
  | .map keyType elem entries =>
      match mapKey env keyType key with
      | (_, some fault) => (d, v, some fault)
      | (mkey, none) =>
          match into d true elem with
          | (d, _, some fault) => (d, v, some fault)
          | (d, x, none) =>
              (d, .map keyType elem (some (setMapIndex (entries.getD []) mkey x)), none)
  | v =>
      match lookupLast (setStructValues env v) key with
      | none =>
          -- an unknown key: the value is decoded and dropped
          let (d, _, fault) := into d true (.iface none)
          (d, v, fault)
      | some path =>
          match v.fieldAt path with
          | none => (d, v, some .panicked)
          | some x =>
              let (d, x, fault) := into d addr x
              (d, v.setFieldAt path x, fault)

/-- The loop of `decodeDict` in raw mode. -/
def rawDictLoop (into : Into χ) : Nat → Decoder → Decoder × Option Fault
  | 0, d => (d, some .outOfFuel)
  | fuel + 1, d =>
      match d.peekByte with
      | none => (d, some (.err .eof))
      | some ch =>
          if ch = 101 then
            let (d, _, err) := d.readByte
            (d, err.map .err)
          else
            match d.readString with
            | (d, _, some fault) => (d, some fault)
            | (d, _, none) =>
                match into d false .invalid with
                | (d, _, some fault) => (d, some fault)
                | (d, _, none) => rawDictLoop into fuel d

/-- The loop of `decodeDict`; `lastKey` is the key before, if there was one. -/
def dictLoop (env : Env χ) (into : Into χ) (addr : Bool) :
    Nat → Decoder → Value χ → Option GoString → Decoded χ
  | 0, d, v, _ => (d, v, some .outOfFuel)
  | fuel + 1, d, v, lastKey =>
      match d.peekByte with
      | none => (d, v, some (.err .eof))
      | some ch =>
          if ch = 101 then
            let (d, _, err) := d.readByte
            (d, v, err.map .err)
          else
            match d.readString with
            | (d, _, some fault) => (d, v, some fault)
            | (d, key, none) =>
                if d.failUnordered ∧ key < lastKey.getD [] then
                  (d, v, some (.err (.unordered (lastKey.getD []) key)))
                else
                  match dictEntry env into d addr v key with
                  | (d, v, some fault) => (d, v, some fault)
                  | (d, v, none) => dictLoop env into addr fuel d v (some key)

/-- The value that `decodeDict` fills: a struct, or a map that is not nil. -/
def dictTarget (env : Env χ) (addr : Bool) (v : Value χ) : Except Fault (Value χ) :=
  match v with
  | .map keyType elem entries =>
      let hasKeys := match keyType with
        | .string _ => true
        | .named type _ => (env.methods type).fromString.isSome
        | _ => false
      if hasKeys = false then .error (.err (.cannotStore "map[string]interface{}" .map))
      else
        match entries with
        | some entries => .ok (.map keyType elem (some entries))
        | none => if addr then .ok (.map keyType elem (some [])) else .error .panicked
  | .struct fields => .ok (.struct fields)
  | v => .error (.err (.cannotStore "map[string]interface{}" v.kind))

/-- `d.decodeDict(v)` for a value that is no interface. Every turn of the loops takes a byte. -/
def decodeDictInto (env : Env χ) (into : Into χ) : Into χ := fun d addr v =>
  match d.readByte with
  | (d, _, some err) => (d, v, some (.err err))
  | (d, ch, none) =>
      if ch ≠ 100 then (d, v, some .panicked)
      else if d.raw then
        let (d, fault) := rawDictLoop into (d.r.length + 1) d
        (d, v, fault)
      else
        match dictTarget env addr v with
        | .error fault => (d, v, some fault)
        | .ok v => dictLoop env into addr (d.r.length + 1) d v none

/-- `d.decodeDict(v)`: an interface gets a new `map[string]interface{}`. -/
def decodeDict (env : Env χ) (into : Into χ) : Into χ := fun d addr v =>
  match d.raw, v with
  | false, .iface _ =>
      let (d, x, fault) := decodeDictInto env into d true (.map (.string []) (.iface none) none)
      (d, .iface (some x), fault)
  | _, v => decodeDictInto env into d addr v

/-! ### Values -/

/-- The end of `decodeInto`: the switch over the next byte. -/
def decodeNext (env : Env χ) (into : Into χ) : Into χ := fun d addr v =>
  match d.peekByte with
  | none => (d, v, some (.err .eof))
  | some next =>
      if next = 105 then decodeInt d addr v
      else if IsDigit next then decodeString d addr v
      else if next = 108 then decodeList into d addr v
      else if next = 100 then decodeDict env into d addr v
      else (d, v, some (.err .invalidInput))

def Value.rawBytes : Value χ → GoString
  | .raw b => b.getD []
  | _ => []

def decodeInto (env : Env χ) : Nat → Into χ
  | 0, d, _, v => (d, v, some .outOfFuel)
  | fuel + 1, d, addr, v =>
      if d.raw then decodeNext env (decodeInto env fuel) d addr v
      else
        match indirect env addr v with
        | (.unmarshaler call, put) =>
            match decodeInto env fuel d true (.raw none) with
            | (d, _, some fault) => (d, v, some fault)
            | (d, x, none) =>
                let (u, fault) := call x.rawBytes
                (d, put u, fault)
        | (.textUnmarshaler call, put) =>
            match d.readString with
            | (d, _, some fault) => (d, v, some fault)
            | (d, b, none) =>
                let (u, fault) := call b
                (d, put u, fault)
        | (.value addr (.raw _), put) =>
            let (d, _, fault) :=
              decodeNext env (decodeInto env fuel) { d with buf := [], raw := true } addr .invalid
            -- the deferred call, also after an error
            let d := { d with raw := false }
            if addr then (d, put (.raw (some d.buf)), fault) else (d, v, some .panicked)
        | (.value addr u, put) =>
            let (d, u, fault) := decodeNext env (decodeInto env fuel) d addr u
            (d, put u, fault)
        | (.unsettable, _) => (d, v, some .panicked)

/-- `d.Decode(val)` for a pointer to `v`. -/
def decode (env : Env χ) (d : Decoder) (v : Value χ) : Decoded χ :=
  decodeInto env (d.r.length + 2) d true v

/-- `DecodeBytes(b, val)` for a pointer to `v`. -/
def decodeBytes (env : Env χ) (b : GoString) (v : Value χ) : Value χ × Option Fault :=
  (decode env { r := b } v).2

end GoBt.Bencode
