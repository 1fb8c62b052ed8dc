/-
**Encoding** (`bencode/encode.go`).

* `encodeValue` — the source's function; where it fails, what was written before is dropped.
* `readStruct` — the entries of a struct, each with the encoding of its value.
* `encodeBytes` — the whole encoding.
-/

import GoBt.Bencode.Value

namespace GoBt.Bencode

variable {χ : Type}

/-- How `encodeValue` has come to a value. -/
structure Mode where
  /-- Methods are still looked for. -/
  checks : Bool := true
  /-- The value is what an interface holds. -/
  held : Bool := false
  /-- There was no pointer on the way, so that a `[]byte` is seen as one. -/
  direct : Bool := true
  deriving DecidableEq

/-- `%d:%s` of a string. -/
def encodeString (s : GoString) : GoString := numeral 10 s.length ++ 58 :: s

/-- `i%de` of an integer. -/
def encodeInt (n : Int) : GoString := 105 :: (formatInt n ++ [101])

/-- The call of a method of the type, if it has one. -/
def marshalOf (env : Env χ) (type : χ) (v : Value χ) : Option (Except Fault GoString) :=
  match (env.methods type).marshalBencode, (env.methods type).marshalText with
  | some call, _ => some (call v)
  | none, some call => some ((call v).map encodeString)
  | none, none => none

/-- The key of a field, if the encoder writes the field. -/
def fieldKey (env : Env χ) (f : Field) (v : Value χ) : Option GoString :=
  if f.exported = false ∨ v.isNilValue then none
  else if f.tag = "" then some (utf8 f.name)
  else if f.tag = "-" then none
  else
    let (name, options) := parseTag f.tag
    if optionsContain options "omitempty" ∧ v.isEmptyValue then none
    else some (utf8 (if isValidTag env name then name else f.name))

def sequence (parts : List (Except Fault GoString)) : Except Fault GoString :=
  parts.foldr (fun part rest => do
    let bytes ← part
    let more ← rest
    return bytes ++ more) (.ok [])

/-- `p[i].String()` of the key of a map: the string itself, or a text that is the same for all keys of
another type. -/
def keyString : Value χ → GoString
  | .string s => s
  | _ => []

mutual

/-- `encodeValue(w, val)`: what is written. -/
def encodeValue (env : Env χ) (mode : Mode) : Value χ → Except Fault GoString
  | .invalid => .error .panicked
  | .named type v =>
      match if mode.checks then marshalOf env type v else none with
      | some result => result
      | none => encodeValue env { mode with checks := false } v
  | .ptr elem none =>
      -- the methods of a nil pointer that an interface holds are called
      match elem with
      | .named type v =>
          if mode.checks ∧ mode.held ∧ (marshalOf env type v).isSome then .error .panicked
          else .ok []
      | _ => .ok []
  | .ptr _ (some v) =>
      match v with
      | .named type u =>
          encodeValue env { checks := mode.checks, direct := false } (.named type u)
      | v => encodeValue env { checks := mode.checks ∧ ¬ mode.held, direct := false } v
  | .iface none => .ok []
  | .iface (some v) => encodeValue env { mode with held := true } v
  | .raw b => .ok (b.getD [])
  | .int _ n => .ok (encodeInt n)
  | .uint _ n => .ok (encodeInt n)
  | .bool b => .ok (encodeInt (if b then 1 else 0))
  | .string s => .ok (encodeString s)
  | .bytes b =>
      if mode.direct then .ok (encodeString (b.getD []))
      else .ok (108 :: ((b.getD []).flatMap (fun byte => encodeInt byte.toNat) ++ [101]))
  | .slice _ none => .ok [108, 101]
  | .slice _ (some elems) => do
      let parts ← encodeElems env elems
      return 108 :: (parts ++ [101])
  | .array elems => do
      let parts ← encodeElems env elems
      return 108 :: (parts ++ [101])
  | .map _ _ none => .ok [100, 101]
  | .map _ _ (some entries) => do
      let parts ← sequence ((env.sorter.sortOn Prod.fst (mapEntries env entries)).map Prod.snd)
      return 100 :: (parts ++ [101])
  | .struct fields => do
      let dict := env.sorter.sortOn Prod.fst (readStruct env fields)
      let parts ← sequence (dict.map fun (key, value) => return encodeString key ++ (← value))
      return 100 :: (parts ++ [101])

def encodeElems (env : Env χ) : List (Value χ) → Except Fault GoString
  | [] => .ok []
  | v :: rest => do
      let bytes ← encodeValue env {} v
      let more ← encodeElems env rest
      return bytes ++ more

/-- The entries of a map, each with the text it is sorted by. -/
def mapEntries (env : Env χ) :
    List (Value χ × Value χ) → List (GoString × Except Fault GoString)
  | [] => []
  | (key, v) :: rest =>
      if v.isNilValue then mapEntries env rest
      else
        (keyString key, do
          let bytes ← encodeValue env {} key
          let more ← encodeValue env {} v
          return bytes ++ more) :: mapEntries env rest

/-- `readStruct(dict, v)`: the keys of the fields and the encodings of their values. -/
def readStruct (env : Env χ) : List (Field × Value χ) → List (GoString × Except Fault GoString)
  | [] => []
  | (f, v) :: rest =>
      let here := match fieldKey env f v with
        | none => []
        | some key =>
            if f.anonymous ∧ v.kind = .struct ∧ f.tag = "" then readEmbedded env v
            else [(key, encodeValue env {} v)]
      here ++ readStruct env rest

/-- `readStruct` for an embedded struct. -/
def readEmbedded (env : Env χ) : Value χ → List (GoString × Except Fault GoString)
  | .struct fields => readStruct env fields
  | .named _ v => readEmbedded env v
  | _ => []

end

/-! ### The values that hold no others -/

section Kinds

variable (env : Env χ) (mode : Mode)

theorem encodeValue_string (s : GoString) :
    encodeValue env mode (.string s) = .ok (encodeString s) := rfl

theorem encodeValue_int (bits : Nat) (n : Int) :
    encodeValue env mode (.int bits n) = .ok (encodeInt n) := rfl

theorem encodeValue_uint (bits n : Nat) :
    encodeValue env mode (.uint bits n) = .ok (encodeInt n) := rfl

theorem encodeValue_bool (b : Bool) :
    encodeValue env mode (.bool b) = .ok (encodeInt (if b then 1 else 0)) := rfl

theorem encodeValue_raw (token : GoString) : encodeValue env mode (.raw (some token)) = .ok token :=
  rfl

theorem encodeValue_named {env : Env χ} {type : χ} {v : Value χ} {result : Except Fault GoString}
    (marshal : marshalOf env type v = some result) :
    encodeValue env {} (.named type v) = result := by
  show (match if true then marshalOf env type v else none with
    | some result => result
    | none => encodeValue env { checks := false } v) = result
  rw [if_pos rfl, marshal]

end Kinds

/-- `reflect.ValueOf(val)`: an interface is seen as what it holds. -/
def valueOf : Value χ → Value χ
  | .iface none => .invalid
  | .iface (some v) => v
  | v => v

def encodeBytes (env : Env χ) (v : Value χ) : Except Fault GoString := encodeValue env {} (valueOf v)

theorem encodeBytes_bytes (env : Env χ) (b : Option GoString) :
    encodeBytes env (.bytes b) = .ok (encodeString (b.getD [])) := rfl

theorem encodeBytes_slice (env : Env χ) (elem : Value χ) (elems : Option (List (Value χ))) :
    encodeBytes env (.slice elem elems) = encodeValue env {} (.slice elem elems) := rfl

end GoBt.Bencode
