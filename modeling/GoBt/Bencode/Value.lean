/-
**Go values as reflection sees them** (`reflect.Value`, `bencode/tag.go`, `iszero_go1.13.go`).

A value carries its type: a nil slice, map or pointer knows the zero value of its elements, and a
struct the names and tags of its fields. A type with methods of its own is a `named` one; what the
methods do is given by an `Env`.

* `Value` — the values; `Value.isEmptyValue`, `Value.isZero` — when `omitempty` leaves one out.
* `parseTag`, `isValidTag` — the tags of struct fields.
* `Fault` — how decoding or encoding a value can fail.
-/

import GoBt.Go.Strconv
import GoBt.Lib.Sorter

namespace GoBt.Bencode

open GoBt.Lib

/-! ### Values -/

structure Field where
  name : String
  /-- `PkgPath == ""`. -/
  exported : Bool := true
  anonymous : Bool := false
  /-- `Tag != ""`. -/
  tagged : Bool := false
  /-- `Tag.Get("bencode")`. -/
  tag : String := ""
  deriving DecidableEq

/-- A value with its type. The names of the types with methods are those of `χ`. -/
inductive Value (χ : Type)
  /-- `reflect.Value{}`. -/
  | invalid
  | bool (b : Bool)
  | int (bits : Nat) (n : Int)
  | uint (bits : Nat) (n : Nat)
  | string (s : GoString)
  /-- `[]byte`. -/
  | bytes (b : Option GoString)
  /-- `RawMessage`. -/
  | raw (b : Option GoString)
  /-- A slice of another type, with the zero value of its elements; `none` is nil. -/
  | slice (elem : Value χ) (elems : Option (List (Value χ)))
  | array (elems : List (Value χ))
  /-- A map, with the zero values of its keys and elements; `none` is nil. -/
  | map (key elem : Value χ) (entries : Option (List (Value χ × Value χ)))
  /-- `interface{}`. -/
  | iface (held : Option (Value χ))
  /-- A pointer, with the zero value of what it points to; `none` is nil. -/
  | ptr (elem : Value χ) (target : Option (Value χ))
  | struct (fields : List (Field × Value χ))
  /-- A value of a type with methods. -/
  | named (type : χ) (v : Value χ)

/-- `reflect.Kind`, without the sizes of the integers. -/
inductive Kind
  | invalid | bool | int | uint | string | slice | array | map | interface | ptr | struct
  deriving DecidableEq

variable {χ : Type}

namespace Value

/-- The value with the methods of its type taken away. -/
def under : Value χ → Value χ
  | .named _ v => v.under
  | v => v

def kind : Value χ → Kind
  | .invalid => .invalid
  | .bool _ => .bool
  | .int _ _ => .int
  | .uint _ _ => .uint
  | .string _ => .string
  | .bytes _ | .raw _ | .slice _ _ => .slice
  | .array _ => .array
  | .map _ _ _ => .map
  | .iface _ => .interface
  | .ptr _ _ => .ptr
  | .struct _ => .struct
  | .named _ v => v.kind

mutual

def isZero : Value χ → Bool
  | .invalid => true
  | .bool b => !b
  | .int _ n => n == 0
  | .uint _ n => n == 0
  | .string s => s.isEmpty
  | .bytes b | .raw b => b.isNone
  | .slice _ elems => elems.isNone
  | .array elems => allZero elems
  | .map _ _ entries => entries.isNone
  | .iface held => held.isNone
  | .ptr _ target => target.isNone
  | .struct fields => fieldsZero fields
  | .named _ v => v.isZero

def allZero : List (Value χ) → Bool
  | [] => true
  | v :: rest => v.isZero && allZero rest

def fieldsZero : List (Field × Value χ) → Bool
  | [] => true
  | (_, v) :: rest => v.isZero && fieldsZero rest

end

def isEmptyValue : Value χ → Bool
  | .string s => s.isEmpty
  | .bytes b | .raw b => (b.getD []).isEmpty
  | .slice _ elems => (elems.getD []).isEmpty
  | .array elems => elems.isEmpty
  | .map _ _ entries => (entries.getD []).isEmpty
  | .bool b => !b
  | .int _ n => n == 0
  | .uint _ n => n == 0
  | .iface held => held.isNone
  | .ptr _ target => target.isNone
  | .named _ v => v.isEmptyValue
  | v => v.isZero

def isNilValue : Value χ → Bool
  | .iface held => held.isNone
  | .ptr _ target => target.isNone
  | .named _ v => v.isNilValue
  | _ => false

mutual

def sameKey : Value χ → Value χ → Bool
  | .string a, .string b => a == b
  | .uint _ a, .uint _ b => a == b
  | .array as, .array bs => sameKeys as bs
  | .named _ a, .named _ b => a.sameKey b
  | _, _ => false

def sameKeys : List (Value χ) → List (Value χ) → Bool
  | [], [] => true
  | a :: as, b :: bs => a.sameKey b && sameKeys as bs
  | _, _ => false

end

def fields (v : Value χ) : List (Field × Value χ) :=
  match v.under with
  | .struct fields => fields
  | _ => []

def withFields (fields : List (Field × Value χ)) : Value χ → Value χ
  | .named type v => .named type (v.withFields fields)
  | .struct _ => .struct fields
  | v => v

/-- The field at the end of a path of field numbers. -/
def fieldAt : List Nat → Value χ → Option (Value χ)
  | [], v => some v
  | i :: path, v => v.fields[i]?.bind fun field => fieldAt path field.2

/-- Set the field at the end of a path of field numbers. -/
def setFieldAt : List Nat → Value χ → Value χ → Value χ
  | [], _, x => x
  | i :: path, v, x =>
      v.withFields (v.fields.modify i fun field => (field.1, setFieldAt path field.2 x))

end Value

/-! ### Faults -/

inductive Err
  | eof
  | unexpectedEOF
  /-- `Invalid input`. -/
  | invalidInput
  | number (cause : NumError)
  /-- `invalid negative string length: l`. -/
  | negativeLength (l : Int)
  /-- `Cannot store .. into ..`. -/
  | cannotStore (what : String) (into : Kind)
  /-- `unordered dictionary: last appears before key`. -/
  | unordered (last key : GoString)
  /-- An error of a method. -/
  | text (text : GoString)
  deriving DecidableEq

/-- How a call fails. -/
inductive Fault
  | err (e : Err)
  | panicked
  /-- The model ran out of fuel. -/
  | outOfFuel
  deriving DecidableEq

/-- What the methods of a type do. The ones that decode change the value also if they fail. -/
structure Methods (χ : Type) where
  marshalBencode : Option (Value χ → Except Fault GoString) := none
  unmarshalBencode : Option (Value χ → GoString → Value χ × Option Fault) := none
  marshalText : Option (Value χ → Except Fault GoString) := none
  unmarshalText : Option (Value χ → GoString → Value χ × Option Fault) := none
  fromString : Option (Value χ → GoString → Value χ × Option Fault) := none

def keyLess (s t : GoString) : Bool := decide (s < t)

def insertionSorter : KeySorter keyLess :=
  .insertion _ ⟨fun a b => by simpa [keyLess] using List.le_total a.1 b.1⟩
    ⟨fun a b c first second => by
      simp only [keyLess, decide_eq_false_iff_not] at first second ⊢
      exact List.le_trans first second⟩

/-- What the package uses of the rest of the program: the methods of types, the letters and digits
outside of ASCII, and `sort.Sort`, of which it is not said that it is stable. -/
structure Env (χ : Type) where
  methods : χ → Methods χ
  isLetterOrDigit : Char → Bool := fun _ => false
  sorter : KeySorter keyLess := insertionSorter

/-! ### Tags -/

def utf8 (s : String) : GoString := s.toList.flatMap String.utf8EncodeChar

def parseTag (tag : String) : String × String :=
  match tag.toList.dropWhile (· != ',') with
  | [] => (tag, "")
  | _ :: options => (String.ofList (tag.toList.takeWhile (· != ',')), String.ofList options)

/-- `options.Contains(optionName)`. -/
def optionsContain (options optionName : String) : Bool :=
  (options.toList.splitOn ',').any (· == optionName.toList)

def isValidTag (env : Env χ) (key : String) : Bool :=
  key.toList != [] && key.toList.all fun c =>
    c == ' ' || c == '$' || c == '-' || c == '_' || c == '.' ||
      (if c.toNat < 128 then c.isAlphanum else env.isLetterOrDigit c)

end GoBt.Bencode
