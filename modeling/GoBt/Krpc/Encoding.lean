/-
**Which KRPC messages are encoded, and which of them nobody decodes.**

* `ResponseResult.InFamilies` — the nodes of a result have addresses of the family of their list.
* **`Message.encodes`** — a message with such a result is encoded, however long its strings are.
* **`Message.decodeMessage_of_long`** — with a value of 2^31 bytes it is encoded and not decoded.
-/

import GoBt.Bencode.Refusal
import GoBt.Krpc.RoundTrip

namespace GoBt.Krpc

open GoBt.Lib GoBt.Metainfo GoBt.Bencode
open MetaInfo (field)

variable {lib : HashText} {nils : Nils}

theorem messageEnv_noText (lib : HashText) : NoText (messageEnv lib) := by
  intro type
  cases type <;> rfl

theorem encodes_hash (h : Hash) : Encodes (messageEnv lib) (hashValue h) :=
  (codes_hash lib h).encodes

theorem encodes_strings (ss : Option (List GoString)) :
    Encodes (messageEnv lib) (stringsValue ss) :=
  .slice fun s _ => .string s

theorem Error.encodes {e : Error} (some' : ¬ (e.code = 0 ∧ e.reason = [])) :
    Encodes (messageEnv lib) (.named .error e.toValue) := by
  refine ⟨_, encodeValue_named (marshalOf_error lib some'), ?_⟩
  have code := item_encodeInt e.code
  have flat : encodeInt e.code ++ encodeString e.reason ++ [101] =
      [encodeInt e.code, encodeString e.reason].flatten ++ [101] := by simp
  rw [flat]
  rcases item_or_refused_encodeString e.reason with reason | reason
  · exact .inl (.list (by simp [code, reason]))
  · exact .inr (.list (by simp [code, reason]) ⟨_, by simp, reason⟩)

theorem QueryArg.encodes (a : QueryArg) : Encodes (messageEnv lib) (a.toValue nils) := by
  have each : ∀ p ∈ a.parts nils, Encodes (messageEnv lib) p.value := by
    simp only [parts, List.forall_mem_cons]
    exact ⟨encodes_hash _, encodes_hash _, encodes_hash _, .uint _ _, .string _, .bool _,
      encodes_strings _, by simp⟩
  exact .struct (a.layout lib nils)
    fun p member => each p (FieldPart.mem_dict.mp member).1

namespace ResponseResult

/-- The nodes have addresses of the family of their list. -/
structure InFamilies (r : ResponseResult) : Prop where
  nodes : ∀ n ∈ r.nodes, n.HasForm Ip.to4
  nodes6 : ∀ n ∈ r.nodes6, n.HasForm Ip.to16

theorem parts_encode {r : ResponseResult} (families : r.InFamilies) :
    ∀ p ∈ r.parts nils, Encodes (messageEnv lib) p.value := by
  obtain ⟨data, written, _⟩ := compactIPv4Nodes r.nodes families.nodes
  obtain ⟨data6, written6, _⟩ := compactIPv6Nodes r.nodes6 families.nodes6
  simp only [parts, List.forall_mem_cons]
  exact ⟨encodes_hash _, .namedString (marshalOf_nodes4 lib _ (by rw [getD_asSlice, written])),
    .namedString (marshalOf_nodes6 lib _ (by rw [getD_asSlice, written6])), .string _,
    encodes_strings _, by simp⟩

theorem encodes {r : ResponseResult} (families : r.InFamilies) :
    Encodes (messageEnv lib) (r.toValue nils) :=
  .struct (r.layout lib nils)
    fun p member => parts_encode families p (FieldPart.mem_dict.mp member).1

variable {r : ResponseResult} {value : GoString}

theorem asSlice_of_mem {isNil : Bool} {as : List GoString} (member : value ∈ as) :
    asSlice isNil as = some as := by
  refine if_neg fun empty => ?_
  rw [List.isEmpty_iff.mp empty.2] at member
  cases member

theorem unreadable (families : r.InFamilies) (member : value ∈ r.values)
    (long : 2 ^ 31 ≤ value.length) : Unreadable (messageEnv lib) (r.toValue nils) := by
  have layout := r.layout lib nils
  have each : ∀ p ∈ r.parts nils, Encodes (messageEnv lib) p.value := parts_encode families
  refine Unreadable.struct layout
    (fun p inside => each p (FieldPart.mem_dict.mp inside).1) ?_
  have last : (⟨field "Values" "values,omitempty", stringsValue none,
      stringsValue (asSlice nils.values r.values), stringsValue (asSlice true r.values)⟩ :
      FieldPart WireType) ∈ r.parts nils := by simp [parts]
  refine ⟨_, FieldPart.mem_dict.mpr ⟨last, ?_⟩,
    .slice (fun s _ => .string s) ⟨value, ?_, .string long⟩⟩
  · have full :
        (stringsValue (asSlice nils.values r.values) : Value WireType).isEmptyValue = false := by
      rw [asSlice_of_mem member]
      cases values : r.values with
      | nil =>
        rw [values] at member
        cases member
      | cons s ss => rfl
    rw [fieldKey_tagged (layout.tagged _ last) rfl, if_neg (by simp [full])]
    rfl
  · rwa [getD_asSlice]

end ResponseResult

namespace Message

variable {m : Message}

theorem parts_encode (families : m.r.InFamilies) :
    ∀ p ∈ FieldPart.dict (messageEnv lib) (m.parts nils), Encodes (messageEnv lib) p.value := by
  have each : ∀ p ∈ m.parts nils, (fieldKey (messageEnv lib) p.field p.value).isSome →
      Encodes (messageEnv lib) p.value := by
    have tagged := (m.layout lib nils).tagged
    simp only [parts, List.forall_mem_cons] at tagged ⊢
    obtain ⟨_, _, _, _, _, tag, _⟩ := tagged
    refine ⟨fun _ => .string _, fun _ => .string _, fun _ => .string _, fun _ => m.a.encodes,
      fun _ => ResponseResult.encodes families, fun written => Error.encodes fun zero => ?_, fun _ => .bool _,
      by simp⟩
    -- the zero error is left out
    have empty : (Value.named WireType.error m.e.toValue).isEmptyValue = true := by
      obtain ⟨code, reason⟩ := zero
      simp [Error.toValue, Value.isEmptyValue, Value.isZero, Value.fieldsZero, code, reason]
    have option : optionsContain (parseTag (field "E" "e,omitempty").tag).2 "omitempty" = true := by
      decide +kernel
    rw [fieldKey_tagged tag rfl, if_pos ⟨option, empty⟩] at written
    cases written
  intro p member
  obtain ⟨inside, written⟩ := FieldPart.mem_dict.mp member
  exact each p inside written

/-- **A message is encoded** if its nodes have addresses of their families. -/
theorem encodes (lib : HashText) (nils : Nils) (families : m.r.InFamilies) :
    ∃ b, encodeMessage lib nils m = .ok b := by
  obtain ⟨b, encoded, _⟩ : Encodes (messageEnv lib) (m.toValue nils) :=
    .struct (m.layout lib nils) (parts_encode families)
  exact ⟨b, encoded⟩

/-- **A value of 2^31 bytes** is encoded, and the message is not decoded. -/
theorem decodeMessage_of_long (lib : HashText) (nils : Nils) (families : m.r.InFamilies)
    {value : GoString} (member : value ∈ m.r.values) (long : 2 ^ 31 ≤ value.length) :
    ∃ b, encodeMessage lib nils m = .ok b ∧ ∀ m', decodeMessage lib b ≠ .ok m' := by
  have layout := m.layout lib nils
  have unreadable : Unreadable (messageEnv lib) (m.toValue nils) := by
    refine Unreadable.struct layout (parts_encode families) ?_
    have inside : (⟨field "R" "r,omitempty", ({} : ResponseResult).toValue {}, m.r.toValue nils,
        m.r.inForm.toValue {}⟩ : FieldPart WireType) ∈ m.parts nils := by simp [parts]
    refine ⟨_, FieldPart.mem_dict.mpr ⟨inside, ?_⟩, ResponseResult.unreadable families member long⟩
    have full : (m.r.toValue nils).isEmptyValue = false := by
      rw [ResponseResult.toValue, ResponseResult.asSlice_of_mem member]
      simp [Value.isEmptyValue, Value.isZero, Value.fieldsZero, stringsValue]
    rw [fieldKey_tagged (layout.tagged _ inside) rfl, if_neg (by simp [full])]
    rfl
  obtain ⟨b, encoded, fails⟩ := unreadable.decodeBytes rfl (messageEnv_noText lib)
  refine ⟨b, encoded, fun m' decoded => ?_⟩
  have failed := fails (Message.zero.toValue {})
  unfold decodeMessage at decoded
  split at decoded
  · rename_i v result
    exact failed (by rw [result])
  · cases decoded

end Message

end GoBt.Krpc
