/-
**A KRPC message that is encoded and decoded again.**

* `QueryArg.Wire`, `ResponseResult.Wire`, `Error.Wire`, `Message.Wire` — what can be sent: strings of
  less than 2^31 bytes, IPs of the family that the list is for, codes of 64 bits.
* `Message.codes` — **such a message is decoded from its encoding**, its IPs in the form of the family.
* `Message.Built` — the messages of `NewQueryMsg`, `NewResponseMsg` and `NewErrorMsg`;
  `message_round_trip` — **they are the same after encoding and decoding.**
-/

import GoBt.Krpc.Codec

namespace GoBt.Krpc

open GoBt.Lib GoBt.Metainfo GoBt.Bencode
open MetaInfo (field)

variable {lib : HashText} {nils : Nils}

/-! ### Slices -/

theorem orNil_asSlice {α : Type} (isNil : Bool) (as : List α) :
    orNil (asSlice isNil as) = asSlice true as := by
  rw [orNil, getD_asSlice, asSlice]
  cases as <;> simp

theorem asSlice_eq_none {α : Type} {isNil : Bool} {as : List α}
    (nil : (asSlice isNil as).isNone = true) : as = [] := by
  unfold asSlice at nil
  split at nil
  · rename_i empty
    exact List.isEmpty_iff.mp empty.2
  · cases nil

/-! ### Hashes -/

theorem codes_hash (lib : HashText) (h : Hash) :
    Codes (messageEnv lib) (hashValue zeroHash) (hashValue h) (hashValue h) := by
  obtain ⟨encoded, item, decoded⟩ := Hash.unmarshalBencode_marshalBencode lib h zeroHash
  have marshal : marshalOf (messageEnv lib) .hash h.toValue = some (.ok (encodeString h.bytes)) := by
    rw [← encoded]
    exact congrArg (fun h : Hash => some h.marshalBencode) (Hash.ofValue_toValue h)
  refine .named marshal item rfl ?_
  rw [Hash.ofValue_toValue, decoded]

theorem fine_hash {f : Field} (tagged : f.Tagged (messageEnv lib)) (h : Hash) :
    FieldPart.Fine (messageEnv lib) ⟨f, hashValue zeroHash, hashValue h, hashValue h⟩ := by
  refine .named tagged rfl ?_ (codes_hash lib h)
  have some' : h.bytes ≠ [] := by
    intro empty
    have size := h.size
    rw [empty] at size
    cases size
  show (h.bytes.map _).isEmpty = false
  simpa using some'

theorem settled_hash {h : Hash} (zero : (hashValue h).isZero = true) :
    hashValue h = hashValue zeroHash := by
  rw [Hash.eq_zero_of_isZero zero]

/-! ### Nodes -/

theorem unmarshalNodes_encodeString {unmarshalBinary : List UInt8 → Except Fault (List Node)}
    {data : List UInt8} {nodes : List Node} (short : data.length < 2 ^ 31)
    (reads : unmarshalBinary data = .ok nodes) (cns : Option (List Node)) :
    unmarshalNodes unmarshalBinary cns (encodeString data) = (some nodes, none) := by
  rw [unmarshalNodes, decodeData_encodeString short, ok_bind, reads]

def Node.HasForm (form : Ip → Option Ip) (n : Node) : Prop := (form n.addr.ip).isSome = true

section Form

variable {form : Ip → Option Ip} {size : Nat} {cns : List Node}

theorem Node.length_inForm (fits : ∀ ip x, form ip = some x → x.length = size) {n : Node}
    (family : n.HasForm form) : (n.inForm form).addr.ip.length = size := by
  obtain ⟨x, found⟩ := Option.isSome_iff_exists.mp family
  simp only [inForm_eq, found, Option.getD_some]
  exact fits _ _ found

/-- **A list of nodes of one family is written and read back**, in the form of the family. -/
theorem compact_nodes (fits : ∀ ip x, form ip = some x → x.length = size)
    (sizes : size = 4 ∨ size = 16) (family : ∀ n ∈ cns, n.HasForm form) (skip : Node → Bool)
    (keeps : ∀ n : Node, n.addr.ip.length = size → skip n = false) (text : String) :
    marshalCompact (size + 22) skip Node.writeBinary (cns.map (.inForm form)) =
        .ok ((cns.map (.inForm form)).flatMap Node.writeBinary) ∧
      ((cns.map (.inForm form)).flatMap Node.writeBinary).length = cns.length * (size + 22) ∧
      unmarshalCompact (size + 22) text Node.unmarshalBinary
        ((cns.map (.inForm form)).flatMap Node.writeBinary) = .ok (cns.map (.inForm form)) := by
  have length : ∀ n ∈ cns.map (Node.inForm form), n.addr.ip.length = size := by
    intro n member
    obtain ⟨n, inside, rfl⟩ := List.mem_map.mp member
    exact Node.length_inForm fits (family n inside)
  have record := Node.isRecord sizes
  have written : ∀ n ∈ cns.map (Node.inForm form), n.writeBinary.length = size + 22 :=
    fun n member => record.length_write n (length n member)
  refine ⟨marshalCompact_of_size (fun n member => keeps n (length n member)) written, ?_,
    record.unmarshal length text⟩
  rw [length_flatMap_of_size written, List.length_map]

theorem Node.equal_inForm (same : ∀ ip x, form ip = some x → ip.equal x = true) {n : Node}
    (family : n.HasForm form) : n.equal (n.inForm form) = true := by
  obtain ⟨x, found⟩ := Option.isSome_iff_exists.mp family
  simp [equal, inForm_eq, Addr.equal, found, same _ _ found]

end Form

theorem compactIPv4Nodes (cns : List Node) (family : ∀ n ∈ cns, n.HasForm Ip.to4) :
    ∃ data, CompactIPv4Nodes.marshalBinary cns = .ok data ∧ data.length = cns.length * 26 ∧
      CompactIPv4Nodes.unmarshalBinary data = .ok (cns.map (.inForm Ip.to4)) := by
  have keeps : ∀ n : Node, n.addr.ip.length = 4 → n.addr.ip.isEmpty = false := by
    intro n size
    rw [List.isEmpty_eq_false_iff, ← List.length_pos_iff, size]
    decide
  exact ⟨_, compact_nodes (fun _ _ => Ip.length_to4) (.inl rfl) family
    (fun n => n.addr.ip.isEmpty) keeps "CompactIPv4Nodes: invalid node info length '"⟩

theorem compactIPv6Nodes (cns : List Node) (family : ∀ n ∈ cns, n.HasForm Ip.to16) :
    ∃ data, CompactIPv6Nodes.marshalBinary cns = .ok data ∧ data.length = cns.length * 38 ∧
      CompactIPv6Nodes.unmarshalBinary data = .ok (cns.map (.inForm Ip.to16)) :=
  ⟨_, compact_nodes (fun _ _ => Ip.length_to16) (.inr rfl) family (fun _ => false)
    (fun _ _ => rfl) "CompactIPv6Nodes: invalid node info length '"⟩

theorem marshalOf_nodes4 (lib : HashText) (cns : Option (List Node)) {data : List UInt8}
    (written : CompactIPv4Nodes.marshalBinary (cns.getD []) = .ok data) :
    marshalOf (messageEnv lib) .nodes4 (nodesValue cns) = some (.ok (encodeString data)) := by
  show some (encodeData (CompactIPv4Nodes.marshalBinary ((nodesOf (nodesValue cns)).getD []))) = _
  rw [nodesOf_nodesValue, written, encodeData_ok]

theorem marshalOf_nodes6 (lib : HashText) (cns : Option (List Node)) {data : List UInt8}
    (written : CompactIPv6Nodes.marshalBinary (cns.getD []) = .ok data) :
    marshalOf (messageEnv lib) .nodes6 (nodesValue cns) = some (.ok (encodeString data)) := by
  show some (encodeData (CompactIPv6Nodes.marshalBinary ((nodesOf (nodesValue cns)).getD []))) = _
  rw [nodesOf_nodesValue, written, encodeData_ok]

theorem codes_nodes4 (lib : HashText) (cns : Option (List Node))
    (family : ∀ n ∈ cns.getD [], n.HasForm Ip.to4) (short : (cns.getD []).length * 26 < 2 ^ 31) :
    Codes (messageEnv lib) (.named .nodes4 (nodesValue none)) (.named .nodes4 (nodesValue cns))
      (.named .nodes4 (nodesValue (some ((cns.getD []).map (.inForm Ip.to4))))) := by
  obtain ⟨data, written, length, read⟩ := compactIPv4Nodes _ family
  have short' := length.trans_lt short
  refine .named (marshalOf_nodes4 lib cns written) (item_encodeString short') rfl ?_
  rw [unmarshalNodes_encodeString short' read]

theorem codes_nodes6 (lib : HashText) (cns : Option (List Node))
    (family : ∀ n ∈ cns.getD [], n.HasForm Ip.to16) (short : (cns.getD []).length * 38 < 2 ^ 31) :
    Codes (messageEnv lib) (.named .nodes6 (nodesValue none)) (.named .nodes6 (nodesValue cns))
      (.named .nodes6 (nodesValue (some ((cns.getD []).map (.inForm Ip.to16))))) := by
  obtain ⟨data, written, length, read⟩ := compactIPv6Nodes _ family
  have short' := length.trans_lt short
  refine .named (marshalOf_nodes6 lib cns written) (item_encodeString short') rfl ?_
  rw [unmarshalNodes_encodeString short' read]

theorem fine_nodes {f : Field} (tagged : f.Tagged (messageEnv lib)) {type : WireType} {isNil : Bool}
    {cns : List Node} {form : Ip → Option Ip}
    (codes : Codes (messageEnv lib) (.named type (nodesValue none))
      (.named type (nodesValue (asSlice isNil cns)))
      (.named type (nodesValue (some (cns.map (.inForm form))))))
    (option : optionsContain (parseTag f.tag).2 "omitempty" = true) :
    FieldPart.Fine (messageEnv lib) ⟨f, .named type (nodesValue none),
      .named type (nodesValue (asSlice isNil cns)),
      .named type (nodesValue (asSlice true (cns.map (.inForm form))))⟩ := by
  have isEmpty : (nodesValue (asSlice isNil cns)).isEmptyValue = true ↔ cns = [] := by
    rw [nodesValue, isEmptyValue_slice, getD_asSlice]
  refine .of_tagged tagged rfl (fun _ empty => ?_) fun some' => ?_
  · rw [isEmpty.mp empty]
    rfl
  · have full : cns ≠ [] := fun none' =>
      absurd ((isEmpty.mpr none').symm.trans (some' option)) (by decide)
    have slice : asSlice true (cns.map (Node.inForm form)) = some (cns.map (Node.inForm form)) :=
      if_neg (by simp [full])
    rw [slice]
    exact codes

theorem settled_nodes {type : WireType} {isNil : Bool} {cns : List Node} {form : Ip → Option Ip}
    (zero : (Value.named type (nodesValue (asSlice isNil cns))).isZero = true) :
    Value.named type (nodesValue (asSlice true (cns.map (.inForm form)))) =
      .named type (nodesValue none) := by
  have nil : (asSlice isNil cns).isNone = true := by
    rw [← zero]
    cases asSlice isNil cns <;> rfl
  rw [asSlice_eq_none nil]
  rfl

/-! ### Errors -/

namespace Error

structure Wire (e : Error) : Prop where
  low : -2 ^ 63 ≤ e.code
  high : e.code < 2 ^ 63
  reason : e.reason.length < 2 ^ 31

theorem marshalOf_error (lib : HashText) {e : Error} (some' : ¬ (e.code = 0 ∧ e.reason = [])) :
    marshalOf (messageEnv lib) .error e.toValue =
      some (.ok (108 :: (encodeInt e.code ++ encodeString e.reason ++ [101]))) := by
  show some (Error.ofValue (e.toValue : Value WireType)).marshalBencode = _
  rw [ofValue_toValue, marshalBencode, if_neg some']
  simp [encodeBytes_slice, encodeValue, encodeElems]
  rfl

theorem codes {e : Error} (wire : e.Wire) (some' : ¬ (e.code = 0 ∧ e.reason = [])) :
    Codes (messageEnv lib) (.named .error ({} : Error).toValue) (.named .error e.toValue)
      (.named .error e.toValue) := by
  have code : Reads noMethods (.iface none) (encodeInt e.code) _ := .ifaceInt wire.low wire.high
  obtain ⟨item, reads⟩ := Reads.ifacePair (item_encodeInt e.code) (item_encodeString wire.reason)
    code (.ifaceString wire.reason)
  refine .named (marshalOf_error lib some') item rfl ?_
  rw [ofValue_toValue, unmarshalBencode, reads.decodeBytes]
  rfl

theorem fine {f : Field} (tagged : f.Tagged (messageEnv lib)) {e : Error} (wire : e.Wire)
    (option : optionsContain (parseTag f.tag).2 "omitempty" = true) :
    FieldPart.Fine (messageEnv lib) ⟨f, .named .error ({} : Error).toValue, .named .error e.toValue,
      .named .error e.toValue⟩ := by
  have isEmpty : (e.toValue : Value WireType).isEmptyValue = true ↔ e.code = 0 ∧ e.reason = [] := by
    simp [toValue, Value.isEmptyValue, Value.isZero, Value.fieldsZero]
  refine .of_tagged tagged rfl (fun _ empty => ?_) fun some' => codes wire fun zero => ?_
  · obtain ⟨code, reason⟩ := isEmpty.mp empty
    have zero : e = {} := by
      cases e
      cases code
      cases reason
      rfl
    rw [zero]
  · exact absurd ((isEmpty.mpr zero).symm.trans (some' option)) (by decide)

end Error

/-! ### Arguments and results -/

theorem fine_strings {f : Field} (tagged : f.Tagged (messageEnv lib)) {isNil : Bool}
    {ss : List GoString} (short : ∀ s ∈ ss, s.length < 2 ^ 31) :
    FieldPart.Fine (messageEnv lib) ⟨f, stringsValue none, stringsValue (asSlice isNil ss),
      stringsValue (asSlice true ss)⟩ := by
  have each : ∀ s ∈ (asSlice isNil ss).getD [],
      Codes (messageEnv lib) (.string []) (.string s) (.string s) := by
    rw [getD_asSlice]
    exact fun s member => .string (short s member)
  rw [← orNil_asSlice isNil]
  exact .slice tagged each

theorem settled_strings {isNil : Bool} {ss : List GoString}
    (zero : (stringsValue (asSlice isNil ss) : Value WireType).isZero = true) :
    (stringsValue (asSlice true ss) : Value WireType) = stringsValue none := by
  have nil : (asSlice isNil ss).isNone = true := by
    rw [← zero]
    cases asSlice isNil ss <;> rfl
  rw [asSlice_eq_none nil]
  rfl

theorem settled_string {s : GoString} (zero : (.string s : Value WireType).isZero = true) :
    (.string s : Value WireType) = .string [] := by
  rw [List.isEmpty_iff.mp zero]

namespace QueryArg

structure Wire (a : QueryArg) : Prop where
  token : a.token.length < 2 ^ 31
  wants : ∀ want ∈ a.wants, want.length < 2 ^ 31

def parts (nils : Nils) (a : QueryArg) : List (FieldPart WireType) :=
  [⟨field "ID" "id", hashValue zeroHash, hashValue a.id, hashValue a.id⟩,
    ⟨field "Target" "target,omitempty", hashValue zeroHash, hashValue a.target, hashValue a.target⟩,
    ⟨field "InfoHash" "info_hash,omitempty", hashValue zeroHash, hashValue a.infoHash,
      hashValue a.infoHash⟩,
    ⟨field "Port" "port,omitempty", .uint 16 0, .uint 16 a.port.toNat, .uint 16 a.port.toNat⟩,
    ⟨field "Token" "token,omitempty", .string [], .string a.token, .string a.token⟩,
    ⟨field "ImpliedPort" "implied_port,omitempty", .bool false, .bool a.impliedPort,
      .bool a.impliedPort⟩,
    ⟨field "Wants" "want,omitempty", stringsValue none, stringsValue (asSlice nils.wants a.wants),
      stringsValue (asSlice true a.wants)⟩]

theorem layout (lib : HashText) (nils : Nils) (a : QueryArg) :
    FieldPart.Layout (messageEnv lib) (a.parts nils) :=
  .of_sample _ (({} : QueryArg).parts {}) rfl (by decide +kernel)

theorem codes (lib : HashText) {a : QueryArg} (wire : a.Wire) :
    Codes (messageEnv lib) (.struct ((a.parts nils).map fun p => (p.field, p.zero)))
      (.struct ((a.parts nils).map fun p => (p.field, p.value)))
      (.struct ((a.parts nils).map fun p => (p.field, p.result))) := by
  have layout := a.layout lib nils
  have tagged := layout.tagged
  refine .struct layout.keyed layout.distinct layout.short ?_
  simp only [parts, List.forall_mem_cons] at tagged ⊢
  obtain ⟨tag₀, tag₁, tag₂, tag₃, tag₄, tag₅, tag₆, _⟩ := tagged
  exact ⟨fine_hash tag₀ a.id, fine_hash tag₁ a.target, fine_hash tag₂ a.infoHash,
    .uint tag₃ a.port.toNat_lt (by decide), .string tag₄ wire.token, .bool tag₅ a.impliedPort,
    fine_strings tag₆ wire.wants, by simp⟩

theorem settled (a : QueryArg) :
    ∀ p ∈ a.parts nils, p.value.isZero = true → p.result = p.zero := by
  simp only [parts, List.forall_mem_cons]
  refine ⟨settled_hash, settled_hash, settled_hash, fun zero => ?_, settled_string, fun zero => ?_,
    settled_strings, by simp⟩
  · have port : a.port.toNat = 0 := eq_of_beq zero
    rw [port]
  · cases implied : a.impliedPort with
    | false => rfl
    | true =>
      rw [implied] at zero
      cases zero

end QueryArg

namespace ResponseResult

structure Wire (r : ResponseResult) : Prop where
  nodes : ∀ n ∈ r.nodes, n.HasForm Ip.to4
  nodes6 : ∀ n ∈ r.nodes6, n.HasForm Ip.to16
  shortNodes : r.nodes.length * 26 < 2 ^ 31
  shortNodes6 : r.nodes6.length * 38 < 2 ^ 31
  token : r.token.length < 2 ^ 31
  values : ∀ value ∈ r.values, value.length < 2 ^ 31

/-- The result as it is decoded, with the IPs in the form of their family. -/
def inForm (r : ResponseResult) : ResponseResult :=
  { r with nodes := r.nodes.map (.inForm Ip.to4), nodes6 := r.nodes6.map (.inForm Ip.to16) }

def parts (nils : Nils) (r : ResponseResult) : List (FieldPart WireType) :=
  [⟨field "ID" "id", hashValue zeroHash, hashValue r.id, hashValue r.id⟩,
    ⟨field "Nodes" "nodes,omitempty", .named .nodes4 (nodesValue none),
      .named .nodes4 (nodesValue (asSlice nils.nodes r.nodes)),
      .named .nodes4 (nodesValue (asSlice true r.inForm.nodes))⟩,
    ⟨field "Nodes6" "nodes6,omitempty", .named .nodes6 (nodesValue none),
      .named .nodes6 (nodesValue (asSlice nils.nodes6 r.nodes6)),
      .named .nodes6 (nodesValue (asSlice true r.inForm.nodes6))⟩,
    ⟨field "Token" "token,omitempty", .string [], .string r.token, .string r.token⟩,
    ⟨field "Values" "values,omitempty", stringsValue none,
      stringsValue (asSlice nils.values r.values), stringsValue (asSlice true r.values)⟩]

theorem layout (lib : HashText) (nils : Nils) (r : ResponseResult) :
    FieldPart.Layout (messageEnv lib) (r.parts nils) :=
  .of_sample _ (({} : ResponseResult).parts {}) rfl (by decide +kernel)

theorem codes (lib : HashText) {r : ResponseResult} (wire : r.Wire) :
    Codes (messageEnv lib) (.struct ((r.parts nils).map fun p => (p.field, p.zero)))
      (.struct ((r.parts nils).map fun p => (p.field, p.value)))
      (.struct ((r.parts nils).map fun p => (p.field, p.result))) := by
  have layout := r.layout lib nils
  have tagged := layout.tagged
  refine .struct layout.keyed layout.distinct layout.short ?_
  simp only [parts, List.forall_mem_cons] at tagged ⊢
  obtain ⟨tag₀, tag₁, tag₂, tag₃, tag₄, _⟩ := tagged
  have nodes := codes_nodes4 lib (asSlice nils.nodes r.nodes)
    (by rw [getD_asSlice]; exact wire.nodes) (by rw [getD_asSlice]; exact wire.shortNodes)
  have nodes6 := codes_nodes6 lib (asSlice nils.nodes6 r.nodes6)
    (by rw [getD_asSlice]; exact wire.nodes6) (by rw [getD_asSlice]; exact wire.shortNodes6)
  rw [getD_asSlice] at nodes nodes6
  exact ⟨fine_hash tag₀ r.id, fine_nodes tag₁ nodes (by decide +kernel),
    fine_nodes tag₂ nodes6 (by decide +kernel), .string tag₃ wire.token,
    fine_strings tag₄ wire.values, by simp⟩

theorem settled (r : ResponseResult) :
    ∀ p ∈ r.parts nils, p.value.isZero = true → p.result = p.zero := by
  simp only [parts, List.forall_mem_cons]
  exact ⟨settled_hash, settled_nodes, settled_nodes, settled_string, settled_strings, by simp⟩

end ResponseResult

/-! ### Messages -/

namespace Message

structure Wire (m : Message) : Prop where
  t : m.t.length < 2 ^ 31
  y : m.y.length < 2 ^ 31
  q : m.q.length < 2 ^ 31
  a : m.a.Wire
  r : m.r.Wire
  e : m.e.Wire

def parts (nils : Nils) (m : Message) : List (FieldPart WireType) :=
  [⟨field "T" "t", .string [], .string m.t, .string m.t⟩,
    ⟨field "Y" "y", .string [], .string m.y, .string m.y⟩,
    ⟨field "Q" "q,omitempty", .string [], .string m.q, .string m.q⟩,
    ⟨field "A" "a,omitempty", ({} : QueryArg).toValue {}, m.a.toValue nils, m.a.toValue {}⟩,
    ⟨field "R" "r,omitempty", ({} : ResponseResult).toValue {}, m.r.toValue nils,
      m.r.inForm.toValue {}⟩,
    ⟨field "E" "e,omitempty", .named .error ({} : Error).toValue, .named .error m.e.toValue,
      .named .error m.e.toValue⟩,
    ⟨field "RO" "ro,omitempty", .bool false, .bool m.ro, .bool m.ro⟩]

theorem layout (lib : HashText) (nils : Nils) (m : Message) :
    FieldPart.Layout (messageEnv lib) (m.parts nils) :=
  .of_sample _ (zero.parts {}) rfl (by decide +kernel)

def inForm (m : Message) : Message := { m with r := m.r.inForm }

/-- **A message that can be sent is decoded from its encoding.** -/
theorem codes (lib : HashText) (nils : Nils) {m : Message} (wire : m.Wire) :
    Codes (messageEnv lib) (zero.toValue {}) (m.toValue nils) (m.inForm.toValue {}) := by
  have layout := m.layout lib nils
  have tagged := layout.tagged
  refine Codes.struct layout.keyed layout.distinct layout.short ?_
  simp only [parts, List.forall_mem_cons] at tagged ⊢
  obtain ⟨tag₀, tag₁, tag₂, tag₃, tag₄, tag₅, tag₆, _⟩ := tagged
  exact ⟨.string tag₀ wire.t, .string tag₁ wire.y, .string tag₂ wire.q,
    .struct tag₃ m.a.settled (QueryArg.codes lib wire.a),
    .struct tag₄ m.r.settled (ResponseResult.codes lib wire.r),
    Error.fine tag₅ wire.e (by decide +kernel), .bool tag₆ m.ro, by simp⟩

theorem decodeMessage_encodeMessage (lib : HashText) (nils : Nils) {m : Message} (wire : m.Wire) :
    ∃ b, encodeMessage lib nils m = .ok b ∧ decodeMessage lib b = .ok m.inForm := by
  obtain ⟨b, encoded, decoded⟩ := (codes lib nils wire).decodeBytes rfl
  refine ⟨b, encoded, ?_⟩
  rw [decodeMessage, decoded]
  exact congrArg Except.ok (ofValue_toValue _ _)

/-- Two messages are the same up to the forms of IPs. -/
structure Same (m m' : Message) : Prop where
  t : m.t = m'.t
  y : m.y = m'.y
  q : m.q = m'.q
  a : m.a = m'.a
  id : m.r.id = m'.r.id
  nodes : List.Forall₂ (fun n n' => Node.equal n n' = true) m.r.nodes m'.r.nodes
  nodes6 : List.Forall₂ (fun n n' => Node.equal n n' = true) m.r.nodes6 m'.r.nodes6
  token : m.r.token = m'.r.token
  values : m.r.values = m'.r.values
  e : m.e = m'.e
  ro : m.ro = m'.ro

theorem forall₂_inForm {form : Ip → Option Ip} (same : ∀ ip x, form ip = some x → ip.equal x = true)
    {cns : List Node} (family : ∀ n ∈ cns, n.HasForm form) :
    List.Forall₂ (fun n n' => Node.equal n n' = true) cns (cns.map (.inForm form)) := by
  rw [List.forall₂_map_right_iff, List.forall₂_same]
  exact fun n member => Node.equal_inForm same (family n member)

theorem same_inForm {m : Message} (wire : m.Wire) : m.Same m.inForm where
  t := rfl
  y := rfl
  q := rfl
  a := rfl
  id := rfl
  nodes := forall₂_inForm (fun _ _ => Ip.equal_to4) wire.r.nodes
  nodes6 := forall₂_inForm (fun _ _ => Ip.equal_to16) wire.r.nodes6
  token := rfl
  values := rfl
  e := rfl
  ro := rfl

/-- The messages that the package builds, with `RO` either way. -/
inductive Built : Message → Prop
  | query {tid method : GoString} {arg : QueryArg} (ro : Bool) (shortId : tid.length < 2 ^ 31)
      (shortMethod : method.length < 2 ^ 31) (wire : arg.Wire) :
      Built { newQueryMsg tid method arg with ro := ro }
  | response {tid : GoString} {data : ResponseResult} (ro : Bool) (shortId : tid.length < 2 ^ 31)
      (wire : data.Wire) : Built { newResponseMsg tid data with ro := ro }
  | error {tid reason : GoString} {code : Int} (ro : Bool) (shortId : tid.length < 2 ^ 31)
      (wire : (Error.mk code reason).Wire) : Built { newErrorMsg tid code reason with ro := ro }

theorem Built.wire {m : Message} (built : m.Built) : m.Wire := by
  have noArg : ({} : QueryArg).Wire := ⟨by decide, by simp⟩
  have noResult : ({} : ResponseResult).Wire :=
    ⟨by simp, by simp, by decide, by decide, by decide, by simp⟩
  have noError : ({} : Error).Wire := ⟨by decide, by decide, by decide⟩
  have short : ∀ type : String, type ∈ ["q", "r", "e"] → (str type).length < 2 ^ 31 := by
    decide +kernel
  have empty : ([] : GoString).length < 2 ^ 31 := by decide
  cases built with
  | query ro shortId shortMethod wire =>
    exact ⟨shortId, short "q" (by simp), shortMethod, wire, noResult, noError⟩
  | response ro shortId wire =>
    exact ⟨shortId, short "r" (by simp), empty, noArg, wire, noError⟩
  | error ro shortId wire =>
    exact ⟨shortId, short "e" (by simp), empty, noArg, noResult, wire⟩

end Message

/-- **A message that the package builds is the same after encoding and decoding**, whichever of its
slices without elements are nil. -/
theorem message_round_trip (lib : HashText) (nils : Nils) {m : Message} (built : m.Built) :
    ∃ b m', encodeMessage lib nils m = .ok b ∧ decodeMessage lib b = .ok m' ∧ m.Same m' := by
  obtain ⟨b, encoded, decoded⟩ := m.decodeMessage_encodeMessage lib nils built.wire
  exact ⟨b, _, encoded, decoded, Message.same_inForm built.wire⟩

/-- No text but twenty bytes is a hash. -/
def noHashText : HashText where
  hexDecode h _ := (h, some [])
  base32Decode _ := .error []
  sha1 _ := zeroHash

/-- A response with a node whose IPv4 address has 16 bytes, one with an IPv6 address, and a value. -/
def sampleResponse : Message :=
  { newResponseMsg (str "aa")
      { id := .fill 1
        nodes := [⟨.fill 2, v4InV6Prefix ++ [1, 2, 3, 4], 6881⟩]
        nodes6 := [⟨.fill 3, List.replicate 16 32, 80⟩]
        values := [str "x"] } with ro := true }

theorem message_round_trip_response :
    sampleResponse.Built ∧ ∃ b m', encodeMessage noHashText {} sampleResponse = .ok b ∧
      decodeMessage noHashText b = .ok m' ∧ sampleResponse.Same m' := by
  have wire : ResponseResult.Wire sampleResponse.r :=
    ⟨List.forall_mem_singleton.mpr rfl, List.forall_mem_singleton.mpr rfl, by decide, by decide,
      by decide, List.forall_mem_singleton.mpr (by decide)⟩
  have built : sampleResponse.Built := .response true (by decide) wire
  exact ⟨built, message_round_trip noHashText {} built⟩

end GoBt.Krpc
