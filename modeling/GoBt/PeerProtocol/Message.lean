/-
**The messages of the peer wire protocol** (`peerprotocol/message.go`, `protocol.go`).

* `Message.encode`, `decode` — a message as a length and a body, and its way back from a stream.
* `encodeLayout`, `decodeLayout` — the two switches over the message type;
  `encodeLayout_eq_decodeLayout_iff`: they agree on every type but Suggest and AllowedFast.
* **`decode_encode_iff`** — from any stream that starts with an encoded message, `decode` gets the
  message back exactly if its type is neither of the two.
-/

import GoBt.Go.Basic
import GoBt.Lib.BigEndian
import GoBt.Lib.Stream

namespace GoBt.PeerProtocol

open GoBt.Lib

/-! ### Message types -/

abbrev MessageType := UInt8

def mTypeChoke : MessageType := 0
def mTypeUnchoke : MessageType := 1
def mTypeInterested : MessageType := 2
def mTypeNotInterested : MessageType := 3
def mTypeHave : MessageType := 4
def mTypeBitField : MessageType := 5
def mTypeRequest : MessageType := 6
def mTypePiece : MessageType := 7
def mTypeCancel : MessageType := 8
def mTypePort : MessageType := 9
def mTypeSuggest : MessageType := 0x0d
def mTypeHaveAll : MessageType := 0x0e
def mTypeHaveNone : MessageType := 0x0f
def mTypeReject : MessageType := 0x10
def mTypeAllowedFast : MessageType := 0x11
def mTypeExtended : MessageType := 20

/-- All the fields of the standard message types. -/
structure Message where
  keepalive : Bool := false
  type : MessageType := 0
  index : UInt32 := 0
  begin : UInt32 := 0
  length : UInt32 := 0
  piece : List UInt8 := []
  bitField : List UInt8 := []
  extendedID : UInt8 := 0
  extendedPayload : List UInt8 := []
  port : UInt16 := 0
  unknownTypePayload : List UInt8 := []
  deriving DecidableEq

/-- The cases of the switches over the message type. -/
inductive Layout
  | nothing
  | index
  | request
  | bitField
  | piece
  | extended
  | port
  | unknown
  deriving DecidableEq

/-- The switch of `marshalBinaryType`. -/
def encodeLayout (t : MessageType) : Layout :=
  if t ∈ [mTypeChoke, mTypeUnchoke, mTypeInterested, mTypeNotInterested, mTypeHaveAll,
      mTypeHaveNone] then .nothing
  else if t ∈ [mTypeHave] then .index
  else if t ∈ [mTypeRequest, mTypeCancel, mTypeReject] then .request
  else if t = mTypeBitField then .bitField
  else if t = mTypePiece then .piece
  else if t = mTypeExtended then .extended
  else if t = mTypePort then .port
  else .unknown

/-- The switch of `Decode`. -/
def decodeLayout (t : MessageType) : Layout :=
  if t ∈ [mTypeChoke, mTypeUnchoke, mTypeInterested, mTypeNotInterested, mTypeHaveAll,
      mTypeHaveNone] then .nothing
  else if t ∈ [mTypeHave, mTypeAllowedFast, mTypeSuggest] then .index
  else if t ∈ [mTypeRequest, mTypeCancel, mTypeReject] then .request
  else if t = mTypeBitField then .bitField
  else if t = mTypePiece then .piece
  else if t = mTypeExtended then .extended
  else if t = mTypePort then .port
  else .unknown

/-! ### Encoding -/

namespace Message

/-- What the payload of a message holds, in order. -/
def payload (m : Message) : Layout → List UInt8
  | .nothing => []
  | .index => bePut 4 m.index.toNat
  | .request => bePut 4 m.index.toNat ++ (bePut 4 m.begin.toNat ++ bePut 4 m.length.toNat)
  | .bitField => m.bitField
  | .piece => bePut 4 m.index.toNat ++ (bePut 4 m.begin.toNat ++ m.piece)
  | .extended => m.extendedID :: m.extendedPayload
  | .port => bePut 2 m.port.toNat
  | .unknown => m.unknownTypePayload

/-- `m.marshalBinaryType(buf)`: what it appends. -/
def marshalBinaryType (m : Message) : List UInt8 := m.payload (encodeLayout m.type)

/-- The part of the encoding that the length counts. -/
def body (m : Message) : List UInt8 :=
  if m.keepalive then [] else m.type :: m.marshalBinaryType

/-- `m.Encode(buf)`: what the buffer holds afterwards. -/
def encode (m : Message) : List UInt8 := bePut 4 (m.body.length % 2 ^ 32) ++ m.body

end Message

/-! ### Decoding -/

def errMessageTooLong : GoError := .other "the peer message is too long"

def readError : ReadError → GoError
  | .eof => .eof
  | .unexpectedEOF => .unexpectedEOF

section Decode

variable {ρ : Type} [ByteReader ρ]

/-- A part of `Decode` that reads the body. -/
abbrev DecodeM (ρ α : Type) := Parsing.Program GoError Message (Limited ρ) α

open Parsing (update readWith)

def readByte : DecodeM ρ UInt8 := do
  let bs ← readWith readError (ByteReader.read · 1)
  pure (bs.headD 0)

/-- `binary.Read(lr, binary.BigEndian, &v)` for a number of `width` bytes. -/
def readNat (width : Nat) : DecodeM ρ Nat := do
  let bs ← readWith readError (Lib.readFull · width)
  pure (beNat bs)

def readIndex : DecodeM ρ Unit := do
  let v ← readNat 4
  update fun m => { m with index := .ofNat v }

def readBegin : DecodeM ρ Unit := do
  let v ← readNat 4
  update fun m => { m with begin := .ofNat v }

def readLength : DecodeM ρ Unit := do
  let v ← readNat 4
  update fun m => { m with length := .ofNat v }

/-- The data of a piece: the buffer is as long as what is left, and it is the field of the message
also if reading fails. -/
def readPiece : DecodeM ρ Unit := fun s =>
  let n := s.input.limit
  let got := Lib.readFull s.input n
  let m := { s.value with piece := got.1 ++ List.replicate (n - got.1.length) 0 }
  match got.2.1 with
  | none => .ok () ⟨m, got.2.2⟩
  | some err => .error (.other ("reading piece data error: " ++ (readError err).text)) ⟨m, got.2.2⟩

/-- The id of an extended message; it is reset if reading fails. -/
def readExtendedID : DecodeM ρ Unit := fun s =>
  match readByte s with
  | .ok id s => .ok () { s with value := { s.value with extendedID := id } }
  | .error err s => .error err { s with value := { s.value with extendedID := 0 } }

/-- The cases of the switch over the message type. -/
def readPayload (length : UInt32) : Layout → DecodeM ρ Unit
  | .nothing => pure ()
  | .index => readIndex
  | .request => do
      readIndex
      readBegin
      readLength
  | .bitField => do
      let bs ← readWith readError (Lib.readFull · (length - 1).toNat)
      update fun m => { m with bitField := bs }
  | .piece => do
      readIndex
      readBegin
      readPiece
  | .extended => do
      readExtendedID
      let bs ← readWith readError readAll
      update fun m => { m with extendedPayload := bs }
  | .port => do
      let v ← readNat 2
      update fun m => { m with port := .ofNat v }
  | .unknown => do
      let bs ← readWith readError readAll
      update fun m => { m with unknownTypePayload := bs }

/-- `switch m.Type = MessageType(_type); m.Type`. -/
def readTyped (length : UInt32) (t : MessageType) : DecodeM ρ Unit := do
  update fun m => { m with type := t }
  readPayload length (decodeLayout t)

/-- The body of a message: its type and its payload. -/
def readBody (length : UInt32) : DecodeM ρ Unit := readByte >>= readTyped length

/-- The deferred check of `Decode`. -/
def unused (limit : Nat) (m : Message) : Option GoError :=
  if limit ≠ 0 then
    some (.other (toString limit ++ " bytes unused in message type " ++ toString m.type.toNat))
  else none

/-- `m.Decode(r, maxLength)`: the message, the error and what is left of the reader. -/
def decode (m : Message) (r : ρ) (maxLength : UInt32) : Message × Option GoError × ρ :=
  let got := Lib.readFull r 4
  match got.2.1 with
  | some .eof => (m, some .eof, got.2.2)
  | some err => (m, some (.other ("reading length error: " ++ (readError err).text)), got.2.2)
  | none =>
      let length := UInt32.ofNat (beNat got.1)
      if length = 0 then ({ m with keepalive := true }, none, got.2.2)
      else if 0 < maxLength ∧ maxLength < length then (m, some errMessageTooLong, got.2.2)
      else
        match readBody length ⟨{ m with keepalive := false }, ⟨got.2.2, length.toNat⟩⟩ with
        | .ok _ s => (s.value, unused s.input.limit s.value, s.input.reader)
        | .error err s => (s.value, some err, s.input.reader)

/-! ### What the decoder reads -/

open Parsing (Parses)

variable {rest more : List UInt8}

theorem readByte_parses (b : UInt8) :
    Parses (Limited.Frames rest) (readByte : DecodeM ρ _) [b] more b id :=
  (Parses.readOne Limited.read_frames readError b).bind_pure fun bs => bs.headD 0

theorem readNat_parses {width v : Nat} (small : v < 256 ^ width) :
    Parses (Limited.Frames rest) (readNat width : DecodeM ρ _) (bePut width v) more v id := by
  have reads : Parses (Limited.Frames rest) (readNat width : DecodeM ρ _) (bePut width v) more
      (beNat (bePut width v)) id :=
    (Parses.readFull Limited.read_frames readError (length_bePut width v)).bind_pure beNat
  rwa [beNat_bePut, Nat.mod_eq_of_lt small] at reads

theorem readUint32_parses (v : UInt32) (fill : UInt32 → Message → Message) :
    Parses (Limited.Frames rest)
      (do let n ← readNat 4; update (fill (.ofNat n)) : DecodeM ρ Unit)
      (bePut 4 v.toNat) more () (fill v) := by
  have reads := (readNat_parses v.toNat_lt : Parses (Limited.Frames rest) (readNat 4 : DecodeM ρ _)
    (bePut 4 v.toNat) more v.toNat id).bind_update fun n => fill (.ofNat n)
  rwa [UInt32.ofNat_toNat] at reads

theorem readPiece_parses (piece : List UInt8) :
    Parses (Limited.Frames rest) (readPiece : DecodeM ρ Unit) piece [] ()
      fun m => { m with piece := piece } := by
  intro m l frames left
  rw [List.append_nil] at left
  have limit : l.limit = piece.length := by rw [frames.exact_limit, left]
  obtain ⟨got, err, left'⟩ := readFull_spec l l.limit
  rw [left, limit, List.take_length] at got
  rw [left, limit, if_pos le_rfl] at err
  rw [left, limit, List.drop_length] at left'
  have frames' := readFull_keeps Limited.read_frames frames piece.length
  refine ⟨_, ?_, frames', left'⟩
  simp [readPiece, limit, got, err]

theorem readExtendedID_parses (id : UInt8) :
    Parses (Limited.Frames rest) (readExtendedID : DecodeM ρ Unit) [id] more ()
      fun m => { m with extendedID := id } := by
  intro m l frames left
  obtain ⟨l', ran, frames', left'⟩ := readByte_parses id m l frames left
  refine ⟨l', ?_, frames', left'⟩
  simp only [readExtendedID, ran]
  rfl

/-- The fields that a payload of the layout fills in, taken from `m`. -/
def Message.fill (m : Message) : Layout → Message → Message
  | .nothing, t => t
  | .index, t => { t with index := m.index }
  | .request, t => { t with index := m.index, begin := m.begin, length := m.length }
  | .bitField, t => { t with bitField := m.bitField }
  | .piece, t => { t with index := m.index, begin := m.begin, piece := m.piece }
  | .extended, t => { t with extendedID := m.extendedID, extendedPayload := m.extendedPayload }
  | .port, t => { t with port := m.port }
  | .unknown, t => { t with unknownTypePayload := m.unknownTypePayload }

/-- **Each case of the decoder reads back what the same case of the encoder wrote.** -/
theorem readPayload_parses (m : Message) (layout : Layout) {length : UInt32}
    (counted : (length - 1).toNat = (m.payload layout).length) :
    Parses (Limited.Frames rest) (readPayload length layout : DecodeM ρ Unit) (m.payload layout) []
      () (m.fill layout) := by
  have index : ∀ more, Parses (Limited.Frames rest) (readIndex : DecodeM ρ Unit)
      (bePut 4 m.index.toNat) more () fun t => { t with index := m.index } :=
    fun more => readUint32_parses m.index fun v t => { t with index := v }
  have begin : ∀ more, Parses (Limited.Frames rest) (readBegin : DecodeM ρ Unit)
      (bePut 4 m.begin.toNat) more () fun t => { t with begin := m.begin } :=
    fun more => readUint32_parses m.begin fun v t => { t with begin := v }
  cases layout with
  | nothing => exact Parses.pure ()
  | index => exact index []
  | request =>
    have length : Parses (Limited.Frames rest) (readLength : DecodeM ρ Unit)
        (bePut 4 m.length.toNat) [] () fun t => { t with length := m.length } :=
      readUint32_parses m.length fun v t => { t with length := v }
    exact (index _).seq ((begin _).seq length)
  | bitField =>
    exact (Parses.readFull Limited.read_frames readError counted.symm).bind_update
      fun bs (t : Message) => { t with bitField := bs }
  | piece =>
    exact (index _).seq ((begin _).seq (readPiece_parses m.piece))
  | extended =>
    have payload : Parses (Limited.Frames rest)
        (do
          let bs ← readWith readError readAll
          update fun t => { t with extendedPayload := bs } : DecodeM ρ Unit)
        m.extendedPayload [] () fun t => { t with extendedPayload := m.extendedPayload } :=
      (Parses.readAll Limited.read_frames readError m.extendedPayload).bind_update
        fun bs (t : Message) => { t with extendedPayload := bs }
    exact (readExtendedID_parses m.extendedID).seq payload
  | port =>
    have reads := (readNat_parses m.port.toNat_lt : Parses (Limited.Frames rest)
      (readNat 2 : DecodeM ρ _) (bePut 2 m.port.toNat) [] m.port.toNat id).bind_update
        fun n (t : Message) => { t with port := .ofNat n }
    rwa [UInt16.ofNat_toNat] at reads
  | unknown =>
    exact (Parses.readAll Limited.read_frames readError m.unknownTypePayload).bind_update
      fun bs (t : Message) => { t with unknownTypePayload := bs }

theorem readBody_parses (m : Message) {length : UInt32}
    (counted : (length - 1).toNat = (m.payload (decodeLayout m.type)).length) :
    Parses (Limited.Frames rest) (readBody length : DecodeM ρ Unit)
      (m.type :: m.payload (decodeLayout m.type)) [] ()
      fun t => m.fill (decodeLayout m.type) { t with type := m.type } := by
  have byte : Parses (Limited.Frames rest) (readByte : DecodeM ρ UInt8) [m.type]
      (m.payload (decodeLayout m.type) ++ []) m.type id := readByte_parses m.type
  have payload : Parses (Limited.Frames rest) (readTyped length m.type : DecodeM ρ Unit)
      (m.payload (decodeLayout m.type)) [] ()
      fun t => m.fill (decodeLayout m.type) { t with type := m.type } :=
    (Parses.update fun t : Message => { t with type := m.type }).seq
      (readPayload_parses m _ counted)
  exact byte.bind payload

/-! ### Round trip -/

def indexTypes : List MessageType :=
  [mTypeCancel, mTypeRequest, mTypeHave, mTypePiece, mTypeReject, mTypeSuggest, mTypeAllowedFast]

def beginTypes : List MessageType := [mTypeRequest, mTypeCancel, mTypePiece, mTypeReject]

def lengthTypes : List MessageType := [mTypeRequest, mTypeCancel, mTypeReject]

def predefinedTypes : List MessageType :=
  [mTypeChoke, mTypeUnchoke, mTypeInterested, mTypeNotInterested, mTypeHave, mTypeBitField,
    mTypeRequest, mTypePiece, mTypeCancel, mTypePort, mTypeSuggest, mTypeHaveAll, mTypeHaveNone,
    mTypeReject, mTypeAllowedFast, mTypeExtended]

/-- The only payload fields that are set are those the type of the message uses, as the comments on
the fields of `Message` list them. -/
structure Message.OnlyUsed (m : Message) : Prop where
  index : m.index ≠ 0 → m.type ∈ indexTypes
  begin : m.begin ≠ 0 → m.type ∈ beginTypes
  length : m.length ≠ 0 → m.type ∈ lengthTypes
  piece : m.piece ≠ [] → m.type = mTypePiece
  bitField : m.bitField ≠ [] → m.type = mTypeBitField
  extendedID : m.extendedID ≠ 0 → m.type = mTypeExtended
  extendedPayload : m.extendedPayload ≠ [] → m.type = mTypeExtended
  port : m.port ≠ 0 → m.type = mTypePort
  unknownTypePayload : m.unknownTypePayload ≠ [] → m.type ∉ predefinedTypes

/-- **The two switches agree** on every type but Suggest and AllowedFast. -/
theorem encodeLayout_eq_decodeLayout_iff (t : MessageType) :
    encodeLayout t = decodeLayout t ↔ t ≠ mTypeSuggest ∧ t ≠ mTypeAllowedFast := by
  constructor
  · intro same
    constructor <;> rintro rfl <;> exact absurd same (by decide)
  · rintro ⟨notSuggest, notAllowedFast⟩
    unfold encodeLayout decodeLayout
    simp only [List.mem_cons, List.not_mem_nil, or_false, notSuggest, notAllowedFast]

theorem decodeLayout_of_not_predefined {t : MessageType} (other : t ∉ predefinedTypes) :
    decodeLayout t = .unknown := by
  simp only [predefinedTypes, List.mem_cons, List.not_mem_nil, not_or, or_false] at other
  simp [decodeLayout, other]

theorem Message.OnlyUsed.layout {m : Message} (used : m.OnlyUsed) :
    (m.index ≠ 0 → decodeLayout m.type ∈ [.index, .request, .piece]) ∧
      (m.begin ≠ 0 → decodeLayout m.type ∈ [.request, .piece]) ∧
      (m.length ≠ 0 → decodeLayout m.type = .request) ∧
      (m.piece ≠ [] → decodeLayout m.type = .piece) ∧
      (m.bitField ≠ [] → decodeLayout m.type = .bitField) ∧
      (m.extendedID ≠ 0 → decodeLayout m.type = .extended) ∧
      (m.extendedPayload ≠ [] → decodeLayout m.type = .extended) ∧
      (m.port ≠ 0 → decodeLayout m.type = .port) ∧
      (m.unknownTypePayload ≠ [] → decodeLayout m.type = .unknown) := by
  have indexed : ∀ t ∈ indexTypes, decodeLayout t ∈ [.index, .request, .piece] := by
    simp only [indexTypes, List.forall_mem_cons, List.not_mem_nil, false_implies, implies_true]
    decide
  have begun : ∀ t ∈ beginTypes, decodeLayout t ∈ [.request, .piece] := by
    simp only [beginTypes, List.forall_mem_cons, List.not_mem_nil, false_implies, implies_true]
    decide
  have measured : ∀ t ∈ lengthTypes, decodeLayout t = .request := by
    simp only [lengthTypes, List.forall_mem_cons, List.not_mem_nil, false_implies, implies_true]
    decide
  refine ⟨fun set => indexed _ (used.index set), fun set => begun _ (used.begin set),
    fun set => measured _ (used.length set), fun set => ?_, fun set => ?_, fun set => ?_,
    fun set => ?_, fun set => ?_, fun set => decodeLayout_of_not_predefined
      (used.unknownTypePayload set)⟩
  · rw [used.piece set]
    rfl
  · rw [used.bitField set]
    rfl
  · rw [used.extendedID set]
    rfl
  · rw [used.extendedPayload set]
    rfl
  · rw [used.port set]
    rfl

theorem Message.OnlyUsed.fill_eq {m : Message} (used : m.OnlyUsed) (live : m.keepalive = false) :
    m.fill (decodeLayout m.type) { type := m.type } = m := by
  obtain ⟨index, begin, length, piece, bitField, id, payload, port, unknown⟩ := used.layout
  obtain ⟨_, type, _, _, _, _, _, _, _, _, _⟩ := m
  dsimp only at live index begin length piece bitField id payload port unknown ⊢
  subst live
  generalize decodeLayout type = layout at *
  cases layout <;> simp_all [Message.fill]

theorem readIndex_ended {m : Message} {l : Limited ρ} (ended : remaining l = []) :
    ∃ s, readIndex ⟨m, l⟩ = .error .eof s := by
  have failed : (Lib.readFull l 4).2.1 = some .eof := by
    rw [(readFull_spec l 4).2.1, ended]
    rfl
  have read : (readWith readError (Lib.readFull · 4) : DecodeM ρ _) ⟨m, l⟩ =
      .error (readError .eof) _ :=
    Parsing.readWith_of_some failed
  exact ⟨_, Parsing.bind_of_error (Parsing.bind_of_error read)⟩

theorem Message.body_of_live {m : Message} (live : m.keepalive = false) :
    m.body = m.type :: m.payload (encodeLayout m.type) := by
  unfold Message.body
  rw [live]
  rfl

theorem readBody_of_same {m : Message} (used : m.OnlyUsed) (live : m.keepalive = false)
    (same : encodeLayout m.type = decodeLayout m.type) {length : UInt32}
    (counted : length.toNat = m.body.length) {l : Limited ρ} (frames : Limited.Frames rest l)
    (front : remaining l = m.body) :
    ∃ l', readBody length ⟨{}, l⟩ = .ok () ⟨m, l'⟩ ∧ remaining l'.reader = rest ∧ l'.limit = 0 := by
  have body := Message.body_of_live live
  rw [same] at body
  have positive : (1 : UInt32) ≤ length := by
    rw [UInt32.le_iff_toNat_le, counted, body]
    exact Nat.succ_le_succ (Nat.zero_le _)
  have payload : (length - 1).toNat = (m.payload (decodeLayout m.type)).length := by
    rw [UInt32.toNat_sub_of_le _ _ positive, counted, body]
    rfl
  obtain ⟨l', ran, frames', left⟩ := readBody_parses m payload {} l frames
    (by rw [front, body, List.append_nil])
  have filled : readBody length ⟨{}, l⟩ =
      .ok () ⟨m.fill (decodeLayout m.type) { type := m.type }, l'⟩ := ran
  rw [used.fill_eq live] at filled
  refine ⟨l', filled, ?_, ?_⟩
  · rw [frames'.whole, left, List.nil_append]
  · rw [frames'.exact_limit, left, List.length_nil]

theorem readBody_of_different {m : Message} (used : m.OnlyUsed) (live : m.keepalive = false)
    (different : encodeLayout m.type ≠ decodeLayout m.type) (length : UInt32) {l : Limited ρ}
    (frames : Limited.Frames rest l) (front : remaining l = m.body) :
    ∃ s, readBody length ⟨{}, l⟩ = .error .eof s := by
  have known : m.type = mTypeSuggest ∨ m.type = mTypeAllowedFast := by
    by_contra other
    exact different ((encodeLayout_eq_decodeLayout_iff _).mpr (not_or.mp other))
  have layouts : encodeLayout m.type = .unknown ∧ decodeLayout m.type = .index := by
    rcases known with type | type <;> rw [type] <;> decide
  have empty : m.unknownTypePayload = [] := by
    by_contra set
    refine used.unknownTypePayload set ?_
    rcases known with type | type <;> rw [type] <;> decide
  rw [Message.body_of_live live, layouts.1] at front
  have single : remaining l = [m.type] ++ [] := by
    rw [front, Message.payload, empty]
    rfl
  obtain ⟨l', ran, _, ended⟩ := readByte_parses m.type ({} : Message) l frames single
  obtain ⟨s, failed⟩ := readIndex_ended (m := { type := m.type }) ended
  refine ⟨s, (Parsing.bind_of_ok ran).trans ?_⟩
  rw [← failed]
  show readPayload length (decodeLayout m.type) ⟨{ type := m.type }, l'⟩ = _
  rw [layouts.2]
  rfl

theorem decode_of_delivers (m : Message) {r : ρ} {n : Nat} {tail : List UInt8}
    (short : n < 2 ^ 32) (delivers : remaining r = bePut 4 n ++ tail) :
    ∃ r', remaining r' = tail ∧ ∀ maxLength,
      decode m r maxLength =
        if UInt32.ofNat n = 0 then ({ m with keepalive := true }, none, r')
        else if 0 < maxLength ∧ maxLength < UInt32.ofNat n then (m, some errMessageTooLong, r')
        else
          match readBody (UInt32.ofNat n)
            ⟨{ m with keepalive := false }, ⟨r', (UInt32.ofNat n).toNat⟩⟩ with
          | .ok _ s => (s.value, unused s.input.limit s.value, s.input.reader)
          | .error err s => (s.value, some err, s.input.reader) := by
  obtain ⟨got, err, left⟩ := readFull_spec r 4
  rw [delivers, List.take_left' (length_bePut 4 n)] at got
  rw [delivers, List.length_append, length_bePut, if_pos (Nat.le_add_right _ _)] at err
  rw [delivers, List.drop_left' (length_bePut 4 n)] at left
  have spelled : beNat (bePut 4 n) = n := by
    rw [beNat_bePut]
    exact Nat.mod_eq_of_lt short
  refine ⟨(Lib.readFull r 4).2.2, left, fun maxLength => ?_⟩
  unfold decode
  simp only [err, got, spelled]

/-- **When a message survives the wire.** For every message of which only the used fields are set,
and for the keepalive message, `Decode` gets it back from any stream that starts with its encoding,
exactly if its type is neither Suggest nor AllowedFast. -/
theorem decode_encode_iff (m : Message)
    (set : m = { keepalive := true } ∨ m.keepalive = false ∧ m.OnlyUsed) (maxLength : UInt32)
    (short : m.body.length < 2 ^ 32)
    (within : maxLength = 0 ∨ m.body.length ≤ maxLength.toNat) (r : ρ) (rest : List UInt8)
    (delivers : remaining r = m.encode ++ rest) :
    ((decode {} r maxLength).1 = m ∧ (decode {} r maxLength).2.1 = none ∧
        remaining (decode {} r maxLength).2.2 = rest) ↔
      m.keepalive = true ∨ (m.type ≠ mTypeSuggest ∧ m.type ≠ mTypeAllowedFast) := by
  unfold Message.encode at delivers
  rw [Nat.mod_eq_of_lt short, List.append_assoc] at delivers
  obtain ⟨r', left, decoded⟩ := decode_of_delivers {} short delivers
  replace decoded := decoded maxLength
  rcases set with rfl | ⟨live, used⟩
  · exact iff_of_true ⟨by rw [decoded]; rfl, by rw [decoded]; rfl, by rw [decoded]; exact left⟩
      (Or.inl rfl)
  · have length : (UInt32.ofNat m.body.length).toNat = m.body.length :=
      UInt32.toNat_ofNat_of_lt' short
    have nonzero : UInt32.ofNat m.body.length ≠ 0 := by
      intro zero
      rw [zero, Message.body_of_live live] at length
      cases length
    have allowed : ¬ (0 < maxLength ∧ maxLength < UInt32.ofNat m.body.length) := by
      rintro ⟨positive, long⟩
      rcases within with rfl | within
      · exact absurd positive (by decide)
      · have long := UInt32.lt_iff_toNat_lt.mp long
        omega
    rw [if_neg nonzero, if_neg allowed, length] at decoded
    obtain ⟨frames, front⟩ := Limited.frames_of_append left
    rw [decoded, live, ← encodeLayout_eq_decodeLayout_iff]
    by_cases same : encodeLayout m.type = decodeLayout m.type
    · obtain ⟨l, ran, beyond, limit⟩ := readBody_of_same used live same length frames front
      rw [ran]
      exact iff_of_true ⟨rfl, by simp [unused, limit], beyond⟩ (Or.inr same)
    · obtain ⟨s, failed⟩ := readBody_of_different used live same (UInt32.ofNat m.body.length)
        frames front
      rw [failed]
      exact iff_of_false (fun decoded => nomatch decoded.2.1) fun either => either.elim nofun same

end Decode

theorem have_survives :
    (decode {} (⟨[[0, 0, 0], [5, 4, 0, 0, 0, 7]], by decide⟩ : Chunked) 0).1 =
      { type := mTypeHave, index := 7 } :=
  ((decode_encode_iff { type := mTypeHave, index := 7 }
    (Or.inr ⟨rfl, ⟨fun _ => by decide, nofun, nofun, nofun, nofun, nofun, nofun, nofun, nofun⟩⟩) 0
    (by decide) (Or.inl rfl) (⟨[[0, 0, 0], [5, 4, 0, 0, 0, 7]], by decide⟩ : Chunked) []
    (by decide)).mpr (Or.inr (by decide))).1

/-- **A `Suggest` message is lost**: its index is not written, and decoding it is an error. -/
theorem suggest_lost :
    ({ type := mTypeSuggest, index := 7 } : Message).OnlyUsed ∧
      ({ type := mTypeSuggest, index := 7 } : Message).encode = [0, 0, 0, 1, 13] ∧
      (decode {} (Chunked.whole ({ type := mTypeSuggest, index := 7 } : Message).encode) 0).2.1 =
        some .eof :=
  ⟨⟨fun _ => by decide, nofun, nofun, nofun, nofun, nofun, nofun, nofun, nofun⟩, by decide,
    by decide⟩

end GoBt.PeerProtocol
