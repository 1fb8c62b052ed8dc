/-
**Encoding the extended handshake** (`peerprotocol/extension.go`).

Which form an address takes is decided by the methods of its type. `net.IP` has methods for texts,
and both methods of `CompactIP` go through a value of the type `net.IP`, so that the bytes they write
and read are the text of the address and not the address.

* `Ip.marshalText`, `Ip.unmarshalText` — the methods of `net.IP`; `goNet` gives them to the decoder.
* `CompactIP.marshalBencode` — the source's method.
* `compactIP_iff` — no address is written in its compact form, and a string is treated as one of
  that form only if it is refused as it has to be.
* `ExtendedHandshakeMsg.encode` — the source's method, which returns the bytes only with an error;
  `not_decodes`: what it returns without one is never decoded.
-/

import GoBt.Bencode.Accept
import GoBt.Krpc.ParseIP
import GoBt.PeerProtocol.ExtendedHandshake

namespace GoBt.Krpc

/-! ### The texts of an IP -/

def Ip.marshalText (ip : Ip) : Except GoString GoString :=
  if ip.length = 0 then .ok []
  else if ip.length ≠ 4 ∧ ip.length ≠ 16 then
    .error (str "address " ++ Hex.encode ip ++ str ": invalid IP address")
  else .ok ip.string

/-- `ip.UnmarshalText(text)`: the new address. -/
def Ip.unmarshalText (text : GoString) : Except GoString (Option Ip) :=
  if text.length = 0 then .ok none
  else
    match parseIP text with
    | none => .error (str "invalid IP address: " ++ text)
    | some ip => .ok (some ip)

/-- The compact form of an address: four bytes, or sixteen if it is no IPv4 address. -/
def Ip.compact (ip : Ip) : Ip := ip.to4.getD ip

theorem Ip.compact_of_to4 {ip v4 : Ip} (family : ip.to4 = some v4) : ip.compact = v4 := by
  rw [compact, family]
  rfl

theorem Ip.compact_of_none {ip : Ip} (family : ip.to4 = none) : ip.compact = ip := by
  rw [compact, family]
  rfl

theorem Ip.length_compact {ip : Ip} (size : ip.length = 4 ∨ ip.length = 16) :
    ip.compact.length = 4 ∨ ip.compact.length = 16 := by
  cases family : ip.to4 with
  | none => rwa [compact_of_none family]
  | some v4 =>
    rw [compact_of_to4 family]
    exact .inl (Ip.length_to4 family)

theorem Ip.le_of_mem_string {ip : Ip} {c : UInt8} (member : c ∈ ip.string) : 46 ≤ c.toNat :=
  Krpc.le_of_mem_string (a := ⟨ip, 0⟩) member

/-- **No address is its own text.** -/
theorem Ip.string_ne_compact {ip : Ip} (size : ip.length = 4 ∨ ip.length = 16) :
    ip.compact.string ≠ ip.compact := by
  intro same
  rcases length_compact size with four | sixteen
  · have family : ip.compact.to4 = some ip.compact := if_pos four
    have long : 7 ≤ ip.compact.string.length := seven_le_length_string (a := ⟨ip.compact, 0⟩) family
    rw [same] at long
    omega
  · have characters : ∀ byte ∈ ip.compact, 46 ≤ byte.toNat :=
      fun byte member => le_of_mem_string (same ▸ member)
    have long : 18 < ip.compact.string.length :=
      eighteen_lt_length_string (a := ⟨ip.compact, 0⟩) sixteen characters
    rw [same] at long
    omega

/-- **No text of four or sixteen characters is the address it is read as.** -/
theorem parseIP_ne_compact {s : GoString} {ip : Ip} (read : parseIP s = some ip) :
    ip.compact ≠ Ip.compact s := by
  intro same
  obtain ⟨_, size, characters⟩ := parseIP_text read
  have none' : Ip.to4 s = none ∨ s.length = 4 := by
    by_cases four : s.length = 4
    · exact .inr four
    · refine .inl ?_
      rw [Ip.to4, if_neg four, if_neg]
      rintro ⟨_, mapped⟩
      have zero : (0 : UInt8) ∈ s := List.mem_of_mem_take (by rw [mapped]; exact List.mem_cons_self)
      exact absurd (characters 0 zero) (by decide)
  have itself : Ip.compact s = s := by
    rcases none' with family | four
    · exact Ip.compact_of_none family
    · exact Ip.compact_of_to4 (if_pos four)
  have all : large s = s.length := large_of_forall characters
  have full : s ≠ [] := by
    rintro rfl
    cases read
  have positive := List.length_pos_iff.mpr full
  change 2 * large ip.compact ≤ s.length at size
  rw [same, itself, all] at size
  omega

end GoBt.Krpc

namespace GoBt.PeerProtocol

open GoBt.Bencode GoBt.Krpc GoBt.Lib

/-- What the decoder takes from the package `net`. -/
def goNet : NetIP where
  unmarshalText := Ip.unmarshalText

def ipCodec : Methods ExtType where
  marshalText := some fun v =>
    match (ipOf v).marshalText with
    | .ok text => .ok text
    | .error message => .error (.err (.text message))
  unmarshalText := (ipMethods goNet).unmarshalText

namespace CompactIP

/-! ### Compact addresses -/

def marshalBencode (ci : Ip) : Except Fault GoString :=
  let ip := ci.to4.getD ci
  encodeBytes { methods := fun _ => ipCodec } (.named .ip (.bytes (some ip)))

/-- The address is written as BEP 10 has it: a string of its four or sixteen bytes. -/
def WritesCompact (ip : Ip) : Prop := marshalBencode ip = .ok (encodeString ip.compact)

/-- A string is read as BEP 10 has it: four or sixteen bytes are the address, and any other string is
refused. -/
def ReadsCompact (ci : Value ExtType) (s : GoString) : Prop :=
  if s.length = 4 ∨ s.length = 16 then
    unmarshalBencode goNet ci (encodeString s) = (.bytes (some (Ip.compact s)), none)
  else (unmarshalBencode goNet ci (encodeString s)).2 ≠ none

theorem marshalBencode_eq {ip : Ip} (size : ip.length = 4 ∨ ip.length = 16) :
    marshalBencode ip = .ok (encodeString ip.compact.string) := by
  have text : ip.compact.marshalText = .ok ip.compact.string := by
    have length := Ip.length_compact size
    rw [Ip.marshalText, if_neg (by omega), if_neg (by omega)]
  have method : marshalOf { methods := fun _ => ipCodec } ExtType.ip (.bytes (some ip.compact)) =
      some (.ok (encodeString ip.compact.string)) := by
    show some ((match ip.compact.marshalText with
      | .ok text => Except.ok text
      | .error message => .error (Fault.err (.text message))).map encodeString) = _
    rw [text]
    rfl
  exact encodeValue_named method

theorem not_writesCompact {ip : Ip} (size : ip.length = 4 ∨ ip.length = 16) :
    ¬ WritesCompact ip := by
  intro compact
  rw [WritesCompact, marshalBencode_eq size] at compact
  exact Ip.string_ne_compact size (encodeString_injective (Except.ok.inj compact))

theorem decodeBytes_ip (b : GoString) :
    decodeBytes { methods := fun _ => ipMethods goNet } b (.named ExtType.ip (.bytes none)) =
      match ({ r := b } : Decoder).readString with
      | (_, _, some fault) => (.named .ip (.bytes none), some fault)
      | (_, text, none) =>
        match Ip.unmarshalText text with
        | .ok ip => (.named .ip (.bytes ip), none)
        | .error message => (.named .ip (.bytes none), some (.err (.text message))) := by
  rw [decodeBytes_text rfl rfl]
  rcases ({ r := b } : Decoder).readString with ⟨d, text, _ | fault⟩
  · dsimp only [goNet]
    cases Ip.unmarshalText text <;> rfl
  · rfl

theorem unmarshalBencode_eq (ci : Value ExtType) {s : GoString} (short : s.length < 2 ^ 31) :
    unmarshalBencode goNet ci (encodeString s) =
      match parseIP s with
      | some ip => (.bytes (some ip.compact), none)
      | none => (ci, some (if s = [] then errInvalidIP
          else .err (.text (str "invalid IP address: " ++ s)))) := by
  have read : ({ r := encodeString s } : Decoder).readString = (_, s, none) :=
    Decoder.readString_of (stringToken_encodeString short) (List.append_nil _).symm
  unfold unmarshalBencode
  rw [decodeBytes_ip, read]
  dsimp only
  rw [Ip.unmarshalText]
  by_cases empty : s = []
  · subst empty
    rfl
  rw [if_neg (List.length_eq_zero_iff.not.mpr empty), if_neg empty]
  cases parsed : parseIP s with
  | none => rfl
  | some ip =>
    have size := (parseIP_text parsed).1
    show (if ip.length ≠ 4 ∧ ip.length ≠ 16 then (ci, some errInvalidIP)
      else (.bytes (some ip.compact), none)) = _
    rw [if_neg (by omega)]

theorem unmarshalBencode_of_long (ci : Value ExtType) {s : GoString} (long : 2 ^ 31 ≤ s.length) :
    (unmarshalBencode goNet ci (encodeString s)).2 ≠ none := by
  unfold unmarshalBencode
  rw [decodeBytes_ip]
  rcases read : ({ r := encodeString s } : Decoder).readString with ⟨d, text, _ | fault⟩
  · obtain ⟨token, rest, isString, input, _⟩ := Decoder.readString_ok read
    refine absurd ?_ (NoString.of_long long [] token text rest isString)
    rw [List.append_nil]
    exact input
  · exact Option.some_ne_none _

/-- **When a compact address is treated as BEP 10 has it.** No address is written so. A string is
read so exactly if it has neither four nor sixteen bytes and is not the text of an address. -/
theorem compactIP_iff (ip : Ip) (ci : Value ExtType) (s : GoString) :
    ((ip.length = 4 ∨ ip.length = 16) → ¬ WritesCompact ip) ∧
      (ReadsCompact ci s ↔
        s.length ≠ 4 ∧ s.length ≠ 16 ∧ (s.length < 2 ^ 31 → parseIP s = none)) := by
  refine ⟨not_writesCompact, ?_⟩
  unfold ReadsCompact
  by_cases compact : s.length = 4 ∨ s.length = 16
  · rw [if_pos compact, unmarshalBencode_eq ci (by omega)]
    refine iff_of_false (fun read => ?_) fun ⟨four, sixteen, _⟩ => compact.elim four sixteen
    cases parsed : parseIP s with
    | none =>
        rw [parsed] at read
        cases (Prod.mk.inj read).2
    | some ip =>
        rw [parsed] at read
        have same := (Prod.mk.inj read).1
        injection same with same
        exact parseIP_ne_compact parsed (Option.some.inj same)
  rw [if_neg compact]
  obtain ⟨four, sixteen⟩ := not_or.mp compact
  by_cases short : s.length < 2 ^ 31
  · rw [unmarshalBencode_eq ci short]
    cases parsed : parseIP s with
    | none => exact iff_of_true (Option.some_ne_none _) ⟨four, sixteen, fun _ => rfl⟩
    | some ip => exact iff_of_false (fun refused => refused rfl) fun ⟨_, _, none'⟩ => nomatch none' short
  · exact iff_of_true (unmarshalBencode_of_long ci (not_lt.mp short))
      ⟨four, sixteen, fun less => absurd less short⟩

/-- **`1.2.3.4` as it goes over the wire**: it is written as a string of seven bytes, which is read,
and the string of its four bytes is refused. -/
theorem compact_bytes_refused :
    marshalBencode [1, 2, 3, 4] = .ok (str "7:1.2.3.4") ∧
      encodeString [1, 2, 3, 4] = [52, 58, 1, 2, 3, 4] ∧
      (unmarshalBencode goNet (.bytes none) [52, 58, 1, 2, 3, 4]).2.isSome = true ∧
      (unmarshalBencode goNet (.bytes none) (str "7:1.2.3.4")).2.isNone = true := by
  refine ⟨rfl, ?_, ?_, ?_⟩ <;> decide +kernel

end CompactIP

/-! ### The handshake -/

namespace ExtendedHandshakeMsg

/-- The methods of the types of the fields. -/
def codecEnv : Env ExtType where
  methods
    | .ip => ipCodec
    | .compactIP =>
        { (handshakeEnv goNet).methods .compactIP with
          marshalBencode := some fun v => CompactIP.marshalBencode (ipOf v) }

/-- What `Encode` writes into its buffer. -/
def written (ehm : ExtendedHandshakeMsg) : Except Fault GoString := encodeBytes codecEnv ehm.toValue

/-- `ehm.Encode()`: the slice, or the error; the bytes that come with an error are left out. The
slice is set to those of the buffer only if there is an error. -/
def encode (ehm : ExtendedHandshakeMsg) : Except Fault (Option GoString) :=
  match ehm.written with
  | .ok _ => .ok none
  | .error fault => .error fault

/-- `ehm.Decode(b)` into a zero message. -/
def decode (b : Option GoString) : ExtendedHandshakeMsg × Option Fault :=
  decodeHandshake goNet {} (b.getD [])

theorem decode_none : (decode none).2 = some (.err .eof) := by decide +kernel

/-- **No message is decoded from what `Encode` returns**, not even as another one. -/
theorem not_decodes (ehm : ExtendedHandshakeMsg) :
    ¬ ∃ b msg, ehm.encode = .ok b ∧ decode b = (msg, none) := by
  rintro ⟨b, msg, encoded, decoded⟩
  have nothing : b = none := by
    unfold encode at encoded
    split at encoded
    · exact (Except.ok.inj encoded).symm
    · cases encoded
  have failed := decode_none
  rw [← nothing, decoded] at failed
  cases failed

/-- **A message that is lost**: what is written is a dictionary, and what is returned is nothing. -/
theorem handshake_lost :
    ({ v := str "x" } : ExtendedHandshakeMsg).written.toOption = some (str "d1:mde1:v1:xe") ∧
      ({ v := str "x" } : ExtendedHandshakeMsg).encode.toOption = some none ∧
      (decode none).2.isSome = true := by
  refine ⟨?_, ?_, ?_⟩ <;> decide +kernel

end ExtendedHandshakeMsg

end GoBt.PeerProtocol
