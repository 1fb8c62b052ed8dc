/-
**The frames of peer messages.**

`Decode` reads each kind of payload its own way: fields of a fixed width, a rest of known length, a
rest up to the end, a single byte. It reads through a limited reader and, if nothing else failed,
refuses a message that leaves some of its length unread.

* `readBody_lockstep` — how the body arrives does not show in what is read from it.
* `decode_consumes` — an accepted message takes its length and as many bytes as that says.
* `decode_agrees` — from any reader that delivers these bytes, the same message is read.
* `decode_framed` — both for every stream, and the frames of a stream are read one by one.
-/

import GoBt.Lib.Lockstep
import GoBt.PeerProtocol.Message

namespace GoBt.PeerProtocol

open GoBt.Lib
open Parsing (update readWith Lockstep Alike Agree)

section Lockstep

variable {ρ σ : Type} [ByteReader ρ] [ByteReader σ] {rest rest' : List UInt8} {missing : Nat}

/-! ### The body, read from two readers -/

/-- Two limited readers that have the same bytes left within their limits, and are as many bytes
short of them. What lies beyond the limits may differ. -/
abbrev SameBody (rest rest' : List UInt8) (missing : Nat) : Limited ρ → Limited σ → Prop :=
  Alike (Limited.Bounds rest missing) (Limited.Bounds rest' missing)

theorem SameBody.limit {l : Limited ρ} {l' : Limited σ} (alike : SameBody rest rest' missing l l') :
    l.limit = l'.limit := by
  rw [alike.left.limit_eq, alike.right.limit_eq, alike.same]

theorem readFull_lockstep (n : Nat) :
    Lockstep (SameBody rest rest' missing)
      (readWith readError (Lib.readFull · n) : DecodeM ρ _)
      (readWith readError (Lib.readFull · n) : DecodeM σ _) :=
  .readWith fun _ _ alike => alike.readFull Limited.read_bounds Limited.read_bounds n

theorem readAll_lockstep :
    Lockstep (SameBody rest rest' missing)
      (readWith readError readAll : DecodeM ρ _) (readWith readError readAll : DecodeM σ _) :=
  .readWith fun _ _ alike => alike.readAll Limited.read_bounds Limited.read_bounds

theorem readByte_lockstep :
    Lockstep (SameBody rest rest' missing) (readByte : DecodeM ρ _) (readByte : DecodeM σ _) :=
  Lockstep.bind
    (.readWith fun _ _ alike => alike.readOne Limited.read_bounds Limited.read_bounds)
    fun _ => .pure _

theorem readNat_lockstep (width : Nat) (fill : Nat → Message → Message) :
    Lockstep (SameBody rest rest' missing)
      (do let v ← readNat width; update (fill v) : DecodeM ρ Unit)
      (do let v ← readNat width; update (fill v) : DecodeM σ Unit) :=
  Lockstep.bind (Lockstep.bind (readFull_lockstep width) fun _ => .pure _) fun v => .update (fill v)

theorem readPiece_lockstep :
    Lockstep (SameBody rest rest' missing) (readPiece : DecodeM ρ Unit) (readPiece : DecodeM σ Unit)
    := by
  intro m l l' alike
  obtain ⟨bytes, err, after⟩ :=
    alike.readFull Limited.read_bounds Limited.read_bounds l'.limit
  unfold readPiece
  dsimp only
  rw [alike.limit, bytes, err]
  rcases (Lib.readFull l' l'.limit).2.1 with _ | failed
  · exact .ok () _ after
  · exact .error _ _ after

theorem readExtendedID_lockstep :
    Lockstep (SameBody rest rest' missing) (readExtendedID : DecodeM ρ Unit)
      (readExtendedID : DecodeM σ Unit) := by
  intro m l l' alike
  have agree := readByte_lockstep m l l' alike
  unfold readExtendedID
  generalize (readByte : DecodeM ρ _) ⟨m, l⟩ = left at agree ⊢
  generalize (readByte : DecodeM σ _) ⟨m, l'⟩ = right at agree ⊢
  cases agree with
  | ok id t related => exact .ok () _ related
  | error err t related => exact .error err _ related

/-- **Every case of the decoder** reads the same from bodies that are the same. -/
theorem readPayload_lockstep (length : UInt32) (layout : Layout) :
    Lockstep (SameBody rest rest' missing) (readPayload length layout : DecodeM ρ Unit)
      (readPayload length layout : DecodeM σ Unit) := by
  have index : Lockstep (SameBody rest rest' missing) (readIndex : DecodeM ρ Unit)
      (readIndex : DecodeM σ Unit) :=
    readNat_lockstep 4 fun v m => { m with index := .ofNat v }
  have begin : Lockstep (SameBody rest rest' missing) (readBegin : DecodeM ρ Unit)
      (readBegin : DecodeM σ Unit) :=
    readNat_lockstep 4 fun v m => { m with begin := .ofNat v }
  have length : Lockstep (SameBody rest rest' missing) (readLength : DecodeM ρ Unit)
      (readLength : DecodeM σ Unit) :=
    readNat_lockstep 4 fun v m => { m with length := .ofNat v }
  cases layout with
  | nothing => exact .pure ()
  | index => exact index
  | request => exact index.seq (begin.seq length)
  | bitField => exact (readFull_lockstep _).bind fun _ => .update _
  | piece => exact index.seq (begin.seq readPiece_lockstep)
  | extended => exact readExtendedID_lockstep.seq (readAll_lockstep.bind fun _ => .update _)
  | port => exact readNat_lockstep 2 fun v m => { m with port := .ofNat v }
  | unknown => exact readAll_lockstep.bind fun _ => .update _

theorem readBody_lockstep (length : UInt32) :
    Lockstep (SameBody rest rest' missing) (readBody length : DecodeM ρ Unit)
      (readBody length : DecodeM σ Unit) :=
  readByte_lockstep.bind fun t =>
    (Lockstep.update fun m => { m with type := t }).seq
      (readPayload_lockstep length (decodeLayout t))

end Lockstep

/-! ### One message -/

/-- What the four bytes in front of a message say about the bytes after them. -/
def announced (stream : List UInt8) : Nat := beNat (stream.take 4)

section Decode

variable {ρ σ : Type} [ByteReader ρ] [ByteReader σ]

theorem decode_of_short (m : Message) (maxLength : UInt32) {r : ρ} (short : (remaining r).length < 4) :
    (decode m r maxLength).1 = m ∧ (decode m r maxLength).2.1 =
      some (if remaining r = [] then .eof
        else .other ("reading length error: " ++ (readError .unexpectedEOF).text)) := by
  have failed := (readFull_spec r 4).2.1
  rw [if_neg (by omega)] at failed
  unfold decode
  dsimp only
  by_cases ended : remaining r = []
  · rw [if_pos ended] at failed
    rw [failed, if_pos ended]
    exact ⟨rfl, rfl⟩
  · rw [if_neg ended] at failed
    rw [failed, if_neg ended]
    exact ⟨rfl, rfl⟩

theorem announced_lt (stream : List UInt8) : announced stream < 2 ^ 32 :=
  calc beNat (stream.take 4) < 256 ^ (stream.take 4).length := beNat_lt _
    _ ≤ 256 ^ 4 := Nat.pow_le_pow_right (by decide) (List.length_take_le 4 stream)

theorem decode_of_header {r : ρ} (enough : 4 ≤ (remaining r).length) :
    ∃ r', remaining r' = (remaining r).drop 4 ∧ ∀ maxLength,
      decode {} r maxLength =
        if announced (remaining r) = 0 then ({ keepalive := true }, none, r')
        else if 0 < maxLength ∧ maxLength.toNat < announced (remaining r) then
          ({}, some errMessageTooLong, r')
        else
          match readBody (.ofNat (announced (remaining r)))
            ⟨{}, ⟨r', announced (remaining r)⟩⟩ with
          | .ok _ s => (s.value, unused s.input.limit s.value, s.input.reader)
          | .error err s => (s.value, some err, s.input.reader) := by
  have four : ((remaining r).take 4).length = 4 := List.length_take_of_le enough
  have spelled : bePut 4 (announced (remaining r)) = (remaining r).take 4 := by
    have back := bePut_beNat ((remaining r).take 4)
    rwa [four] at back
  have small := announced_lt (remaining r)
  have length : (UInt32.ofNat (announced (remaining r))).toNat = announced (remaining r) :=
    UInt32.toNat_ofNat_of_lt' small
  have zero : UInt32.ofNat (announced (remaining r)) = 0 ↔ announced (remaining r) = 0 := by
    rw [← UInt32.toNat_inj, length]
    rfl
  obtain ⟨r', left, decoded⟩ := decode_of_delivers {} small
    (by rw [spelled]; exact (List.take_append_drop 4 _).symm)
  refine ⟨r', left, fun maxLength => ?_⟩
  rw [decoded, length]
  refine if_congr zero rfl (if_congr (and_congr_right fun _ => ?_) rfl rfl)
  rw [UInt32.lt_iff_toNat_lt, length]

theorem unused_eq_none_iff (limit : Nat) (m : Message) : unused limit m = none ↔ limit = 0 := by
  unfold unused
  split <;> simp_all

theorem readBody_consumes {length : UInt32} {l l' : Limited ρ} {m m' : Message}
    (ran : readBody length ⟨m, l⟩ = .ok () ⟨m', l'⟩) (used : l'.limit = 0) :
    l.limit ≤ (remaining l.reader).length ∧
      remaining l'.reader = (remaining l.reader).drop l.limit := by
  have bounds := Limited.bounds l
  -- Run beside itself, the body shows which bounds its last reader keeps.
  have agree := readBody_lockstep length m l l ⟨bounds, bounds, rfl⟩
  rw [ran] at agree
  obtain ⟨after, _⟩ : SameBody ((remaining l.reader).drop l.limit) ((remaining l.reader).drop l.limit)
      (l.limit - (remaining l).length) l' l' := by
    cases agree with
    | ok a t related => exact related
  obtain ⟨nothing, none'⟩ := Nat.add_eq_zero_iff.mp (after.limit_eq.symm.trans used)
  constructor
  · have within : l.limit ≤ (remaining l).length := Nat.sub_eq_zero_iff_le.mp none'
    exact within.trans (List.length_take_le' _ _)
  · rw [after.whole, List.length_eq_zero_iff.mp nothing, List.nil_append]

/-- **An accepted message takes what its length says**: the four bytes and as many as they
announce, which the stream has. -/
theorem decode_consumes {maxLength : UInt32} {r r' : ρ} {m : Message}
    (decoded : decode {} r maxLength = (m, none, r')) :
    4 + announced (remaining r) ≤ (remaining r).length ∧
      (0 < maxLength → announced (remaining r) ≤ maxLength.toNat) ∧
      remaining r' = (remaining r).drop (4 + announced (remaining r)) := by
  have enough : 4 ≤ (remaining r).length := by
    by_contra short
    have failed := (decode_of_short {} maxLength (not_le.mp short)).2
    rw [decoded] at failed
    cases failed
  obtain ⟨between, left, ran⟩ := decode_of_header enough
  replace ran := ran maxLength
  rw [decoded] at ran
  by_cases zero : announced (remaining r) = 0
  · rw [if_pos zero] at ran
    obtain ⟨_, _, rest⟩ := by simpa only [Prod.mk.injEq] using ran
    rw [zero, rest, left]
    exact ⟨enough, fun _ => Nat.zero_le _, rfl⟩
  rw [if_neg zero] at ran
  by_cases long : 0 < maxLength ∧ maxLength.toNat < announced (remaining r)
  · rw [if_pos long] at ran
    cases ran
  rw [if_neg long] at ran
  rcases body : readBody (.ofNat (announced (remaining r)))
      ⟨{}, ⟨between, announced (remaining r)⟩⟩ with ⟨⟨⟩, value, l⟩ | ⟨err, s⟩ <;> rw [body] at ran
  · obtain ⟨_, used, rest⟩ := by simpa only [Prod.mk.injEq] using ran
    obtain ⟨size, beyond⟩ := readBody_consumes body ((unused_eq_none_iff _ _).mp used.symm)
    dsimp only at size beyond
    rw [left, List.length_drop] at size
    rw [left, List.drop_drop] at beyond
    refine ⟨by omega, fun positive => ?_, rest ▸ beyond⟩
    exact not_lt.mp fun less => long ⟨positive, less⟩
  · cases ran

/-! ### The same bytes from another reader -/

/-- Two streams that do not differ within the message that the first announces. -/
def SameFrame (stream stream' : List UInt8) : Prop :=
  stream'.take (4 + announced stream) = stream.take (4 + announced stream)

theorem SameFrame.take_four {stream stream' : List UInt8} (same : SameFrame stream stream') :
    stream'.take 4 = stream.take 4 := by
  have front := congrArg (List.take 4) same
  rwa [List.take_take, List.take_take, min_eq_left (Nat.le_add_right _ _)] at front

theorem SameFrame.announced_eq {stream stream' : List UInt8} (same : SameFrame stream stream') :
    announced stream' = announced stream :=
  congrArg beNat same.take_four

theorem SameFrame.body {stream stream' : List UInt8} (same : SameFrame stream stream') :
    (stream'.drop 4).take (announced stream) = (stream.drop 4).take (announced stream) := by
  have back := congrArg (List.drop 4) same
  rwa [List.drop_take, List.drop_take, Nat.add_sub_cancel_left] at back

/-- **The message depends on its own bytes only**: from readers that deliver the same frame, or
end within it after the same bytes, `Decode` gets the same message and the same error. -/
theorem decode_agrees (maxLength : UInt32) {r : ρ} {q : σ} (same : SameFrame (remaining r) (remaining q)) :
    (decode {} q maxLength).1 = (decode {} r maxLength).1 ∧
      (decode {} q maxLength).2.1 = (decode {} r maxLength).2.1 := by
  have four := same.take_four
  have lengths := congrArg List.length four
  rw [List.length_take, List.length_take] at lengths
  by_cases enough : 4 ≤ (remaining r).length
  · have enough' : 4 ≤ (remaining q).length := by omega
    obtain ⟨r', left, decoded⟩ := decode_of_header enough
    obtain ⟨q', left', decoded'⟩ := decode_of_header enough'
    rw [decoded, decoded', same.announced_eq]
    generalize count : announced (remaining r) = n
    by_cases zero : n = 0
    · rw [if_pos zero, if_pos zero]
      exact ⟨rfl, rfl⟩
    rw [if_neg zero, if_neg zero]
    split
    · exact ⟨rfl, rfl⟩
    have front : remaining (⟨r', n⟩ : Limited ρ) = remaining (⟨q', n⟩ : Limited σ) := by
      show (remaining r').take n = (remaining q').take n
      rw [left, left', ← count]
      exact same.body.symm
    have bounds := Limited.bounds (⟨r', n⟩ : Limited ρ)
    rw [front] at bounds
    have agree := readBody_lockstep (.ofNat n) {} _ _ ⟨bounds, Limited.bounds ⟨q', n⟩, front⟩
    generalize (readBody (.ofNat n) : DecodeM ρ Unit) ⟨{}, ⟨r', n⟩⟩ = result at agree ⊢
    generalize (readBody (.ofNat n) : DecodeM σ Unit) ⟨{}, ⟨q', n⟩⟩ = result' at agree ⊢
    cases agree with
    | ok a t related => exact ⟨rfl, congrArg (unused · t) related.limit.symm⟩
    | error err t related => exact ⟨rfl, rfl⟩
  · have short : (remaining r).length < 4 := not_le.mp enough
    have short' : (remaining q).length < 4 := by omega
    rw [List.take_of_length_le short.le, List.take_of_length_le short'.le] at four
    obtain ⟨message, err⟩ := decode_of_short {} maxLength short
    obtain ⟨message', err'⟩ := decode_of_short {} maxLength short'
    rw [message, message', err, err', four]
    exact ⟨rfl, rfl⟩

theorem decode_again {maxLength : UInt32} {r r' : ρ} {q : σ} {m : Message}
    (decoded : decode {} r maxLength = (m, none, r'))
    (same : SameFrame (remaining r) (remaining q)) :
    ∃ q', decode {} q maxLength = (m, none, q') ∧
      remaining q' = (remaining q).drop (4 + announced (remaining r)) := by
  obtain ⟨message, err⟩ := decode_agrees maxLength same
  rw [decoded] at message err
  have decoded' : decode {} q maxLength = (m, none, (decode {} q maxLength).2.2) :=
    Prod.ext message (Prod.ext err rfl)
  refine ⟨_, decoded', ?_⟩
  rw [(decode_consumes decoded').2.2, same.announced_eq]

/-! ### A stream of messages -/

/-- `Decode` once for each of `n` messages, up to the first one that fails. -/
def decodeAll (maxLength : UInt32) : Nat → ρ → List Message × Option GoError × ρ
  | 0, r => ([], none, r)
  | n + 1, r =>
      match decode {} r maxLength with
      | (_, some err, r) => ([], some err, r)
      | (m, none, r) =>
          let rest := decodeAll maxLength n r
          (m :: rest.1, rest.2)

/-- The frame by itself, in some portions, is accepted as the message. -/
def Accepts (maxLength : UInt32) (frame : List UInt8) (m : Message) : Prop :=
  ∃ r r' : Chunked, remaining r = frame ∧ decode {} r maxLength = (m, none, r') ∧ remaining r' = []

/-- Whatever follows an accepted frame, and however it arrives, its message is read. -/
theorem Accepts.decode_eq {maxLength : UInt32} {frame more : List UInt8} {m : Message}
    (accepts : Accepts maxLength frame m) {q : σ} (delivers : remaining q = frame ++ more) :
    ∃ q', decode {} q maxLength = (m, none, q') ∧ remaining q' = more := by
  obtain ⟨r, r', rfl, decoded, ended⟩ := accepts
  obtain ⟨within, _, left⟩ := decode_consumes decoded
  have whole : (remaining r).length = 4 + announced (remaining r) := by
    rw [ended] at left
    exact le_antisymm (List.drop_eq_nil_iff.mp left.symm) within
  have same : SameFrame (remaining r) (remaining q) := by
    unfold SameFrame
    rw [delivers, List.take_append_of_le_length within]
  obtain ⟨q', decoded', left'⟩ := decode_again decoded same
  refine ⟨q', decoded', ?_⟩
  rw [left', delivers, List.drop_left' whole]

/-- A limit on the length does not change the message, unless it is too long. -/
theorem Accepts.decode_limited {frame more : List UInt8} {m : Message} (accepts : Accepts 0 frame m)
    (maxLength : UInt32) {q : σ} (delivers : remaining q = frame ++ more) :
    ∃ q', if 0 < maxLength ∧ maxLength.toNat < announced frame then
        decode {} q maxLength = ({}, some errMessageTooLong, q')
      else decode {} q maxLength = (m, none, q') ∧ remaining q' = more := by
  obtain ⟨q', free, left⟩ := accepts.decode_eq delivers
  obtain ⟨r, r', rfl, decoded, _⟩ := accepts
  have enough : 4 ≤ (remaining r).length := by
    have within := (decode_consumes decoded).1
    omega
  have same : announced (remaining q) = announced (remaining r) := by
    rw [announced, delivers, List.take_append_of_le_length enough]
    rfl
  obtain ⟨q₀, _, header⟩ := decode_of_header (r := q) (by rw [delivers, List.length_append]; omega)
  have unlimited : ¬ (0 < (0 : UInt32) ∧ (0 : UInt32).toNat < announced (remaining r)) :=
    fun limit => absurd limit.1 (by decide)
  rw [header 0, same, if_neg unlimited] at free
  rw [header maxLength, same]
  by_cases zero : announced (remaining r) = 0
  · rw [if_pos zero] at free ⊢
    exact ⟨q', by rw [if_neg (by omega)]; exact ⟨free, left⟩⟩
  · rw [if_neg zero] at free ⊢
    split
    · exact ⟨q₀, rfl⟩
    · exact ⟨q', free, left⟩

theorem decodeAll_of_accepts {maxLength : UInt32} {frames : List (List UInt8)}
    {messages : List Message} (accepted : List.Forall₂ (Accepts maxLength) frames messages) {q : σ}
    {more : List UInt8} (delivers : remaining q = frames.flatten ++ more) :
    ∃ q', decodeAll maxLength frames.length q = (messages, none, q') ∧ remaining q' = more := by
  induction accepted generalizing q with
  | nil => exact ⟨q, rfl, delivers⟩
  | cons first _ ih =>
    rw [List.flatten_cons, List.append_assoc] at delivers
    obtain ⟨q', decoded, left⟩ := first.decode_eq delivers
    obtain ⟨q'', decodedRest, left'⟩ := ih left
    refine ⟨q'', ?_, left'⟩
    simp only [List.length_cons, decodeAll, decoded, decodedRest]

end Decode

/-- **Framing never gets out of step.** For every maximum and every stream, in any portions:

* `Decode` accepts a message only if the stream has the four bytes of its length and as many as
  they announce, no more than the maximum if there is one, and it takes exactly these;
* it gets the same message, or the same error, from every stream that does not differ within them,
  in whatever portions;
* frames that are accepted by themselves are read one by one from a stream that starts with all of
  them. -/
theorem decode_framed (maxLength : UInt32) :
    (∀ (r r' : Chunked) (m : Message), decode {} r maxLength = (m, none, r') →
      4 + announced (remaining r) ≤ (remaining r).length ∧
        (0 < maxLength → announced (remaining r) ≤ maxLength.toNat) ∧
        remaining r' = (remaining r).drop (4 + announced (remaining r))) ∧
    (∀ r q : Chunked, SameFrame (remaining r) (remaining q) →
      (decode {} q maxLength).1 = (decode {} r maxLength).1 ∧
        (decode {} q maxLength).2.1 = (decode {} r maxLength).2.1) ∧
    ∀ (frames : List (List UInt8)) (messages : List Message),
      List.Forall₂ (Accepts maxLength) frames messages →
      ∀ (q : Chunked) (more : List UInt8), remaining q = frames.flatten ++ more →
        ∃ q', decodeAll maxLength frames.length q = (messages, none, q') ∧ remaining q' = more :=
  ⟨fun _ _ _ decoded => decode_consumes decoded, fun _ _ same => decode_agrees maxLength same,
    fun _ _ accepted _ _ delivers => decodeAll_of_accepts accepted delivers⟩

end GoBt.PeerProtocol
