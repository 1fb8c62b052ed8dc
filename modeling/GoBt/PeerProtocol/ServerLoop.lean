/-
**The loop of the peer protocol server** (`peerprotocol/server.go`).

* `loopRun` — the source's loop: read a message, handle it, until one of the two fails. The rounds
  are counted by fuel.
* `readMsg_alike` — what one message is does not depend on the portions it arrives in.
* **`loopRun_of_stream`** — every session ends, since a message takes bytes of the stream; and how it
  ends, which methods of the handler are called and what becomes of the connection depend on the
  bytes only.
* **`loopRun_of_sent`** — the messages that a peer encodes are handled as `session` says, which
  knows of no bytes.
* **`loopRun_of_broken_off`** — a stream that ends behind the length of a further message is taken
  for one that ends between two messages.
-/

import GoBt.PeerProtocol.Framing
import GoBt.PeerProtocol.PeerConn

namespace GoBt.PeerProtocol

open GoBt.Lib GoBt.Metainfo

/-- How `loopRun` returns: without an error, or because a message could not be read or handled. -/
inductive Ending
  | returned
  | decoding (err : GoError)
  | handling (err : HandleError)
  deriving DecidableEq

/-- The switch over the error of `ReadMsg`. -/
def readEnding (err : GoError) : Ending :=
  if err = .eof ∨ "closed".toList <:+: err.text.toList then .returned else .decoding err

section Loop

variable {ρ τ σ : Type} [ByteReader ρ] [ByteReader τ] (net : NetIP) (handler : Handler σ)

/-- `s.loopRun(pc, handler)` with the default `HandleMessage`; `none` if the fuel runs out. -/
def loopRun : Nat → ρ → ConnM σ (Option Ending)
  | 0, _ => pure none
  | fuel + 1, r => do
      let s ← Act.get
      let read := readMsg s.1 r
      match read.2.1 with
      | some err => pure (some (readEnding err))
      | none => do
          update fun _ => read.2.2.1
          match ← handleMessage net handler read.1 with
          | some err => pure (some (.handling err))
          | none => loopRun fuel read.2.2.2

theorem readMsg_alike (pc : Conn) {r : ρ} {q : τ} (same : remaining q = remaining r) :
    (readMsg pc q).1 = (readMsg pc r).1 ∧ (readMsg pc q).2.1 = (readMsg pc r).2.1 ∧
      (readMsg pc q).2.2.1 = (readMsg pc r).2.2.1 ∧
      ((readMsg pc r).2.1 = none →
        remaining (readMsg pc q).2.2.2 = remaining (readMsg pc r).2.2.2 ∧
          (remaining (readMsg pc r).2.2.2).length < (remaining r).length) := by
  have frame : SameFrame (remaining r) (remaining q) := by
    unfold SameFrame
    rw [same]
  obtain ⟨message, error⟩ := decode_agrees pc.maxLength frame
  have left := fun r' m => @decode_consumes _ _ pc.maxLength r r' m
  have left' := fun q' m => @decode_consumes _ _ pc.maxLength q q' m
  unfold readMsg
  generalize decode {} r pc.maxLength = result at message error left
  generalize decode {} q pc.maxLength = result' at message error left'
  obtain ⟨m, err, r'⟩ := result
  obtain ⟨m', err', q'⟩ := result'
  obtain rfl : m' = m := message
  obtain rfl : err' = err := error
  cases err' with
  | some err => exact ⟨rfl, rfl, rfl, nofun⟩
  | none =>
    obtain ⟨enough, _, rest⟩ := left r' m' rfl
    obtain ⟨_, _, rest'⟩ := left' q' m' rfl
    dsimp only
    split
    · exact ⟨rfl, rfl, rfl, nofun⟩
    · refine ⟨rfl, rfl, rfl, fun _ => ⟨?_, ?_⟩⟩
      · rw [rest, rest', same]
      · rw [rest, List.length_drop]
        omega

/-- **A session of the server.** If the stream is finite, `loopRun` returns, from any state of the
connection and whatever the handler does. The way it returns, the calls of the handler and the
connection that is left depend on the bytes of the stream only, not on the portions in which they
arrive. -/
theorem loopRun_of_stream {fuel fuel' : Nat} {r : ρ} {q : τ} (same : remaining q = remaining r)
    (enough : (remaining r).length < fuel) (enough' : (remaining r).length < fuel')
    (s : Conn × σ) :
    loopRun net handler fuel' q s = loopRun net handler fuel r s ∧
      ((loopRun net handler fuel r).value s).isSome = true := by
  induction fuel generalizing fuel' r q s with
  | zero => cases enough
  | succ fuel ih =>
    cases fuel' with
    | zero => cases enough'
    | succ fuel' =>
      obtain ⟨message, error, conn, rest⟩ := readMsg_alike s.1 same
      unfold loopRun
      simp only [Act.get_bind_apply, Act.get_bind_value, message, error, conn]
      cases failed : (readMsg s.1 r).2.1 with
      | some err => exact ⟨rfl, rfl⟩
      | none =>
        obtain ⟨left, shorter⟩ := rest failed
        have goesOn := @ih fuel' _ _ left (by omega) (by omega)
        constructor
        · refine Act.bind_congr_at (Act.bind_congr_at ?_)
          cases (handleMessage net handler (readMsg s.1 r).1).value _ with
          | some err => rfl
          | none => exact (goesOn _).1
        · rw [Act.bind_value, Act.bind_value]
          cases (handleMessage net handler (readMsg s.1 r).1).value _ with
          | some err => rfl
          | none => exact (goesOn _).2

theorem loopRun_of_stream_portions :
    loopRun noNet noopHandler 9 (.ofPortions [[0, 0], [0, 0]] : Chunked)
        (newPeerConn (.fill 1) (.fill 2), ()) =
      loopRun noNet noopHandler 5 (.whole [0, 0, 0, 0] : Chunked)
        (newPeerConn (.fill 1) (.fill 2), ()) :=
  (loopRun_of_stream noNet noopHandler (by decide) (by decide) (by decide) _).1

theorem readBody_ended (length : UInt32) {m : Message} {l : Limited ρ} (ended : remaining l = []) :
    ∃ s, readBody length ⟨m, l⟩ = .error .eof s := by
  have read : (Parsing.readWith readError (ByteReader.read · 1) : DecodeM ρ _) ⟨m, l⟩ =
      .error (readError .eof) _ :=
    Parsing.readWith_of_some (ByteReader.read_of_nil l 1 ended Nat.one_pos).2.1
  exact ⟨_, Parsing.bind_of_error (Parsing.bind_of_error read)⟩

theorem loopRun_of_header (fuel : Nat) {r : ρ} (four : (remaining r).length = 4)
    (s : Conn × σ) (live : announced (remaining r) ≠ 0)
    (fits : ¬ (0 < s.1.maxLength ∧ s.1.maxLength.toNat < announced (remaining r))) :
    loopRun net handler (fuel + 1) r s = (some .returned, s, []) := by
  obtain ⟨r', left, decoded⟩ := decode_of_header four.ge
  replace decoded := decoded s.1.maxLength
  have ended : remaining (⟨r', announced (remaining r)⟩ : Limited ρ) = [] := by
    show (remaining r').take _ = []
    rw [left, List.drop_eq_nil_of_le four.le, List.take_nil]
  obtain ⟨after, body⟩ := readBody_ended (.ofNat (announced (remaining r))) ended
  rw [if_neg live, if_neg fits, body] at decoded
  unfold loopRun readMsg
  rw [Act.get_bind_apply, decoded]
  rfl

theorem loopRun_of_end (fuel : Nat) {r : ρ} (ended : remaining r = []) (s : Conn × σ) :
    loopRun net handler (fuel + 1) r s = (some .returned, s, []) := by
  have failed := (decode_of_short {} s.1.maxLength (r := r) (by rw [ended]; decide)).2
  rw [if_pos ended] at failed
  unfold loopRun readMsg
  rw [Act.get_bind_apply]
  generalize decode {} r s.1.maxLength = result at failed
  obtain ⟨m, err, r'⟩ := result
  obtain rfl : err = some .eof := failed
  rfl

/-! ### What the peer sends -/

/-- The message arrives as it was: only what its type uses is set, its length has four bytes, and it
is neither `Suggest` nor `AllowedFast`, which are written without their index. -/
structure Sendable (m : Message) : Prop where
  set : m = { keepalive := true } ∨
    m.keepalive = false ∧ m.OnlyUsed ∧ m.type ≠ mTypeSuggest ∧ m.type ≠ mTypeAllowedFast
  short : m.body.length < 2 ^ 32

/-- The error of `ReadMsg` at a message that arrives as it was. -/
def refusal (pc : Conn) (m : Message) : Option GoError :=
  if 0 < pc.maxLength ∧ pc.maxLength.toNat < m.body.length then some errMessageTooLong
  else if MessageKind.of m.type ∈ firstKinds ∧ pc.peerStage ≠ .handshook then
    some (.other (messageTypeString m.type ++ " is not first message after handshake"))
  else none

/-- What becomes of a connection whose peer sends the messages and closes it. -/
def session : List Message → ConnM σ (Option Ending)
  | [] => pure (some .returned)
  | m :: rest => do
      let s ← Act.get
      match refusal s.1 m with
      | some err => pure (some (readEnding err))
      | none => do
          update fun _ => s.1.moveOn
          match ← handleMessage net handler m with
          | some err => pure (some (.handling err))
          | none => session rest

theorem Sendable.accepts {m : Message} (sendable : Sendable m) : Accepts 0 m.encode m := by
  have known : m.keepalive = true ∨ m.type ≠ mTypeSuggest ∧ m.type ≠ mTypeAllowedFast :=
    sendable.set.imp (fun keepalive => by rw [keepalive]) fun live => live.2.2
  have back := (decode_encode_iff m (sendable.set.imp_right fun live => ⟨live.1, live.2.1⟩) 0
    sendable.short (.inl rfl) (Chunked.whole m.encode) []
    (by rw [Chunked.remaining_whole, List.append_nil])).mpr known
  exact ⟨_, _, Chunked.remaining_whole _, Prod.ext back.1 (Prod.ext back.2.1 rfl), back.2.2⟩

theorem Sendable.announced {m : Message} (sendable : Sendable m) :
    announced m.encode = m.body.length := by
  rw [PeerProtocol.announced, Message.encode, List.take_left' (length_bePut 4 _), beNat_bePut,
    Nat.mod_eq_of_lt sendable.short]
  exact Nat.mod_eq_of_lt sendable.short

theorem readMsg_sent {m : Message} (sendable : Sendable m) (pc : Conn) {r : ρ}
    {rest : List UInt8} (delivers : remaining r = m.encode ++ rest) :
    (readMsg pc r).2.1 = refusal pc m ∧ (refusal pc m = none →
      (readMsg pc r).1 = m ∧ (readMsg pc r).2.2.1 = pc.moveOn ∧
        remaining (readMsg pc r).2.2.2 = rest) := by
  obtain ⟨r', decoded⟩ := sendable.accepts.decode_limited pc.maxLength delivers
  rw [sendable.announced] at decoded
  unfold readMsg refusal
  split at decoded
  · rw [decoded, if_pos ‹_›]
    exact ⟨rfl, nofun⟩
  · rw [decoded.1, if_neg ‹_›]
    dsimp only
    split
    · exact ⟨rfl, nofun⟩
    · exact ⟨rfl, fun _ => ⟨rfl, rfl, decoded.2⟩⟩

/-- The messages of a peer in front of bytes at which `loopRun` returns, if the connection is then
as `ends` asks for. -/
theorem loopRun_of_front {tail : List UInt8} {P : Conn × σ → Prop}
    (ends : ∀ fuel (r : ρ) s, remaining r = tail → P s →
      loopRun net handler (fuel + 1) r s = (some .returned, s, []))
    {fuel : Nat} {ms : List Message} (sendable : ∀ m ∈ ms, Sendable m) {r : ρ}
    (delivers : remaining r = ms.flatMap Message.encode ++ tail) (enough : ms.length < fuel)
    {s : Conn × σ} (last : P ((session net handler ms).state s)) :
    loopRun net handler fuel r s = session net handler ms s := by
  induction ms generalizing fuel r s with
  | nil =>
    obtain ⟨fuel, rfl⟩ := Nat.exists_eq_add_one_of_ne_zero (Nat.ne_zero_of_lt enough)
    exact ends fuel r s delivers last
  | cons m ms ih =>
    obtain ⟨fuel, rfl⟩ := Nat.exists_eq_add_one_of_ne_zero (Nat.ne_zero_of_lt enough)
    rw [List.flatMap_cons, List.append_assoc] at delivers
    obtain ⟨error, accepted⟩ := readMsg_sent (sendable m (.head _)) s.1 delivers
    unfold session at last
    rw [Act.get_bind_state] at last
    unfold loopRun session
    rw [Act.get_bind_apply, Act.get_bind_apply, error]
    cases refused : refusal s.1 m with
    | some err => rfl
    | none =>
      obtain ⟨message, conn, left⟩ := accepted refused
      rw [refused] at last
      dsimp only at last
      rw [Act.bind_state, Act.bind_state] at last
      rw [message, conn]
      refine Act.bind_congr_at (Act.bind_congr_at ?_)
      cases handled : (handleMessage net handler m).value _ with
      | some err => rfl
      | none =>
        rw [handled] at last
        exact ih (fun m' member => sendable m' (.tail _ member)) left
          (Nat.lt_of_succ_lt_succ enough) last

/-- **What the peer sends is handled.** Messages that arrive as they were are handled one after the
other, in whatever portions they come, up to the first one that `ReadMsg` refuses or whose handling
fails; after the last one `loopRun` returns without an error. -/
theorem loopRun_of_sent {fuel : Nat} {ms : List Message} (sendable : ∀ m ∈ ms, Sendable m) {r : ρ}
    (delivers : remaining r = ms.flatMap Message.encode) (enough : ms.length < fuel)
    (s : Conn × σ) : loopRun net handler fuel r s = session net handler ms s :=
  loopRun_of_front net handler (P := fun _ => True)
    (fun fuel _ s ended _ => loopRun_of_end net handler fuel ended s) sendable
    (delivers.trans (List.append_nil _).symm) enough trivial

/-- The `Have` message of a sample peer. -/
def sampleHave : Message := { type := mTypeHave, index := 7 }

theorem sendable_sampleHave (m : Message) (member : m ∈ [sampleHave]) : Sendable m := by
  obtain rfl := List.mem_singleton.mp member
  exact ⟨Or.inr ⟨rfl, by constructor <;> decide, by decide, by decide⟩, by decide⟩

theorem loopRun_of_sent_have :
    loopRun noNet noopHandler 2 (.whole [0, 0, 0, 5, 4, 0, 0, 0, 7] : Chunked)
        (newPeerConn (.fill 1) (.fill 2), ()) =
      session noNet noopHandler [sampleHave]
        (newPeerConn (.fill 1) (.fill 2), ()) :=
  loopRun_of_sent noNet noopHandler sendable_sampleHave (by decide) (by decide) _

/-- **A message that is broken off.** If the stream ends right behind the length of a further
message, which is not too long for the connection by then, the session is the one of a stream that
ends between two messages: `loopRun` returns without an error. -/
theorem loopRun_of_broken_off {fuel : Nat} {ms : List Message} (sendable : ∀ m ∈ ms, Sendable m)
    {header : List UInt8} (four : header.length = 4) (live : announced header ≠ 0) {r : ρ}
    (delivers : remaining r = ms.flatMap Message.encode ++ header) (enough : ms.length < fuel)
    (s : Conn × σ)
    (fits : let pc := ((session net handler ms).state s).1
      ¬ (0 < pc.maxLength ∧ pc.maxLength.toNat < announced header)) :
    loopRun net handler fuel r s = session net handler ms s := by
  refine loopRun_of_front net handler
    (P := fun s => ¬ (0 < s.1.maxLength ∧ s.1.maxLength.toNat < announced header))
    (fun fuel r s left fits => ?_) sendable delivers enough fits
  rw [← left] at four live fits
  exact loopRun_of_header net handler fuel four s live fits

theorem loopRun_of_broken_off_five :
    loopRun noNet noopHandler 2 (.whole [0, 0, 0, 5, 4, 0, 0, 0, 7, 0, 0, 0, 5] : Chunked)
        (newPeerConn (.fill 1) (.fill 2), ()) =
      session noNet noopHandler [sampleHave]
        (newPeerConn (.fill 1) (.fill 2), ()) :=
  have header : ([0, 0, 0, 5] : List UInt8).length = 4 := rfl
  loopRun_of_broken_off noNet noopHandler sendable_sampleHave header (by decide) (by decide)
    (by decide) _ (by decide)

end Loop

end GoBt.PeerProtocol
