/-
**Sequences of extended messages** (`peerprotocol/peerconn.go`, `handleExtMsg`).

A handshake is decoded into the connection while it is read. What it has filled in before an error
stays there, and the field `M` is what later messages go by.

* `ExtRun`, `extStep` — a connection with the calls that were made so far, and one message.
* `Fine` — what is expected of one message: a handshake that fails leaves the connection as it was,
  and `OnPayload` is called only after `OnExtHandShake`.
* `handleExtMsg_cases` — **what one message does** as long as no message id is known.
* **`extended_runs_fine`** — a run is as expected if no payload up to the first one that is accepted
  has a key of the handshake message.
-/

import GoBt.PeerProtocol.PeerConn

namespace GoBt.PeerProtocol

open GoBt.Lib GoBt.Bencode

section Extended

variable {σ : Type}

/-- A connection and the calls that were made so far. -/
structure ExtRun (σ : Type) where
  conn : Conn
  world : σ
  calls : List Call := []

variable (net : NetIP) (handler : Handler σ)

/-- One extended message, whatever the error of the one before. -/
def extStep (s : ExtRun σ) (m : Message) : ExtRun σ :=
  let (_, (pc, w), calls) := handleExtMsg net handler m (s.conn, s.world)
  { conn := pc, world := w, calls := s.calls ++ calls }

/-- What is expected of a message in a state. -/
structure Fine (s : ExtRun σ) (m : Message) : Prop where
  /-- A handshake that fails before `OnExtHandShake` is called leaves no trace. -/
  atomic : .onExtHandShake ∉ s.calls → m.extendedID = extendedIDHandshake →
    (handleExtMsg net handler m).value (s.conn, s.world) ≠ none →
    .onExtHandShake ∉ (handleExtMsg net handler m).effects (s.conn, s.world) →
      (extStep net handler s m).conn.extendedHandshakeMsg = s.conn.extendedHandshakeMsg
  /-- A payload is passed on only after a handshake. -/
  shaken : ∀ id payload,
    .onPayload id payload ∈ (handleExtMsg net handler m).effects (s.conn, s.world) →
      .onExtHandShake ∈ s.calls

/-- Decoded into the message, the payload makes it one with message ids. -/
def accepted (msg : ExtendedHandshakeMsg) (payload : List UInt8) : Bool :=
  (decodeHandshake net msg payload).2.isNone &&
    (decodeHandshake net msg payload).1.messageIDs.entries.length > 0

/-- The handshakes up to the first one that is accepted. -/
def leading (msg : ExtendedHandshakeMsg) (ms : List Message) : List Message :=
  (ms.filter fun m => m.extendedID = extendedIDHandshake).takeWhile fun m =>
    !accepted net msg m.extendedPayload

section Leading

variable {net} {msg : ExtendedHandshakeMsg} {m : Message} (rest : List Message)

theorem leading_of_other (other : m.extendedID ≠ extendedIDHandshake) :
    leading net msg (m :: rest) = leading net msg rest := by
  simp [leading, other]

theorem leading_of_refused (handshake : m.extendedID = extendedIDHandshake)
    (no : accepted net msg m.extendedPayload = false) :
    leading net msg (m :: rest) = m :: leading net msg rest := by
  simp [leading, handshake, no]

end Leading

/-! ### One message -/

variable {net handler}

/-- **What one message does** as long as no message id is known. -/
theorem handleExtMsg_cases {pc : Conn}
    (unknown : pc.extendedHandshakeMsg.messageIDs.entries = []) (m : Message) (w : σ) :
    (m.extendedID ≠ extendedIDHandshake ∧
        handleExtMsg net handler m (pc, w) = (some errNoExtHandshake, (pc, w), [])) ∨
      (m.extendedID = extendedIDHandshake ∧
        accepted net pc.extendedHandshakeMsg m.extendedPayload = true ∧
        (handleExtMsg net handler m).effects (pc, w) = [.onExtHandShake]) ∨
      (m.extendedID = extendedIDHandshake ∧
        accepted net pc.extendedHandshakeMsg m.extendedPayload = false ∧
        ∃ err, handleExtMsg net handler m (pc, w) =
          (some err, ({ pc with extendedHandshakeMsg :=
            (decodeHandshake net pc.extendedHandshakeMsg m.extendedPayload).1 }, w), [])) := by
  have run : handleExtMsg net handler m (pc, w) = _ := Act.get_bind_apply _ _
  by_cases handshake : m.extendedID = extendedIDHandshake
  · refine .inr ?_
    rw [if_pos handshake, unknown, if_neg (by decide)] at run
    cases decoded : decodeHandshake net pc.extendedHandshakeMsg m.extendedPayload with
    | mk msg fault =>
      rw [decoded] at run
      dsimp only at run
      cases fault with
      | some fault =>
        refine .inr ⟨handshake, by simp [accepted, decoded], .bencode fault, run⟩
      | none =>
        by_cases ids : msg.messageIDs.entries.length = 0
        · dsimp only at run
          rw [if_pos ids] at run
          exact .inr ⟨handshake, by simp [accepted, decoded, ids], errNoExtMessageID, run⟩
        · dsimp only at run
          rw [if_neg ids] at run
          refine .inl ⟨handshake, ?_, ?_⟩
          · simp [accepted, decoded]
            omega
          · rw [Act.effects, run]
            rfl
  · refine .inl ⟨handshake, ?_⟩
    rw [if_neg handshake, unknown, List.length_nil, if_pos rfl] at run
    exact run

/-! ### Runs -/

theorem fine_of_shaken {s : ExtRun σ} (called : .onExtHandShake ∈ s.calls) (ms : List Message) :
    ∀ point ∈ trace (extStep net handler) s ms, Fine net handler point.1 point.2 := by
  induction ms generalizing s with
  | nil => exact fun point member => absurd member List.not_mem_nil
  | cons m rest ih =>
    refine List.forall_mem_cons.mpr ⟨⟨fun notCalled => absurd called notCalled, fun _ _ _ => called⟩, ?_⟩
    exact ih (List.mem_append_left _ called)

theorem fine_of_unchanged {pc : Conn} (unknown : pc.extendedHandshakeMsg.messageIDs.entries = [])
    (w : σ) {ms : List Message}
    (unchanged : ∀ m ∈ leading net pc.extendedHandshakeMsg ms,
      (decodeHandshake net pc.extendedHandshakeMsg m.extendedPayload).1 = pc.extendedHandshakeMsg) :
    ∀ point ∈ trace (extStep net handler) { conn := pc, world := w } ms,
      Fine net handler point.1 point.2 := by
  induction ms with
  | nil => exact fun point member => absurd member List.not_mem_nil
  | cons m rest ih =>
      rw [trace, List.forall_mem_cons]
      rcases handleExtMsg_cases unknown m w with
        ⟨other, run⟩ | ⟨handshake, yes, calls⟩ | ⟨handshake, no, err, run⟩
      · -- no handshake: an error, and nothing has changed
        have same : extStep net handler { conn := pc, world := w } m = { conn := pc, world := w } := by
          rw [extStep, run]
          rfl
        rw [leading_of_other rest other] at unchanged
        refine ⟨⟨fun _ handshake => absurd handshake other, fun id payload member => ?_⟩, ?_⟩
        · rw [Act.effects, run] at member
          cases member
        · rw [same]
          exact ih unchanged
      · -- the first handshake that is accepted
        have called : .onExtHandShake ∈ (extStep net handler { conn := pc, world := w } m).calls := by
          show _ ∈ [] ++ (handleExtMsg net handler m).effects (pc, w)
          rw [calls]
          exact List.mem_singleton_self _
        refine ⟨⟨fun _ _ _ notCalled => ?_, fun id payload member => ?_⟩, fine_of_shaken called rest⟩
        · rw [calls] at notCalled
          exact absurd (List.mem_singleton_self _) notCalled
        · rw [calls] at member
          cases List.mem_singleton.mp member
      · -- a handshake that fails
        rw [leading_of_refused rest handshake no, List.forall_mem_cons] at unchanged
        have same : extStep net handler { conn := pc, world := w } m = { conn := pc, world := w } := by
          rw [extStep, run, unchanged.1]
          rfl
        refine ⟨⟨fun _ _ _ _ => by rw [same], fun id payload member => ?_⟩, ?_⟩
        · rw [Act.effects, run] at member
          cases member
        · rw [same]
          exact ih unchanged.2

/-- **When extended messages are handled as expected.** On a connection that knows no message id,
whatever the handler does, let no handshake up to the first one that is accepted have an entry with
one of the keys `m`, `v`, `reqq`, `p`, `ipv6`, `ipv4`, `yourip`, `metadata_size`, as far as its payload
can be read. Then in a run of extended messages that goes on after errors, a handshake that fails
leaves the message of the connection as it was, and `OnPayload` is called only after
`OnExtHandShake`. -/
theorem extended_runs_fine (pc : Conn) (unknown : pc.extendedHandshakeMsg.messageIDs.entries = [])
    (w : σ) (ms : List Message)
    (clean : ∀ m ∈ leading net pc.extendedHandshakeMsg ms, NoKeyOf handshakeKeys m.extendedPayload) :
    ∀ point ∈ trace (extStep net handler) { conn := pc, world := w } ms,
      Fine net handler point.1 point.2 :=
  fine_of_unchanged unknown w fun m member => decodeHandshake_of_noKey net _ (clean m member)

end Extended

def handshakeMsg (payload : GoString) : Message :=
  { type := mTypeExtended, extendedID := extendedIDHandshake, extendedPayload := payload }

/-- The payload `d1:xi1e`, a dictionary with an unknown key that breaks off. -/
theorem noKeyOf_truncated : NoKeyOf handshakeKeys (str "d1:xi1e") := by
  have item : Item (105 :: ([49] ++ [101])) := .int (by decide)
  exact NoKeyOf.cons (e := ⟨encodeString (str "x"), str "x", _⟩)
    (stringToken_encodeString (by decide)) item (by decide) .nil

/-- A handshake that breaks off behind an unknown key, one that is accepted, and a message. -/
theorem extended_runs_fine_truncated :
    let pc := newPeerConn (.fill 1) (.fill 3)
    let ms := [handshakeMsg (str "d1:xi1e"), handshakeMsg (str "d1:md1:ai1eee"),
      { type := mTypeExtended, extendedID := 1 }]
    leading noNet pc.extendedHandshakeMsg ms = [handshakeMsg (str "d1:xi1e")] ∧
      ∀ point ∈ trace (extStep noNet noopHandler) { conn := pc, world := () } ms,
        Fine noNet noopHandler point.1 point.2 := by
  intro pc ms
  have only : leading noNet pc.extendedHandshakeMsg ms = [handshakeMsg (str "d1:xi1e")] := by
    decide +kernel
  refine ⟨only, extended_runs_fine pc rfl () ms fun m member => ?_⟩
  rw [only] at member
  obtain rfl := List.mem_singleton.mp member
  exact noKeyOf_truncated

/-- **A handshake that breaks off leaves its message ids behind.** Decoding `d1:md1:ai1ee` is an error,
since the dictionary has no end; the next message is passed on all the same. -/
theorem truncated_handshake_leaves_ids :
    let start : ExtRun Unit := { conn := newPeerConn (.fill 1) (.fill 3), world := () }
    let truncated := handshakeMsg (str "d1:md1:ai1ee")
    let after := extStep noNet noopHandler start truncated
    (handleExtMsg noNet noopHandler truncated).value (start.conn, ()) = some (.bencode (.err .eof)) ∧
      after.calls = [] ∧ start.conn.extendedHandshakeMsg.messageIDs.entries.length = 0 ∧
      after.conn.extendedHandshakeMsg.messageIDs.entries.length = 1 ∧
      (extStep noNet noopHandler after { type := mTypeExtended, extendedID := 1 }).calls =
        [.onPayload 1 []] := by
  decide +kernel

end GoBt.PeerProtocol
