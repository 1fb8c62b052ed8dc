/-
**The peer handshake** (`peerprotocol/handshake.go`, `peerconn.go`).

A side that knows the infohash writes its message and reads the other's; a side that does not reads
first and sends the infohash back. Both are programs over a stream, joined by `Duplex`.

* `handshake`, `PeerConn.handshake` — the code.
* `PeerConn.handshake_returns` — a side that returns nil has read one message and written its own.
* `PeerConn.handshake_received` — a side that knows the infohash returns as soon as it has read 68
  bytes.
* `handshake_agreement` — **the agreement of two sides**, in every run of the two.
-/

import GoBt.Go.Encoding
import GoBt.Lib.Duplex
import GoBt.Metainfo.Hash

namespace GoBt.PeerProtocol

open GoBt.Lib GoBt.Metainfo

/-! ### Messages -/

def protocolHeader : List UInt8 := 19 :: str "BitTorrent protocol"

/-- `ExtensionBits`: the eight reserved bytes. -/
structure ExtensionBits where
  bytes : List UInt8
  size : bytes.length = 8
  deriving DecidableEq

theorem ExtensionBits.ext {first second : ExtensionBits} (same : first.bytes = second.bytes) :
    first = second := by
  cases first
  cases second
  cases same
  rfl

/-- `copy(eb[:], bytes)` into new extension bits. -/
def ExtensionBits.copyFrom (bytes : List UInt8) : ExtensionBits :=
  ⟨(bytes ++ List.replicate 8 0).take 8, by
    rw [List.length_take, List.length_append, List.length_replicate]
    omega⟩

@[simp] theorem ExtensionBits.copyFrom_bytes (bits : ExtensionBits) : copyFrom bits.bytes = bits :=
  ext (List.take_left' bits.size)

structure HandshakeMsg where
  extensionBits : ExtensionBits := .copyFrom []
  peerID : Hash := zeroHash
  infoHash : Hash := zeroHash
  deriving DecidableEq

def HandshakeMsg.parts (msg : HandshakeMsg) : List (List UInt8) :=
  [protocolHeader, msg.extensionBits.bytes, msg.infoHash.bytes, msg.peerID.bytes]

/-- The message in the bytes behind the header. -/
def HandshakeMsg.ofBytes (b : List UInt8) : HandshakeMsg where
  extensionBits := .copyFrom (cut b 20 28)
  infoHash := .copyFrom (cut b 28 48)
  peerID := .copyFrom (cut b 48 68)

section Layout

variable (msg : HandshakeMsg)

theorem HandshakeMsg.length_parts : msg.parts.flatten.length = 68 := by
  have ih : msg.infoHash.bytes.length = 20 := msg.infoHash.size
  have id : msg.peerID.bytes.length = 20 := msg.peerID.size
  simp only [parts, List.flatten_cons, List.flatten_nil, List.append_nil, List.length_append,
    msg.extensionBits.size, ih, id]
  rfl

/-- **The reader finds the fields where the writer put them.** -/
theorem HandshakeMsg.ofBytes_parts : ofBytes msg.parts.flatten = msg := by
  have header : protocolHeader.length = 20 := rfl
  have ih : msg.infoHash.bytes.length = 20 := msg.infoHash.size
  have id : msg.peerID.bytes.length = 20 := msg.peerID.size
  simp only [ofBytes, parts, List.flatten_cons, List.flatten_nil]
  simp (disch := simp [header, ih, id, msg.extensionBits.size]) only [cut_skip, cut_front, header,
    ih, msg.extensionBits.size, Nat.reduceSub, ExtensionBits.copyFrom_bytes,
    Hash.copyFrom_bytes]

end Layout

/-! ### The code -/

inductive ConnStage
  | connected
  | handshook
  | message
  deriving DecidableEq

def ConnStage.string : ConnStage → GoString
  | .connected => str "connected"
  | .handshook => str "handshook"
  | .message => str "message"

/-- `PeerConn`, as far as the handshake goes; the addresses are those of its connection. -/
structure PeerConn where
  localAddr : GoString := []
  remoteAddr : GoString := []
  infoHash : Hash := zeroHash
  id : Hash
  extBits : ExtensionBits := .copyFrom []
  peerID : Hash := zeroHash
  peerExtBits : ExtensionBits := .copyFrom []
  peerStage : ConnStage := .connected
  deriving DecidableEq

/-- Why a handshake fails. -/
inductive HandshakeError
  | io (err : GoError)
  | invalidProtocolHeader
  | notConnected (stage : ConnStage)
  | inconsistent (localAddr : GoString) (infoHash : Hash) (remoteAddr : GoString) (remote : Hash)
  deriving DecidableEq

/-- `err.Error()`. -/
def HandshakeError.text : HandshakeError → GoString
  | .io err => str err.text
  | .invalidProtocolHeader => str "unexpected peer protocol header string"
  | .notConnected stage =>
      str "the peer connection stage '" ++ stage.string ++ str "' is not connected"
  | .inconsistent localAddr infoHash remoteAddr remote =>
      str "inconsistent infohash: local(" ++ localAddr ++ str ")=" ++ Hex.encode infoHash.bytes ++
        str ", remote(" ++ remoteAddr ++ str ")=" ++ Hex.encode remote.bytes

/-- A program of one side. -/
abbrev SockProg := StreamProg UInt8 GoError

/-- What `io.ReadFull` makes of the bytes read: an error that comes with the last byte is dropped,
and an end of the stream in the middle is unexpected. -/
def fullResult (n : Nat) (read : List UInt8 × Option GoError) : List UInt8 × Option GoError :=
  if n ≤ read.1.length then (read.1, none)
  else if read.1 ≠ [] ∧ read.2 = some .eof then (read.1, some .unexpectedEOF)
  else read

/-- `io.ReadFull(sock, b)` for `n` bytes. -/
def sockReadFull (n : Nat) : SockProg (List UInt8 × Option GoError) := do
  return fullResult n (← fill n n [])

/-- The message in the bytes read, if they start with the header. -/
def parsePeerMsg (read : List UInt8 × Option GoError) : HandshakeMsg × Option HandshakeError :=
  match read with
  | (_, some err) => ({}, some (.io err))
  | (b, none) =>
      if b.take 20 ≠ protocolHeader then ({}, some .invalidProtocolHeader) else (.ofBytes b, none)

/-- `getPeerHandshakeMsg(sock, &ret)` on a zero message. -/
def getPeerHandshakeMsg : SockProg (HandshakeMsg × Option HandshakeError) := do
  return parsePeerMsg (← sockReadFull 68)

def writeMsg (msg : HandshakeMsg) : SockProg (Option HandshakeError) := do
  let err ← writeAll msg.parts
  return err.map .io

def handshake (msg : HandshakeMsg) : SockProg (HandshakeMsg × Option HandshakeError) := do
  if msg.infoHash.isZero then
    match ← getPeerHandshakeMsg with
    | (ret, some err) => return (ret, some err)
    | (ret, none) =>
        let err ← writeMsg { msg with infoHash := ret.infoHash }
        return (ret, err)
  else
    match ← writeMsg msg with
    | some err => return ({}, some err)
    | none => getPeerHandshakeMsg

namespace PeerConn

/-- What `pc.Handshake()` does with the result of the exchange. -/
def accept (pc : PeerConn) (rhm : HandshakeMsg) (err : Option HandshakeError) :
    Option HandshakeError × PeerConn :=
  match err with
  | some err => (some err, pc)
  | none =>
      let pc := { pc with peerID := rhm.peerID, peerExtBits := rhm.extensionBits }
      if pc.infoHash.isZero then
        (none, { pc with infoHash := rhm.infoHash, peerStage := .handshook })
      else if pc.infoHash ≠ rhm.infoHash then
        (some (.inconsistent pc.localAddr pc.infoHash pc.remoteAddr rhm.infoHash), pc)
      else (none, { pc with peerStage := .handshook })

def handshakeMsg (pc : PeerConn) : HandshakeMsg where
  extensionBits := pc.extBits
  peerID := pc.id
  infoHash := pc.infoHash

/-- `pc.Handshake()`: the error it returns, and the connection. -/
def handshake (pc : PeerConn) : SockProg (Option HandshakeError × PeerConn) :=
  if pc.peerStage ≠ .connected then .ret (some (.notConnected pc.peerStage), pc)
  else do
    let result ← PeerProtocol.handshake pc.handshakeMsg
    return pc.accept result.1 result.2

end PeerConn

/-! ### What a side has read and written -/

section Sides

open Prog (Plays)

variable {calls : List (StreamEvent UInt8 GoError)}

theorem sockReadFull_plays {n : Nat} {q : SockProg (List UInt8 × Option GoError)}
    (plays : Plays (sockReadFull n) calls q) (faithful : ∀ call ∈ calls, Faithful call) :
    sent calls = [] ∧ (((∀ read, q ≠ .ret read) ∧ (received calls).length < n) ∨
      ∃ err, q = .ret (received calls, err) ∧ (received calls).length ≤ n ∧
        (err = none → (received calls).length = n)) := by
  obtain ⟨p, first, rfl⟩ := Plays.of_map plays
  obtain ⟨nothing, ⟨op, next, rfl, less⟩ | ⟨err, rfl, bound, failed⟩⟩ :=
    fill_plays first faithful (Nat.zero_le n) (by simp)
  · exact ⟨nothing, Or.inl ⟨fun read same => (nomatch same), less⟩⟩
  · refine ⟨nothing, Or.inr ?_⟩
    rw [List.nil_append] at bound failed
    by_cases full : n ≤ (received calls).length
    · exact ⟨none, by simp [fullResult, full], bound, fun _ => by omega⟩
    · have short : (received calls).length < n := by omega
      obtain ⟨reason, rfl⟩ := Option.ne_none_iff_exists'.mp (failed short)
      by_cases ended : received calls ≠ [] ∧ reason = .eof
      · refine ⟨some .unexpectedEOF, ?_, bound, fun impossible => nomatch impossible⟩
        simp [fullResult, full, ended.1, ended.2]
      · refine ⟨some reason, ?_, bound, fun impossible => nomatch impossible⟩
        simp [fullResult, full, ended]

theorem getPeerHandshakeMsg_plays {q : SockProg (HandshakeMsg × Option HandshakeError)}
    (plays : Plays getPeerHandshakeMsg calls q) (faithful : ∀ call ∈ calls, Faithful call) :
    sent calls = [] ∧ (((∀ result, q ≠ .ret result) ∧ (received calls).length < 68) ∨
      ∃ rhm err, q = .ret (rhm, err) ∧ (received calls).length ≤ 68 ∧
        (err = none → (received calls).length = 68 ∧ rhm = .ofBytes (received calls))) := by
  obtain ⟨p, first, rfl⟩ := Plays.of_map plays
  obtain ⟨nothing, ⟨running, less⟩ | ⟨err, rfl, bound, full⟩⟩ := sockReadFull_plays first faithful
  · exact ⟨nothing, Or.inl ⟨fun result => Plays.bind_ne_ret running, less⟩⟩
  · refine ⟨nothing, Or.inr ⟨_, _, rfl, bound, ?_⟩⟩
    cases err with
    | some err => exact fun impossible => nomatch impossible
    | none =>
      dsimp only
      split
      · exact fun impossible => nomatch impossible
      · exact fun _ => ⟨full rfl, rfl⟩

theorem writeMsg_plays {msg : HandshakeMsg} {q : SockProg (Option HandshakeError)}
    (plays : Plays (writeMsg msg) calls q) (faithful : ∀ call ∈ calls, Faithful call) :
    received calls = [] ∧ (q = .ret none → sent calls = msg.parts.flatten) := by
  obtain ⟨p, first, rfl⟩ := Plays.of_map plays
  obtain ⟨nothing, everything⟩ := writeAll_plays first faithful
  refine ⟨nothing, fun returns => everything ?_⟩
  cases p with
  | ret err =>
    have mapped : err.map HandshakeError.io = none := Prog.ret.inj returns
    rw [Option.map_eq_none_iff.mp mapped]
  | panic reason => cases returns
  | call op next => cases returns

/-- The message this side has sent once it is through: the infohash may come from the other side. -/
def PeerConn.sentMsg (pc : PeerConn) (rhm : HandshakeMsg) : HandshakeMsg :=
  { pc.handshakeMsg with infoHash := if pc.infoHash.isZero then rhm.infoHash else pc.infoHash }

/-- **A side whose exchange is over without an error** has read one message and sent its own. -/
theorem handshake_plays {pc : PeerConn} {rhm : HandshakeMsg}
    (plays : Plays (handshake pc.handshakeMsg) calls (.ret (rhm, none)))
    (faithful : ∀ call ∈ calls, Faithful call) :
    (received calls).length = 68 ∧ rhm = .ofBytes (received calls) ∧
      sent calls = (pc.sentMsg rhm).parts.flatten := by
  unfold handshake at plays
  unfold PeerConn.sentMsg
  by_cases zero : pc.infoHash.isZero = true
  · rw [if_pos (show pc.handshakeMsg.infoHash.isZero = true from zero)] at plays
    rw [if_pos zero]
    rcases Plays.of_bind plays with ⟨p, running, _, eq⟩ | ⟨⟨ret, err⟩, before, after, rfl, reads, last⟩
    · exact absurd eq.symm (Plays.bind_ne_ret running)
    obtain ⟨faithful, faithful'⟩ := List.forall_mem_append.mp faithful
    obtain ⟨nothing, ⟨running, _⟩ | ⟨rhm', err', same, _, full⟩⟩ :=
      getPeerHandshakeMsg_plays reads faithful
    · exact absurd rfl (running _)
    cases same
    cases err with
    | some err =>
      obtain ⟨_, impossible⟩ := Plays.ret_iff.mp last
      cases impossible
    | none =>
      obtain ⟨p, writes, eq⟩ := Plays.of_map last
      cases p with
      | panic reason => cases eq
      | call op next => cases eq
      | ret err =>
        cases eq
        obtain ⟨unread, everything⟩ := writeMsg_plays writes faithful'
        obtain ⟨size, msg⟩ := full rfl
        rw [received_append, sent_append, unread, nothing, everything rfl, List.append_nil,
          List.nil_append]
        exact ⟨size, msg, rfl⟩
  · rw [if_neg (show ¬ pc.handshakeMsg.infoHash.isZero = true from zero)] at plays
    rw [if_neg zero]
    rcases Plays.of_bind plays with ⟨p, running, _, eq⟩ | ⟨err, before, after, rfl, writes, last⟩
    · exact absurd eq.symm (Plays.bind_ne_ret running)
    obtain ⟨faithful, faithful'⟩ := List.forall_mem_append.mp faithful
    obtain ⟨unread, everything⟩ := writeMsg_plays writes faithful
    cases err with
    | some err =>
      obtain ⟨_, impossible⟩ := Plays.ret_iff.mp last
      cases impossible
    | none =>
      obtain ⟨nothing, ⟨running, _⟩ | ⟨rhm', err', same, _, full⟩⟩ :=
        getPeerHandshakeMsg_plays last faithful'
      · exact absurd rfl (running _)
      cases same
      obtain ⟨size, msg⟩ := full rfl
      rw [received_append, sent_append, unread, nothing, everything rfl, List.append_nil,
        List.nil_append]
      exact ⟨size, msg, rfl⟩

/-- **A side that knows the infohash is through when it has read 68 bytes.** -/
theorem handshake_received {msg : HandshakeMsg} (some' : msg.infoHash.isZero = false)
    {q : SockProg (HandshakeMsg × Option HandshakeError)} (plays : Plays (handshake msg) calls q)
    (faithful : ∀ call ∈ calls, Faithful call) (enough : 68 ≤ (received calls).length) :
    ∃ rhm err, q = .ret (rhm, err) ∧ (err = none → rhm = .ofBytes (received calls)) := by
  unfold handshake at plays
  rw [if_neg (by simp [some'])] at plays
  rcases Plays.of_bind plays with ⟨p, _, writes, _⟩ | ⟨err, before, after, rfl, writes, last⟩
  · obtain ⟨unread, _⟩ := writeMsg_plays writes faithful
    rw [unread] at enough
    exact absurd enough (by decide)
  obtain ⟨faithful, faithful'⟩ := List.forall_mem_append.mp faithful
  obtain ⟨unread, _⟩ := writeMsg_plays writes faithful
  rw [received_append, unread, List.nil_append] at enough ⊢
  cases err with
  | some err =>
    obtain ⟨rfl, _⟩ := Plays.ret_iff.mp last
    exact absurd enough (by decide)
  | none =>
    obtain ⟨_, ⟨_, less⟩ | ⟨rhm, err, rfl, _, full⟩⟩ := getPeerHandshakeMsg_plays last faithful'
    · omega
    · exact ⟨rhm, err, rfl, fun none' => (full none').2⟩

namespace PeerConn

variable {pc pc' : PeerConn}

theorem accept_eq_none {rhm : HandshakeMsg} (accepted : pc.accept rhm none = (none, pc')) :
    pc' = { pc with infoHash := rhm.infoHash, peerID := rhm.peerID,
                    peerExtBits := rhm.extensionBits, peerStage := .handshook } ∧
      (pc.infoHash.isZero = true ∨ pc.infoHash = rhm.infoHash) := by
  unfold accept at accepted
  dsimp only at accepted
  by_cases zero : pc.infoHash.isZero = true
  · rw [if_pos zero] at accepted
    cases accepted
    exact ⟨rfl, Or.inl zero⟩
  · rw [if_neg zero] at accepted
    by_cases same : pc.infoHash = rhm.infoHash
    · rw [if_neg (not_not.mpr same)] at accepted
      cases accepted
      rw [← same]
      exact ⟨rfl, Or.inr rfl⟩
    · rw [if_pos same] at accepted
      cases accepted

theorem accept_of_different {rhm : HandshakeMsg} (some' : pc.infoHash.isZero = false)
    (different : rhm.infoHash ≠ pc.infoHash) : pc.accept rhm none =
      (some (.inconsistent pc.localAddr pc.infoHash pc.remoteAddr rhm.infoHash),
        { pc with peerID := rhm.peerID, peerExtBits := rhm.extensionBits }) := by
  unfold accept
  dsimp only
  rw [if_neg (by simp [some']), if_pos different.symm]

/-- **A side that returns nil** has read one message, has sent its own, and has recorded what it
read. -/
theorem handshake_returns (plays : Plays pc.handshake calls (.ret (none, pc')))
    (faithful : ∀ call ∈ calls, Faithful call) :
    (received calls).length = 68 ∧
      sent calls = (pc.sentMsg (.ofBytes (received calls))).parts.flatten ∧
      pc.accept (.ofBytes (received calls)) none = (none, pc') := by
  unfold PeerConn.handshake at plays
  split_ifs at plays with stage
  · obtain ⟨_, impossible⟩ := Plays.ret_iff.mp plays
    cases impossible
  · obtain ⟨p, first, eq⟩ := Plays.of_map plays
    cases p with
    | panic reason => cases eq
    | call op next => cases eq
    | ret result =>
      obtain ⟨rhm, err⟩ := result
      have accepted : pc.accept rhm err = (none, pc') := (Prog.ret.inj eq).symm
      cases err with
      | some err => cases accepted
      | none =>
        obtain ⟨size, rfl, sends⟩ := handshake_plays first faithful
        exact ⟨size, sends, accepted⟩

/-- **A side that knows the infohash and reads another one returns an error**, and the stage stays. -/
theorem handshake_refuses (some' : pc.infoHash.isZero = false)
    {q : SockProg (Option HandshakeError × PeerConn)} (plays : Plays pc.handshake calls q)
    (faithful : ∀ call ∈ calls, Faithful call) (enough : 68 ≤ (received calls).length)
    (different : (HandshakeMsg.ofBytes (received calls)).infoHash ≠ pc.infoHash) :
    ∃ err pc', q = .ret (some err, pc') ∧ pc'.peerStage = .connected := by
  unfold PeerConn.handshake at plays
  split_ifs at plays with stage
  · obtain ⟨rfl, _⟩ := Plays.ret_iff.mp plays
    exact absurd enough (by decide)
  · obtain ⟨p, first, rfl⟩ := Plays.of_map plays
    obtain ⟨rhm, err, rfl, message⟩ := handshake_received some' first faithful enough
    have connected : pc.peerStage = .connected := not_not.mp stage
    cases err with
    | some err => exact ⟨err, pc, rfl, connected⟩
    | none =>
      cases message rfl
      exact ⟨_, _, congrArg Prog.ret (accept_of_different some' different), connected⟩

end PeerConn

end Sides

/-! ### Two sides -/

/-- Two connections that shake hands with each other, after some moves. -/
def shake (pcs : Bool → PeerConn) (moves : List (Bool × Transfer GoError)) :
    Duplex UInt8 GoError (Option HandshakeError × PeerConn) :=
  run Duplex.step (.fresh fun side => (pcs side).handshake) moves

/-- Two connections that have shaken hands: both record one infohash, which is the one that a side
knew before, and each records the id and the extension bits of the other. -/
structure Agreed (pcs pcs' : Bool → PeerConn) : Prop where
  infoHash : (pcs' false).infoHash = (pcs' true).infoHash
  known : ∀ side, (pcs side).infoHash.isZero = false →
    (pcs' side).infoHash = (pcs side).infoHash
  peerID : ∀ side, (pcs' side).peerID = (pcs !side).id
  peerExtBits : ∀ side, (pcs' side).peerExtBits = (pcs !side).extBits
  stage : ∀ side, (pcs' side).peerStage = .handshook

section Agreement

variable {pcs pcs' : Bool → PeerConn} {moves : List (Bool × Transfer GoError)}

theorem shake_explained (pcs : Bool → PeerConn) (moves : List (Bool × Transfer GoError)) :
    Duplex.Explained (fun side => (pcs side).handshake) (shake pcs moves) :=
  Duplex.explained_run _ moves

theorem shake_returns (returned : ∀ side, (shake pcs moves).ends side = .ret (none, pcs' side))
    (side : Bool) :
    (received ((shake pcs moves).calls side)).length = 68 ∧
      sent ((shake pcs moves).calls side) =
        ((pcs side).sentMsg (.ofBytes (received ((shake pcs moves).calls side)))).parts.flatten ∧
      (pcs side).accept (.ofBytes (received ((shake pcs moves).calls side))) none =
        (none, pcs' side) := by
  have plays := (shake_explained pcs moves).plays side
  rw [returned side] at plays
  exact PeerConn.handshake_returns plays ((shake_explained pcs moves).faithful side)

theorem read_eq_sent (returned : ∀ side, (shake pcs moves).ends side = .ret (none, pcs' side))
    (side : Bool) : HandshakeMsg.ofBytes (received ((shake pcs moves).calls side)) =
      (pcs !side).sentMsg (.ofBytes (received ((shake pcs moves).calls !side))) := by
  obtain ⟨size, _, _⟩ := shake_returns returned side
  obtain ⟨_, sends, _⟩ := shake_returns returned !side
  have carried := (shake_explained pcs moves).carried !side
  rw [sends, Bool.not_not] at carried
  -- Both are 68 bytes long, so nothing is left on the way.
  have left : (shake pcs moves).inFlight (!side) = [] := by
    have lengths := congrArg List.length carried
    rw [HandshakeMsg.length_parts, List.length_append, size] at lengths
    exact List.length_eq_zero_iff.mp (by omega)
  rw [left, List.append_nil] at carried
  rw [← carried, HandshakeMsg.ofBytes_parts]

theorem agreed_of_returned
    (returned : ∀ side, (shake pcs moves).ends side = .ret (none, pcs' side)) :
    Agreed pcs pcs' := by
  have recorded := fun side => PeerConn.accept_eq_none (shake_returns returned side).2.2
  constructor
  case infoHash =>
    -- The first side records what the second has sent, which is what the second knows or has read.
    have first : (pcs' false).infoHash = ((pcs true).sentMsg (.ofBytes
        (received ((shake pcs moves).calls true)))).infoHash := by
      rw [(recorded false).1, read_eq_sent returned false]
      rfl
    rw [first, (recorded true).1]
    unfold PeerConn.sentMsg
    dsimp only
    split
    · rfl
    · rename_i known
      exact (recorded true).2.resolve_left known
  case known =>
    intro side some'
    rw [(recorded side).1]
    exact ((recorded side).2.resolve_left (by simp [some'])).symm
  case peerID =>
    intro side
    rw [(recorded side).1, read_eq_sent returned side]
    rfl
  case peerExtBits =>
    intro side
    rw [(recorded side).1, read_eq_sent returned side]
    rfl
  case stage =>
    intro side
    rw [(recorded side).1]

end Agreement

/-- **The agreement of two sides**, in every run of the two and whichever of them know the infohash.
If both return nil, they agree. A side that knows the infohash and has read a message with another
one has returned an error, and it is still in the stage in which it was connected. -/
theorem handshake_agreement (pcs : Bool → PeerConn) (moves : List (Bool × Transfer GoError)) :
    (∀ pcs' : Bool → PeerConn,
      (∀ side, (shake pcs moves).ends side = .ret (none, pcs' side)) → Agreed pcs pcs') ∧
    ∀ side, (pcs side).infoHash.isZero = false →
      68 ≤ (received ((shake pcs moves).calls side)).length →
        (HandshakeMsg.ofBytes (received ((shake pcs moves).calls side))).infoHash ≠
            (pcs side).infoHash →
          ∃ err pc', (shake pcs moves).ends side = .ret (some err, pc') ∧
            pc'.peerStage = .connected :=
  ⟨fun _ returned => agreed_of_returned returned, fun side some' enough different =>
    PeerConn.handshake_refuses some' ((shake_explained pcs moves).plays side)
      ((shake_explained pcs moves).faithful side) enough different⟩

/-- A side that knows the infohash, and one that does not. -/
def twoPeers : Bool → PeerConn
  | false => { infoHash := .fill 3, id := .fill 1 }
  | true => { id := .fill 2, extBits := .copyFrom [0, 0, 0, 0, 0, 16] }

/-- The first side writes, the second reads in two chunks and writes, the first reads. -/
def twoPeersMoves : List (Bool × Transfer GoError) :=
  List.replicate 4 (false, ⟨0, none⟩) ++ [(true, ⟨30, none⟩), (true, ⟨68, none⟩)] ++
    List.replicate 4 (true, ⟨0, none⟩) ++ [(false, ⟨68, none⟩)]

def twoPeersAfter : Bool → PeerConn
  | false => { twoPeers false with
      peerID := .fill 2
      peerExtBits := .copyFrom [0, 0, 0, 0, 0, 16]
      peerStage := .handshook }
  | true => { twoPeers true with
      infoHash := .fill 3
      peerID := .fill 1
      peerStage := .handshook }

/-- Two sides that know different infohashes, and a run in which both write and then read. -/
def strangers : Bool → PeerConn
  | false => twoPeers false
  | true => { infoHash := .fill 4, id := .fill 2 }

def strangersMoves : List (Bool × Transfer GoError) :=
  List.replicate 4 (false, ⟨0, none⟩) ++ List.replicate 4 (true, ⟨0, none⟩) ++
    [(true, ⟨68, none⟩), (false, ⟨68, none⟩)]

theorem two_peers_agree :
    (∀ side, (shake twoPeers twoPeersMoves).ends side = .ret (none, twoPeersAfter side)) ∧
      Agreed twoPeers twoPeersAfter ∧
      ∃ err pc', (shake strangers strangersMoves).ends true = .ret (some err, pc') ∧
        pc'.peerStage = .connected := by
  have returned : ∀ side, (shake twoPeers twoPeersMoves).ends side =
      .ret (none, twoPeersAfter side) := by
    intro side
    cases side <;> rfl
  refine ⟨returned, (handshake_agreement twoPeers twoPeersMoves).1 twoPeersAfter returned, ?_⟩
  exact (handshake_agreement strangers strangersMoves).2 true rfl (by decide +kernel)
    (by decide +kernel)

end GoBt.PeerProtocol
