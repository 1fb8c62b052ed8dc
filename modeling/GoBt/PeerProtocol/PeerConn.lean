/-
**The messages of a peer connection** (`peerprotocol/peerconn.go`).

* `Conn` — `PeerConn` with the fields that messages change.
* `readMsg` — reads one message; the first one after the handshake moves the connection on, and a
  message that may only be the first is an error afterwards.
* `handleMessage`, `handleExtMsg` — change the connection and call the handler. The calls are data
  (`Call`), so that a run shows which of them were made; what they do is up to the handler.
* `Handled` — **what handling a message does to a connection** whose handler leaves it alone.
* `session_invariants` — **the invariants of a session**: at any time, the messages that were read tell
  the state of the connection.
-/

import GoBt.Lib.Act
import GoBt.Lib.Runs
import GoBt.PeerProtocol.ExtendedHandshake
import GoBt.PeerProtocol.Extension
import GoBt.PeerProtocol.Handshake
import GoBt.PeerProtocol.Message
import GoBt.PeerProtocol.Pieces

namespace GoBt.PeerProtocol

open GoBt.Lib GoBt.Metainfo GoBt.Bencode

/-! ### Extension bits -/

namespace ExtensionBits

def isSet (eb : ExtensionBits) (bit : Nat) : Bool :=
  eb.bytes.getD (7 - bit / 8) 0 &&& 1 <<< UInt8.ofNat (bit % 8) != 0

def isSupportDHT (eb : ExtensionBits) : Bool := eb.isSet 0
def isSupportFast (eb : ExtensionBits) : Bool := eb.isSet 2
def isSupportExtended (eb : ExtensionBits) : Bool := eb.isSet 20

end ExtensionBits

/-! ### Kinds of messages -/

/-- The cases of the switches over the message type. -/
inductive MessageKind
  | choke | unchoke | interested | notInterested | havePiece | bitField | request | piece | cancel
  | port
  | suggest | haveAll | haveNone | reject | allowedFast
  | extended
  | unknown
  /-- A message of length zero, whose type is not looked at. -/
  | keepalive
  deriving DecidableEq

def MessageKind.of (t : MessageType) : MessageKind :=
  if t = mTypeChoke then .choke
  else if t = mTypeUnchoke then .unchoke
  else if t = mTypeInterested then .interested
  else if t = mTypeNotInterested then .notInterested
  else if t = mTypeHave then .havePiece
  else if t = mTypeBitField then .bitField
  else if t = mTypeRequest then .request
  else if t = mTypePiece then .piece
  else if t = mTypeCancel then .cancel
  else if t = mTypePort then .port
  else if t = mTypeSuggest then .suggest
  else if t = mTypeHaveAll then .haveAll
  else if t = mTypeHaveNone then .haveNone
  else if t = mTypeReject then .reject
  else if t = mTypeAllowedFast then .allowedFast
  else if t = mTypeExtended then .extended
  else .unknown

def Message.kind (m : Message) : MessageKind :=
  if m.keepalive then .keepalive else .of m.type

/-- `mt.String()`. -/
def messageTypeString (t : MessageType) : String :=
  match MessageKind.of t with
  | .choke => "Choke"
  | .unchoke => "Unchoke"
  | .interested => "Interested"
  | .notInterested => "NotInterested"
  | .havePiece => "Have"
  | .bitField => "Bitfield"
  | .request => "Request"
  | .piece => "Piece"
  | .cancel => "Cancel"
  | .port => "Port"
  | .suggest => "Suggest"
  | .haveAll => "HaveAll"
  | .haveNone => "HaveNone"
  | .reject => "Reject"
  | .allowedFast => "AllowedFast"
  | .extended => "Extended"
  | _ => "MessageType(" ++ toString t.toNat ++ ")"

/-! ### Connections and handlers -/

/-- `PeerConn`, with what messages change. -/
structure Conn extends PeerConn where
  peerChoked : Bool := true
  peerInterested : Bool := false
  maxLength : UInt32 := 256 * 1024
  fasts : Pieces := []
  suggests : Pieces := []
  bitField : BitField := []
  extendedHandshakeMsg : ExtendedHandshakeMsg := {}

def newPeerConn (id infohash : Hash) : Conn := { id := id, infoHash := infohash }

def Conn.peerHasPiece (pc : Conn) (index : UInt32) : Bool := pc.bitField.isSet index

/-- How handling a message fails. -/
inductive HandleError
  | go (err : GoError)
  | bencode (fault : Fault)
  /-- A run-time panic in a handler. -/
  | panicked
  deriving DecidableEq

def errChoked : HandleError := .go (.other "choked")
def errNotSupportDHT : HandleError := .go (.other "not support DHT extension")
def errNotSupportFast : HandleError := .go (.other "not support Fast extension")
def errNotSupportExtended : HandleError := .go (.other "not support Extended extension")
def errSecondExtHandshake : HandleError := .go (.other "second extended handshake")
def errNoExtMessageID : HandleError := .go (.other "no extended message id")
def errNoExtHandshake : HandleError := .go (.other "no extended handshake")

/-- The methods of a handler that handling a message can call, with their arguments. -/
inductive Call
  | onMessage (msg : Message)
  | choke | unchoke | interested | notInterested
  | havePiece (index : UInt32)
  | bitField (bits : BitField)
  | request (index begin length : UInt32)
  | piece (index begin : UInt32) (piece : List UInt8)
  | cancel (index begin length : UInt32)
  | port (port : UInt16)
  | haveAll | haveNone
  | suggest (index : UInt32)
  | allowedFast (index : UInt32)
  | reject (index begin length : UInt32)
  | onExtHandShake
  | onPayload (extid : UInt8) (payload : List UInt8)
  deriving DecidableEq

/-- A handler with a state `σ` of its own: the interfaces that it implements besides `Handler`, and
what its methods do. -/
structure Handler (σ : Type) where
  bep3 : Bool
  bep5 : Bool
  bep6 : Bool
  bep10 : Bool
  act : Call → Conn → σ → Conn × σ × Option HandleError

/-- The methods leave the connection alone. -/
def Handler.Passive {σ : Type} (handler : Handler σ) : Prop :=
  ∀ call pc w, (handler.act call pc w).1 = pc

/-! ### Reading -/

section Read

variable {ρ : Type} [ByteReader ρ]

def firstKinds : List MessageKind := [.bitField, .haveAll, .haveNone]

/-- `if pc.PeerStage.IsHandshook() { pc.PeerStage = ConnStageMessage }`. -/
def Conn.moveOn (pc : Conn) : Conn :=
  { pc with peerStage := if pc.peerStage = .handshook then .message else pc.peerStage }

/-- `pc.ReadMsg()`: the message, the error, the connection and what is left to be read. -/
def readMsg (pc : Conn) (r : ρ) : Message × Option GoError × Conn × ρ :=
  match decode {} r pc.maxLength with
  | (m, some err, r) => (m, some err, pc, r)
  | (m, none, r) =>
      if MessageKind.of m.type ∈ firstKinds ∧ pc.peerStage ≠ .handshook then
        (m, some (.other (messageTypeString m.type ++ " is not first message after handshake")), pc,
          r)
      else (m, none, pc.moveOn, r)

end Read

/-! ### Handling -/

section Handle

variable {σ : Type} (net : NetIP) (handler : Handler σ)

/-- A program over a connection and the state of the handler. -/
abbrev ConnM (σ : Type) := Act (Conn × σ) Call

def call (c : Call) : ConnM σ (Option HandleError) := fun s =>
  let (pc, w, err) := handler.act c s.1 s.2
  (err, (pc, w), [c])

def update (f : Conn → Conn) : ConnM σ Unit := Act.modify fun s => (f s.1, s.2)

/-- Call the method of an interface if the handler has it, and `OnMessage` otherwise. -/
def dispatch (implemented : Bool) (msg : Message) (c : Call) : ConnM σ (Option HandleError) :=
  if implemented then call handler c else call handler (.onMessage msg)

/-- Go on only if the extension is supported. -/
def supporting (supported : ExtensionBits → Bool) (err : HandleError)
    (next : ConnM σ (Option HandleError)) : ConnM σ (Option HandleError) := do
  let s ← Act.get
  if supported s.1.extBits then next else pure (some err)

/-- `pc.handleExtMsg(h, m)`. The message is decoded into the connection, also if that fails. -/
def handleExtMsg (m : Message) : ConnM σ (Option HandleError) := do
  let s ← Act.get
  if m.extendedID = extendedIDHandshake then
    if s.1.extendedHandshakeMsg.messageIDs.entries.length > 0 then pure (some errSecondExtHandshake)
    else
      let (msg, fault) := decodeHandshake net s.1.extendedHandshakeMsg m.extendedPayload
      update fun pc => { pc with extendedHandshakeMsg := msg }
      match fault with
      | some fault => pure (some (.bencode fault))
      | none =>
          if msg.messageIDs.entries.length = 0 then pure (some errNoExtMessageID)
          else call handler .onExtHandShake
  else if s.1.extendedHandshakeMsg.messageIDs.entries.length = 0 then pure (some errNoExtHandshake)
  else call handler (.onPayload m.extendedID m.extendedPayload)

def handleMessage (msg : Message) : ConnM σ (Option HandleError) :=
  match msg.kind with
  | .keepalive => pure none
  | .choke => do
      update fun pc => { pc with peerChoked := true }
      dispatch handler handler.bep3 msg .choke
  | .unchoke => do
      update fun pc => { pc with peerChoked := false }
      dispatch handler handler.bep3 msg .unchoke
  | .interested => do
      update fun pc => { pc with peerInterested := true }
      dispatch handler handler.bep3 msg .interested
  | .notInterested => do
      update fun pc => { pc with peerInterested := false }
      dispatch handler handler.bep3 msg .notInterested
  | .havePiece => do
      update fun pc => { pc with bitField := (pc.bitField.set msg.index).1 }
      dispatch handler handler.bep3 msg (.havePiece msg.index)
  | .bitField => do
      update fun pc => { pc with bitField := msg.bitField }
      dispatch handler handler.bep3 msg (.bitField msg.bitField)
  | .request => dispatch handler handler.bep3 msg (.request msg.index msg.begin msg.length)
  | .piece => dispatch handler handler.bep3 msg (.piece msg.index msg.begin msg.piece)
  | .cancel => dispatch handler handler.bep3 msg (.cancel msg.index msg.begin msg.length)
  | .port =>
      supporting ExtensionBits.isSupportDHT errNotSupportDHT
        (dispatch handler handler.bep5 msg (.port msg.port))
  | .suggest =>
      supporting ExtensionBits.isSupportFast errNotSupportFast do
        update fun pc => { pc with suggests := pc.suggests.append msg.index }
        dispatch handler handler.bep6 msg (.suggest msg.index)
  | .haveAll =>
      supporting ExtensionBits.isSupportFast errNotSupportFast
        (dispatch handler handler.bep6 msg .haveAll)
  | .haveNone =>
      supporting ExtensionBits.isSupportFast errNotSupportFast
        (dispatch handler handler.bep6 msg .haveNone)
  | .reject =>
      supporting ExtensionBits.isSupportFast errNotSupportFast
        (dispatch handler handler.bep6 msg (.reject msg.index msg.begin msg.length))
  | .allowedFast =>
      supporting ExtensionBits.isSupportFast errNotSupportFast do
        update fun pc => { pc with fasts := pc.fasts.append msg.index }
        dispatch handler handler.bep6 msg (.allowedFast msg.index)
  | .extended =>
      supporting ExtensionBits.isSupportExtended errNotSupportExtended
        (if handler.bep10 then handleExtMsg net handler msg else call handler (.onMessage msg))
  | .unknown => call handler (.onMessage msg)

/-- The messages of a list are handled one after the other, whatever the errors. -/
def handleAll : List Message → ConnM σ (List (Option HandleError))
  | [] => pure []
  | msg :: rest => do
      let err ← handleMessage net handler msg
      let errs ← handleAll rest
      pure (err :: errs)

end Handle

/-! ### What handling a message does -/

/-- The verdict after a message of the kind `yes` or `no`. -/
def verdict (yes no : MessageKind) (before : Bool) (msg : Message) : Bool :=
  if msg.kind = yes then true else if msg.kind = no then false else before

/-- The indexes after a message of the kind that adds one. -/
def collect (kind : MessageKind) (fast : Bool) (before : Pieces) (msg : Message) : Pieces :=
  if msg.kind = kind ∧ fast then before.append msg.index else before

/-- `pc'` is what `pc` is after the message, apart from the bit field and the extended handshake. -/
structure Handled (pc : Conn) (msg : Message) (pc' : Conn) : Prop where
  same : pc'.toPeerConn = pc.toPeerConn
  peerChoked : pc'.peerChoked = verdict .choke .unchoke pc.peerChoked msg
  peerInterested : pc'.peerInterested = verdict .interested .notInterested pc.peerInterested msg
  fasts : pc'.fasts = collect .allowedFast pc.extBits.isSupportFast pc.fasts msg
  suggests : pc'.suggests = collect .suggest pc.extBits.isSupportFast pc.suggests msg

section Passive

variable {σ : Type} {net : NetIP} {handler : Handler σ}

theorem update_bind_state (f : Conn → Conn) (act : ConnM σ (Option HandleError)) (pc : Conn)
    (w : σ) : (do update f; act : ConnM σ _).state (pc, w) = act.state (f pc, w) := rfl

theorem supporting_state (supported : ExtensionBits → Bool) (err : HandleError)
    (act : ConnM σ (Option HandleError)) (pc : Conn) (w : σ) :
    (supporting supported err act).state (pc, w) =
      if supported pc.extBits then act.state (pc, w) else (pc, w) := by
  unfold supporting
  rw [Act.get_bind_state, Act.ite_state]
  rfl

theorem supporting_of {supported : ExtensionBits → Bool} (err : HandleError)
    (act : ConnM σ (Option HandleError)) {pc : Conn} (yes : supported pc.extBits = true) (w : σ) :
    supporting supported err act (pc, w) = act (pc, w) := by
  rw [supporting, Act.get_bind_apply, if_pos yes]

theorem dispatch_state (passive : handler.Passive) (implemented : Bool) (msg : Message) (c : Call)
    (pc : Conn) (w : σ) : ((dispatch handler implemented msg c).state (pc, w)).1 = pc := by
  unfold dispatch
  split
  · exact passive c pc w
  · exact passive _ pc w

theorem handleExtMsg_state (net : NetIP) (passive : handler.Passive) (msg : Message) (pc : Conn) (w : σ) :
    ∃ value, ((handleExtMsg net handler msg).state (pc, w)).1 =
      { pc with extendedHandshakeMsg := value } := by
  unfold handleExtMsg
  rw [Act.get_bind_state]
  split_ifs
  · exact ⟨_, rfl⟩
  · refine ⟨(decodeHandshake net pc.extendedHandshakeMsg msg.extendedPayload).1, ?_⟩
    dsimp only
    rw [Act.bind_state]
    split
    · rfl
    · split_ifs
      · rfl
      · exact passive _ _ _
  · exact ⟨_, rfl⟩
  · exact ⟨_, passive _ _ _⟩

/-- The kinds of messages that change what `Handled` speaks of. -/
def changingKinds : List MessageKind :=
  [.choke, .unchoke, .interested, .notInterested, .allowedFast, .suggest]

theorem Handled.other {msg : Message} (idle : msg.kind ∉ changingKinds) (pc : Conn)
    (bits : BitField) (value : ExtendedHandshakeMsg) :
    Handled pc msg { pc with bitField := bits, extendedHandshakeMsg := value } := by
  simp only [changingKinds, List.mem_cons, List.not_mem_nil, or_false, not_or] at idle
  obtain ⟨choke, unchoke, interested, notInterested, allowedFast, suggest⟩ := idle
  exact ⟨rfl, by simp [verdict, choke, unchoke], by simp [verdict, interested, notInterested],
    by simp [collect, allowedFast], by simp [collect, suggest]⟩

/-- **What handling a message does**, if the handler leaves the connection alone. -/
theorem handleMessage_handled (passive : handler.Passive) (msg : Message) (pc : Conn) (w : σ) :
    Handled pc msg ((handleMessage net handler msg).state (pc, w)).1 := by
  have idle : msg.kind ∉ changingKinds → Handled pc msg pc := fun other =>
    .other other pc pc.bitField pc.extendedHandshakeMsg
  -- messages of an extension that change nothing themselves
  have idleIf : msg.kind ∉ changingKinds → ∀ supported err implemented c,
      Handled pc msg ((supporting supported err (dispatch handler implemented msg c)).state
        (pc, w)).1 := by
    intro other supported err implemented c
    rw [supporting_state]
    split
    · rw [dispatch_state passive]
      exact idle other
    · exact idle other
  unfold handleMessage
  cases kind : msg.kind with
  | keepalive => exact idle (by simp [kind, changingKinds])
  | request | piece | cancel =>
    dsimp only
    rw [dispatch_state passive]
    exact idle (by simp [kind, changingKinds])
  | unknown =>
    have same : ((call handler (.onMessage msg)).state (pc, w)).1 = pc := passive _ pc w
    dsimp only
    rw [same]
    exact idle (by simp [kind, changingKinds])
  | port | haveAll | haveNone | reject => exact idleIf (by simp [kind, changingKinds]) _ _ _ _
  | havePiece | bitField =>
    dsimp only
    rw [update_bind_state, dispatch_state passive]
    exact .other (by simp [kind, changingKinds]) pc _ pc.extendedHandshakeMsg
  | extended =>
    have other : msg.kind ∉ changingKinds := by simp [kind, changingKinds]
    dsimp only
    rw [supporting_state]
    split
    · rw [Act.ite_state]
      split
      · obtain ⟨value, state⟩ := handleExtMsg_state net passive msg pc w
        rw [state]
        exact .other other pc pc.bitField value
      · have same : ((call handler (.onMessage msg)).state (pc, w)).1 = pc := passive _ pc w
        rw [same]
        exact idle other
    · exact idle other
  | choke | unchoke | interested | notInterested =>
    dsimp only
    rw [update_bind_state, dispatch_state passive]
    constructor <;> simp [verdict, collect, kind]
  | allowedFast | suggest =>
    dsimp only
    rw [supporting_state]
    split
    · rename_i fast
      rw [update_bind_state, dispatch_state passive]
      constructor <;> simp [verdict, collect, kind, fast]
    · rename_i slow
      constructor <;> simp [verdict, collect, kind, slow]

end Passive

/-! ### Sessions -/

/-- A connection in use: what `ReadMsg` has returned so far, in order. -/
structure Session (σ : Type) where
  conn : Conn
  world : σ
  read : List (Message × Option GoError) := []

/-- The messages that were read without an error, which are the ones that were handled. -/
def Session.delivered {σ : Type} (s : Session σ) : List Message :=
  (s.read.filter fun result => result.2.isNone).map Prod.fst

section Sessions

variable {σ ρ : Type} [ByteReader ρ]

/-- One round: a message is read from what the connection delivers at that time, and handled if there
was no error. -/
def round (net : NetIP) (handler : Handler σ) (s : Session σ) (r : ρ) : Session σ :=
  match readMsg s.conn r with
  | (m, some err, pc, _) => { s with conn := pc, read := s.read ++ [(m, some err)] }
  | (m, none, pc, _) =>
      let after := (handleMessage net handler m).state (pc, s.world)
      { conn := after.1, world := after.2, read := s.read ++ [(m, none)] }

/-- The verdict of the last message of the kind `yes` or `no`. -/
def lastVerdict (yes no : MessageKind) (initial : Bool) (ms : List Message) : Bool :=
  match (ms.filter fun m => m.kind = yes ∨ m.kind = no).getLast? with
  | some m => m.kind = yes
  | none => initial

/-- The list is sorted and holds exactly the indexes of the messages of a kind, if the peer supports
the Fast extension. -/
structure Collected (kind : MessageKind) (fast : Bool) (ms : List Message) (ps : Pieces) : Prop where
  sorted : ps.Sorted
  mem_iff : ∀ i, i ∈ ps ↔ fast = true ∧ ∃ m ∈ ms, m.kind = kind ∧ m.index = i

/-- **The messages that were delivered tell the state of the connection.** -/
structure Told (bits : ExtensionBits) (ms : List Message) (pc : Conn) : Prop where
  extBits : pc.extBits = bits
  /-- A message that may only be the first is the first. -/
  first : ∀ m ∈ ms.tail, m.kind ∉ firstKinds
  fasts : Collected .allowedFast bits.isSupportFast ms pc.fasts
  suggests : Collected .suggest bits.isSupportFast ms pc.suggests
  peerChoked : pc.peerChoked = lastVerdict .choke .unchoke true ms
  peerInterested : pc.peerInterested = lastVerdict .interested .notInterested false ms

/-! ### One round -/

theorem lastVerdict_append (yes no : MessageKind) (initial : Bool) (ms : List Message) (m : Message) :
    lastVerdict yes no initial (ms ++ [m]) = verdict yes no (lastVerdict yes no initial ms) m := by
  unfold lastVerdict verdict
  rw [List.filter_append]
  by_cases isYes : m.kind = yes
  · simp [isYes]
  · by_cases isNo : m.kind = no
    · simp [isNo, isNo ▸ isYes]
    · simp [isYes, isNo]

theorem Collected.step {kind : MessageKind} {fast : Bool} {ms : List Message} {ps : Pieces}
    (collected : Collected kind fast ms ps) (m : Message) :
    Collected kind fast (ms ++ [m]) (collect kind fast ps m) := by
  unfold collect
  split
  · rename_i added
    refine ⟨Pieces.sorted_append collected.sorted _, fun i => ?_⟩
    rw [Pieces.mem_append, collected.mem_iff]
    simp only [List.mem_append, List.mem_singleton]
    constructor
    · rintro (⟨fast, m', member, same⟩ | rfl)
      · exact ⟨fast, m', .inl member, same⟩
      · exact ⟨added.2, m, .inr rfl, added.1, rfl⟩
    · rintro ⟨fast, m', member | rfl, same⟩
      · exact .inl ⟨fast, m', member, same⟩
      · exact .inr same.2.symm
  · rename_i other
    refine ⟨collected.sorted, fun i => ?_⟩
    rw [collected.mem_iff]
    simp only [List.mem_append, List.mem_singleton]
    constructor
    · rintro ⟨fast, m', member, same⟩
      exact ⟨fast, m', .inl member, same⟩
    · rintro ⟨fast, m', member | rfl, same⟩
      · exact ⟨fast, m', member, same⟩
      · exact absurd ⟨same.1, fast⟩ other

theorem readMsg_error {pc pc' : Conn} {r r' : ρ} {m : Message} {err : GoError}
    (read : readMsg pc r = (m, some err, pc', r')) : pc' = pc := by
  unfold readMsg at read
  split at read
  · cases read
    rfl
  · split_ifs at read
    · cases read
      rfl
    · cases read

theorem readMsg_ok {pc pc' : Conn} {r r' : ρ} {m : Message}
    (read : readMsg pc r = (m, none, pc', r')) :
    (m.kind ∈ firstKinds → pc.peerStage = .handshook) ∧ pc' = pc.moveOn := by
  have kinds : m.kind ∈ firstKinds → MessageKind.of m.type ∈ firstKinds := by
    unfold Message.kind
    split
    · exact fun impossible => absurd impossible (by decide)
    · exact id
  unfold readMsg at read
  split at read
  · cases read
  · split_ifs at read with late
    · cases read
    · cases read
      refine ⟨fun isFirst => ?_, rfl⟩
      by_contra stage
      exact late ⟨kinds isFirst, stage⟩

/-- The stage of a connection that has been through the handshake. -/
def Staged (ms : List Message) (pc : Conn) : Prop :=
  pc.peerStage = if ms = [] then .handshook else .message

theorem Told.step {bits : ExtensionBits} {ms : List Message} {pc pc' : Conn} {m : Message}
    (told : Told bits ms pc) (staged : Staged ms pc)
    (isFirst : m.kind ∈ firstKinds → pc.peerStage = .handshook)
    (handled : Handled pc.moveOn m pc') : Told bits (ms ++ [m]) pc' ∧ Staged (ms ++ [m]) pc' := by
  have stage : pc'.peerStage = .message := by
    rw [congrArg PeerConn.peerStage handled.same]
    unfold Conn.moveOn
    unfold Staged at staged
    split
    · rfl
    · rename_i later
      split at staged
      · exact absurd staged later
      · exact staged
  refine ⟨⟨(congrArg PeerConn.extBits handled.same).trans told.extBits, ?_, ?_, ?_, ?_, ?_⟩, ?_⟩
  · cases ms with
    | nil => exact fun m' member => absurd member List.not_mem_nil
    | cons head rest =>
      refine List.forall_mem_append.mpr ⟨told.first, List.forall_mem_singleton.mpr fun late => ?_⟩
      have early := isFirst late
      rw [staged, if_neg (List.cons_ne_nil _ _)] at early
      cases early
  · rw [handled.fasts, ← told.extBits]
    exact (told.extBits ▸ told.fasts).step m
  · rw [handled.suggests, ← told.extBits]
    exact (told.extBits ▸ told.suggests).step m
  · rw [handled.peerChoked, lastVerdict_append, ← told.peerChoked]
    rfl
  · rw [handled.peerInterested, lastVerdict_append, ← told.peerInterested]
    rfl
  · unfold Staged
    rw [stage, if_neg (by simp)]

theorem round_told {net : NetIP} {handler : Handler σ} (passive : handler.Passive)
    {bits : ExtensionBits} (s : Session σ) (r : ρ)
    (told : Told bits s.delivered s.conn ∧ Staged s.delivered s.conn) :
    Told bits (round net handler s r).delivered (round net handler s r).conn ∧
      Staged (round net handler s r).delivered (round net handler s r).conn := by
  unfold round
  split
  · rename_i m err pc' rest read
    obtain rfl := readMsg_error read
    have nothing : ({ s with read := s.read ++ [(m, some err)] } : Session σ).delivered =
        s.delivered := by simp [Session.delivered]
    rw [nothing]
    exact told
  · rename_i m pc' rest read
    obtain ⟨isFirst, rfl⟩ := readMsg_ok read
    have delivered : ∀ pc w, ({ conn := pc, world := w, read := s.read ++ [(m, none)] } :
        Session σ).delivered = s.delivered ++ [m] := fun pc w => by simp [Session.delivered]
    rw [delivered]
    exact told.1.step told.2 isFirst (handleMessage_handled passive m _ s.world)

/-! ### Whole sessions -/

open Prog (Plays)

theorem handshake_stage {pc pc' : PeerConn} {calls : List (StreamEvent UInt8 GoError)}
    (plays : Plays pc.handshake calls (.ret (none, pc'))) :
    pc'.peerStage = .handshook ∧ pc'.extBits = pc.extBits := by
  unfold PeerConn.handshake at plays
  split_ifs at plays
  · obtain ⟨_, impossible⟩ := Plays.ret_iff.mp plays
    cases impossible
  · obtain ⟨p, _, eq⟩ := Plays.of_map plays
    cases p with
    | panic reason => cases eq
    | call op next => cases eq
    | ret result =>
      have accepted : pc.accept result.1 result.2 = (none, pc') := (Prog.ret.inj eq).symm
      unfold PeerConn.accept at accepted
      split at accepted
      · cases accepted
      · dsimp only at accepted
        split_ifs at accepted
        · cases accepted
          exact ⟨rfl, rfl⟩
        · cases accepted
        · cases accepted
          exact ⟨rfl, rfl⟩

/-- The flags and lists of a connection that has not handled a message. -/
structure Conn.Fresh (pc : Conn) : Prop where
  peerChoked : pc.peerChoked = true
  peerInterested : pc.peerInterested = false
  fasts : pc.fasts = []
  suggests : pc.suggests = []

/-- **The invariants of a session.** After a successful handshake, and after any number of rounds with
a handler that leaves the connection alone, the messages that were delivered tell the state of the
connection; and at most one of them is a message that may only be the first. -/
theorem session_invariants (net : NetIP) {handler : Handler σ} (passive : handler.Passive) {pc : Conn}
    (fresh : pc.Fresh) {pc' : PeerConn} {calls : List (StreamEvent UInt8 GoError)}
    (shaken : Plays pc.toPeerConn.handshake calls (.ret (none, pc'))) (w : σ) (inputs : List ρ) :
    let s := run (round net handler) { conn := { pc with toPeerConn := pc' }, world := w } inputs
    Told pc.extBits s.delivered s.conn ∧
      (s.delivered.filter fun m => m.kind ∈ firstKinds).length ≤ 1 := by
  intro s
  obtain ⟨stage, bits⟩ := handshake_stage shaken
  have started : Told pc.extBits [] { pc with toPeerConn := pc' } ∧
      Staged [] { pc with toPeerConn := pc' } := by
    refine ⟨⟨bits, nofun, ⟨?_, ?_⟩, ⟨?_, ?_⟩, fresh.peerChoked, fresh.peerInterested⟩, stage⟩
    · rw [fresh.fasts]
      exact List.Pairwise.nil
    · simp [fresh.fasts]
    · rw [fresh.suggests]
      exact List.Pairwise.nil
    · simp [fresh.suggests]
  have told : Told pc.extBits s.delivered s.conn ∧ Staged s.delivered s.conn :=
    run_holds (round net handler) (round_told passive) started inputs
  refine ⟨told.1, ?_⟩
  have first := told.1.first
  cases delivered : s.delivered with
  | nil => exact Nat.zero_le 1
  | cons m rest =>
      have none' : rest.filter (fun m => m.kind ∈ firstKinds) = [] := by
        rw [delivered] at first
        exact List.filter_eq_nil_iff.mpr fun m member => by simpa using first m member
      rw [List.filter_cons, none']
      split
      · exact le_rfl
      · exact Nat.zero_le 1

end Sessions

/-- Two peers that support the Fast extension. -/
def fastPeers (side : Bool) : PeerConn :=
  { twoPeers side with extBits := .copyFrom [0, 0, 0, 0, 0, 0, 0, 4] }

def noopHandler : Handler Unit where
  bep3 := true
  bep5 := true
  bep6 := true
  bep10 := true
  act := fun _ pc w => (pc, w, none)

def noNet : NetIP := ⟨fun _ => .error (str "invalid IP address")⟩

/-- An `AllowedFast` message, and a `Bitfield` message that comes too late. -/
theorem session_invariants_allowed_fast :
    ∃ calls pc', Prog.Plays (fastPeers false).handshake calls (.ret (none, pc')) ∧
      let s := run (round noNet noopHandler) { conn := { toPeerConn := pc' }, world := () }
        [Chunked.whole [0, 0, 0, 5, 17, 0, 0, 0, 7], Chunked.whole [0, 0, 0, 2, 5, 255]]
      (s.conn.fasts = [7] ∧ s.read.length = 2 ∧ s.delivered.length = 1) ∧
        Told (fastPeers false).extBits s.delivered s.conn ∧
        (s.delivered.filter fun m => m.kind ∈ firstKinds).length ≤ 1 := by
  have plays := (shake_explained fastPeers twoPeersMoves).plays false
  have ended : (shake fastPeers twoPeersMoves).ends false = .ret (none, { fastPeers false with
      peerID := .fill 2
      peerExtBits := .copyFrom [0, 0, 0, 0, 0, 0, 0, 4]
      peerStage := .handshook }) := rfl
  rw [ended] at plays
  refine ⟨_, _, plays, by decide +kernel, ?_⟩
  exact session_invariants noNet (fun _ _ _ => rfl)
    (⟨rfl, rfl, rfl, rfl⟩ : Conn.Fresh { toPeerConn := fastPeers false }) plays () _

end GoBt.PeerProtocol
