/-
**The UDP tracker server** (`tracker/udptracker/udp_server.go`).

`handlePacket` is a program over the operations that other goroutines can see: the counter of
connection ids, the table of connections, the clock, the handler and the socket. Between two of them
anything may happen.

* `handlePacket`, with `handleConnect`, `handleAnnounce` and `handleScrape` for its branches.
* `serverSystem` — what the operations do; the handler and the clock are free.
* `handlePacket_eq` — a datagram of at least 16 bytes has a header, and the rest is dispatched.
* `exec_handlePacket_survives_iff` — **the server survives** every datagram but an announce of a
  connected sender whose extensions overrun it.
-/

import GoBt.Lib.GoMap
import GoBt.Lib.Threads
import GoBt.Tracker.UdpWire

namespace GoBt.Tracker

open GoBt.Lib GoBt.Krpc GoBt.Metainfo

structure UdpAddr where
  ip : Ip
  port : Int
  deriving DecidableEq

/-- `wrappedPeerAddr`: whom a connection id was given to, and when. -/
structure WrappedPeerAddr where
  addr : UdpAddr
  time : Time
  deriving DecidableEq

/-- The part of the server that its goroutines share. -/
structure Server where
  cid : UInt64
  conns : GoMap UInt64 WrappedPeerAddr

def newServer : Server := ⟨0, ∅⟩

/-- The operations of a goroutine that others can see. -/
inductive ServerOp
  | onConnect (raddr : UdpAddr)
  | onAnnounce (raddr : UdpAddr) (req : AnnounceRequest)
  | onScrap (raddr : UdpAddr) (infohashes : List Hash)
  | addUint64
  | timeNow
  | setConn (cid : UInt64) (wa : WrappedPeerAddr)
  | getConn (cid : UInt64)
  | writeTo (b : List UInt8) (raddr : UdpAddr)
  deriving DecidableEq

/-- What an operation answers; an error of the handler is its text. -/
abbrev ServerOp.Ans : ServerOp → Type
  | .onConnect _ => Option GoString
  | .onAnnounce _ _ => Except GoString AnnounceResponse
  | .onScrap _ _ => Except GoString (List ScrapeResponse)
  | .addUint64 => UInt64
  | .timeNow => Time
  | .setConn _ _ => Unit
  | .getConn _ => Option WrappedPeerAddr
  | .writeTo _ _ => Unit

abbrev ServerProg := Prog ServerOp ServerOp.Ans

namespace Server

open Prog

section Operations

variable (raddr : UdpAddr) (cid : UInt64)

def onConnect : ServerProg (Option GoString) := perform (ServerOp.onConnect raddr)

def onAnnounce (req : AnnounceRequest) : ServerProg (Except GoString AnnounceResponse) :=
  perform (ServerOp.onAnnounce raddr req)

def onScrap (infohashes : List Hash) : ServerProg (Except GoString (List ScrapeResponse)) :=
  perform (ServerOp.onScrap raddr infohashes)

/-- `time.Now()`. -/
def timeNow : ServerProg Time := perform ServerOp.timeNow

/-- `uts.conns[cid] = wa`, under the lock. -/
def setConn (wa : WrappedPeerAddr) : ServerProg Unit := perform (ServerOp.setConn cid wa)

/-- `uts.conns[cid]`, under the read lock. -/
def getConn : ServerProg (Option WrappedPeerAddr) := perform (ServerOp.getConn cid)

def getConnectionID : ServerProg UInt64 := perform ServerOp.addUint64

/-- `uts.send(raddr, b)`. A failed write is only logged. -/
def send (b : List UInt8) : ServerProg Unit := perform (ServerOp.writeTo b raddr)

end Operations

/-! ### The code -/

def encodeResponseHeader (action tid : UInt32) : List UInt8 :=
  bePut 4 action.toNat ++ bePut 4 tid.toNat

/-- `uts.addConnection(cid, raddr)`. The clock is read before the table is locked. -/
def addConnection (cid : UInt64) (raddr : UdpAddr) : ServerProg Unit := do
  let now ← timeNow
  setConn cid ⟨raddr, now⟩

/-- An entry of the table is for this sender. -/
def matchesAddr (raddr : UdpAddr) (wa : WrappedPeerAddr) : Bool :=
  wa.addr.port == raddr.port && wa.addr.ip == raddr.ip

def checkConnection (cid : UInt64) (raddr : UdpAddr) : ServerProg Bool := do
  let entry ← getConn cid
  return entry.any (matchesAddr raddr)

def sendError (raddr : UdpAddr) (tid : UInt32) (reason : GoString) : ServerProg Unit :=
  send raddr (encodeResponseHeader actionError tid ++ reason)

def connResp (tid : UInt32) (cid : UInt64) : List UInt8 :=
  encodeResponseHeader actionConnect tid ++ bePut 8 cid.toNat

def sendConnResp (raddr : UdpAddr) (tid : UInt32) (cid : UInt64) : ServerProg Unit :=
  send raddr (connResp tid cid)

def sendAnnounceResp (raddr : UdpAddr) (tid : UInt32) (resp : AnnounceResponse) :
    ServerProg Unit := do
  let body ← lift (resp.encodeTo raddr.ip.to4.isSome)
  send raddr (encodeResponseHeader actionAnnounce tid ++ body)

def sendScrapResp (raddr : UdpAddr) (tid : UInt32) (rs : List ScrapeResponse) : ServerProg Unit :=
  send raddr (encodeResponseHeader actionScrape tid ++ (rs.map ScrapeResponse.encodeTo).flatten)

def handleConnect (raddr : UdpAddr) (tid : UInt32) : ServerProg Unit := do
  match ← onConnect raddr with
  | some err => sendError raddr tid err
  | none =>
      let cid ← getConnectionID
      addConnection cid raddr
      sendConnResp raddr tid cid

/-- The least length of an announce request behind the header, as the server checks it. -/
def announceSize (raddr : UdpAddr) : Nat := if raddr.ip.to4.isSome then 82 else 94

/-- `case ActionAnnounce`. The two families differ in the least length only. -/
def handleAnnounce (raddr : UdpAddr) (tid : UInt32) (b : Window UInt8) : ServerProg Unit := do
  if b.len < announceSize raddr then sendError raddr tid (str "invalid announce request")
  else
    let req ← lift (AnnounceRequest.decodeFrom b)
    match ← onAnnounce raddr req with
    | .error err => sendError raddr tid err
    | .ok resp => sendAnnounceResp raddr tid resp

/-- `case ActionScrape`. -/
def handleScrape (raddr : UdpAddr) (tid : UInt32) (b : Window UInt8) : ServerProg Unit := do
  let infohashes ← lift (b.eachBlock 20 newHash)
  if infohashes = [] then sendError raddr tid (str "no infohash")
  else
    match ← onScrap raddr infohashes with
    | .error err => sendError raddr tid err
    | .ok resps => sendScrapResp raddr tid resps

/-- What `handlePacket` does with a packet of a connected sender. -/
def handleConnected (raddr : UdpAddr) (action tid : UInt32) (b : Window UInt8) :
    ServerProg Unit :=
  if action = actionAnnounce then handleAnnounce raddr tid b
  else if action = actionScrape then handleScrape raddr tid b
  else sendError raddr tid (str "unkwnown action")

/-- What `handlePacket` does after it has read the header. -/
def dispatch (raddr : UdpAddr) (cid : UInt64) (action tid : UInt32) (b : Window UInt8) :
    ServerProg Unit := do
  if cid = protocolID ∧ action = actionConnect then handleConnect raddr tid
  else if ← checkConnection cid raddr then handleConnected raddr action tid b
  else sendError raddr tid (str "connection is expired")

def handlePacket (raddr : UdpAddr) (b : Window UInt8) : ServerProg Unit := do
  let cid := beUInt64 (← lift (b.read 0 8))
  let action := beUInt32 (← lift (b.read 8 12))
  let tid := beUInt32 (← lift (b.read 12 16))
  let b ← lift (b.tail 16)
  dispatch raddr cid action tid b

end Server

/-! ### Its environment -/

/-- What the server does not decide: the handler's answers and the clock. -/
structure Outside where
  onConnect : UdpAddr → Option GoString
  onAnnounce : UdpAddr → AnnounceRequest → Except GoString AnnounceResponse
  onScrap : UdpAddr → List Hash → Except GoString (List ScrapeResponse)
  now : Time

/-- What the operations answer and change. None of them blocks. -/
def serverSystem : System ServerOp ServerOp.Ans Server Outside where
  answer outside s op := some <| match op with
    | .onConnect raddr => outside.onConnect raddr
    | .onAnnounce raddr req => outside.onAnnounce raddr req
    | .onScrap raddr infohashes => outside.onScrap raddr infohashes
    | .addUint64 => s.cid + 1
    | .timeNow => outside.now
    | .setConn _ _ => ()
    | .getConn cid => s.conns.lookup cid
    | .writeTo _ _ => ()
  effect op answer s := match op, answer with
    | .addUint64, cid => { s with cid := cid }
    | .setConn cid wa, _ => { s with conns := s.conns.insert cid wa }
    | _, _ => s

theorem serverSystem_answers (outside : Outside) (s : Server) (op : ServerOp) :
    ∃ answer, serverSystem.answer outside s op = some answer := ⟨_, rfl⟩

namespace Server

open Prog

/-- **A datagram of at least 16 bytes has a header**, and the rest goes to its handler. -/
theorem handlePacket_eq (raddr : UdpAddr) {b : Window UInt8} (long : 16 ≤ b.len) :
    ∃ rest : Window UInt8, rest.items = b.items.drop 16 ∧ handlePacket raddr b =
      dispatch raddr (cidOf b.items) (actionOf b.items) (tidOf b.items) rest := by
  obtain ⟨rest, tail, left⟩ := Window.tail_of_le long
  refine ⟨rest, left, ?_⟩
  rw [handlePacket, Window.read_of_le (by decide) (by omega),
    Window.read_of_le (by decide) (by omega), Window.read_of_le (by decide) long, tail]
  rfl

/-- The server has given this connection id to this sender. -/
def connected (s : Server) (cid : UInt64) (raddr : UdpAddr) : Bool :=
  (s.conns.lookup cid).any (matchesAddr raddr)

/-! ### What the handler is given -/

/-- The infohashes in `body`; a rest of fewer than 20 bytes is ignored. -/
def hashesOf (body : List UInt8) : List Hash :=
  (List.range (body.length / 20)).map fun i => Hash.copyFrom (block body 20 i)

/-- **What is handed to the handler is cut out of the datagram.** -/
def FromDatagram (raddr : UdpAddr) (d : List UInt8) : ServerOp → Prop
  | .onConnect r => r = raddr
  | .onAnnounce r req => r = raddr ∧ 16 + 82 ≤ d.length ∧
      ∃ exts, ExtensionTail (d.drop 98) exts ∧ req = .ofBody (d.drop 16) exts
  | .onScrap r infohashes => r = raddr ∧ infohashes = hashesOf (d.drop 16)
  | _ => True

/-- The panics that are none of a slice bound. -/
def NotBounds (p : Panic) : Prop := p ≠ .bounds

section Handlers

variable {raddr : UdpAddr} {tid : UInt32} {d : List UInt8} {b : Window UInt8}

/-- The calls and panics allowed to the server while it handles `d`. -/
abbrev Safe (raddr : UdpAddr) (d : List UInt8) : ServerProg Unit → Prop :=
  Within (FromDatagram raddr d) NotBounds

theorem safe_send (bytes : List UInt8) : Safe raddr d (send raddr bytes) :=
  .call trivial fun _ => .ret ()

theorem safe_connect : Safe raddr d (handleConnect raddr tid) := by
  refine .call rfl fun err => ?_
  cases err with
  | some err => exact safe_send _
  | none => exact .call trivial fun cid => .call trivial fun now => .call trivial fun _ => safe_send _

theorem encodeTo_notBounds {resp : AnnounceResponse} {ipv4 : Bool} {p : Panic}
    (panics : resp.encodeTo ipv4 = .error p) : NotBounds p := by
  have each : ∀ addrs : List CompactAddr,
      addrs.mapM (AnnounceResponse.encodeAddress ipv4) = .error p → NotBounds p := by
    intro addrs
    induction addrs with
    | nil => exact fun impossible => nomatch impossible
    | cons addr rest ih =>
      intro fails
      rw [List.mapM_cons] at fails
      cases first : AnnounceResponse.encodeAddress ipv4 addr with
      | error q =>
        rw [first] at fails
        cases fails
        unfold AnnounceResponse.encodeAddress at first
        split at first
        · cases first
          exact fun bounds => nomatch bounds
        · cases first
      | ok bytes =>
        rw [first, ok_bind] at fails
        cases later : rest.mapM (AnnounceResponse.encodeAddress ipv4) with
        | error q =>
          rw [later] at fails ih
          cases fails
          exact ih rfl
        | ok more =>
          rw [later] at fails
          cases fails
  unfold AnnounceResponse.encodeTo at panics
  cases encoded : resp.addresses.mapM (AnnounceResponse.encodeAddress ipv4) with
  | error q =>
    rw [encoded] at panics
    cases panics
    exact each _ encoded
  | ok bytes =>
    rw [encoded] at panics
    cases panics

theorem safe_announceResp (resp : AnnounceResponse) :
    Safe raddr d (sendAnnounceResp raddr tid resp) := by
  unfold sendAnnounceResp
  cases encoded : resp.encodeTo raddr.ip.to4.isSome with
  | error p => exact .panic (encodeTo_notBounds encoded)
  | ok body => exact safe_send _

theorem safe_scrape (shows : b.items = d.drop 16) : Safe raddr d (handleScrape raddr tid b) := by
  have hashes : b.eachBlock 20 newHash = .ok (hashesOf (d.drop 16)) := by
    have blocks : b.eachBlock 20 newHash = .ok _ :=
      Window.eachBlock_eq (by decide) (fun part size => newHash_of_size size) b
    rw [blocks, ← b.length_items, shows]
    rfl
  unfold handleScrape
  rw [hashes]
  refine .ite (safe_send _) (.call ⟨rfl, rfl⟩ fun answer => ?_)
  cases answer with
  | error err | ok resps => exact safe_send _

theorem handleAnnounce_of_tail (shows : b.items = d.drop 16) (long : announceSize raddr ≤ b.len)
    {exts : List Extension} (encodes : ExtensionTail (d.drop 98) exts) :
    handleAnnounce raddr tid b = (do
      match ← onAnnounce raddr (.ofBody (d.drop 16) exts) with
      | .error err => sendError raddr tid err
      | .ok resp => sendAnnounceResp raddr tid resp) := by
  have enough : 82 ≤ b.len := by
    unfold announceSize at long
    split at long <;> omega
  obtain ⟨rest, left, decodes⟩ := AnnounceRequest.decodeFrom_of_le enough
  have tail : rest.items = d.drop 98 := by rw [left, shows, List.drop_drop]
  rw [← tail] at encodes
  rw [decodeExts_eq_ok_iff.mpr encodes, shows] at decodes
  rw [handleAnnounce, if_neg (Nat.not_lt.mpr long), decodes]
  rfl

theorem handleAnnounce_of_overrun (shows : b.items = d.drop 16)
    (long : announceSize raddr ≤ b.len) (overruns : ∀ exts, ¬ ExtensionTail (d.drop 98) exts) :
    handleAnnounce raddr tid b = .panic .bounds := by
  have enough : 82 ≤ b.len := by
    unfold announceSize at long
    split at long <;> omega
  obtain ⟨rest, left, decodes⟩ := AnnounceRequest.decodeFrom_of_le enough
  have tail : rest.items = d.drop 98 := by rw [left, shows, List.drop_drop]
  rw [← tail] at overruns
  rw [decodeExts_of_overrun overruns] at decodes
  rw [handleAnnounce, if_neg (Nat.not_lt.mpr long), decodes]
  rfl

theorem safe_announce (shows : b.items = d.drop 16)
    (fits : announceSize raddr ≤ b.len → ∃ exts, ExtensionTail (d.drop 98) exts) :
    Safe raddr d (handleAnnounce raddr tid b) := by
  by_cases long : announceSize raddr ≤ b.len
  · obtain ⟨exts, encodes⟩ := fits long
    have size : 16 + 82 ≤ d.length := by
      have enough : 82 ≤ announceSize raddr := by unfold announceSize; split <;> omega
      have rest : b.len = d.length - 16 := by rw [← b.length_items, shows, List.length_drop]
      omega
    rw [handleAnnounce_of_tail shows long encodes]
    refine .call ⟨rfl, size, exts, encodes, rfl⟩ fun answer => ?_
    cases answer with
    | error err => exact safe_send _
    | ok resp => exact safe_announceResp resp
  · rw [handleAnnounce, if_pos (Nat.not_le.mp long)]
    exact safe_send _

end Handlers

/-! ### A packet on its own -/

variable {s : Server} {outside : Outside} {raddr : UdpAddr} {d : List UInt8} {b : Window UInt8}

theorem exec_dispatch {cid : UInt64} {action tid : UInt32}
    (noConnect : ¬ (cid = protocolID ∧ action = actionConnect)) :
    exec serverSystem outside (dispatch raddr cid action tid b) s =
      let rest := exec serverSystem outside
        (if s.connected cid raddr then handleConnected raddr action tid b
          else sendError raddr tid (str "connection is expired")) s
      (rest.1, rest.2.1, ⟨.getConn cid, s.conns.lookup cid⟩ :: rest.2.2) := by
  rw [dispatch, if_neg noConnect]
  rfl

/-- An announce of a connected sender that is long enough but whose extensions overrun it. -/
def OverrunningAnnounce (s : Server) (raddr : UdpAddr) (d : List UInt8) : Prop :=
  actionOf d = actionAnnounce ∧ s.connected (cidOf d) raddr = true ∧
    16 + announceSize raddr ≤ d.length ∧ ∀ exts, ¬ ExtensionTail (d.drop 98) exts

/-- How a call ends that no slice bound stopped, and that gave the handler only bytes of `d`. -/
def Survives (raddr : UdpAddr) (d : List UInt8)
    (result : Ending Unit × Server × List (Event ServerOp ServerOp.Ans)) : Prop :=
  (result.1 = .returned () ∨ ∃ p, p ≠ .bounds ∧ result.1 = .panicked p) ∧
    ∀ event ∈ result.2.2, FromDatagram raddr d event.op

theorem Safe.survives {p : ServerProg Unit} (safe : Safe raddr d p) :
    Survives raddr d (exec serverSystem outside p s) := by
  obtain ⟨ends, calls⟩ := exec_within (serverSystem_answers outside) safe s
  refine ⟨ends.imp ?_ id, calls⟩
  rintro ⟨_, returns⟩
  exact returns

theorem survives_cons {result : Ending Unit × Server × List (Event ServerOp ServerOp.Ans)}
    {event : Event ServerOp ServerOp.Ans} (allowed : FromDatagram raddr d event.op) :
    Survives raddr d (result.1, result.2.1, event :: result.2.2) ↔ Survives raddr d result := by
  unfold Survives
  simp only [List.forall_mem_cons, allowed, true_and]

theorem exec_handleConnected_survives_iff {action tid : UInt32} (shows : b.items = d.drop 16)
    (long : 16 ≤ d.length) :
    Survives raddr d (exec serverSystem outside (handleConnected raddr action tid b) s) ↔
      ¬ (action = actionAnnounce ∧ 16 + announceSize raddr ≤ d.length ∧
        ∀ exts, ¬ ExtensionTail (d.drop 98) exts) := by
  have size : b.len = d.length - 16 := by rw [← b.length_items, shows, List.length_drop]
  unfold handleConnected
  by_cases announce : action = actionAnnounce
  · rw [if_pos announce]
    by_cases enough : 16 + announceSize raddr ≤ d.length
    · by_cases overruns : ∀ exts, ¬ ExtensionTail (d.drop 98) exts
      · rw [handleAnnounce_of_overrun shows (by omega) overruns]
        refine iff_of_false ?_ fun safe => safe ⟨announce, enough, overruns⟩
        rintro ⟨returns | ⟨p, notBounds, panics⟩, _⟩
        · cases returns
        · cases panics
          exact notBounds rfl
      · push Not at overruns
        refine iff_of_true (safe_announce shows fun _ => overruns).survives ?_
        rintro ⟨_, _, none'⟩
        obtain ⟨exts, encodes⟩ := overruns
        exact none' exts encodes
    · refine iff_of_true (safe_announce shows fun long => absurd long (by omega)).survives ?_
      exact fun bad => enough bad.2.1
  · rw [if_neg announce]
    refine iff_of_true ?_ fun bad => announce bad.1
    by_cases scrape : action = actionScrape
    · rw [if_pos scrape]
      exact (safe_scrape shows).survives
    · rw [if_neg scrape]
      exact (safe_send _).survives

/-- **The server survives** every datagram but an announce of a connected sender whose extensions
overrun it, whatever lies behind the datagram in its buffer. -/
theorem exec_handlePacket_survives_iff (s : Server) (outside : Outside) (raddr : UdpAddr)
    (b : Window UInt8) (long : 16 ≤ b.len) :
    Survives raddr b.items (exec serverSystem outside (handlePacket raddr b) s) ↔
      ¬ OverrunningAnnounce s raddr b.items := by
  obtain ⟨rest, left, eq⟩ := handlePacket_eq raddr long
  rw [eq]
  by_cases connect : cidOf b.items = protocolID ∧ actionOf b.items = actionConnect
  · rw [dispatch, if_pos connect]
    refine iff_of_true safe_connect.survives fun overruns => ?_
    rw [OverrunningAnnounce, connect.2] at overruns
    exact absurd overruns.1 (by decide)
  · rw [exec_dispatch connect]
    refine (survives_cons ?_).trans ?_
    · trivial
    unfold OverrunningAnnounce
    by_cases known : s.connected (cidOf b.items) raddr = true
    · rw [if_pos known, exec_handleConnected_survives_iff left (by rwa [b.length_items])]
      simp only [known, true_and]
    · rw [if_neg known]
      exact iff_of_true (safe_send _).survives fun overruns => known overruns.2.1

/-- A peer, a handler that accepts everything, and a server that has given the connection id 1 to
the peer. -/
def localPeer : UdpAddr := ⟨[127, 0, 0, 1], 6881⟩

def acceptAll : Outside where
  onConnect _ := none
  onAnnounce _ _ := .ok {}
  onScrap _ _ := .ok []
  now := 0

def serverOfPeer (peer : UdpAddr) : Server := ⟨1, AList.insert 1 ⟨peer, 0⟩ ∅⟩

/-- An announce with an extension of one byte, in a buffer with room behind it. -/
theorem whole_announce_survives :
    let d := bePut 8 1 ++ (bePut 4 1 ++ (bePut 4 7 ++ (List.replicate 82 0 ++ [2, 1, 5])))
    Survives localPeer d (exec serverSystem acceptAll (handlePacket localPeer
      (Window.of d (List.replicate 100 0))) (serverOfPeer localPeer)) := by
  intro d
  refine (exec_handlePacket_survives_iff (serverOfPeer localPeer) acceptAll localPeer
    (Window.of d (List.replicate 100 0)) (by decide)).mpr fun overruns => ?_
  have one : ([5] : List UInt8).length = (1 : UInt8).toNat := by decide
  exact overruns.2.2.2 _ (ExtensionTail.cons 2 1 one .nil)

/-- An extension that announces five bytes of data where one is left. -/
theorem overrunning_announce_panics :
    (exec serverSystem acceptAll (handlePacket localPeer
      (Window.of (bePut 8 1 ++ (bePut 4 1 ++ (bePut 4 7 ++ (List.replicate 82 0 ++ [2, 5, 1]))))
        (List.replicate 100 0))) (serverOfPeer localPeer)).1 = .panicked .bounds := by
  decide +kernel

end Server

end GoBt.Tracker
