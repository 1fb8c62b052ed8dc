/-
**The UDP tracker client** (`tracker/udptracker/udp_client.go`).

Requests are synchronous: a datagram is sent, and one datagram is waited for. What the network, the
clock and the context do in such an exchange is an `Exchange`; the connection remembers its read
deadline.

* `connect`, `getConnectionID`, `announce`, `scrape`, `Announce`, `Scrape` — the calls; each returns
  a value, an error or a panic, the new client, and the datagrams that went out and came in.
* `connectReply`, `announceReply`, `scrapeReply` — what is done with the datagram that came in.
* `ready` — the connection id and the transaction id with which a request goes out.
-/

import GoBt.Tracker.UdpWire

namespace GoBt.Tracker

open GoBt.Lib GoBt.Krpc GoBt.Metainfo

/-! ### Errors -/

/-- The errors of the client; `tracker` is the text of an error reply. -/
inductive ClientError
  | conn (err : GoError)
  | cancelled (err : GoError)
  | shortBuffer
  | tracker (reason : GoString)
  | other (text : GoString)
  deriving DecidableEq

/-- `err.Error()`. -/
def ClientError.text : ClientError → GoString
  | .conn err => str err.text
  | .cancelled err => str err.text
  | .shortBuffer => str "short buffer"
  | .tracker reason => reason
  | .other text => text

/-- Why a call does not return a value. -/
inductive Stop
  | error (err : ClientError)
  | panic (p : Panic)
  deriving DecidableEq

/-- Code that may panic, in a call that may also return an error. -/
def mayPanic {α : Type} : Except Panic α → Except Stop α
  | .ok a => .ok a
  | .error p => .error (.panic p)

/-! ### Replies -/

def replyAction (d : List UInt8) : UInt32 := beUInt32 (cut d 0 4)

def replyTid (d : List UInt8) : UInt32 := beUInt32 (cut d 4 8)

def parseError (b : Window UInt8) : Except Panic (UInt32 × GoString) := do
  let tid := beUInt32 (← b.read 0 4)
  let reason ← b.tail 4
  return (tid, reason.items)

/-- The switch over the action of a reply: `expected` goes on, an error reply returns its text. -/
def checkAction (expected : UInt32) (unexpected : GoString) (data : Window UInt8) :
    Except Stop Unit := do
  if data.len < 8 then .error (.error .shortBuffer)
  else
    let action := beUInt32 (← mayPanic (data.read 0 4))
    if action = expected then .ok ()
    else if action = actionError then
      -- The transaction id of the error is not looked at.
      let (_, reason) ← mayPanic (do parseError (← data.tail 4))
      .error (.error (.tracker reason))
    else .error (.error (.other (unexpected ++ numeral 10 action.toNat)))

def checkTid (tid : UInt32) (data : Window UInt8) : Except Stop Unit := do
  let got := beUInt32 (← mayPanic (data.read 4 8))
  if got ≠ tid then
    .error (.error (.other (str "expect transaction id " ++ numeral 10 tid.toNat ++
      str ", but got " ++ numeral 10 got.toNat)))
  else .ok ()

/-- What `connect` does with the datagram `data`: the connection id in it. -/
def connectReply (tid : UInt32) (data : Window UInt8) : Except Stop UInt64 := do
  checkAction actionConnect (str "tracker response is not connect action: ") data
  if data.len < 16 then .error (.error .shortBuffer)
  else
    checkTid tid data
    return beUInt64 (← mayPanic (data.read 8 16))

/-- What `announce` does with the datagram `data`. -/
def announceReply (tid : UInt32) (ipv4 : Bool) (data : Window UInt8) :
    Except Stop AnnounceResponse := do
  checkAction actionAnnounce (str "tracker response is not connect action: ") data
  if data.len < 16 then .error (.error .shortBuffer)
  else
    checkTid tid data
    mayPanic (do AnnounceResponse.decodeFrom (← data.tail 8) ipv4)

/-- What `scrape` does with the datagram `data`. -/
def scrapeReply (tid : UInt32) (data : Window UInt8) : Except Stop (List ScrapeResponse) := do
  checkAction actionScrape (str "tracker response is not connect action ") data
  checkTid tid data
  mayPanic (do (← data.tail 8).eachBlock 12 ScrapeResponse.decodeFrom)

/-! ### The client and its network -/

/-- `net.UDPConn`, as far as the client uses it; the clock stands here too. -/
structure Conn where
  clock : Time
  readDeadline : Option Time
  deriving DecidableEq

/-- A read at this time fails. -/
def Conn.expired (conn : Conn) : Bool := conn.readDeadline.any fun deadline => deadline ≤ conn.clock

/-- How the wait for a datagram ends. -/
inductive Wait
  | cancelled (err : GoError)
  | fails (err : GoError)
  | datagram (d : List UInt8)
  deriving DecidableEq

/-- What the world does while a request is sent and answered: the time that passes before the write,
the result of the write, the time until the wait ends, and until the reply is parsed. -/
structure Exchange where
  sendDelay : Nat := 0
  writeErr : Option GoError := none
  missing : Nat := 0
  waitDelay : Nat := 0
  wait : Wait
  parseDelay : Nat := 0
  deriving DecidableEq

/-- What the world does during a call. -/
structure CallEnv where
  idle : Nat := 0
  connect : Exchange
  request : Exchange
  deriving DecidableEq

structure Client where
  maxBufSize : Int := maxBufSize
  id : Hash
  conn : Conn
  last : Time := 0
  cid : UInt64 := 0
  tid : UInt32 := 0
  ipv4 : Bool
  deriving DecidableEq

/-- A datagram that goes out or comes in. -/
inductive NetEvent
  | wrote (b : List UInt8)
  | read (d : List UInt8)
  deriving DecidableEq

/-- A call of the client: it ends with a value, an error or a panic, and leaves the client and the
network behind. -/
def ClientM (α : Type) : Type := Client → Except Stop α × Client × List NetEvent

namespace ClientM

variable {α β : Type}

instance : Monad ClientM where
  pure a := fun c => (.ok a, c, [])
  bind first next := fun c =>
    match first c with
    | (.ok a, c', events) =>
        let (result, c'', more) := next a c'
        (result, c'', events ++ more)
    | (.error stop, c', events) => (.error stop, c', events)

def lift (result : Except Stop α) : ClientM α := fun c => (result, c, [])

def modify (f : Client → Client) : ClientM Unit := fun c => (.ok (), f c, [])

def get : ClientM Client := fun c => (.ok c, c, [])

end ClientM

namespace Client

open ClientM

def elapse (ns : Nat) : ClientM Unit :=
  modify fun c => { c with conn := { c.conn with clock := c.conn.clock + ns } }

def getTranID : ClientM UInt32 := do
  modify fun c => { c with tid := c.tid + 1 }
  return (← get).tid

def send (ex : Exchange) (b : List UInt8) : ClientM Unit := do
  elapse ex.sendDelay
  fun c => (.ok (), c, [.wrote b])
  match ex.writeErr with
  | some err => lift (.error (.error (.conn err)))
  | none =>
      if b.length - ex.missing < b.length then lift (.error (.error (.conn .shortWrite)))
      else return ()

/-- `utc.readResp(ctx, make([]byte, size))`, and the slice of the bytes read. The deadline that a
cancelled context sets stays. -/
def readResp (ex : Exchange) (size : Nat) : ClientM (Window UInt8) := fun c =>
  let conn := { c.conn with clock := c.conn.clock + ex.waitDelay }
  match ex.wait with
  | .cancelled err =>
      (.error (.error (.cancelled err)),
        { c with conn := { conn with readDeadline := some conn.clock } }, [])
  | .fails err =>
      if conn.expired then (.error (.error (.conn (.other "i/o timeout"))), { c with conn }, [])
      else (.error (.error (.conn err)), { c with conn }, [])
  | .datagram d =>
      if conn.expired then (.error (.error (.conn (.other "i/o timeout"))), { c with conn }, [])
      else
        -- A datagram that is too long for the buffer is cut off.
        let got := d.take size
        (.ok (Window.of got (List.replicate (size - got.length) 0)), { c with conn }, [.read got])

/-- Send a request and wait for the reply. -/
def roundTrip (ex : Exchange) (b : List UInt8) (size : Nat) : ClientM (Window UInt8) := do
  send ex b
  readResp ex size

def connect (ex : Exchange) : ClientM Unit := do
  let tid ← getTranID
  let data ← roundTrip ex (requestHeader protocolID actionConnect tid) 32
  let cid ← lift (connectReply tid data)
  elapse ex.parseDelay
  modify fun c => { c with cid := cid, last := c.conn.clock }

def getConnectionID (env : CallEnv) : ClientM UInt64 := do
  elapse env.idle
  let c ← get
  if minute < c.conn.clock.sub c.last then
    connect env.connect
    return (← get).cid
  else return c.cid

/-- The datagram that `announce` sends. -/
def announceDatagram (cid : UInt64) (tid : UInt32) (req : AnnounceRequest) :
    Except Panic (List UInt8) := do
  let body ← req.encodeTo
  return requestHeader cid actionAnnounce tid ++ body

def scrapeDatagram (cid : UInt64) (tid : UInt32) (ihs : List Hash) : List UInt8 :=
  requestHeader cid actionScrape tid ++ (ihs.map Hash.bytes).flatten

/-- The size of the buffer for a reply. -/
def bufSize (c : Client) : Nat := if c.maxBufSize ≤ 0 then Tracker.maxBufSize else c.maxBufSize.toNat

def announce (env : CallEnv) (req : AnnounceRequest) : ClientM AnnounceResponse := do
  let cid ← getConnectionID env
  let tid ← getTranID
  let c ← get
  let b ← lift (mayPanic (announceDatagram cid tid req))
  let data ← roundTrip env.request b c.bufSize
  lift (announceReply tid c.ipv4 data)

def scrape (env : CallEnv) (ihs : List Hash) : ClientM (List ScrapeResponse) := do
  let cid ← getConnectionID env
  let tid ← getTranID
  let c ← get
  let data ← roundTrip env.request (scrapeDatagram cid tid ihs) c.bufSize
  lift (scrapeReply tid data)

/-- `utc.Announce(ctx, r)`. -/
def publicAnnounce (env : CallEnv) (r : AnnounceRequest) : ClientM AnnounceResponse := do
  if r.infoHash.isZero then lift (.error (.panic (.explicit (str "infohash is ZERO"))))
  else
    let c ← get
    announce env { r with peerID := c.id }

/-- `utc.Scrape(ctx, hs)`. -/
def publicScrape (env : CallEnv) (hs : List Hash) : ClientM (List ScrapeResponse) := scrape env hs

end Client

/-! ### What is done with a reply -/

section Replies

variable {expected tid : UInt32} {unexpected : GoString} {data : Window UInt8}

/-- The error reply `d` in words. -/
def errorReason (d : List UInt8) : GoString := d.drop 8

theorem checkAction_eq : checkAction expected unexpected data =
    if data.len < 8 then .error (.error .shortBuffer)
    else if replyAction data.items = expected then .ok ()
    else if replyAction data.items = actionError then
      .error (.error (.tracker (errorReason data.items)))
    else .error (.error (.other (unexpected ++ numeral 10 (replyAction data.items).toNat))) := by
  unfold checkAction
  by_cases short : data.len < 8
  · rw [if_pos short, if_pos short]
  · rw [if_neg short, if_neg short, Window.read_of_le (by decide) (by omega)]
    show (if replyAction data.items = expected then _ else _) = _
    obtain ⟨rest, tail, left⟩ := Window.tail_of_le (w := data) (show 4 ≤ data.len by omega)
    have size : rest.len = data.len - 4 := by
      rw [← rest.length_items, left, List.length_drop, data.length_items]
    obtain ⟨reason, tail', left'⟩ := Window.tail_of_le (w := rest) (show 4 ≤ rest.len by omega)
    have parsed : parseError rest = .ok (beUInt32 (cut rest.items 0 4), errorReason data.items) := by
      rw [parseError, Window.read_of_le (by decide) (by omega), ok_bind, tail', ok_bind, left', left,
        List.drop_drop]
      rfl
    rw [tail, ok_bind, parsed]
    rfl

def wrongTid (tid : UInt32) (d : List UInt8) : Stop :=
  .error (.other (str "expect transaction id " ++ numeral 10 tid.toNat ++ str ", but got " ++
    numeral 10 (replyTid d).toNat))

theorem checkTid_eq (long : 8 ≤ data.len) : checkTid tid data =
    if replyTid data.items ≠ tid then .error (wrongTid tid data.items) else .ok () := by
  rw [checkTid, Window.read_of_le (by decide) long]
  rfl

/-- What all replies go through, before `rest` looks at the content. -/
def throughHeader {α : Type} (expected tid : UInt32) (unexpected : GoString) (least : Nat)
    (d : List UInt8) (rest : Except Stop α) : Except Stop α :=
  if d.length < 8 then .error (.error .shortBuffer)
  else if replyAction d = expected then
    if d.length < least then .error (.error .shortBuffer)
    else if replyTid d ≠ tid then .error (wrongTid tid d)
    else rest
  else if replyAction d = actionError then .error (.error (.tracker (errorReason d)))
  else .error (.error (.other (unexpected ++ numeral 10 (replyAction d).toNat)))

theorem throughHeader_eq {α : Type} {least : Nat} {rest content : Except Stop α}
    (behind : 8 ≤ data.len → rest =
      if data.len < least then .error (.error .shortBuffer)
      else if replyTid data.items ≠ tid then .error (wrongTid tid data.items)
      else content) :
    (checkAction expected unexpected data >>= fun _ => rest) =
      throughHeader expected tid unexpected least data.items content := by
  rw [checkAction_eq, throughHeader, data.length_items]
  by_cases short : data.len < 8
  · rw [if_pos short, if_pos short]
    rfl
  rw [if_neg short, if_neg short, behind (Nat.not_lt.mp short)]
  by_cases action : replyAction data.items = expected
  · rw [if_pos action, if_pos action]
    rfl
  · rw [if_neg action, if_neg action]
    split <;> rfl

theorem checkTid_bind {α : Type} (long : 8 ≤ data.len) (content : Except Stop α) :
    (checkTid tid data >>= fun _ => content) =
      if replyTid data.items ≠ tid then .error (wrongTid tid data.items) else content := by
  rw [checkTid_eq long]
  split <;> rfl

/-- What `connect` takes from the datagram `d`. -/
def connectResult (tid : UInt32) (d : List UInt8) : Except Stop UInt64 :=
  throughHeader actionConnect tid (str "tracker response is not connect action: ") 16 d
    (.ok (beUInt64 (cut d 8 16)))

theorem connectReply_eq (tid : UInt32) (data : Window UInt8) :
    connectReply tid data = connectResult tid data.items := by
  refine throughHeader_eq fun long => ?_
  by_cases short : data.len < 16
  · rw [if_pos short, if_pos short]
  · rw [if_neg short, if_neg short, checkTid_bind long,
      Window.read_of_le (by decide) (Nat.not_lt.mp short)]
    rfl

theorem announceReply_eq (tid : UInt32) (ipv4 : Bool) (data : Window UInt8) :
    announceReply tid ipv4 data =
      throughHeader actionAnnounce tid (str "tracker response is not connect action: ") 16 data.items
        (if data.len < 20 then .error (.panic .bounds)
          else .ok (.ofBody ipv4 (data.items.drop 8))) := by
  refine throughHeader_eq fun long => ?_
  by_cases short : data.len < 16
  · rw [if_pos short, if_pos short]
  rw [if_neg short, if_neg short, checkTid_bind long]
  obtain ⟨rest, tail, left⟩ := Window.tail_of_le long
  have size : rest.len = data.len - 8 := by
    rw [← rest.length_items, left, List.length_drop, data.length_items]
  rw [tail, ok_bind]
  by_cases twelve : data.len < 20
  · rw [if_pos twelve, AnnounceResponse.decodeFrom_of_lt (by omega)]
    rfl
  · rw [if_neg twelve, AnnounceResponse.decodeFrom_of_le (by omega), left]
    rfl

/-- The responses in `body`. -/
def scrapedOf (body : List UInt8) : List ScrapeResponse :=
  (List.range (body.length / 12)).map fun i => .ofBody (block body 12 i)

theorem scrapeReply_eq (tid : UInt32) (data : Window UInt8) : scrapeReply tid data =
    throughHeader actionScrape tid (str "tracker response is not connect action ") 8 data.items
      (.ok (scrapedOf (data.items.drop 8))) := by
  refine throughHeader_eq fun long => ?_
  obtain ⟨rest, tail, left⟩ := Window.tail_of_le long
  rw [if_neg (Nat.not_lt.mpr long), checkTid_bind long, tail, ok_bind,
    ScrapeResponse.eachBlock_decodeFrom, ← rest.length_items, left]
  rfl

theorem throughHeader_eq_ok {α : Type} {least : Nat} {d : List UInt8} {content : Except Stop α}
    {a : α} (returns : throughHeader expected tid unexpected least d content = .ok a) :
    replyAction d = expected ∧ least ≤ d.length ∧ 8 ≤ d.length ∧ replyTid d = tid ∧
      content = .ok a := by
  unfold throughHeader at returns
  split_ifs at returns with short action shorter wrong
  exact ⟨action, Nat.not_lt.mp shorter, Nat.not_lt.mp short, not_not.mp wrong, returns⟩

theorem throughHeader_of_content {α : Type} {least : Nat} {d : List UInt8} {content : Except Stop α}
    (action : replyAction d = expected) (long : least ≤ d.length) (eight : 8 ≤ d.length)
    (same : replyTid d = tid) : throughHeader expected tid unexpected least d content = content := by
  rw [throughHeader, if_neg (Nat.not_lt.mpr eight), if_pos action, if_neg (Nat.not_lt.mpr long),
    if_neg (not_not.mpr same)]

theorem throughHeader_eq_tracker_iff {α : Type} {least : Nat} {d : List UInt8}
    {content : Except Stop α} {reason : GoString} (other : expected ≠ actionError)
    (noText : content ≠ .error (.error (.tracker reason))) :
    throughHeader expected tid unexpected least d content = .error (.error (.tracker reason)) ↔
      8 ≤ d.length ∧ replyAction d = actionError ∧ reason = errorReason d := by
  unfold throughHeader
  split_ifs with short action shorter wrong isError
  · simp [short]
  · simp [action, other]
  · simp [action, other, wrongTid]
  · simp [action, other, noText]
  · simp [isError, Nat.not_lt.mp short, eq_comm]
  · simp [isError]

theorem throughHeader_eq_panic_iff {α : Type} {least : Nat} {d : List UInt8}
    {content : Except Stop α} {p : Panic} :
    throughHeader expected tid unexpected least d content = .error (.panic p) ↔
      replyAction d = expected ∧ least ≤ d.length ∧ 8 ≤ d.length ∧ replyTid d = tid ∧
        content = .error (.panic p) := by
  constructor
  · intro panics
    unfold throughHeader at panics
    split_ifs at panics with short action shorter wrong isError
    · exact absurd panics (by simp)
    · exact absurd panics (by simp)
    · exact absurd panics (by simp [wrongTid])
    · exact ⟨action, Nat.not_lt.mp shorter, Nat.not_lt.mp short, not_not.mp wrong, panics⟩
    · exact absurd panics (by simp)
    · exact absurd panics (by simp)
  · rintro ⟨action, long, eight, same, panics⟩
    rw [throughHeader_of_content action long eight same, panics]

end Replies

/-! ### Exchanges -/

namespace ClientM

variable {α β : Type} {first : ClientM α} {next : α → ClientM β} {c c' : Client}
  {events : List NetEvent}

theorem bind_ok {a : α} (eq : first c = (.ok a, c', events)) :
    (first >>= next) c = ((next a c').1, (next a c').2.1, events ++ (next a c').2.2) := by
  show (match first c with
    | (.ok a, c', events) =>
      let (result, c'', more) := next a c'
      (result, c'', events ++ more)
    | (.error stop, c', events) => (.error stop, c', events)) = _
  rw [eq]

theorem bind_silent {a : α} (eq : first c = (.ok a, c', [])) : (first >>= next) c = next a c' :=
  bind_ok eq

theorem bind_error {stop : Stop} (eq : first c = (.error stop, c', events)) :
    (first >>= next) c = (.error stop, c', events) := by
  show (match first c with
    | (.ok a, c', events) =>
      let (result, c'', more) := next a c'
      (result, c'', events ++ more)
    | (.error stop, c', events) => (.error stop, c', events)) = _
  rw [eq]

end ClientM

namespace Exchange

def Sent (ex : Exchange) : Prop := ex.writeErr = none ∧ ex.missing = 0

instance (ex : Exchange) : Decidable ex.Sent := by unfold Sent; infer_instance

def connAt (ex : Exchange) (conn : Conn) : Conn :=
  { conn with clock := conn.clock + ex.sendDelay + ex.waitDelay }

/-- What the wait for a reply gives. -/
def outcome (ex : Exchange) (conn : Conn) (size : Nat) : Except ClientError (List UInt8) :=
  match ex.wait with
  | .cancelled err => .error (.cancelled err)
  | .fails err =>
      if (ex.connAt conn).expired then .error (.conn (.other "i/o timeout")) else .error (.conn err)
  | .datagram d =>
      if (ex.connAt conn).expired then .error (.conn (.other "i/o timeout")) else .ok (d.take size)

/-- What an exchange gives: the datagram read, or an error. -/
def result (ex : Exchange) (conn : Conn) (size : Nat) : Except ClientError (List UInt8) :=
  if ex.Sent then ex.outcome conn size else .error (.conn (ex.writeErr.getD .shortWrite))

/-- The connection after an exchange: a cancelled context leaves a deadline behind. -/
def connAfter (ex : Exchange) (conn : Conn) : Conn :=
  if ex.Sent then
    match ex.wait with
    | .cancelled _ => { ex.connAt conn with readDeadline := some (ex.connAt conn).clock }
    | _ => ex.connAt conn
  else { conn with clock := conn.clock + ex.sendDelay }

theorem result_ne_tracker (ex : Exchange) (conn : Conn) (size : Nat) (reason : GoString) :
    ex.result conn size ≠ .error (.tracker reason) := by
  unfold result outcome
  split
  · split
    · simp
    · split <;> simp
    · split <;> simp
  · simp

end Exchange

namespace Client

variable {ex : Exchange} {b : List UInt8} {size : Nat} {c : Client}

theorem send_of_sent (sent : ex.Sent) : send ex b c = (.ok (),
    { c with conn := { c.conn with clock := c.conn.clock + ex.sendDelay } }, [.wrote b]) := by
  obtain ⟨noErr, whole⟩ := sent
  unfold send
  rw [noErr, whole]
  simp only [Nat.sub_zero, lt_irrefl, if_false]
  rfl

theorem send_of_not_sent (unsent : ¬ ex.Sent) (some' : b ≠ []) :
    send ex b c = (.error (.error (.conn (ex.writeErr.getD .shortWrite))),
      { c with conn := { c.conn with clock := c.conn.clock + ex.sendDelay } }, [.wrote b]) := by
  unfold send
  cases failed : ex.writeErr with
  | some err => rfl
  | none =>
    have missing : ex.missing ≠ 0 := fun whole => unsent ⟨failed, whole⟩
    have short : b.length - ex.missing < b.length := by
      have := List.length_pos_iff.mpr some'
      omega
    simp only [if_pos short]
    rfl

theorem roundTrip_eq (some' : b ≠ []) : roundTrip ex b size c =
    match ex.result c.conn size with
    | .ok d => (.ok (Window.of d (List.replicate (size - d.length) 0)),
        { c with conn := ex.connAfter c.conn }, [.wrote b, .read d])
    | .error err => (.error (.error err), { c with conn := ex.connAfter c.conn }, [.wrote b]) := by
  unfold roundTrip Exchange.result Exchange.connAfter
  by_cases sent : ex.Sent
  · rw [ClientM.bind_ok (send_of_sent sent), if_pos sent, if_pos sent]
    unfold readResp Exchange.outcome Exchange.connAt
    cases ex.wait with
    | cancelled err => rfl
    | fails err | datagram d =>
      dsimp only
      split <;> rfl
  · rw [ClientM.bind_error (send_of_not_sent sent some'), if_neg sent, if_neg sent]

/-! ### Calls -/

theorem requestHeader_ne_nil (cid : UInt64) (action tid : UInt32) (body : List UInt8) :
    requestHeader cid action tid ++ body ≠ [] := by
  intro empty
  have size := congrArg List.length empty
  simp [requestHeader] at size

def nextTid (c : Client) : Client := { c with tid := c.tid + 1 }

def later (c : Client) (ns : Nat) : Client :=
  { c with conn := { c.conn with clock := c.conn.clock + ns } }

/-- A client with the connection id of a connect reply. -/
def withReply (c : Client) (ns : Nat) (d : List UInt8) : Client :=
  { c.later ns with cid := beUInt64 (cut d 8 16), last := c.conn.clock + ns }

/-- The datagram answers the connect request of this transaction. -/
def IsConnectReply (tid : UInt32) (d : List UInt8) : Prop :=
  replyAction d = actionConnect ∧ 16 ≤ d.length ∧ replyTid d = tid

instance (tid : UInt32) (d : List UInt8) : Decidable (IsConnectReply tid d) := by
  unfold IsConnectReply; infer_instance

theorem connect_eq : connect ex c =
    let b := requestHeader protocolID actionConnect (c.tid + 1)
    let c' := { c.nextTid with conn := ex.connAfter c.conn }
    match ex.result c.conn 32 with
    | .error err => (.error (.error err), c', [.wrote b])
    | .ok d =>
      match connectResult (c.tid + 1) d with
      | .error stop => (.error stop, c', [.wrote b, .read d])
      | .ok _ => (.ok (), c'.withReply ex.parseDelay d, [.wrote b, .read d]) := by
  have some' := requestHeader_ne_nil protocolID actionConnect (c.tid + 1) []
  rw [List.append_nil] at some'
  have trip : roundTrip ex _ 32 c.nextTid = _ := roundTrip_eq some'
  unfold connect
  rw [ClientM.bind_ok (show getTranID c = (.ok (c.tid + 1), c.nextTid, []) from rfl)]
  change roundTrip ex _ 32 c.nextTid = match ex.result c.conn 32 with | .ok _ => _ | .error _ => _
    at trip
  cases got : ex.result c.conn 32 with
  | error err =>
    rw [got] at trip
    rw [ClientM.bind_error trip]
    rfl
  | ok d =>
    rw [got] at trip
    rw [ClientM.bind_ok trip]
    have reply := connectReply_eq (c.tid + 1) (Window.of d (List.replicate (32 - d.length) 0))
    rw [Window.items_of] at reply
    cases header : connectResult (c.tid + 1) d with
    | error stop =>
      rw [header] at reply
      rw [reply]
      simp only [header]
      rfl
    | ok cid =>
      obtain ⟨_, _, _, _, same⟩ := throughHeader_eq_ok header
      cases same
      rw [header] at reply
      rw [reply]
      simp only [header]
      rfl

/-- The client after a connect request that is answered; there is none if it is not. -/
def connected (ex : Exchange) (c : Client) : Option Client :=
  match ex.result c.conn 32 with
  | .ok d =>
      if IsConnectReply (c.tid + 1) d then
        some ({ c.nextTid with conn := ex.connAfter c.conn }.withReply ex.parseDelay d)
      else none
  | .error _ => none

theorem connect_of_connected {c' : Client} (answered : connected ex c = some c') :
    ∃ d, ex.result c.conn 32 = .ok d ∧ IsConnectReply (c.tid + 1) d ∧ connect ex c = (.ok (), c',
      [.wrote (requestHeader protocolID actionConnect (c.tid + 1)), .read d]) := by
  unfold connected at answered
  split at answered
  · rename_i d got
    split_ifs at answered with reply
    obtain ⟨action, long, same⟩ := reply
    have header : connectResult (c.tid + 1) d = .ok (beUInt64 (cut d 8 16)) :=
      throughHeader_of_content action long (by omega) same
    cases answered
    refine ⟨d, got, ⟨action, long, same⟩, ?_⟩
    rw [connect_eq, got]
    simp only [header]
  · cases answered

theorem connect_of_not_connected (unanswered : connected ex c = none) :
    ∃ stop, connect ex c = (.error stop, { c.nextTid with conn := ex.connAfter c.conn },
      match ex.result c.conn 32 with
      | .ok d => [.wrote (requestHeader protocolID actionConnect (c.tid + 1)), .read d]
      | .error _ => [.wrote (requestHeader protocolID actionConnect (c.tid + 1))]) ∧
      match ex.result c.conn 32 with
      | .ok d => connectResult (c.tid + 1) d = .error stop
      | .error err => stop = .error err := by
  rw [connect_eq]
  unfold connected at unanswered
  cases got : ex.result c.conn 32 with
  | error err => exact ⟨_, rfl, rfl⟩
  | ok d =>
    rw [got] at unanswered
    cases header : connectResult (c.tid + 1) d with
    | error stop =>
      simp only [header]
      exact ⟨stop, rfl, rfl⟩
    | ok cid =>
      obtain ⟨action, long, _, same, _⟩ := throughHeader_eq_ok header
      have reply : IsConnectReply (c.tid + 1) d := ⟨action, long, same⟩
      dsimp only at unanswered
      rw [if_pos reply] at unanswered
      cases unanswered

/-- The connection is too old for a request. -/
def needsConnect (env : CallEnv) (c : Client) : Prop :=
  minute < (c.later env.idle).conn.clock.sub (c.later env.idle).last

instance (env : CallEnv) (c : Client) : Decidable (needsConnect env c) := by
  unfold needsConnect; infer_instance

/-- **The client right before it sends a request**: with the connection id and the transaction id
for it. There is none if the client has to connect first and does not get a connect reply. -/
def ready (env : CallEnv) (c : Client) : Option Client :=
  if needsConnect env c then (connected env.connect (c.later env.idle)).map nextTid
  else some (c.later env.idle).nextTid

variable {env : CallEnv}

theorem getConnectionID_eq (env : CallEnv) (c : Client) :
    getConnectionID env c =
      if needsConnect env c then
        (connect env.connect >>= fun _ => do return (← ClientM.get).cid) (c.later env.idle)
      else (.ok c.cid, c.later env.idle, []) := by
  unfold getConnectionID
  rw [ClientM.bind_silent (show elapse env.idle c = (.ok (), c.later env.idle, []) from rfl),
    ClientM.bind_silent (show ClientM.get (c.later env.idle) = (.ok (c.later env.idle),
      c.later env.idle, []) from rfl)]
  by_cases old : needsConnect env c
  · rw [if_pos old]
    exact congrFun (if_pos old) _
  · rw [if_neg old]
    exact congrFun (if_neg old) _

theorem ids_of_ready {c' : Client} (isReady : ready env c = some c') :
    ∃ front, ∀ {α : Type} (next : UInt64 → UInt32 → ClientM α),
      (do let cid ← getConnectionID env
          let tid ← getTranID
          next cid tid : ClientM α) c =
        ((next c'.cid c'.tid c').1, (next c'.cid c'.tid c').2.1,
          front ++ (next c'.cid c'.tid c').2.2) := by
  unfold ready at isReady
  split_ifs at isReady with old
  · obtain ⟨connectedAt, answered, rfl⟩ := Option.map_eq_some_iff.mp isReady
    obtain ⟨d, _, _, eq⟩ := connect_of_connected answered
    generalize [NetEvent.wrote _, NetEvent.read d] = front at eq
    have id : getConnectionID env c = (.ok connectedAt.cid, connectedAt, front ++ []) := by
      rw [getConnectionID_eq, if_pos old, ClientM.bind_ok eq]
      rfl
    rw [List.append_nil] at id
    refine ⟨front, fun next => ?_⟩
    rw [ClientM.bind_ok id]
    rfl
  · cases isReady
    refine ⟨[], fun next => ?_⟩
    rw [ClientM.bind_silent ((getConnectionID_eq env c).trans (if_neg old))]
    exact ClientM.bind_silent rfl

theorem ids_of_not_ready (notReady : ready env c = none) :
    needsConnect env c ∧ connected env.connect (c.later env.idle) = none ∧
      ∀ {stop : Stop} {c' : Client} {events : List NetEvent},
        connect env.connect (c.later env.idle) = (.error stop, c', events) →
          ∀ {α : Type} (next : UInt64 → UInt32 → ClientM α),
            (do let cid ← getConnectionID env
                let tid ← getTranID
                next cid tid : ClientM α) c = (.error stop, c', events) := by
  unfold ready at notReady
  split_ifs at notReady with old
  refine ⟨old, Option.map_eq_none_iff.mp notReady, fun {stop c' events} eq α next => ?_⟩
  have id : getConnectionID env c = (.error stop, c', events) := by
    rw [getConnectionID_eq, if_pos old, ClientM.bind_error eq]
  exact ClientM.bind_error id

/-- What `announce` returns for the datagram `d`. -/
def announceResult (tid : UInt32) (ipv4 : Bool) (d : List UInt8) : Except Stop AnnounceResponse :=
  throughHeader actionAnnounce tid (str "tracker response is not connect action: ") 16 d
    (if d.length < 20 then .error (.panic .bounds) else .ok (.ofBody ipv4 (d.drop 8)))

/-- What `scrape` returns for the datagram `d`. -/
def scrapeResult (tid : UInt32) (d : List UInt8) : Except Stop (List ScrapeResponse) :=
  throughHeader actionScrape tid (str "tracker response is not connect action ") 8 d
    (.ok (scrapedOf (d.drop 8)))

/-- A request and its reply: the datagrams behind `front`, and what `parse` makes of the reply. -/
def settle {α : Type} (c : Client) (ex : Exchange) (front : List NetEvent) (b : List UInt8)
    (parse : List UInt8 → Except Stop α) : Except Stop α × Client × List NetEvent :=
  match ex.result c.conn c.bufSize with
  | .ok d => (parse d, { c with conn := ex.connAfter c.conn }, front ++ [.wrote b, .read d])
  | .error err => (.error (.error err), { c with conn := ex.connAfter c.conn }, front ++ [.wrote b])

theorem roundTrip_settle {α : Type} (some' : b ≠ []) (front : List NetEvent)
    {parse : List UInt8 → Except Stop α} {handle : Window UInt8 → Except Stop α}
    (handles : ∀ d beyond, handle (Window.of d beyond) = parse d) :
    let rest := (do let data ← roundTrip ex b c.bufSize
                    ClientM.lift (handle data) : ClientM α) c
    (rest.1, rest.2.1, front ++ rest.2.2) = settle c ex front b parse := by
  have trip : roundTrip ex b c.bufSize c = _ := roundTrip_eq some'
  unfold settle
  cases got : ex.result c.conn c.bufSize with
  | error err =>
    rw [got] at trip
    simp only [ClientM.bind_error trip]
  | ok d =>
    rw [got] at trip
    simp only [ClientM.bind_ok trip, ClientM.lift, handles, List.append_nil]

theorem announceDatagram_eq_ok_iff {cid : UInt64} {tid : UInt32} {req : AnnounceRequest}
    {b : List UInt8} : announceDatagram cid tid req = .ok b ↔
      ∃ body, req.encodeTo = .ok body ∧ b = requestHeader cid actionAnnounce tid ++ body := by
  unfold announceDatagram
  cases req.encodeTo with
  | error p => exact iff_of_false (fun impossible => nomatch impossible) (by simp)
  | ok body => simp [ok_bind, pure, Except.pure, eq_comm]

theorem announce_of_ready {c' : Client} (isReady : ready env c = some c') (req : AnnounceRequest) :
    ∃ front, announce env req c = match announceDatagram c'.cid c'.tid req with
      | .error p => (.error (.panic p), c', front)
      | .ok b => settle c' env.request front b (announceResult c'.tid c'.ipv4) := by
  obtain ⟨front, ids⟩ := ids_of_ready isReady
  refine ⟨front, ?_⟩
  unfold announce
  rw [ids, ClientM.bind_silent (show ClientM.get c' = (.ok c', c', []) from rfl)]
  cases encoded : announceDatagram c'.cid c'.tid req with
  | error p => simp [mayPanic, ClientM.lift, bind]
  | ok b =>
    have some' : b ≠ [] := by
      obtain ⟨body, _, rfl⟩ := announceDatagram_eq_ok_iff.mp encoded
      exact requestHeader_ne_nil _ _ _ _
    rw [ClientM.bind_silent (show ClientM.lift (mayPanic (.ok b)) c' = (.ok b, c', []) from rfl)]
    refine roundTrip_settle some' front fun d beyond => ?_
    rw [announceReply_eq, Window.items_of, Window.len_of]
    rfl

theorem scrape_of_ready {c' : Client} (isReady : ready env c = some c') (ihs : List Hash) :
    ∃ front, scrape env ihs c = settle c' env.request front (scrapeDatagram c'.cid c'.tid ihs)
      (scrapeResult c'.tid) := by
  obtain ⟨front, ids⟩ := ids_of_ready isReady
  refine ⟨front, ?_⟩
  unfold scrape
  rw [ids, ClientM.bind_silent (show ClientM.get c' = (.ok c', c', []) from rfl)]
  refine roundTrip_settle (requestHeader_ne_nil _ _ _ _) front fun d beyond => ?_
  rw [scrapeReply_eq, Window.items_of]
  rfl

theorem call_of_not_ready (notReady : ready env c = none) :
    ∃ stop c' events, connect env.connect (c.later env.idle) = (.error stop, c', events) ∧
      (∀ req, announce env req c = (.error stop, c', events)) ∧
        ∀ ihs, scrape env ihs c = (.error stop, c', events) := by
  obtain ⟨_, unanswered, ids⟩ := ids_of_not_ready notReady
  obtain ⟨stop, eq, _⟩ := connect_of_not_connected unanswered
  exact ⟨stop, _, _, eq, fun req => ids eq _, fun ihs => ids eq _⟩

end Client

end GoBt.Tracker
