/-
**The UDP tracker client against any tracker** (`tracker/udptracker/udp_client.go`).

* `client_survives_iff` — `connect` and `scrape` return whatever datagram comes in, and `announce`
  does unless the datagram is an announce reply of this transaction with 16 to 19 bytes
  (`CutAnnounceReply`): its guard asks for 16 bytes, its decoder for 20.
* `client_honest_iff` — what a call returns, by itself or in a run of calls, comes from a datagram of
  its own transaction, unless an error reply of another transaction is read (`StaleError`): the error
  branch does not compare.
* `later_call_returns_iff` — **the read deadline over calls.** A call that the tracker answers
  returns the reply exactly if no call before it was cancelled: the deadline that a cancelled wait
  sets is never taken back.
-/

import GoBt.Tracker.UdpClient

namespace GoBt.Tracker

open GoBt.Lib GoBt.Krpc GoBt.Metainfo

namespace Client

variable {ex : Exchange} {env : CallEnv} {c : Client}

/-- `NewClient(conn, id)`: the connection is new, and `random` is what `NewRandomHash` returns. -/
def newClient (clock : Time) (ipv4 : Bool) (random id : Hash) : Client where
  id := if id.isZero then random else id
  conn := { clock := clock, readDeadline := none }
  ipv4 := ipv4

/-! ### Slice bounds -/

theorem announceDatagram_ne_bounds (cid : UInt64) (tid : UInt32) (req : AnnounceRequest) :
    announceDatagram cid tid req ≠ .error .bounds :=
  bind_ne_error (bind_ne_error (encodeExts_ne_bounds _) fun _ impossible => nomatch impossible)
    fun _ impossible => nomatch impossible

theorem connect_ne_panic (ex : Exchange) (c : Client) (p : Panic) :
    (connect ex c).1 ≠ .error (.panic p) := by
  intro panics
  rw [connect_eq] at panics
  cases got : ex.result c.conn 32 with
  | error err => simp [got] at panics
  | ok d =>
    simp only [got] at panics
    split at panics
    · rename_i stop header
      cases panics
      obtain ⟨_, _, _, _, content⟩ := throughHeader_eq_panic_iff.mp header
      cases content
    · cases panics

theorem settle_eq_panic_iff {α : Type} {front : List NetEvent} {b : List UInt8}
    {parse : List UInt8 → Except Stop α} {p : Panic} :
    (settle c ex front b parse).1 = .error (.panic p) ↔
      ∃ d, ex.result c.conn c.bufSize = .ok d ∧ parse d = .error (.panic p) := by
  unfold settle
  cases ex.result c.conn c.bufSize with
  | error err => simp
  | ok d => simp

theorem scrape_ne_panic (env : CallEnv) (ihs : List Hash) (c : Client) (p : Panic) :
    (scrape env ihs c).1 ≠ .error (.panic p) := by
  intro panics
  cases isReady : ready env c with
  | none =>
    obtain ⟨stop, c', events, eq, _, scrapes⟩ := call_of_not_ready isReady
    rw [scrapes ihs] at panics
    cases panics
    exact connect_ne_panic _ _ p (congrArg (·.1) eq)
  | some c' =>
    obtain ⟨front, eq⟩ := scrape_of_ready isReady ihs
    rw [eq] at panics
    obtain ⟨d, _, parsed⟩ := settle_eq_panic_iff.mp panics
    obtain ⟨_, _, _, _, content⟩ := throughHeader_eq_panic_iff.mp parsed
    cases content

/-- The request goes out, and the datagram that comes in for it is an announce reply of its
transaction that ends within the three counters. -/
def CutAnnounceReply (env : CallEnv) (req : AnnounceRequest) (c : Client) : Prop :=
  ∃ c', ready env c = some c' ∧ (∃ b, announceDatagram c'.cid c'.tid req = .ok b) ∧
    ∃ d, env.request.result c'.conn c'.bufSize = .ok d ∧ replyAction d = actionAnnounce ∧
      replyTid d = c'.tid ∧ 16 ≤ d.length ∧ d.length < 20

theorem announceResult_eq_panic_iff {tid : UInt32} {ipv4 : Bool} {d : List UInt8} :
    announceResult tid ipv4 d = .error (.panic .bounds) ↔
      replyAction d = actionAnnounce ∧ replyTid d = tid ∧ 16 ≤ d.length ∧ d.length < 20 := by
  rw [announceResult, throughHeader_eq_panic_iff]
  constructor
  · rintro ⟨action, long, _, same, content⟩
    refine ⟨action, same, long, ?_⟩
    by_contra twenty
    rw [if_neg twenty] at content
    cases content
  · rintro ⟨action, same, long, short⟩
    exact ⟨action, long, by omega, same, if_pos short⟩

theorem announce_panics_iff (env : CallEnv) (req : AnnounceRequest) (c : Client) :
    (announce env req c).1 = .error (.panic .bounds) ↔ CutAnnounceReply env req c := by
  unfold CutAnnounceReply
  cases isReady : ready env c with
  | none =>
    obtain ⟨stop, c', events, eq, announces, _⟩ := call_of_not_ready isReady
    rw [announces req]
    refine iff_of_false (fun panics => ?_) ?_
    · cases panics
      exact connect_ne_panic _ _ .bounds (congrArg (·.1) eq)
    · rintro ⟨_, impossible, _⟩
      cases impossible
  | some c' =>
    obtain ⟨front, eq⟩ := announce_of_ready isReady req
    rw [eq]
    cases encoded : announceDatagram c'.cid c'.tid req with
    | error p =>
      refine iff_of_false (fun panics => ?_) ?_
      · cases panics
        exact announceDatagram_ne_bounds _ _ _ encoded
      · rintro ⟨_, same, ⟨b, impossible⟩, _⟩
        cases same
        rw [encoded] at impossible
        cases impossible
    | ok b =>
      simp only [settle_eq_panic_iff, announceResult_eq_panic_iff, Option.some.injEq,
        exists_eq_left', encoded, Except.ok.injEq, exists_eq', true_and]

/-- **No datagram makes the client panic on a slice bound, but one**: `connect` and `scrape` return
on every datagram, and `announce` does exactly if it does not read an announce reply of its
transaction with 16 to 19 bytes. -/
theorem client_survives_iff (c : Client) (ex : Exchange) (env : CallEnv) (req : AnnounceRequest)
    (ihs : List Hash) :
    (connect ex c).1 ≠ .error (.panic .bounds) ∧ (scrape env ihs c).1 ≠ .error (.panic .bounds) ∧
      ((announce env req c).1 ≠ .error (.panic .bounds) ↔ ¬ CutAnnounceReply env req c) :=
  ⟨connect_ne_panic ex c .bounds, scrape_ne_panic env ihs c .bounds,
    not_congr (announce_panics_iff env req c)⟩

/-- A client, a request, and a reply of the tracker. -/
def localClient : Client := newClient (2 * minute) true (.copyFrom [1]) (.copyFrom [2])

def someRequest : AnnounceRequest := { infoHash := .copyFrom [3], peerID := .copyFrom [2] }

def datagramOf (action tid : UInt32) (body : List UInt8) : List UInt8 :=
  bePut 4 action.toNat ++ (bePut 4 tid.toNat ++ body)

/-- The tracker connects the client and answers its request with `d`. -/
def answering (d : List UInt8) : CallEnv where
  connect := { wait := .datagram (datagramOf actionConnect 1 (bePut 8 7)) }
  request := { wait := .datagram d }

/-- An announce reply that ends behind the interval and the first four bytes of the counters. -/
theorem cut_announce_reply_panics :
    (announce (answering (datagramOf actionAnnounce 2 (List.replicate 8 0))) someRequest
      localClient).1 = .error (.panic .bounds) := by
  decide +kernel

/-! ### Transactions -/

/-- The call returns a response or the tracker's text. -/
def Tells {α : Type} (result : Except Stop α) : Prop :=
  (∃ a, result = .ok a) ∨ ∃ reason, result = .error (.error (.tracker reason))

/-- **What the call returns comes from its own transaction**: the datagram it used, the last one
read, carries the transaction id of the request it was read for. -/
def Honest {α : Type} (run : Except Stop α × Client × List NetEvent) : Prop :=
  Tells run.1 → ∃ front b d, run.2.2 = front ++ [.wrote b, .read d] ∧ replyTid d = tidOf b

/-- An error reply of another transaction. -/
def StaleError (tid : UInt32) (d : List UInt8) : Prop :=
  8 ≤ d.length ∧ replyAction d = actionError ∧ replyTid d ≠ tid

instance (tid : UInt32) (d : List UInt8) : Decidable (StaleError tid d) := by
  unfold StaleError; infer_instance

theorem tells_throughHeader_iff {α : Type} {expected tid : UInt32} {unexpected : GoString}
    {least : Nat} {d : List UInt8} {content : Except Stop α} (other : expected ≠ actionError)
    (noText : ∀ reason, content ≠ .error (.error (.tracker reason))) :
    (Tells (throughHeader expected tid unexpected least d content) → replyTid d = tid) ↔
      ¬ StaleError tid d := by
  constructor
  · rintro honest ⟨eight, isError, differs⟩
    exact differs (honest (Or.inr ⟨errorReason d,
      (throughHeader_eq_tracker_iff other (noText _)).mpr ⟨eight, isError, rfl⟩⟩))
  · rintro fresh (⟨a, returns⟩ | ⟨reason, fails⟩)
    · obtain ⟨_, _, _, same, _⟩ := throughHeader_eq_ok returns
      exact same
    · obtain ⟨eight, isError, _⟩ := (throughHeader_eq_tracker_iff other (noText _)).mp fails
      by_contra differs
      exact fresh ⟨eight, isError, differs⟩

theorem honest_iff {α : Type} {result : Except Stop α} {b d : List UInt8} (front : List NetEvent) :
    Honest (result, c, front ++ [.wrote b, .read d]) ↔ (Tells result → replyTid d = tidOf b) := by
  refine imp_congr_right fun _ => ⟨?_, fun same => ⟨front, b, d, rfl, same⟩⟩
  rintro ⟨front', b', d', events, same⟩
  obtain ⟨_, pair⟩ := List.append_inj' events rfl
  cases pair
  exact same

theorem honest_of_failed {α : Type} {events : List NetEvent} {size : Nat} {err : ClientError}
    (failed : ex.result c.conn size = .error err) {c' : Client} :
    Honest ((.error (.error err) : Except Stop α), c', events) := by
  rintro (⟨a, impossible⟩ | ⟨reason, same⟩)
  · cases impossible
  · cases same
    exact absurd failed (ex.result_ne_tracker _ _ _)

/-- The datagram read in an exchange is an error reply of another transaction. -/
def ReadsStaleError (ex : Exchange) (conn : Conn) (size : Nat) (tid : UInt32) : Prop :=
  ∃ d, ex.result conn size = .ok d ∧ StaleError tid d

theorem honest_settle_iff {α : Type} {front : List NetEvent} {b : List UInt8}
    {parse : List UInt8 → Except Stop α} (same : tidOf b = c.tid)
    (parses : ∀ d, (Tells (parse d) → replyTid d = c.tid) ↔ ¬ StaleError c.tid d) :
    Honest (settle c ex front b parse) ↔ ¬ ReadsStaleError ex c.conn c.bufSize c.tid := by
  unfold settle ReadsStaleError
  cases got : ex.result c.conn c.bufSize with
  | error err => exact iff_of_true (honest_of_failed got) (by simp)
  | ok d =>
    dsimp only
    rw [honest_iff, same, parses]
    simp

theorem honest_connect_iff (ex : Exchange) (c : Client) :
    Honest (connect ex c) ↔ ¬ ReadsStaleError ex c.conn 32 (c.tid + 1) := by
  have sent := tidOf_request protocolID actionConnect (c.tid + 1) []
  rw [List.append_nil] at sent
  unfold ReadsStaleError
  rw [connect_eq]
  cases got : ex.result c.conn 32 with
  | error err => exact iff_of_true (honest_of_failed got) (by simp)
  | ok d =>
    have iff : (Tells (connectResult (c.tid + 1) d) → replyTid d = c.tid + 1) ↔
        ¬ StaleError (c.tid + 1) d :=
      tells_throughHeader_iff (by decide) (by simp)
    simp only [Except.ok.injEq, exists_eq_left']
    rw [← iff]
    cases connectResult (c.tid + 1) d with
    | error stop | ok cid =>
      refine (honest_iff []).trans ?_
      rw [sent]
      simp [Tells]

/-- **An error reply of another transaction is read**, in place of the connect reply or of the reply
to the request; `sends` says that the request goes out. -/
def CallReadsStaleError (env : CallEnv) (c : Client) (sends : Prop) : Prop :=
  (needsConnect env c ∧
    ReadsStaleError env.connect (c.later env.idle).conn 32 ((c.later env.idle).tid + 1)) ∨
  sends ∧ ∃ c', ready env c = some c' ∧ ReadsStaleError env.request c'.conn c'.bufSize c'.tid

theorem callReadsStaleError_of_ready {c' : Client} {sends : Prop} (isReady : ready env c = some c') :
    CallReadsStaleError env c sends ↔
      sends ∧ ReadsStaleError env.request c'.conn c'.bufSize c'.tid := by
  have answered : ¬ (needsConnect env c ∧
      ReadsStaleError env.connect (c.later env.idle).conn 32 ((c.later env.idle).tid + 1)) := by
    rintro ⟨old, d, got, _, isError, _⟩
    rw [ready, if_pos old] at isReady
    obtain ⟨connectedAt, answered, _⟩ := Option.map_eq_some_iff.mp isReady
    obtain ⟨d', got', ⟨action, _⟩, _⟩ := connect_of_connected answered
    rw [got] at got'
    cases got'
    rw [isError] at action
    exact absurd action (by decide)
  unfold CallReadsStaleError
  rw [isReady]
  simp only [answered, false_or, Option.some.injEq, exists_eq_left']

theorem honest_of_not_ready {α : Type} {sends : Prop} {stop : Stop} {c' : Client}
    {events : List NetEvent} (notReady : ready env c = none)
    (eq : connect env.connect (c.later env.idle) = (.error stop, c', events)) :
    Honest ((.error stop : Except Stop α), c', events) ↔ ¬ CallReadsStaleError env c sends := by
  have same : Honest ((.error stop : Except Stop α), c', events) ↔
      Honest (connect env.connect (c.later env.idle)) := by
    rw [eq]
    simp [Honest, Tells]
  obtain ⟨old, _, _⟩ := ids_of_not_ready notReady
  rw [same, honest_connect_iff]
  unfold CallReadsStaleError
  simp only [old, notReady, true_and, reduceCtorEq, false_and, exists_false, and_false, or_false]

theorem honest_scrape_iff (env : CallEnv) (ihs : List Hash) (c : Client) :
    Honest (scrape env ihs c) ↔ ¬ CallReadsStaleError env c True := by
  cases isReady : ready env c with
  | none =>
    obtain ⟨stop, c', events, eq, _, scrapes⟩ := call_of_not_ready isReady
    rw [scrapes ihs, honest_of_not_ready isReady eq]
  | some c' =>
    obtain ⟨front, eq⟩ := scrape_of_ready isReady ihs
    rw [eq, callReadsStaleError_of_ready isReady, true_and]
    exact honest_settle_iff (tidOf_request _ _ _ _) fun d =>
      tells_throughHeader_iff (by decide) (by simp)

theorem honest_announce_iff (env : CallEnv) (req : AnnounceRequest) (c : Client) :
    Honest (announce env req c) ↔ ¬ CallReadsStaleError env c (∃ body, req.encodeTo = .ok body) := by
  cases isReady : ready env c with
  | none =>
    obtain ⟨stop, c', events, eq, announces, _⟩ := call_of_not_ready isReady
    rw [announces req, honest_of_not_ready isReady eq]
  | some c' =>
    obtain ⟨front, eq⟩ := announce_of_ready isReady req
    rw [eq, callReadsStaleError_of_ready isReady]
    cases encoded : announceDatagram c'.cid c'.tid req with
    | error p =>
      refine iff_of_true (by simp [Honest, Tells]) ?_
      rintro ⟨⟨body, encodes⟩, _⟩
      rw [announceDatagram_eq_ok_iff.mpr ⟨body, encodes, rfl⟩] at encoded
      cases encoded
    | ok b =>
      obtain ⟨body, encodes, rfl⟩ := announceDatagram_eq_ok_iff.mp encoded
      simp only [encodes, Except.ok.injEq, exists_eq', true_and]
      exact honest_settle_iff (tidOf_request _ _ _ _) fun d =>
        tells_throughHeader_iff (by decide) (by intro reason; split <;> simp)

/-! ### Runs of calls -/

/-- A call of `Announce` or `Scrape`. -/
inductive Request
  | announce (r : AnnounceRequest)
  | scrape (hs : List Hash)
  deriving DecidableEq

/-- What `Announce` or `Scrape` returns. -/
inductive Reply
  | announce (r : AnnounceResponse)
  | scrape (rs : List ScrapeResponse)
  deriving DecidableEq

/-- `utc.Announce(ctx, r)` or `utc.Scrape(ctx, hs)`. -/
def call (env : CallEnv) : Request → ClientM Reply
  | .announce r => do return .announce (← publicAnnounce env r)
  | .scrape hs => do return .scrape (← publicScrape env hs)

def afterCalls : List (CallEnv × Request) → Client → Client
  | [], c => c
  | (env, req) :: rest, c => afterCalls rest (call env req c).2.1

/-- `Announce` panics on a zero infohash. -/
def Request.Refused : Request → Prop
  | .announce r => r.infoHash.isZero = true
  | .scrape _ => False

theorem wrap_eq {α β : Type} (first : ClientM α) (f : α → β) (c : Client) :
    (do return f (← first) : ClientM β) c = ((first c).1.map f, (first c).2) := by
  rcases eq : first c with ⟨result | a, c', events⟩
  · rw [ClientM.bind_error eq]
    rfl
  · rw [ClientM.bind_ok eq]
    show (Except.ok (f a), c', events ++ []) = _
    rw [List.append_nil]
    rfl

theorem publicAnnounce_of_some {r : AnnounceRequest} (some' : r.infoHash.isZero = false) :
    publicAnnounce env r c = announce env { r with peerID := c.id } c := by
  unfold publicAnnounce
  rw [if_neg (by simp [some'])]
  exact ClientM.bind_silent rfl

theorem call_of_refused {req : Request} (refused : req.Refused) :
    call env req c = (.error (.panic (.explicit (str "infohash is ZERO"))), c, []) := by
  cases req with
  | announce r =>
    rw [call, wrap_eq, publicAnnounce, if_pos (show r.infoHash.isZero = true from refused)]
    rfl
  | scrape hs => exact refused.elim

/-- The request goes out, once the client is ready. -/
def Request.Sends (c : Client) : Request → Prop
  | .announce r => ∃ body, { r with peerID := c.id }.encodeTo = .ok body
  | .scrape _ => True

/-- The call reads an error reply of another transaction. -/
def Request.ReadsStaleError (env : CallEnv) (c : Client) (req : Request) : Prop :=
  ¬ req.Refused ∧ CallReadsStaleError env c (req.Sends c)

def AllHonest : List (CallEnv × Request) → Client → Prop
  | [], _ => True
  | (env, req) :: rest, c => Honest (call env req c) ∧ AllHonest rest (call env req c).2.1

/-- Some call of the run reads an error reply of another transaction. -/
def SomeStaleError : List (CallEnv × Request) → Client → Prop
  | [], _ => False
  | (env, req) :: rest, c => req.ReadsStaleError env c ∨ SomeStaleError rest (call env req c).2.1

theorem honest_map {α β : Type} (f : α → β) (run : Except Stop α × Client × List NetEvent) :
    Honest (run.1.map f, run.2) ↔ Honest run := by
  obtain ⟨result | a, c', events⟩ := run
  · simp [Honest, Tells, Except.map]
  · simp [Honest, Tells, Except.map]

theorem honest_call_iff (env : CallEnv) (req : Request) (c : Client) :
    Honest (call env req c) ↔ ¬ req.ReadsStaleError env c := by
  unfold Request.ReadsStaleError
  by_cases refused : req.Refused
  · rw [call_of_refused refused]
    exact iff_of_true (by simp [Honest, Tells]) fun both => both.1 refused
  rw [and_iff_right refused]
  cases req with
  | announce r =>
    rw [call, wrap_eq, honest_map, publicAnnounce_of_some (by simpa [Request.Refused] using refused)]
    exact honest_announce_iff env _ c
  | scrape hs =>
    rw [call, wrap_eq, honest_map]
    exact honest_scrape_iff env hs c

/-- **Answers come from the matching transaction exactly as long as no error reply of another
transaction is read**: for every client and whatever datagrams come in, in whatever order, and in
every run of calls of `Announce` and `Scrape`. -/
theorem client_honest_iff (c : Client) (ex : Exchange) (env : CallEnv) (req : AnnounceRequest)
    (ihs : List Hash) (calls : List (CallEnv × Request)) :
    (Honest (connect ex c) ↔ ¬ ReadsStaleError ex c.conn 32 (c.tid + 1)) ∧
      (Honest (announce env req c) ↔
        ¬ CallReadsStaleError env c (∃ body, req.encodeTo = .ok body)) ∧
      (Honest (scrape env ihs c) ↔ ¬ CallReadsStaleError env c True) ∧
      (AllHonest calls c ↔ ¬ SomeStaleError calls c) := by
  refine ⟨honest_connect_iff ex c, honest_announce_iff env req c, honest_scrape_iff env ihs c, ?_⟩
  induction calls generalizing c with
  | nil => simp [AllHonest, SomeStaleError]
  | cons first rest ih => rw [AllHonest, SomeStaleError, honest_call_iff, ih, not_or]

/-- The client after a request that the tracker refuses, and the same error datagram again. -/
def refusal : List UInt8 := datagramOf actionError 2 (str "busy")

def refusedClient : Client := (announce (answering refusal) someRequest localClient).2.1

def eventTid : NetEvent → UInt32
  | .wrote b => tidOf b
  | .read d => replyTid d

/-- **A duplicate of the error reply to one request ends the next request**: the second request has
the transaction id 3, the datagram the transaction id 2. -/
theorem duplicated_error_is_returned :
    (announce (answering refusal) someRequest refusedClient).1 =
        .error (.error (.tracker (str "busy"))) ∧
      (announce (answering refusal) someRequest refusedClient).2.2.map eventTid = [3, 2] ∧
      ¬ Honest (announce (answering refusal) someRequest refusedClient) := by
  have text : (announce (answering refusal) someRequest refusedClient).1 =
      .error (.error (.tracker (str "busy"))) := by decide +kernel
  have tids : (announce (answering refusal) someRequest refusedClient).2.2.map eventTid = [3, 2] := by
    decide +kernel
  refine ⟨text, tids, fun honest => ?_⟩
  obtain ⟨front, b, d, events, same⟩ := honest (Or.inr ⟨_, text⟩)
  rw [events, List.map_append] at tids
  obtain ⟨_, pair⟩ := List.append_inj' (tids.trans (List.nil_append _).symm) rfl
  obtain ⟨sent, got⟩ := List.cons_eq_cons.mp pair
  have three : replyTid d = 3 := same.trans sent
  have two : replyTid d = 2 := (List.cons_eq_cons.mp got).1
  rw [two] at three
  exact absurd three (by decide)

/-! ### The read deadline over calls -/

/-- The call ends by the cancellation of its context. -/
def EndsCancelled (env : CallEnv) (req : Request) (c : Client) : Prop :=
  ∃ err, (call env req c).1 = .error (.error (.cancelled err))

/-- Some call of the run ends by the cancellation of its context. -/
def SomeCancelled : List (CallEnv × Request) → Client → Prop
  | [], _ => False
  | (env, req) :: rest, c => EndsCancelled env req c ∨ SomeCancelled rest (call env req c).2.1

/-- The datagram of a request, once the client is ready. -/
def Request.datagram (c : Client) : Request → Except Panic (List UInt8)
  | .announce r => announceDatagram c.cid c.tid { r with peerID := c.id }
  | .scrape hs => .ok (scrapeDatagram c.cid c.tid hs)

/-- What the call returns for the datagram `d`. -/
def Request.parse (c : Client) (d : List UInt8) : Request → Except Stop Reply
  | .announce _ => (announceResult c.tid c.ipv4 d).map .announce
  | .scrape _ => (scrapeResult c.tid d).map .scrape

theorem ready_id {c' : Client} (isReady : ready env c = some c') : c'.id = c.id := by
  unfold ready at isReady
  split_ifs at isReady with old
  · obtain ⟨connectedAt, answered, rfl⟩ := Option.map_eq_some_iff.mp isReady
    unfold connected at answered
    split at answered
    · split_ifs at answered
      cases answered
      rfl
    · cases answered
  · cases isReady
    rfl

theorem settle_map {α β : Type} (f : α → β) {front : List NetEvent} {b : List UInt8}
    {parse : List UInt8 → Except Stop α} :
    ((settle c ex front b parse).1.map f, (settle c ex front b parse).2) =
      settle c ex front b fun d => (parse d).map f := by
  unfold settle
  cases ex.result c.conn c.bufSize with
  | error err => rfl
  | ok d => rfl

theorem call_of_ready {c' : Client} {req : Request} (accepted : ¬ req.Refused)
    (isReady : ready env c = some c') :
    ∃ front, call env req c = match req.datagram c' with
      | .error p => (.error (.panic p), c', front)
      | .ok b => settle c' env.request front b fun d => req.parse c' d := by
  cases req with
  | announce r =>
    obtain ⟨front, eq⟩ := announce_of_ready isReady { r with peerID := c.id }
    refine ⟨front, ?_⟩
    rw [call, wrap_eq, publicAnnounce_of_some (by simpa [Request.Refused] using accepted), eq,
      Request.datagram, ready_id isReady]
    cases announceDatagram c'.cid c'.tid { r with peerID := c.id } with
    | error p => rfl
    | ok b => exact settle_map Reply.announce
  | scrape hs =>
    obtain ⟨front, eq⟩ := scrape_of_ready isReady hs
    refine ⟨front, ?_⟩
    rw [call, wrap_eq, publicScrape, eq]
    exact settle_map Reply.scrape

theorem call_stops_at_connect {req : Request} (accepted : ¬ req.Refused)
    (notReady : ready env c = none) :
    ∃ stop c' events, connect env.connect (c.later env.idle) = (.error stop, c', events) ∧
      call env req c = (.error stop, c', events) := by
  obtain ⟨stop, c', events, eq, announces, scrapes⟩ := call_of_not_ready notReady
  refine ⟨stop, c', events, eq, ?_⟩
  cases req with
  | announce r =>
    rw [call, wrap_eq, publicAnnounce_of_some (by simpa [Request.Refused] using accepted),
      announces]
    rfl
  | scrape hs =>
    rw [call, wrap_eq, publicScrape, scrapes]
    rfl

/-- No deadline is set, or it has passed. -/
def Past (conn : Conn) : Prop := ∀ deadline ∈ conn.readDeadline, deadline ≤ conn.clock

theorem expired_iff {conn : Conn} (past : Past conn) :
    conn.expired = true ↔ conn.readDeadline.isSome = true := by
  unfold Conn.expired
  cases deadline : conn.readDeadline with
  | none => simp
  | some t => simpa using past t deadline

theorem past_later {conn : Conn} (past : Past conn) (ns : Nat) :
    Past { conn with clock := conn.clock + ns } := fun deadline member =>
  (past deadline member).trans (Int.le_add_of_nonneg_right (Int.natCast_nonneg ns))

theorem result_of_expired {conn : Conn} {size : Nat} (past : Past conn)
    (set : conn.readDeadline.isSome = true) (d : List UInt8) : ex.result conn size ≠ .ok d := by
  have expired : (ex.connAt conn).expired = true :=
    (expired_iff (past_later (past_later past _) _)).mpr set
  unfold Exchange.result Exchange.outcome
  rw [expired]
  split
  · split <;> simp
  · simp

/-- The deadline stays in the past, and it is set exactly if it was set before or the step was
cancelled. -/
def Marked (before after : Conn) (cancelled : Prop) : Prop :=
  Past after ∧
    (after.readDeadline.isSome = true ↔ before.readDeadline.isSome = true ∨ cancelled)

theorem connAfter_marked (ex : Exchange) {conn : Conn} (past : Past conn) (size : Nat) :
    Marked conn (ex.connAfter conn) (∃ err, ex.result conn size = .error (.cancelled err)) := by
  unfold Marked Exchange.connAfter Exchange.result Exchange.outcome
  by_cases sent : ex.Sent
  · rw [if_pos sent, if_pos sent]
    cases ex.wait with
    | cancelled err => exact ⟨by simp [Past], by simp⟩
    | fails err | datagram d =>
      refine ⟨past_later (past_later past _) _, ?_⟩
      cases (ex.connAt conn).expired <;> simp [Exchange.connAt]
  · rw [if_neg sent, if_neg sent]
    exact ⟨past_later past _, by simp⟩

theorem throughHeader_ne_cancelled {α : Type} {expected tid : UInt32} {unexpected : GoString}
    {least : Nat} {d : List UInt8} {content : Except Stop α} {err : GoError}
    (other : content ≠ .error (.error (.cancelled err))) :
    throughHeader expected tid unexpected least d content ≠ .error (.error (.cancelled err)) := by
  unfold throughHeader
  split_ifs
  · simp
  · simp
  · simp [wrongTid]
  · exact other
  · simp
  · simp

theorem parse_ne_cancelled (req : Request) (d : List UInt8) (err : GoError) :
    req.parse c d ≠ .error (.error (.cancelled err)) := by
  have map_ne : ∀ {α : Type} {result : Except Stop α} {f : α → Reply},
      result ≠ .error (.error (.cancelled err)) →
        result.map f ≠ .error (.error (.cancelled err)) := by
    intro α result f ne
    cases result with
    | error stop => exact fun same => ne (by rw [Except.error.inj same])
    | ok a => exact fun same => nomatch same
  cases req with
  | announce r =>
    refine map_ne (throughHeader_ne_cancelled ?_)
    split <;> simp
  | scrape hs => exact map_ne (throughHeader_ne_cancelled (by simp))

theorem connect_marked (ex : Exchange) (past : Past c.conn) :
    Marked c.conn (connect ex c).2.1.conn
      (∃ err, (connect ex c).1 = .error (.error (.cancelled err))) := by
  have exchange := connAfter_marked ex past 32
  rw [connect_eq]
  cases got : ex.result c.conn 32 with
  | error err => simpa [got] using exchange
  | ok d =>
    simp only [got, reduceCtorEq, exists_false] at exchange
    cases header : connectResult (c.tid + 1) d with
    | error stop =>
      simp only [header, Except.error.injEq]
      refine ⟨exchange.1, exchange.2.trans (or_congr_right (iff_of_false not_false ?_))⟩
      rintro ⟨err, rfl⟩
      exact throughHeader_ne_cancelled (by simp) header
    | ok cid =>
      simp only [header]
      exact ⟨past_later exchange.1 _, exchange.2.trans (or_congr_right (by simp))⟩

theorem ready_marked {c' : Client} (past : Past c.conn) (isReady : ready env c = some c') :
    Marked c.conn c'.conn False := by
  unfold ready at isReady
  split_ifs at isReady with old
  · obtain ⟨connectedAt, answered, rfl⟩ := Option.map_eq_some_iff.mp isReady
    obtain ⟨d, _, _, eq⟩ := connect_of_connected answered
    have marked := connect_marked (c := c.later env.idle) env.connect (past_later past _)
    rw [eq] at marked
    exact ⟨marked.1, marked.2.trans (or_congr_right (by simp))⟩
  · cases isReady
    exact ⟨past_later past _, by simp [nextTid, later]⟩

/-- **One call**: it leaves a deadline behind exactly if it ends by cancellation. -/
theorem call_marked (past : Past c.conn) (req : Request) :
    Marked c.conn (call env req c).2.1.conn (EndsCancelled env req c) := by
  unfold EndsCancelled
  by_cases refused : req.Refused
  · rw [call_of_refused refused]
    exact ⟨past, by simp⟩
  cases isReady : ready env c with
  | none =>
    obtain ⟨stop, c', events, eq, stops⟩ := call_stops_at_connect refused isReady
    have marked := connect_marked (c := c.later env.idle) env.connect (past_later past _)
    rw [eq] at marked
    rw [stops]
    simp only [Except.error.injEq] at marked ⊢
    exact marked
  | some c' =>
    obtain ⟨past', before⟩ := ready_marked past isReady
    rw [or_false] at before
    obtain ⟨front, eq⟩ := call_of_ready refused isReady
    rw [eq]
    cases req.datagram c' with
    | error p => exact ⟨past', before.trans (by simp)⟩
    | ok b =>
      obtain ⟨after, marked⟩ := connAfter_marked env.request past' c'.bufSize
      unfold settle
      cases got : env.request.result c'.conn c'.bufSize with
      | error err =>
        refine ⟨after, marked.trans (or_congr before ?_)⟩
        simp [got]
      | ok d =>
        refine ⟨after, marked.trans (or_congr before ?_)⟩
        simp [got, parse_ne_cancelled]

/-- **A run of calls** leaves a deadline behind exactly if one of them ended by cancellation. -/
theorem afterCalls_marked (calls : List (CallEnv × Request)) (c : Client) (past : Past c.conn) :
    Marked c.conn (afterCalls calls c).conn (SomeCancelled calls c) := by
  induction calls generalizing c with
  | nil => exact ⟨past, by simp [afterCalls, SomeCancelled]⟩
  | cons first rest ih =>
    obtain ⟨env, req⟩ := first
    obtain ⟨past', marked⟩ := call_marked past req
    obtain ⟨past'', marked'⟩ := ih _ past'
    refine ⟨past'', marked'.trans ?_⟩
    rw [marked, or_assoc]
    rfl

theorem result_of_no_deadline {conn : Conn} {d : List UInt8} (none' : conn.readDeadline = none)
    (sent : ex.Sent) (arrives : ex.wait = .datagram d) (size : Nat) :
    ex.result conn size = .ok (d.take size) := by
  have open' : (ex.connAt conn).expired = false := by
    unfold Conn.expired Exchange.connAt
    rw [none']
    rfl
  rw [Exchange.result, if_pos sent, Exchange.outcome, arrives]
  simp [open']

theorem IsConnectReply.take {tid : UInt32} {d : List UInt8} (reply : IsConnectReply tid d) :
    IsConnectReply tid (d.take 32) := by
  obtain ⟨action, long, same⟩ := reply
  refine ⟨?_, by rw [List.length_take]; omega, ?_⟩
  · rw [replyAction, cut_take (by decide)]
    exact action
  · rw [replyTid, cut_take (by decide)]
    exact same

/-- The extensions of the request can be encoded. -/
def Request.Encodes : Request → Prop
  | .announce r => ∃ bytes, encodeExts r.exts = .ok bytes
  | .scrape _ => True

/-- A well-formed reply to the request with the transaction id `tid`. -/
def Request.IsReply (tid : UInt32) (d : List UInt8) : Request → Prop
  | .announce _ => replyAction d = actionAnnounce ∧ 20 ≤ d.length ∧ replyTid d = tid
  | .scrape _ => replyAction d = actionScrape ∧ 8 ≤ d.length ∧ replyTid d = tid

def Request.replyIn (ipv4 : Bool) (d : List UInt8) : Request → Reply
  | .announce _ => .announce (.ofBody ipv4 (d.drop 8))
  | .scrape _ => .scrape (scrapedOf (d.drop 8))

/-- The transaction id of the request: a connect request takes one before it. -/
def requestTidOf (env : CallEnv) (c : Client) : UInt32 :=
  if needsConnect env c then c.tid + 1 + 1 else c.tid + 1

/-- **The tracker answers the call with `d`**: the request can be sent, it is not cancelled, and the
datagrams that come in are a connect reply, if the client asks for one, and a well-formed reply to
the request. -/
structure Answered (env : CallEnv) (req : Request) (c : Client) (d : List UInt8) : Prop where
  accepted : ¬ req.Refused
  encodes : req.Encodes
  connects : needsConnect env c → env.connect.Sent ∧
    ∃ reply, env.connect.wait = .datagram reply ∧ IsConnectReply (c.tid + 1) reply
  sent : env.request.Sent
  arrives : env.request.wait = .datagram d
  fits : d.length ≤ c.bufSize
  isReply : req.IsReply (requestTidOf env c) d

theorem Request.datagram_of_encodes {req : Request} (encodes : req.Encodes) (c : Client) :
    ∃ b, req.datagram c = .ok b := by
  cases req with
  | announce r =>
    obtain ⟨bytes, eq⟩ := encodes
    rw [datagram, announceDatagram, AnnounceRequest.encodeTo, eq]
    exact ⟨_, rfl⟩
  | scrape hs => exact ⟨_, rfl⟩

theorem Request.parse_of_isReply {req : Request} {d : List UInt8} (reply : req.IsReply c.tid d) :
    req.parse c d = .ok (req.replyIn c.ipv4 d) := by
  cases req with
  | announce r =>
    obtain ⟨action, long, same⟩ := reply
    rw [parse, announceResult, throughHeader_of_content action (by omega) (by omega) same,
      if_neg (by omega)]
    rfl
  | scrape hs =>
    obtain ⟨action, long, same⟩ := reply
    rw [parse, scrapeResult, throughHeader_of_content action long long same]
    rfl

theorem ready_of_answered {req : Request} {d : List UInt8} (none' : c.conn.readDeadline = none)
    (answered : Answered env req c d) :
    ∃ c', ready env c = some c' ∧ c'.conn.readDeadline = none ∧ c'.tid = requestTidOf env c ∧
      c'.ipv4 = c.ipv4 ∧ c'.bufSize = c.bufSize := by
  unfold ready requestTidOf
  by_cases old : needsConnect env c
  · obtain ⟨sent, reply, arrives, isReply⟩ := answered.connects old
    have got : env.connect.result (c.later env.idle).conn 32 = .ok (reply.take 32) :=
      result_of_no_deadline (show (c.later env.idle).conn.readDeadline = none from none') sent
        arrives 32
    have after : (env.connect.connAfter (c.later env.idle).conn).readDeadline = none := by
      rw [Exchange.connAfter, if_pos sent, arrives]
      exact none'
    rw [if_pos old, if_pos old, connected, got]
    dsimp only
    rw [if_pos (show IsConnectReply ((c.later env.idle).tid + 1) _ from isReply.take)]
    exact ⟨_, rfl, after, rfl, rfl, rfl⟩
  · rw [if_neg old, if_neg old]
    exact ⟨_, rfl, none', rfl, rfl, rfl⟩

theorem call_of_no_deadline {req : Request} {d : List UInt8} (none' : c.conn.readDeadline = none)
    (answered : Answered env req c d) : (call env req c).1 = .ok (req.replyIn c.ipv4 d) := by
  obtain ⟨c', isReady, none'', tid, ipv4, size⟩ := ready_of_answered none' answered
  obtain ⟨front, eq⟩ := call_of_ready answered.accepted isReady
  obtain ⟨b, encoded⟩ := Request.datagram_of_encodes answered.encodes c'
  have got : env.request.result c'.conn c'.bufSize = .ok d := by
    rw [result_of_no_deadline none'' answered.sent answered.arrives, List.take_of_length_le]
    rw [size]
    exact answered.fits
  have reply : req.IsReply c'.tid d := tid ▸ answered.isReply
  rw [eq, encoded, ← ipv4]
  simp only [settle, got]
  exact Request.parse_of_isReply reply

theorem call_of_deadline {req : Request} (past : Past c.conn)
    (set : c.conn.readDeadline.isSome = true) (reply : Reply) : (call env req c).1 ≠ .ok reply := by
  intro returns
  by_cases refused : req.Refused
  · rw [call_of_refused refused] at returns
    cases returns
  cases isReady : ready env c with
  | none =>
    obtain ⟨stop, c', events, _, stops⟩ := call_stops_at_connect refused isReady
    rw [stops] at returns
    cases returns
  | some c' =>
    obtain ⟨past', before⟩ := ready_marked past isReady
    obtain ⟨front, eq⟩ := call_of_ready refused isReady
    rw [eq] at returns
    cases encoded : req.datagram c' with
    | error p => simp [encoded] at returns
    | ok b =>
      simp only [encoded, settle] at returns
      cases got : env.request.result c'.conn c'.bufSize with
      | error err => simp [got] at returns
      | ok d => exact result_of_expired past' (before.mpr (Or.inl set)) d got

/-- **A cancelled request poisons the client**: after any run of calls, a call that the tracker
answers returns the reply exactly if no call of the run ended by the cancellation of its context. -/
theorem later_call_returns_iff (c : Client) (new : c.conn.readDeadline = none)
    (calls : List (CallEnv × Request)) (env : CallEnv) (req : Request) (d : List UInt8)
    (answered : Answered env req (afterCalls calls c) d) :
    (call env req (afterCalls calls c)).1 = .ok (req.replyIn (afterCalls calls c).ipv4 d) ↔
      ¬ SomeCancelled calls c := by
  have past : Past c.conn := fun deadline member => by
    rw [new] at member
    cases member
  obtain ⟨past', marked⟩ := afterCalls_marked calls c past
  have set : (afterCalls calls c).conn.readDeadline.isSome = true ↔ SomeCancelled calls c := by
    rw [marked, new]
    simp
  constructor
  · intro returns cancelled
    exact call_of_deadline past' (set.mpr cancelled) _ returns
  · intro uncancelled
    refine call_of_no_deadline ?_ answered
    rwa [← set, Option.isSome_iff_ne_none, not_not] at uncancelled

/-- The tracker does not answer in time, and the context of the request is cancelled. -/
def unanswered : CallEnv where
  connect := { wait := .datagram (datagramOf actionConnect 1 (bePut 8 7)) }
  request := { waitDelay := 5, wait := .cancelled (.other "context deadline exceeded") }

/-- The tracker answers a scrape request of transaction `tid`. -/
def scraped (tid : UInt32) : List UInt8 := datagramOf actionScrape tid (bePut 4 1 ++ bePut 8 0)

/-- The second call of a client that the tracker answers, after one that it has answered too. -/
theorem second_call_returns :
    (call (answering (scraped 3)) (.scrape [.copyFrom [3]])
        (afterCalls [(answering (scraped 2), .scrape [.copyFrom [3]])] localClient)).1 =
      .ok (Request.replyIn true (scraped 3) (.scrape [.copyFrom [3]])) := by
  have first : (call (answering (scraped 2)) (.scrape [.copyFrom [3]]) localClient).1 =
      .ok (Request.replyIn true (scraped 2) (.scrape [.copyFrom [3]])) := by decide +kernel
  have uncancelled : ¬ SomeCancelled [(answering (scraped 2), .scrape [.copyFrom [3]])]
      localClient := by
    rintro (⟨err, cancelled⟩ | impossible)
    · rw [first] at cancelled
      cases cancelled
    · exact impossible
  have answered : Answered (answering (scraped 3)) (.scrape [.copyFrom [3]])
      (afterCalls [(answering (scraped 2), .scrape [.copyFrom [3]])] localClient) (scraped 3) :=
    { accepted := fun refused => refused
      encodes := trivial
      connects := fun old => absurd old (by decide +kernel)
      sent := by decide
      arrives := rfl
      fits := by decide +kernel
      isReply := by unfold Request.IsReply; decide +kernel }
  have ipv4 : (afterCalls [(answering (scraped 2), .scrape [.copyFrom [3]])] localClient).ipv4 =
      true := by decide +kernel
  have returns := (later_call_returns_iff localClient rfl _ _ _ _ answered).mpr uncancelled
  rwa [ipv4] at returns

/-- **After a cancelled call the next one times out**, although the tracker answers it. -/
theorem call_after_cancelled_times_out :
    EndsCancelled unanswered (.scrape [.copyFrom [3]]) localClient ∧
      Answered (answering (scraped 3)) (.scrape [.copyFrom [3]])
        (afterCalls [(unanswered, .scrape [.copyFrom [3]])] localClient) (scraped 3) ∧
      (call (answering (scraped 3)) (.scrape [.copyFrom [3]])
        (afterCalls [(unanswered, .scrape [.copyFrom [3]])] localClient)).1 =
          .error (.error (.conn (.other "i/o timeout"))) := by
  refine ⟨⟨.other "context deadline exceeded", by decide +kernel⟩, ?_, by decide +kernel⟩
  exact {
    accepted := fun refused => refused
    encodes := trivial
    connects := fun old => absurd old (by decide +kernel)
    sent := by decide
    arrives := rfl
    fits := by decide +kernel
    isReply := by unfold Request.IsReply; decide +kernel }

end Client

end GoBt.Tracker
