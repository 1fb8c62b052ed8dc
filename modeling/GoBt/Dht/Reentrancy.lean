/-
**The lock of the transaction manager and the callbacks.**

`AddTransaction`, `PopTransaction` and the sweep of `Start` run under `tm.lock`. The first two only
touch the map; the sweep calls `OnTimeout` of every transaction it deletes, and with it the callback
of the user, before it unlocks. A callback is a script of calls of `Ping` and `GetPeers`, which ends
in `AddTransaction` whenever a query is sent.

* `machine` — the threads of the server around the lock, down to the calls of the callbacks: the
  code that runs under the lock, and the calls each operation makes.
* `QuietCalls` — a script that sends no query.
* **`no_selfWait_iff`** — no thread ever waits for the lock that it holds, exactly when every
  callback is quiet when it is told of a timeout.
-/

import GoBt.Dht.Delivery
import GoBt.Lib.Locks

namespace GoBt.Dht.Reentrancy

open GoBt.Lib GoBt.Lib.Locks GoBt.Metainfo GoBt.Krpc
open GoBt.Dht.Delivery (Outcome outcomeOf identify)
open GoBt.Dht.Server (pingTransaction getPeersTransaction findNodeTransaction)

/-! ### The code -/

/-- A call that a callback makes; the callback it passes on is named. -/
inductive Call
  | ping (addr : Addr) (callback : Option Nat)
  | getPeers (infohash : Hash) (callback : Option Nat)

/-- What becomes of a query: the family of the address is disabled, sending fails, or it is sent. -/
inductive Sending
  | disabled
  | failed
  | sent

/-- What the environment decides for a step: the time, what becomes of a query, and the nodes that a
search queries next. -/
structure Choice where
  now : Time := 0
  sending : Sending := .sent
  nodes : List Addr := []

/-- An operation of a thread. -/
inductive Op
  /-- `tm.trans[key] = t`, in `AddTransaction`. -/
  | store (t : Transaction)
  /-- The lookup and the deletion in `PopTransaction`. -/
  | take (tid : GoString) (addr : Addr)
  /-- The handler of the transaction that `PopTransaction` returned, if it returned one. -/
  | handle (outcome : Outcome)
  /-- The loop of `Start` over the map. -/
  | range (order : GoMap.RangeOrder Transaction) (now : Time) (interval : Duration)
  /-- The body of the loop. -/
  | visit (t : Transaction) (now : Time) (interval : Duration)
  /-- `t.Done(r)`. -/
  | done (t : Transaction) (r : Result)
  /-- `t.Callback(r)`. -/
  | callback (name : Nat) (r : Result)
  /-- The calls that are left of a callback, or of code of the user. -/
  | script (calls : List Call)
  /-- `s.request(t)`. -/
  | request (t : Transaction)
  /-- The part of a response handler that goes one level deeper. -/
  | search (t : Transaction)

def addTransaction (t : Transaction) : List (Code Op) := guarded [.store t]

def popTransaction (tid : GoString) (addr : Addr) : List (Code Op) := guarded [.take tid addr]

/-- The code of `OnResponse`, `OnError` and `OnTimeout`. -/
def handler (t : Transaction) : Outcome → List Op
  | .onResponse _ m =>
      match t.onResponse with
      | .noopResponse => []
      | .onPingResp => [.done t {}]
      | .onGetPeersResp =>
          if 0 < m.r.values.length then [.done t { peers := m.r.values }]
          else [.done t {}, .search t]
      | .onFindNodeResp => [.done t {}, .search t]
  | .onError code reason => [.done t { code := code, reason := reason }]
  | .onTimeout => [.done t { timeout := true }]

/-- The requests of a search for the nodes that it goes on with. What the queries want and the lists
of visited ids play no part here. -/
def searchRequests (choice : Choice) (t : Transaction) : List Op :=
  if t.depth - 1 < 1 then []
  else choice.nodes.map fun addr =>
    .request (if t.onResponse = .onGetPeersResp then
      getPeersTransaction [] t.arg.infoHash addr (t.depth - 1) .nil t.callback choice.now
    else findNodeTransaction [] t.arg.target addr .nil choice.now)

/-- `s.GetPeers(infohash, cb)` for the nodes nearest to the infohash; without any, the callback is
called at once. -/
def search (searchDepth : Int) (choice : Choice) (infohash : Hash) (callback : Option Nat) :
    List Op :=
  if choice.nodes.length = 0 then callback.toList.map fun name => .callback name {}
  else choice.nodes.map fun addr =>
    .request (getPeersTransaction [] infohash addr searchDepth .nil callback choice.now)

/-- A thread's work. -/
inductive Job
  /-- Code of the user that calls the server. -/
  | user (calls : List Call)
  /-- A query of another function of the server: `FindNode`, `AnnouncePeer`, a check of nodes. -/
  | query (t : Transaction)
  /-- A message that is handled. -/
  | receive (addr : Addr) (m : Message) (changed : Bool)
  /-- A tick of the transaction manager. -/
  | tick (order : GoMap.RangeOrder Transaction) (now : Time) (interval : Duration)

def program : Job → List (Code Op)
  | .user calls => [.op (.script calls)]
  | .query t => [.op (.request t)]
  | .receive addr m changed =>
      match outcomeOf addr m changed with
      | some outcome => popTransaction m.t addr ++ [.op (.handle outcome)]
      | none => []
  | .tick order now interval => guarded [.range order now interval]

/-- The thread 0 runs `Start`, and only it. -/
def takes (id : Nat) : Job → Bool
  | .tick _ _ _ => id == 0
  | _ => id != 0

section Machine

variable (scripts : Nat → Result → List Call) (searchDepth : Int)

/-- What an operation does. The shared data is the transaction manager, the local data is the
transaction that `PopTransaction` returned; a callback does what its script says for the result. -/
def perform (choice : Choice) (tm : TransactionManager) (found : Option Transaction) :
    Op → Option (TransactionManager × Option Transaction × List (Code Op))
  | .store t => some (tm.addTransaction t, found, [])
  | .take tid addr => some ((tm.popTransaction tid addr).2, (tm.popTransaction tid addr).1, [])
  | .handle outcome =>
      some (tm, found, (found.toList.flatMap fun t => handler t outcome).map .op)
  | .range order now interval =>
      some (tm, found,
        (order.visit (GoMap.values tm.trans)).map fun t => .op (.visit t now interval))
  | .visit t now interval =>
      if TransactionManager.expired now interval t then
        some (tm.deleteTransaction t, found, (handler t .onTimeout).map .op)
      else some (tm, found, [])
  | .done t r =>
      some (tm, found,
        t.callback.toList.map fun name => .op (.callback name { r with addr := some t.addr }))
  | .callback name r => some (tm, found, [.op (.script (scripts name r))])
  | .script [] => some (tm, found, [])
  | .script (.ping addr callback :: rest) =>
      some (tm, found,
        [.op (.request (pingTransaction addr callback choice.now)), .op (.script rest)])
  | .script (.getPeers infohash callback :: rest) =>
      if infohash.isZero then none
      else some (tm, found,
        (search searchDepth choice infohash callback ++ [Op.script rest]).map .op)
  | .request t =>
      match choice.sending with
      | .disabled => some (tm, found, [])
      | .failed => some (tm.getTransactionID.2, found, [])
      | .sent => some (tm.getTransactionID.2, found, addTransaction (identify tm t))
  | .search t => some (tm, found, (searchRequests choice t).map .op)

def machine : Machine TransactionManager (Option Transaction) Op Choice Job where
  program := program
  takes := takes
  perform := perform scripts searchDepth

/-! ### The loop of the sweep -/

/-- What the bodies of the loop do to the map, one after the other. -/
def visitAll (now : Time) (interval : Duration) (tm : TransactionManager) (ts : List Transaction) :
    TransactionManager :=
  ts.foldl (fun tm t =>
    if TransactionManager.expired now interval t then tm.deleteTransaction t else tm) tm

theorem perform_visit (choice : Choice) (tm : TransactionManager) (found : Option Transaction)
    (t : Transaction) (now : Time) (interval : Duration) :
    (perform scripts searchDepth choice tm found (.visit t now interval)).map Prod.fst =
      some (visitAll now interval tm [t]) := by
  rw [perform]
  by_cases expired : TransactionManager.expired now interval t = true
  · simp [visitAll, expired]
  · simp [visitAll, expired]

theorem pending_visitAll (now : Time) (interval : Duration) (tm : TransactionManager)
    (ts : List Transaction) (key : TransactionKey) :
    (visitAll now interval tm ts).pending key =
      if ∃ t ∈ ts, TransactionManager.expired now interval t = true ∧ key = t.key then none
      else tm.pending key := by
  induction ts generalizing tm with
  | nil => simp [visitAll]
  | cons t rest ih =>
    rw [visitAll, List.foldl_cons, ← visitAll, ih]
    by_cases later : ∃ t ∈ rest, TransactionManager.expired now interval t = true ∧ key = t.key
    · obtain ⟨other, member, deleted⟩ := later
      rw [if_pos ⟨other, member, deleted⟩,
        if_pos ⟨other, List.mem_cons_of_mem _ member, deleted⟩]
    · rw [if_neg later]
      by_cases expired : TransactionManager.expired now interval t = true
      · rw [if_pos expired, TransactionManager.pending_deleteTransaction]
        simp only [List.exists_mem_cons_iff, later, or_false, expired, true_and]
      · rw [if_neg expired]
        simp only [List.exists_mem_cons_iff, later, or_false, expired, false_and, if_false,
          Bool.false_eq_true]

/-- **The loop is the sweep** of the transaction manager, when every transaction is filed under its
own key. -/
theorem pending_visitAll_eq_sweep {tm : TransactionManager}
    (filed : ∀ key t, tm.pending key = some t → key = t.key)
    (order : GoMap.RangeOrder Transaction) (now : Time) (interval : Duration)
    (key : TransactionKey) :
    (visitAll now interval tm (order.visit (GoMap.values tm.trans))).pending key =
      (tm.sweep order now interval).2.pending key := by
  have visited : ∀ t, t ∈ order.visit (GoMap.values tm.trans) ↔ ∃ key, tm.pending key = some t :=
    fun t => (order.perm _).mem_iff.trans GoMap.mem_values_iff
  rw [pending_visitAll, TransactionManager.pending_sweep]
  cases pending : tm.pending key with
  | none => simp
  | some t =>
    have found : (∃ other ∈ order.visit (GoMap.values tm.trans),
        TransactionManager.expired now interval other = true ∧ key = other.key) ↔
          TransactionManager.expired now interval t = true := by
      constructor
      · rintro ⟨other, member, expired, sameKey⟩
        obtain ⟨key', pending'⟩ := (visited other).mp member
        rw [filed key' other pending', ← sameKey, pending] at pending'
        rw [Option.some.inj pending']
        exact expired
      · intro expired
        exact ⟨t, (visited t).mpr ⟨key, pending⟩, expired, filed key t pending⟩
    by_cases expired : TransactionManager.expired now interval t = true
    · rw [if_pos (found.mpr expired)]
      simp [Option.filter, expired]
    · rw [if_neg fun exists' => expired (found.mp exists')]
      simp [Option.filter, expired]

theorem foldlM_visit (choice : Choice) (found : Option Transaction) (now : Time)
    (interval : Duration) (tm : TransactionManager) (ts : List Transaction) :
    ts.foldlM (fun tm t =>
        (perform scripts searchDepth choice tm found (.visit t now interval)).map Prod.fst) tm =
      some (visitAll now interval tm ts) := by
  induction ts generalizing tm with
  | nil => rfl
  | cons t rest ih =>
    rw [List.foldlM_cons, perform_visit]
    exact ih _

/-- **The loop of `Start` sweeps.** After every run of the server, the bodies of the loop, one after
the other in any order, leave pending what the sweep of the transaction manager leaves. -/
theorem visits_sweep (choice : Choice) (found : Option Transaction) (config : Config)
    (setup : Setup) (events : List Server.Event) (order : GoMap.RangeOrder Transaction) (now : Time)
    (interval : Duration) :
    let tm := (run Server.step (newServer config setup) events).transactionManager
    ∃ tm', (order.visit (GoMap.values tm.trans)).foldlM (fun tm t =>
        (perform scripts searchDepth choice tm found (.visit t now interval)).map Prod.fst) tm =
          some tm' ∧
      ∀ key, tm'.pending key = (tm.sweep order now interval).2.pending key := by
  intro tm
  have filed : ∀ key t, tm.pending key = some t → key = t.key := fun key t pending =>
    (Server.sound_run config setup events key t pending).1
  exact ⟨_, foldlM_visit scripts searchDepth choice found now interval tm _,
    pending_visitAll_eq_sweep filed order now interval⟩

/-! ### Quiet callbacks -/

/-- The script sends no query: it makes no call, or panics at once. -/
def QuietCalls : List Call → Prop
  | [] => True
  | .ping _ _ :: _ => False
  | .getPeers infohash _ :: _ => infohash.isZero = true

def timedOut (addr : Addr) : Result := { addr := some addr, timeout := true }

/-- The operations under the lock: those on the map, and what leads to callbacks for timeouts. -/
def Quiet : Op → Prop
  | .store _ | .take _ _ | .range _ _ _ | .visit _ _ _ => True
  | .done _ r => r = { timeout := true }
  | .callback _ r => ∃ addr, r = timedOut addr
  | .script calls => QuietCalls calls
  | .handle _ | .request _ | .search _ => False

theorem program_bracketed (job : Job) : Bracketed Quiet (program job) := by
  cases job with
  | user calls | query t => exact .op _ .nil
  | receive addr m changed =>
    unfold program
    dsimp only
    split
    · exact .guarded (List.forall_mem_singleton.mpr trivial) (.op _ .nil)
    · exact .nil
  | tick order now interval =>
    exact .guarded (List.forall_mem_singleton.mpr trivial) .nil

theorem perform_bracketed {choice : Choice} {tm : TransactionManager} {found : Option Transaction}
    {o : Op} {next : TransactionManager × Option Transaction × List (Code Op)}
    (performed : perform scripts searchDepth choice tm found o = some next) :
    Bracketed Quiet next.2.2 := by
  have ops : ∀ calls : List Op, Bracketed Quiet (calls.map Code.op) := bracketed_ops Quiet
  cases o with
  | store t | take tid addr =>
    obtain rfl := Option.some.inj performed
    exact .nil
  | handle outcome | search t =>
    obtain rfl := Option.some.inj performed
    exact ops _
  | range order now interval =>
    obtain rfl := Option.some.inj performed
    have visits := ops ((order.visit (GoMap.values tm.trans)).map fun t => .visit t now interval)
    rw [List.map_map] at visits
    exact visits
  | visit t now interval =>
    rw [perform] at performed
    split at performed
    · obtain rfl := Option.some.inj performed
      exact ops _
    · obtain rfl := Option.some.inj performed
      exact .nil
  | done t r =>
    obtain rfl := Option.some.inj performed
    have calls := ops (t.callback.toList.map fun name =>
      .callback name { r with addr := some t.addr })
    rw [List.map_map] at calls
    exact calls
  | callback name r =>
    obtain rfl := Option.some.inj performed
    exact .op _ .nil
  | script calls =>
    match calls with
    | [] =>
      obtain rfl := Option.some.inj performed
      exact .nil
    | .ping addr callback :: rest =>
      obtain rfl := Option.some.inj performed
      exact .op _ (.op _ .nil)
    | .getPeers infohash callback :: rest =>
      rw [perform] at performed
      split at performed
      · cases performed
      · obtain rfl := Option.some.inj performed
        exact ops _
  | request t =>
    rw [perform] at performed
    split at performed
    · obtain rfl := Option.some.inj performed
      exact .nil
    · obtain rfl := Option.some.inj performed
      exact .nil
    · obtain rfl := Option.some.inj performed
      have section' : Bracketed Quiet (addTransaction (identify tm t) ++ []) :=
        .guarded (List.forall_mem_singleton.mpr trivial) .nil
      rw [List.append_nil] at section'
      exact section'

/-- If the callbacks are quiet about timeouts, quiet operations call only quiet ones. -/
theorem perform_quiet (quiet : ∀ name addr, QuietCalls (scripts name (timedOut addr)))
    {choice : Choice} {tm : TransactionManager} {found : Option Transaction}
    {o : Op} {next : TransactionManager × Option Transaction × List (Code Op)} (quietOp : Quiet o)
    (performed : perform scripts searchDepth choice tm found o = some next) :
    ∃ body : List Op, next.2.2 = body.map .op ∧ ∀ o ∈ body, Quiet o := by
  cases o with
  | store t | take tid addr =>
    obtain rfl := Option.some.inj performed
    exact ⟨[], rfl, nofun⟩
  | handle outcome | request t | search t => exact quietOp.elim
  | range order now interval =>
    obtain rfl := Option.some.inj performed
    refine ⟨(order.visit (GoMap.values tm.trans)).map fun t => .visit t now interval,
      by rw [List.map_map]; rfl, fun o member => ?_⟩
    obtain ⟨t, _, rfl⟩ := List.mem_map.mp member
    trivial
  | visit t now interval =>
    rw [perform] at performed
    split at performed
    · obtain rfl := Option.some.inj performed
      exact ⟨handler t .onTimeout, rfl, List.forall_mem_singleton.mpr rfl⟩
    · obtain rfl := Option.some.inj performed
      exact ⟨[], rfl, nofun⟩
  | done t r =>
    obtain rfl := Option.some.inj performed
    obtain rfl : r = { timeout := true } := quietOp
    refine ⟨t.callback.toList.map fun name => .callback name (timedOut t.addr),
      by rw [List.map_map]; rfl, fun o member => ?_⟩
    obtain ⟨name, _, rfl⟩ := List.mem_map.mp member
    exact ⟨t.addr, rfl⟩
  | callback name r =>
    obtain rfl := Option.some.inj performed
    obtain ⟨addr, rfl⟩ := quietOp
    exact ⟨[.script (scripts name (timedOut addr))], rfl,
      List.forall_mem_singleton.mpr (quiet name addr)⟩
  | script calls =>
    match calls with
    | [] =>
      obtain rfl := Option.some.inj performed
      exact ⟨[], rfl, nofun⟩
    | .ping addr callback :: rest => exact quietOp.elim
    | .getPeers infohash callback :: rest =>
      have zero : infohash.isZero = true := quietOp
      rw [perform] at performed
      rw [if_pos zero] at performed
      cases performed

theorem machine_disciplined (quiet : ∀ name addr, QuietCalls (scripts name (timedOut addr))) :
    Disciplined Quiet (machine scripts searchDepth) where
  program := program_bracketed
  called performed := perform_bracketed scripts searchDepth performed
  quiet quietOp performed := perform_quiet scripts searchDepth quiet quietOp performed

/-! ### A callback that is not quiet -/

def initial : State TransactionManager (Option Transaction) Op :=
  idle TransactionManager.newTransactionManager none

/-- A ping of `addr` with a callback, and a tick of the transaction manager that is late enough, up
to the body of its loop. -/
def sweepActions (addr : Addr) (name : Nat) : List (Action Choice Job) :=
  [.start 1 (.user [.ping addr (some name)]), .go 1 {}, .go 1 {}, .go 1 {}, .go 1 {}, .go 1 {},
    .start 0 (.tick (GoMap.RangeOrder.asStored Transaction) 1 0), .go 0 {}, .go 0 {}]

def pinged (addr : Addr) (name : Nat) : Transaction :=
  identify TransactionManager.newTransactionManager (pingTransaction addr (some name) 0)

theorem sweep_visits (addr : Addr) (name : Nat) :
    Holds (run (step (machine scripts searchDepth)) initial (sweepActions addr name)) 0
      [.op (.visit (pinged addr name) 1 0), .unlock] where
  running := by rfl
  owner := by rfl
  code := by rfl

theorem expired_pinged (addr : Addr) (name : Nat) :
    TransactionManager.expired 1 0 (pinged addr name) = true := by
  show decide (Time.sub 1 0 > 0) = true
  decide

theorem timeout_runs_callback (addr : Addr) (name : Nat) :
    Holds (run (step (machine scripts searchDepth)) initial
      (sweepActions addr name ++ [.go 0 {}, .go 0 {}, .go 0 {}])) 0
      [.op (.script (scripts name (timedOut addr))), .unlock] := by
  have visits := sweep_visits scripts searchDepth addr name
  rw [run_append]
  generalize run (step (machine scripts searchDepth)) initial (sweepActions addr name) = s
    at visits ⊢
  have expired : ∀ tm found, perform scripts searchDepth {} tm found
      (.visit (pinged addr name) 1 0) = some (tm.deleteTransaction (pinged addr name), found,
        [.op (.done (pinged addr name) { timeout := true })]) := by
    intro tm found
    rw [perform, if_pos (expired_pinged addr name)]
    rfl
  have visited := visits.go (M := machine scripts searchDepth) {} (expired _ _)
  have told := visited.go (M := machine scripts searchDepth) {} rfl
  exact told.go (M := machine scripts searchDepth) {} rfl

/-- **A script that is not quiet waits for itself** under the lock, if its first query is sent. -/
theorem script_selfWait {s : State TransactionManager (Option Transaction) Op} {id : Nat}
    {calls : List Call} {rest : List (Code Op)} (holds : Holds s id (.op (.script calls) :: rest))
    (loud : ¬ QuietCalls calls) (node : Addr) :
    SelfWait (run (step (machine scripts searchDepth)) s
      [.go id { nodes := [node] }, .go id { nodes := [node] }]) := by
  match calls with
  | [] => exact absurd trivial loud
  | .ping addr callback :: others =>
    have called := holds.go (M := machine scripts searchDepth) { nodes := [node] } rfl
    exact (called.go (M := machine scripts searchDepth) { nodes := [node] } rfl).selfWait
  | .getPeers infohash callback :: others =>
    have called := holds.go (M := machine scripts searchDepth) { nodes := [node] } (if_neg loud)
    exact (called.go (M := machine scripts searchDepth) { nodes := [node] } rfl).selfWait

/-- **When callbacks can make the server wait for itself.** In no state of any run does a thread
wait for the lock that it holds, exactly when no callback that is told of a timeout sends a query:
such a callback runs in the thread of the sweep, which holds the lock. -/
theorem no_selfWait_iff :
    (∀ actions, ¬ SelfWait (run (step (machine scripts searchDepth)) initial actions)) ↔
      ∀ name addr, QuietCalls (scripts name (timedOut addr)) := by
  constructor
  · intro never name addr
    by_contra loud
    have waits := script_selfWait scripts searchDepth
      (timeout_runs_callback scripts searchDepth addr name) loud addr
    rw [← run_append] at waits
    exact never _ waits
  · intro quiet actions
    exact (machine_disciplined scripts searchDepth quiet).no_selfWait _ _ actions

end Machine

/-- A callback that pings the node again after a timeout. -/
def retry (addr : Addr) : Nat → Result → List Call :=
  fun name r => if r.timeout then [.ping addr (some name)] else []

/-- **A retry after a timeout**: the sweep waits for its own lock. -/
theorem retry_selfWait :
    SelfWait (run (step (machine (retry ⟨[10, 0, 0, 1], 6881⟩) 4)) initial
      (sweepActions ⟨[10, 0, 0, 1], 6881⟩ 0 ++ [.go 0 {}, .go 0 {}, .go 0 {}, .go 0 {}, .go 0 {}])) :=
  ⟨0, _, rfl, rfl⟩

end GoBt.Dht.Reentrancy
