/-
**Runs of the DHT server.**

An event is a datagram that arrives, a call of the user or a tick of one of the server's clocks; a
run is a list of events in the order the server handles them.

* `Server.perform`, `Server.step` — one event.
* `send_sent_iff`, `reply_sent_iff`, `request_sent_iff` — what the outgoing side sends.
* `Filing allowed carried P` — `P` survives an allowed node filed in a table, a transaction id taken,
  and a transaction filed that carries one of the given slices. Then every program that does not
  write visited ids preserves `P`.
* `Elementary allowed P` — `P` also survives an array written. Then every program below the level of
  messages preserves `P`.
* `Managing allowed carried P` — `P` also survives the changes of the managers. An event preserves
  `P` if the two programs that write visited ids do (`Managing.step`).
* `Stable allowed P` — both; **`Stable.run`**: then `P` holds after every run whose events bring
  allowed nodes.
* `Sound` — every pending transaction is filed under its own key, was sent to an address the server
  speaks to, and has an infohash if it is a search for peers. `sound_run`: it always holds.
-/

import GoBt.Dht.Server

namespace GoBt.Dht

open GoBt.Lib GoBt.Metainfo GoBt.Krpc

namespace Server

/-- What can happen to a server. -/
inductive Event
  | packet (env : Env) (kaddr : Addr) (decoded : Option Message)
  | addNode (env : Env) (node : Node)
  | ping (env : Env) (addr : Addr) (callback : Option Nat)
  | getPeers (env : Env) (infohash : Hash) (callback : Option Nat)
  | announcePeer (env : Env) (infohash : Hash) (port : UInt16) (impliedPort : Bool)
  | findNode (env : Env) (addr : Addr) (target : Hash)
  | bootstrap (env : Env) (addrs : List Addr)
  | table4Tick (env : Env)
  | table6Tick (env : Env)
  | updateToken (token : GoString)
  | clearTokens (now : Time)
  | peersTick (now : Time)
  | transactionsTick (env : Env)

/-- The interval of `tokenManager.Start`. -/
def tokenExpired : Duration := minute * 10

/-- The interval of `tokenPeerManager.Start`. -/
def peerInterval : Duration := minute * 60 * 24

def pingAll (env : Env) (addrs : List Addr) : ServerM Unit :=
  Act.forEach (fun addr => do let _ ← ping env addr none) addrs

def perform : Event → ServerM Unit
  | .packet env kaddr decoded => handlePacket env kaddr decoded
  | .addNode env node => do let _ ← Server.addNode env node
  | .ping env addr callback => do let _ ← Server.ping env addr callback
  | .getPeers env infohash callback => do let _ ← Server.getPeers env infohash callback
  | .announcePeer env infohash port impliedPort => do
      let _ ← Server.announcePeer env infohash port impliedPort
  | .findNode env addr target => do let _ ← Server.findNode env addr target
  | .bootstrap env addrs => Server.bootstrap env addrs
  | .table4Tick env => do
      let s ← Act.get
      let checked := s.routingTable4.checkAllBuckets env.now
      Act.modify fun s => { s with routingTable4 := checked.1 }
      pingAll env checked.2
  | .table6Tick env => do
      let s ← Act.get
      let checked := s.routingTable6.checkAllBuckets env.now
      Act.modify fun s => { s with routingTable6 := checked.1 }
      pingAll env checked.2
  | .updateToken token =>
      Act.modify fun s => { s with tokenManager := s.tokenManager.updateToken token }
  | .clearTokens now =>
      Act.modify fun s => { s with tokenManager := s.tokenManager.clear now tokenExpired }
  | .peersTick now =>
      Act.modify fun s => { s with tokenPeerManager := s.tokenPeerManager.sweep now peerInterval }
  | .transactionsTick env => do
      let s ← Act.get
      let swept := s.transactionManager.sweep env.sweepOrder env.now s.conf.respTimeout
      Act.modify fun s => { s with transactionManager := swept.2 }
      Act.forEach onTimeout swept.1

def step (s : Server) (event : Event) : Server := (perform event).state s

/-! ### Programs that change nothing -/

@[simp] theorem sendPacket_state (env : Env) (kaddr : Addr) (m : Message) (s : Server) :
    (sendPacket env kaddr m).state s = s := by
  unfold sendPacket
  cases env.writeTo kaddr m with
  | written => rfl
  | short => rfl
  | failed err => rfl

@[simp] theorem send_state (env : Env) (kaddr : Addr) (m : Message) (s : Server) :
    (send env kaddr m).state s = s := by
  unfold send
  rw [Act.get_bind_state]
  simp only [Act.bind_state, Act.emit_state, Act.ite_state, sendPacket_state,
    Act.pure_state, ite_self]

@[simp] theorem reply_state (env : Env) (raddr : Addr) (tid : GoString) (r : ResponseResult)
    (s : Server) : (reply env raddr tid r).state s = s := by
  simp [reply]

@[simp] theorem sendError_state (env : Env) (raddr : Addr) (tid reason : GoString) (code : Int)
    (s : Server) : (sendError env raddr tid reason code).state s = s := by
  simp [sendError]

@[simp] theorem done_state (t : Transaction) (r : Result) (s : Server) :
    (done t r).state s = s := by
  unfold done
  cases t.callback with
  | none => rfl
  | some name => rfl

/-- The error of `send`; it depends on the surroundings alone. -/
def sendOutcome (env : Env) (kaddr : Addr) (m : Message) : Option GoError :=
  let hook := env.handleOut kaddr m
  if hook.1 = false ∧ hook.2 = none then
    match env.writeTo kaddr m with
    | .written => none
    | .short => some .shortWrite
    | .failed err => some err
  else hook.2

theorem send_value (env : Env) (kaddr : Addr) (m : Message) (s : Server) :
    (send env kaddr m).value s = sendOutcome env kaddr { m with ro := s.conf.readOnly } := by
  unfold send sendOutcome
  rw [Act.get_bind_value]
  simp only [Act.bind_value, Act.ite_value, Act.pure_value]
  congr 1
  unfold sendPacket
  cases env.writeTo kaddr { m with ro := s.conf.readOnly } with
  | written => rfl
  | short => rfl
  | failed err => rfl

/-- The query that `request` sends for a transaction. -/
def queryOf (s : Server) (t : Transaction) : Message :=
  { newQueryMsg (s.identify t).1.id t.query (s.identify t).1.arg with ro := s.conf.readOnly }

/-- **What `request` leaves**: nothing if the address is of a disabled family; else a transaction id
is taken, and the transaction is filed if sending succeeds. -/
theorem request_state (env : Env) (t : Transaction) (s : Server) :
    (request env t).state s =
      if s.isDisabled t.addr = true then s
      else if sendOutcome env t.addr (s.queryOf t) = none then
        (s.identify t).2.file (s.identify t).1
      else (s.identify t).2 := by
  unfold request
  rw [Act.get_bind_state, Act.ite_state]
  congr 1
  rw [Act.bind_state, Act.modify_state, Act.bind_state, send_state, send_value]
  simp only [Act.ite_state, Act.bind_state, Act.modify_state, Act.pure_state]
  rfl

theorem request_value (env : Env) (t : Transaction) (s : Server) :
    (request env t).value s =
      if s.isDisabled t.addr = true then some errUnsupportedIPProtocol
      else sendOutcome env t.addr (s.queryOf t) := by
  unfold request
  rw [Act.get_bind_value, Act.ite_value]
  congr 1
  rw [Act.bind_value, Act.modify_state, Act.bind_value, send_state, send_value]
  simp only [Act.ite_value, Act.bind_value, Act.pure_value, ite_self]
  rfl

theorem handleQuery_state (env : Env) (raddr : Addr) (m : Message) (s : Server) :
    (handleQuery env raddr m).state s =
      if m.q = queryMethodGetPeers then
        { s with tokenManager := (s.tokenManager.token raddr env.now).2 }
      else s := by
  unfold handleQuery
  rw [Act.get_bind_state]
  simp only [Act.bind_state, Act.ite_state, Act.modify_state, Act.emit_state,
    Act.pure_state, reply_state, sendError_state, ite_self]
  by_cases isGet : m.q = queryMethodGetPeers
  · have notPing : queryMethodGetPeers ≠ queryMethodPing := by decide
    have notFind : queryMethodGetPeers ≠ queryMethodFindNode := by decide
    rw [isGet, if_neg notPing, if_neg notFind]
  · rw [if_neg isGet, ite_self, ite_self]

/-! ### What is sent -/

theorem sendPacket_sent (env : Env) (kaddr : Addr) (m : Message) (s : Server) (addr : Addr)
    (msg : Message) : .sent addr msg ∉ (sendPacket env kaddr m).effects s := by
  unfold sendPacket
  cases env.writeTo kaddr m with
  | written | short => exact List.not_mem_nil
  | failed err =>
    intro member
    cases List.mem_singleton.mp member

theorem send_sent_iff (env : Env) (kaddr : Addr) (m : Message) (s : Server) (addr : Addr)
    (msg : Message) :
    .sent addr msg ∈ (send env kaddr m).effects s ↔
      addr = kaddr ∧ msg = { m with ro := s.conf.readOnly } := by
  unfold send
  rw [Act.get_bind_effects, Act.bind_effects, Act.emit_effects, List.singleton_append,
    List.mem_cons, Act.ite_effects, Effect.sent.injEq]
  refine or_iff_left ?_
  split
  · exact sendPacket_sent env kaddr _ _ addr msg
  · exact List.not_mem_nil

/-- The message of a reply with the result `r`. -/
def replyMsg (s : Server) (tid : GoString) (r : ResponseResult) : Message :=
  { newResponseMsg tid { r with id := s.conf.id } with ro := s.conf.readOnly }

theorem reply_sent_iff (env : Env) (raddr : Addr) (tid : GoString) (r : ResponseResult) (s : Server)
    (addr : Addr) (msg : Message) :
    .sent addr msg ∈ (reply env raddr tid r).effects s ↔ addr = raddr ∧ msg = s.replyMsg tid r := by
  unfold reply
  rw [Act.get_bind_effects, Act.bind_effects, Act.pure_effects, List.append_nil, send_sent_iff]
  rfl

theorem request_sent_iff (env : Env) (t : Transaction) (s : Server) (addr : Addr) (msg : Message) :
    .sent addr msg ∈ (request env t).effects s ↔
      s.isDisabled t.addr = false ∧ addr = t.addr ∧ msg = s.queryOf t := by
  unfold request
  rw [Act.get_bind_effects, Act.ite_effects]
  by_cases disabled : s.isDisabled t.addr = true
  · rw [if_pos disabled, disabled]
    simp
  · rw [if_neg disabled, Act.bind_effects, Act.modify_effects, List.nil_append, Act.bind_effects,
      List.mem_append, send_sent_iff]
    have enabled : s.isDisabled t.addr = false := Bool.eq_false_iff.mpr disabled
    refine Iff.trans (or_iff_left ?_) (Iff.symm (and_iff_right enabled))
    rw [Act.ite_effects]
    split <;> exact List.not_mem_nil

/-- The server after `PopTransaction(tid, addr)`. -/
def popped (s : Server) (tid : GoString) (addr : Addr) : Server :=
  { s with transactionManager := (s.transactionManager.popTransaction tid addr).2 }

/-! ### What an event brings -/

/-- The nodes that a message brings are allowed. -/
def BringsOnly (allowed : Node → Prop) (m : Message) : Prop :=
  (∀ node ∈ m.r.nodes, allowed node) ∧ ∀ node ∈ m.r.nodes6, allowed node

theorem bringsOnly_any (m : Message) : BringsOnly (fun _ => True) m :=
  ⟨fun _ _ => trivial, fun _ _ => trivial⟩

/-- The nodes that an event brings are allowed: the sender of a message, the nodes in it, and a node
that the user adds. -/
def Event.Allowed (allowed : Node → Prop) : Event → Prop
  | .packet _ kaddr decoded =>
      (∀ id, allowed ⟨id, kaddr⟩) ∧ ∀ m, decoded = some m → BringsOnly allowed m
  | .addNode _ node => allowed node
  | _ => True

theorem Event.allowed_any (event : Event) : event.Allowed fun _ => True := by
  cases event with
  | packet => exact ⟨fun _ => trivial, fun m _ => bringsOnly_any m⟩
  | _ => trivial

/-! ### Elementary changes -/

/-- A search for peers has an infohash. -/
def WellFormed (t : Transaction) : Prop :=
  t.onResponse = .onGetPeersResp → t.arg.infoHash.isZero = false

/-- `P` survives the changes of the programs that write no visited ids, as long as the nodes that
they file are allowed and the slices that they pass on are among those `carried`. -/
structure Filing (allowed : Node → Prop) (carried : SliceRef → Prop) (P : Server → Prop) : Prop where
  nil : carried SliceRef.nil
  table4 : ∀ s node now, P s → allowed node → isIPv6 node.addr.ip = false → s.ipv4 = true →
    P { s with routingTable4 := (s.routingTable4.addNode node now).2 }
  table6 : ∀ s node now, P s → allowed node → isIPv6 node.addr.ip = true → s.ipv6 = true →
    P { s with routingTable6 := (s.routingTable6.addNode node now).2 }
  takeID : ∀ s, P s → P { s with transactionManager := s.transactionManager.getTransactionID.2 }
  file : ∀ s t, P s → s.isDisabled t.addr = false → WellFormed t → carried t.visited → P (s.file t)

namespace Filing

variable {allowed : Node → Prop} {carried : SliceRef → Prop} {P : Server → Prop}
  (filing : Filing allowed carried P)

include filing

theorem addNode (env : Env) {node : Node} (fine : allowed node) :
    Act.Preserves P (Server.addNode env node) := by
  intro s holds
  unfold Server.addNode
  rw [Act.get_bind_state]
  simp only [Act.bind_state, Act.ite_state, Act.modify_state, Act.pure_state]
  split
  · split
    · exact filing.table6 s node env.now holds fine ‹_› ‹_›
    · exact holds
  · split
    · exact filing.table4 s node env.now holds fine (Bool.eq_false_iff.mpr ‹_›) ‹_›
    · exact holds

theorem request (env : Env) {t : Transaction} (wellFormed : WellFormed t)
    (carries : carried t.visited) : Act.Preserves P (Server.request env t) := by
  intro s holds
  have identified : P (s.identify t).2 := by
    unfold identify
    by_cases fresh : t.id = []
    · simp only [fresh, if_true]
      exact filing.takeID s holds
    · simp only [fresh, if_false]
      exact holds
  rw [request_state]
  split
  · exact holds
  · split
    · exact filing.file _ _ identified (Bool.eq_false_iff.mpr ‹_›) wellFormed carries
    · exact identified

theorem addNode2 (env : Env) {node : Node} (fine : allowed node) (ro : Bool) :
    Act.Preserves P (Server.addNode2 env node ro) :=
  Act.Preserves.ite (Act.Preserves.pure _) (filing.addNode env fine)

theorem addNodeOf (env : Env) {kaddr : Addr} {id : Hash} (fine : allowed ⟨id, kaddr⟩) (ro : Bool) :
    Act.Preserves P (Server.addNodeOf env kaddr id ro) := by
  refine Act.Preserves.ite (Act.Preserves.pure _) ?_
  refine Act.Preserves.bind (filing.addNode env fine) fun r => ?_
  exact Act.Preserves.ite
    (Act.Preserves.bind (Act.Preserves.emit _) fun _ => Act.Preserves.pure _)
    (Act.Preserves.pure _)

theorem ping (env : Env) (addr : Addr) (callback : Option Nat) :
    Act.Preserves P (Server.ping env addr callback) :=
  filing.request env (fun isSearch => nomatch isSearch) filing.nil

theorem getPeersFrom (env : Env) {info : Hash} (some : info.isZero = false) (addr : Addr)
    (depth : Int) {ids : SliceRef} (carries : carried ids) (callback : Option Nat) :
    Act.Preserves P (Server.getPeersFrom env info addr depth ids callback) :=
  Act.Preserves.bind Act.Preserves.get fun _ =>
    Act.Preserves.bind (filing.request env (fun _ => some) carries) fun _ => Act.Preserves.pure _

theorem findNodeFrom (env : Env) (target : Hash) (addr : Addr) (depth : Int) {ids : SliceRef}
    (carries : carried ids) : Act.Preserves P (Server.findNodeFrom env target addr depth ids) :=
  Act.Preserves.bind Act.Preserves.get fun _ =>
    filing.request env (fun isSearch => nomatch isSearch) carries

theorem announceTo (env : Env) (infohash : Hash) (port : UInt16) (impliedPort : Bool)
    (nodes : List Node) :
    Act.Preserves P (Server.announceTo env infohash port impliedPort nodes) := by
  induction nodes with
  | nil => exact Act.Preserves.pure _
  | cons node rest ih =>
    refine Act.Preserves.bind Act.Preserves.get fun s => Act.Preserves.ite ih ?_
    refine Act.Preserves.bind
      (filing.request env (fun isSearch => nomatch isSearch) filing.nil) fun _ => ?_
    exact Act.Preserves.bind ih fun _ => Act.Preserves.pure _

theorem announcePeer (env : Env) (infohash : Hash) (port : UInt16) (impliedPort : Bool) :
    Act.Preserves P (Server.announcePeer env infohash port impliedPort) :=
  Act.Preserves.ite (Act.Preserves.pure _) <| Act.Preserves.bind Act.Preserves.get fun _ =>
    Act.Preserves.bind (filing.announceTo env infohash port impliedPort _) fun _ =>
      Act.Preserves.pure _

theorem findNode (env : Env) (addr : Addr) (target : Hash) :
    Act.Preserves P (Server.findNode env addr target) :=
  Act.Preserves.ite (Act.Preserves.pure _) <| Act.Preserves.bind Act.Preserves.get fun _ =>
    Act.Preserves.bind (filing.findNodeFrom env target addr _ filing.nil) fun _ =>
      Act.Preserves.pure _

theorem bootstrap (env : Env) (addrs : List Addr) :
    Act.Preserves P (Server.bootstrap env addrs) := by
  refine Act.Preserves.bind Act.Preserves.get fun s => Act.Preserves.ite ?_ (Act.Preserves.pure _)
  refine Act.Preserves.forEach (fun addr => Act.Preserves.ite (Act.Preserves.pure _) ?_) _
  exact Act.Preserves.bind (filing.findNode env addr _) fun _ => Act.Preserves.pure _

theorem pingAll (env : Env) (addrs : List Addr) : Act.Preserves P (Server.pingAll env addrs) :=
  Act.Preserves.forEach (fun addr => Act.Preserves.bind (filing.ping env addr none) fun _ =>
    Act.Preserves.pure _) addrs

end Filing

/-- `P` survives the elementary changes of the programs below the level of messages, as long as the
nodes that they file are allowed. -/
structure Elementary (allowed : Node → Prop) (P : Server → Prop) : Prop extends
    Filing allowed (fun _ => True) P where
  slices : ∀ s heap, P s → P { s with slices := heap }

namespace Elementary

variable {allowed : Node → Prop} {P : Server → Prop} (elementary : Elementary allowed P)

include elementary

omit elementary in
theorem done (t : Transaction) (r : Result) : Act.Preserves P (Server.done t r) := by
  intro s holds
  rwa [done_state]

theorem collectNodes (env : Env) (wanted : Hash) (ro : Bool) {nodes : List Node}
    (fine : ∀ node ∈ nodes, allowed node) (acc : Collected) :
    Act.Preserves P (Server.collectNodes env wanted ro nodes acc) := by
  induction nodes generalizing acc with
  | nil => exact Act.Preserves.pure acc
  | cons node rest ih =>
    obtain ⟨here, later⟩ := List.forall_mem_cons.mp fine
    refine Act.Preserves.bind Act.Preserves.get fun s => Act.Preserves.ite (ih later _) ?_
    refine Act.Preserves.bind (elementary.addNode2 env here ro) fun r => ?_
    refine Act.Preserves.ite (Act.Preserves.bind ?_ fun _ => ih later _) (ih later _)
    exact fun s' holds => elementary.slices s' _ holds

theorem searchOn (env : Env) (wanted : Hash) (t : Transaction) {m : Message}
    (fine : BringsOnly allowed m) {next : Addr → Int → SliceRef → ServerM Unit}
    (each : ∀ addr depth ids, Act.Preserves P (next addr depth ids)) :
    Act.Preserves P (Server.searchOn env wanted t m next) := by
  refine Act.Preserves.ite (Act.Preserves.pure _) ?_
  refine Act.Preserves.bind (elementary.collectNodes env wanted m.ro fine.1 _) fun four => ?_
  refine Act.Preserves.bind (elementary.collectNodes env wanted m.ro fine.2 four) fun six => ?_
  exact Act.Preserves.ite (Act.Preserves.pure _) (Act.Preserves.forEach (fun _ => each _ _ _) _)

theorem searchPeers (env : Env) {t : Transaction} (some : t.arg.infoHash.isZero = false)
    {m : Message} (fine : BringsOnly allowed m) : Act.Preserves P (Server.searchPeers env t m) :=
  Act.Preserves.ite
    (Act.Preserves.bind (done t _) fun _ => Act.Preserves.forEach (fun _ => Act.Preserves.emit _) _)
    (Act.Preserves.bind (done t _) fun _ => elementary.searchOn env _ t fine fun addr depth _ =>
      elementary.getPeersFrom env some addr depth trivial _)

theorem onFindNodeResp (env : Env) (t : Transaction) {m : Message} (fine : BringsOnly allowed m) :
    Act.Preserves P (Server.onFindNodeResp env t m) :=
  Act.Preserves.bind (done t _) fun _ => elementary.searchOn env _ t fine fun addr depth _ =>
    Act.Preserves.bind (elementary.findNodeFrom env _ addr depth trivial) fun _ =>
      Act.Preserves.pure _

theorem getPeers (env : Env) (infohash : Hash) (callback : Option Nat) :
    Act.Preserves P (Server.getPeers env infohash callback) := by
  unfold Server.getPeers
  by_cases zero : infohash.isZero = true
  · rw [if_pos zero]
    exact Act.Preserves.pure _
  · rw [if_neg zero]
    refine Act.Preserves.bind Act.Preserves.get fun s => Act.Preserves.ite ?_ ?_
    · cases callback with
      | none => exact Act.Preserves.pure _
      | some name => exact Act.Preserves.bind (Act.Preserves.emit _) fun _ => Act.Preserves.pure _
    · refine Act.Preserves.bind (fun s' holds => elementary.slices s' _ holds) fun _ => ?_
      refine Act.Preserves.bind (Act.Preserves.forEach (fun node => ?_) _) fun _ =>
        Act.Preserves.pure _
      exact elementary.getPeersFrom env (Bool.eq_false_iff.mpr zero) _ _ trivial _

end Elementary

/-- What the programs below the level of messages do not touch. -/
def fixed (s : Server) : Config × Bool × Bool × TokenManager × TokenPeerManager :=
  (s.conf, s.ipv4, s.ipv6, s.tokenManager, s.tokenPeerManager)

theorem fixed_elementary (value : Config × Bool × Bool × TokenManager × TokenPeerManager) :
    Elementary (fun _ => True) fun s => s.fixed = value where
  nil := trivial
  table4 _ _ _ same _ _ _ := same
  table6 _ _ _ same _ _ _ := same
  takeID _ same := same
  file _ _ same _ _ _ := same
  slices _ _ same := same

theorem keeps_fixed {α : Type} {act : ServerM α}
    (preserves : ∀ P, Elementary (fun _ => True) P → Act.Preserves P act) : Act.Keeps fixed act :=
  Act.Keeps.of_preserves fun value => preserves _ (fixed_elementary value)

@[simp] theorem addNode_effects (env : Env) (node : Node) (s : Server) :
    (addNode env node).effects s = [] := by
  unfold addNode
  rw [Act.get_bind_effects]
  simp only [Act.ite_effects, Act.bind_effects, Act.modify_effects, Act.pure_effects,
    List.append_nil, ite_self]

theorem addNode_keeps (env : Env) (node : Node) :
    Act.Keeps (fun s : Server => (s.fixed, s.transactionManager, s.slices)) (addNode env node) := by
  intro s
  unfold addNode
  rw [Act.get_bind_state]
  simp only [Act.bind_state, Act.ite_state, Act.modify_state, Act.pure_state]
  split <;> split <;> rfl

/-! ### Changes of the managers -/

/-- `P` also survives the changes of the managers. -/
structure Managing (allowed : Node → Prop) (carried : SliceRef → Prop) (P : Server → Prop) : Prop
    extends Filing allowed carried P where
  tokens : ∀ s op, P s → P { s with tokenManager := s.tokenManager.step op }
  peers : ∀ s op, P s → P { s with tokenPeerManager := s.tokenPeerManager.step op }
  pop : ∀ s tid addr, P s →
    P { s with transactionManager := (s.transactionManager.popTransaction tid addr).2 }
  sweep : ∀ s order now interval, P s →
    P { s with transactionManager := (s.transactionManager.sweep order now interval).2 }
  check4 : ∀ s now, P s → P { s with routingTable4 := (s.routingTable4.checkAllBuckets now).1 }
  check6 : ∀ s now, P s → P { s with routingTable6 := (s.routingTable6.checkAllBuckets now).1 }

namespace Managing

variable {allowed : Node → Prop} {carried : SliceRef → Prop} {P : Server → Prop}
  (managing : Managing allowed carried P)

include managing

theorem handleQuery (env : Env) (raddr : Addr) (m : Message) :
    Act.Preserves P (Server.handleQuery env raddr m) := by
  intro s holds
  rw [handleQuery_state]
  split
  · exact managing.tokens s (.token raddr env.now) holds
  · exact holds

theorem popThen (tid : GoString) (addr : Addr) {handler : Transaction → ServerM Unit}
    (each : ∀ s t, P s → s.transactionManager.pending ⟨tid, addr.string⟩ = some t →
      P ((handler t).state (s.popped tid addr))) :
    Act.Preserves P (do
      match ← Server.popTransaction tid addr with
      | some t => handler t
      | none => pure ()) := by
  intro s holds
  have found := s.transactionManager.popTransaction_fst tid addr
  show P (Act.state (match (s.transactionManager.popTransaction tid addr).1 with
    | some t => handler t
    | none => pure ()) (s.popped tid addr))
  cases taken : (s.transactionManager.popTransaction tid addr).1 with
  | none => exact managing.pop s tid addr holds
  | some t =>
    rw [taken] at found
    exact each s t holds found.symm

theorem dispatch (env : Env) {kaddr : Addr} (sender : ∀ id, allowed ⟨id, kaddr⟩) {m : Message}
    (respond : ∀ s t, P s → s.transactionManager.pending ⟨m.t, kaddr.string⟩ = some t →
      P ((onResponse env t kaddr m).state (s.popped m.t kaddr))) :
    Act.Preserves P (Server.dispatch env kaddr m) := by
  refine Act.Preserves.ite ?_ (Act.Preserves.ite ?_ (Act.Preserves.ite ?_ (Act.Preserves.pure _)))
  · refine Act.Preserves.ite (Act.Preserves.pure _) ?_
    refine Act.Preserves.bind (managing.addNodeOf env (sender _) _) fun r => ?_
    refine Act.Preserves.bind Act.Preserves.get fun s => ?_
    exact Act.Preserves.ite (managing.handleQuery env kaddr m) (Act.Preserves.pure _)
  · refine Act.Preserves.ite (Act.Preserves.pure _) ?_
    refine Act.Preserves.bind (managing.addNodeOf env (sender _) _) fun r => ?_
    exact Act.Preserves.ite (Act.Preserves.pure _) (managing.popThen m.t kaddr respond)
  · refine managing.popThen m.t kaddr fun s t holds _ => ?_
    show P ((done t _).state _)
    rw [done_state]
    exact managing.pop s m.t kaddr holds

theorem handlePacket (env : Env) {kaddr : Addr} (sender : ∀ id, allowed ⟨id, kaddr⟩)
    {decoded : Option Message}
    (respond : ∀ m, decoded = some m → ∀ s t, P s →
      s.transactionManager.pending ⟨m.t, kaddr.string⟩ = some t →
      P ((onResponse env t kaddr m).state (s.popped m.t kaddr))) :
    Act.Preserves P (Server.handlePacket env kaddr decoded) := by
  refine Act.Preserves.bind Act.Preserves.get fun s => Act.Preserves.ite (Act.Preserves.pure _)
    (Act.Preserves.ite (Act.Preserves.pure _) ?_)
  cases decoded with
  | none => exact Act.Preserves.pure _
  | some m =>
    exact Act.Preserves.ite (Act.Preserves.pure _)
      (Act.Preserves.ite (Act.Preserves.pure _) (managing.dispatch env sender (respond m rfl)))

/-- **One event preserves `P`** if the two programs that write visited ids do: the handler of a
response, and the call that starts a search for peers. -/
theorem step (s : Server) (event : Event) (fine : event.Allowed allowed)
    (respond : ∀ env kaddr m, event = .packet env kaddr (some m) → ∀ s t, P s →
      s.transactionManager.pending ⟨m.t, kaddr.string⟩ = some t →
      P ((onResponse env t kaddr m).state (s.popped m.t kaddr)))
    (search : ∀ env infohash callback, event = .getPeers env infohash callback →
      Act.Preserves P (Server.getPeers env infohash callback)) (holds : P s) :
    P (s.step event) := by
  have ignoring : ∀ {α : Type} {act : ServerM α}, Act.Preserves P act →
      Act.Preserves P (do let _ ← act) := fun preserves =>
    Act.Preserves.bind preserves fun _ => Act.Preserves.pure _
  cases event with
  | packet env kaddr decoded =>
    refine managing.handlePacket env fine.1 (fun m same => ?_) s holds
    exact respond env kaddr m (congrArg (Event.packet env kaddr) same)
  | addNode env node => exact ignoring (managing.addNode env fine) s holds
  | ping env addr callback => exact ignoring (managing.ping env addr callback) s holds
  | getPeers env infohash callback => exact ignoring (search env infohash callback rfl) s holds
  | announcePeer env infohash port impliedPort =>
    exact ignoring (managing.announcePeer env infohash port impliedPort) s holds
  | findNode env addr target => exact ignoring (managing.findNode env addr target) s holds
  | bootstrap env addrs => exact managing.bootstrap env addrs s holds
  | table4Tick env => exact managing.pingAll env _ _ (managing.check4 s env.now holds)
  | table6Tick env => exact managing.pingAll env _ _ (managing.check6 s env.now holds)
  | updateToken token => exact managing.tokens s (.updateToken token) holds
  | clearTokens now => exact managing.tokens s (.clear now tokenExpired) holds
  | peersTick now => exact managing.peers s (.sweep now peerInterval) holds
  | transactionsTick env =>
    exact Act.Preserves.forEach (fun t => Elementary.done t _) _ _
      (managing.sweep s env.sweepOrder env.now s.conf.respTimeout holds)

end Managing

/-- `P` survives every change a server makes, as long as the nodes that it files are allowed. -/
structure Stable (allowed : Node → Prop) (P : Server → Prop) : Prop extends
    Elementary allowed P, Managing allowed (fun _ => True) P

/-- Every pending transaction is filed under its own key, was sent to an address the server speaks
to, and has an infohash if it is a search for peers. -/
def Sound (s : Server) : Prop :=
  ∀ key t, s.transactionManager.pending key = some t →
    key = t.key ∧ s.isDisabled t.addr = false ∧ WellFormed t

theorem sound_of_pending {s s' : Server} (sound : s.Sound)
    (families : ∀ addr, s'.isDisabled addr = s.isDisabled addr)
    (fewer : ∀ key t, s'.transactionManager.pending key = some t →
      s.transactionManager.pending key = some t) : s'.Sound := by
  intro key t found
  obtain ⟨filed, enabled, wellFormed⟩ := sound key t (fewer key t found)
  exact ⟨filed, (families t.addr).trans enabled, wellFormed⟩

theorem sound_stable (allowed : Node → Prop) : Stable allowed Sound where
  nil := trivial
  table4 s _ _ sound _ _ _ := sound_of_pending sound (fun _ => rfl) fun _ _ found => found
  table6 s _ _ sound _ _ _ := sound_of_pending sound (fun _ => rfl) fun _ _ found => found
  takeID s sound := sound_of_pending sound (fun _ => rfl) fun _ _ found => found
  file s t sound enabled wellFormed _ := by
    intro key t' found
    have pending := s.transactionManager.pending_addTransaction t key
    rw [show (s.file t).transactionManager = s.transactionManager.addTransaction t from rfl,
      pending] at found
    by_cases same : key = t.key
    · rw [if_pos same] at found
      obtain rfl := Option.some.inj found
      exact ⟨same, enabled, wellFormed⟩
    · rw [if_neg same] at found
      exact sound key t' found
  slices s _ sound := sound_of_pending sound (fun _ => rfl) fun _ _ found => found
  tokens s _ sound := sound_of_pending sound (fun _ => rfl) fun _ _ found => found
  peers s _ sound := sound_of_pending sound (fun _ => rfl) fun _ _ found => found
  pop s tid addr sound := by
    refine sound_of_pending sound (fun _ => rfl) fun key t found => ?_
    change (s.transactionManager.popTransaction tid addr).2.pending key = some t at found
    rw [TransactionManager.pending_popTransaction] at found
    split at found
    · cases found
    · exact found
  sweep s order now interval sound := by
    refine sound_of_pending sound (fun _ => rfl) fun key t found => ?_
    change (s.transactionManager.sweep order now interval).2.pending key = some t at found
    rw [TransactionManager.pending_sweep] at found
    exact (Option.filter_eq_some_iff.mp found).1
  check4 s _ sound := sound_of_pending sound (fun _ => rfl) fun _ _ found => found
  check6 s _ sound := sound_of_pending sound (fun _ => rfl) fun _ _ found => found

theorem newServer_sound (config : Config) (setup : Setup) : (newServer config setup).Sound := by
  intro key t found
  cases found

namespace Stable

variable {allowed : Node → Prop} {P : Server → Prop} (stable : Stable allowed P)
  (sound : ∀ s, P s → s.Sound)

include stable

theorem onResponse (env : Env) {t : Transaction} (wellFormed : WellFormed t) (a : Addr)
    {m : Message} (fine : BringsOnly allowed m) : Act.Preserves P (Server.onResponse env t a m) := by
  unfold Server.onResponse
  cases handler : t.onResponse with
  | noopResponse => exact Act.Preserves.pure _
  | onPingResp => exact Elementary.done t _
  | onGetPeersResp =>
    refine Act.Preserves.bind (Act.Preserves.ite ?_ (Act.Preserves.pure _)) fun _ =>
      stable.toElementary.searchPeers env (wellFormed handler) fine
    exact fun s holds => stable.peers s (.set m.r.id a m.r.token env.now) holds
  | onFindNodeResp => exact stable.toElementary.onFindNodeResp env t fine

include sound

/-- **One event keeps a stable property.** -/
theorem step (s : Server) (event : Event) (fine : event.Allowed allowed) (holds : P s) :
    P (s.step event) := by
  refine stable.toManaging.step s event fine (fun env kaddr m same s t holds pending => ?_)
    (fun env infohash callback _ => stable.toElementary.getPeers env infohash callback) holds
  subst same
  have wellFormed : WellFormed t := (sound s holds _ t pending).2.2
  exact stable.onResponse env wellFormed kaddr (fine.2 m rfl) _ (stable.pop s m.t kaddr holds)

/-- **A stable property holds after every run** whose events bring allowed nodes. -/
theorem run {start : Server} (initial : P start) (events : List Event)
    (fine : ∀ event ∈ events, event.Allowed allowed) : P (Lib.run Server.step start events) := by
  induction events generalizing start with
  | nil => exact initial
  | cons event events ih =>
    obtain ⟨here, later⟩ := List.forall_mem_cons.mp fine
    exact ih (stable.step sound start event here initial) later

end Stable

theorem Stable.and {allowed : Node → Prop} {P Q : Server → Prop} (first : Stable allowed P)
    (second : Stable allowed Q) : Stable allowed fun s => P s ∧ Q s where
  nil := trivial
  table4 s node now both fine v4 on :=
    ⟨first.table4 s node now both.1 fine v4 on, second.table4 s node now both.2 fine v4 on⟩
  table6 s node now both fine v6 on :=
    ⟨first.table6 s node now both.1 fine v6 on, second.table6 s node now both.2 fine v6 on⟩
  takeID s both := ⟨first.takeID s both.1, second.takeID s both.2⟩
  file s t both enabled wellFormed carries :=
    ⟨first.file s t both.1 enabled wellFormed carries,
      second.file s t both.2 enabled wellFormed carries⟩
  slices s heap both := ⟨first.slices s heap both.1, second.slices s heap both.2⟩
  tokens s op both := ⟨first.tokens s op both.1, second.tokens s op both.2⟩
  peers s op both := ⟨first.peers s op both.1, second.peers s op both.2⟩
  pop s tid addr both := ⟨first.pop s tid addr both.1, second.pop s tid addr both.2⟩
  sweep s order now interval both :=
    ⟨first.sweep s order now interval both.1, second.sweep s order now interval both.2⟩
  check4 s now both := ⟨first.check4 s now both.1, second.check4 s now both.2⟩
  check6 s now both := ⟨first.check6 s now both.1, second.check6 s now both.2⟩

theorem Stable.run_newServer {allowed : Node → Prop} {P : Server → Prop} (stable : Stable allowed P)
    (config : Config) (setup : Setup) (initial : P (newServer config setup)) (events : List Event)
    (fine : ∀ event ∈ events, event.Allowed allowed) :
    P (Lib.run Server.step (newServer config setup) events) :=
  (((sound_stable allowed).and stable).run (fun _ both => both.1)
    ⟨newServer_sound config setup, initial⟩ events fine).2

def settings (s : Server) : Config × Bool × Bool := (s.conf, s.ipv4, s.ipv6)

theorem settings_stable (allowed : Node → Prop) (value : Config × Bool × Bool) :
    Stable allowed fun s => s.settings = value where
  nil := trivial
  table4 _ _ _ same _ _ _ := same
  table6 _ _ _ same _ _ _ := same
  takeID _ same := same
  file _ _ same _ _ _ := same
  slices _ _ same := same
  tokens _ _ same := same
  peers _ _ same := same
  pop _ _ _ same := same
  sweep _ _ _ _ same := same
  check4 _ _ same := same
  check6 _ _ same := same

theorem run_settings {start : Server} (sound : start.Sound) (events : List Event) :
    (Lib.run step start events).settings = start.settings :=
  (((sound_stable _).and (settings_stable _ start.settings)).run (fun _ both => both.1)
    ⟨sound, rfl⟩ events fun event _ => event.allowed_any).2

theorem run_isDisabled {start : Server} (sound : start.Sound) (events : List Event) (addr : Addr) :
    (Lib.run step start events).isDisabled addr = start.isDisabled addr := by
  have same := run_settings sound events
  have same4 : (Lib.run step start events).ipv4 = start.ipv4 :=
    congrArg (fun settings => settings.2.1) same
  have same6 : (Lib.run step start events).ipv6 = start.ipv6 :=
    congrArg (fun settings => settings.2.2) same
  unfold isDisabled
  rw [same4, same6]

theorem run_conf (config : Config) (setup : Setup) (events : List Event) :
    (Lib.run step (newServer config setup) events).conf = config.set setup.randomID :=
  congrArg Prod.fst (run_settings (newServer_sound config setup) events)

theorem sound_run (config : Config) (setup : Setup) (events : List Event) :
    (run step (newServer config setup) events).Sound :=
  (sound_stable _).run (fun _ sound => sound) (newServer_sound config setup) events
    fun event _ => event.allowed_any

end Server

end GoBt.Dht
