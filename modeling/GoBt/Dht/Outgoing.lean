/-
**What the server sends.**

* `Own` — a query of the server, to an address of a family that it speaks, marked if the server is
  read-only. A rule for each program that sends no replies: all that it sends is `Own`.
* **`outgoing_discipline`** — over every run, the server sends such queries and replies to queries. A
  reply goes to the sender of the query only; a sender on the blacklist gets none, and a read-only
  server sends none.
-/

import GoBt.Dht.Families
import GoBt.Dht.Search

namespace GoBt.Dht.Server

open GoBt.Lib GoBt.Metainfo GoBt.Krpc

/-- Whether the server is read-only, and which addresses it does not speak to. -/
def manners (s : Server) : Bool × (Addr → Bool) := (s.conf.readOnly, s.isDisabled)

/-- If it is a datagram, it is a query to an address that the server speaks to. -/
def Own (manners : Bool × (Addr → Bool)) : Effect → Prop
  | .sent addr m => manners.2 addr = false ∧ m.ro = manners.1 ∧ m.y = str "q"
  | _ => True

/-- The program sends only queries of the server. -/
abbrev SendsOwn {α : Type} (act : ServerM α) : Prop := Act.Emits manners Own act

theorem keeps_manners {α γ : Type} {act : ServerM α} {rest : Server → γ}
    (keeps : Act.Keeps (fun s : Server => (s.fixed, rest s)) act) : Act.Keeps manners act := by
  intro s
  have same : (act.state s).fixed = s.fixed := congrArg Prod.fst (keeps s)
  simp only [fixed, Prod.mk.injEq] at same
  unfold manners
  rw [same.1, show (act.state s).isDisabled = s.isDisabled from ?_]
  funext addr
  unfold isDisabled
  rw [same.2.1, same.2.2.1]

theorem sendsOwn_of_silent {α : Type} {act : ServerM α} (keeps : Act.Keeps manners act)
    (silent : ∀ s addr msg, .sent addr msg ∉ act.effects s) : SendsOwn act := by
  refine ⟨keeps, fun s effect member => ?_⟩
  cases effect with
  | sent addr msg => exact absurd member (silent s addr msg)
  | _ => trivial

theorem sendsOwn_request (env : Env) (t : Transaction) : SendsOwn (request env t) := by
  refine ⟨keeps_manners (request_keeps env t), fun s effect member => ?_⟩
  cases effect with
  | sent addr msg =>
    obtain ⟨enabled, rfl, rfl⟩ := (request_sent_iff env t s addr msg).mp member
    exact ⟨enabled, rfl, rfl⟩
  | _ => trivial

theorem sendsOwn_done (t : Transaction) (r : Result) : SendsOwn (done t r) :=
  sendsOwn_of_silent (fun s => by rw [done_state]) (done_not_sent t r)

theorem sendsOwn_addNodeOf (env : Env) (kaddr : Addr) (id : Hash) (ro : Bool) :
    SendsOwn (addNodeOf env kaddr id ro) :=
  sendsOwn_of_silent (keeps_manners (addNodeOf_keeps env kaddr id ro))
    (addNodeOf_sent env kaddr id ro)

theorem sendsOwn_getPeersFrom (env : Env) (info : Hash) (addr : Addr) (depth : Int)
    (ids : SliceRef) (callback : Option Nat) :
    SendsOwn (getPeersFrom env info addr depth ids callback) :=
  .bind .get fun _ => .bind (sendsOwn_request env _) fun _ => .pure _

theorem sendsOwn_findNodeFrom (env : Env) (target : Hash) (addr : Addr) (depth : Int)
    (ids : SliceRef) : SendsOwn (findNodeFrom env target addr depth ids) :=
  .bind .get fun _ => sendsOwn_request env _

theorem sendsOwn_findNode (env : Env) (addr : Addr) (target : Hash) :
    SendsOwn (findNode env addr target) :=
  .ite (.pure _) (.bind .get fun _ => .bind (sendsOwn_findNodeFrom env _ _ _ _) fun _ => .pure _)

theorem sendsOwn_searchOn (env : Env) (wanted : Hash) (t : Transaction) (m : Message)
    {next : Addr → Int → SliceRef → ServerM Unit} (each : ∀ a d i, SendsOwn (next a d i)) :
    SendsOwn (searchOn env wanted t m next) := by
  have collects : SendsOwn (collect env wanted t m) :=
    sendsOwn_of_silent (keeps_manners (collect_keeps env wanted t m)) fun s addr msg => by
      rw [collect_effects]
      exact List.not_mem_nil
  rw [searchOn_eq]
  exact .ite (.pure _) (.bind collects fun _ => .forEach (fun _ => each _ _ _) _)

theorem sendsOwn_onResponse (env : Env) (t : Transaction) (a : Addr) (m : Message) :
    SendsOwn (onResponse env t a m) := by
  unfold onResponse
  cases t.onResponse with
  | noopResponse => exact .pure _
  | onPingResp => exact sendsOwn_done t _
  | onGetPeersResp =>
    refine .bind (.ite (.modify fun _ => rfl) (.pure _)) fun _ => .ite ?_ ?_
    · exact .bind (sendsOwn_done t _) fun _ =>
        sendsOwn_of_silent (Act.Keeps.forEach (fun _ => Act.Keeps.emit _) _)
          (onTorrent_not_sent _ _)
    · exact .bind (sendsOwn_done t _) fun _ =>
        sendsOwn_searchOn env _ t m fun _ _ _ => sendsOwn_getPeersFrom env _ _ _ _ _
  | onFindNodeResp =>
    exact .bind (sendsOwn_done t _) fun _ => sendsOwn_searchOn env _ t m fun _ _ _ =>
      .bind (sendsOwn_findNodeFrom env _ _ _ _) fun _ => .pure _

theorem sendsOwn_popTransaction (tid : GoString) (addr : Addr) :
    SendsOwn (popTransaction tid addr) :=
  .bind .get fun _ => .bind (.modify fun _ => rfl) fun _ => .pure _

theorem sendsOwn_announceTo (env : Env) (infohash : Hash) (port : UInt16) (impliedPort : Bool)
    (nodes : List Node) : SendsOwn (announceTo env infohash port impliedPort nodes) := by
  induction nodes with
  | nil => exact .pure _
  | cons node rest ih =>
    exact .bind .get fun _ => .ite ih (.bind (sendsOwn_request env _) fun _ =>
      .bind ih fun _ => .pure _)

/-- **What is not a query makes the server send queries only.** -/
theorem sendsOwn_dispatch (env : Env) (kaddr : Addr) {m : Message} (answer : m.y ≠ str "q") :
    SendsOwn (dispatch env kaddr m) := by
  unfold dispatch
  rw [if_neg answer]
  refine .ite (.ite (.pure _) (.bind (sendsOwn_addNodeOf env _ _ _) fun _ => .ite (.pure _)
    (.bind (sendsOwn_popTransaction _ _) fun found => ?_)))
    (.ite (.bind (sendsOwn_popTransaction _ _) fun found => ?_) (.pure _))
  · cases found with
    | none => exact .pure _
    | some t => exact sendsOwn_onResponse env t kaddr m
  · cases found with
    | none => exact .pure _
    | some t => exact sendsOwn_done t _

theorem sendsOwn_perform {event : Event}
    (other : ∀ env kaddr m, event = .packet env kaddr (some m) → m.y ≠ str "q") :
    SendsOwn (perform event) := by
  have pings : ∀ env addr callback, SendsOwn (do let _ ← ping env addr callback) :=
    fun env addr callback => .bind (sendsOwn_request env _) fun _ => .pure _
  cases event with
  | packet env kaddr decoded =>
    refine .bind .get fun _ => .ite (.pure _) (.ite (.pure _) ?_)
    cases decoded with
    | none => exact .pure _
    | some m =>
      exact .ite (.pure _) (.ite (.pure _) (sendsOwn_dispatch env kaddr (other _ _ _ rfl)))
  | addNode env node =>
    exact .bind (sendsOwn_of_silent (keeps_manners (addNode_keeps env node)) (addNode_sent env node))
      fun _ => .pure _
  | ping env addr callback => exact pings env addr callback
  | getPeers env infohash callback =>
    refine .bind (.ite (.pure _) (.bind .get fun s => .ite ?_ ?_)) fun _ => .pure _
    · cases callback with
      | none => exact .bind (.pure _) fun _ => .pure _
      | some name =>
        exact .bind (sendsOwn_of_silent (Act.Keeps.emit _) fun _ _ _ => by simp) fun _ => .pure _
    · exact .bind (.modify fun _ => rfl) fun _ => .bind
        (.forEach (fun _ => sendsOwn_getPeersFrom env _ _ _ _ _) _) fun _ => .pure _
  | announcePeer env infohash port impliedPort =>
    exact .bind (.ite (.pure _) (.bind .get fun _ =>
      .bind (sendsOwn_announceTo env _ _ _ _) fun _ => .pure _)) fun _ => .pure _
  | findNode env addr target => exact .bind (sendsOwn_findNode env addr target) fun _ => .pure _
  | bootstrap env addrs =>
    exact .bind .get fun _ => .ite (.forEach (fun _ => .ite (.pure _)
      (.bind (sendsOwn_findNode env _ _) fun _ => .pure _)) _) (.pure _)
  | table4Tick env | table6Tick env =>
    exact .bind .get fun _ => .bind (.modify fun _ => rfl) fun _ =>
      .forEach (fun _ => pings env _ none) _
  | transactionsTick env =>
    exact .bind .get fun _ => .bind (.modify fun _ => rfl) fun _ =>
      .forEach (fun t => sendsOwn_done t _) _
  | updateToken _ | clearTokens _ | peersTick _ => exact .modify fun _ => rfl

theorem handleQuery_sent {env : Env} {raddr : Addr} {m : Message} {s : Server} {addr : Addr}
    {msg : Message} (sent : .sent addr msg ∈ (handleQuery env raddr m).effects s) :
    addr = raddr ∧ msg.ro = s.conf.readOnly ∧ msg.t = m.t ∧ (msg.y = str "r" ∨ msg.y = str "e") := by
  have replies : ∀ {r : ResponseResult} {s' : Server}, s'.conf = s.conf →
      .sent addr msg ∈ (reply env raddr m.t r).effects s' →
      addr = raddr ∧ msg.ro = s.conf.readOnly ∧ msg.t = m.t ∧
        (msg.y = str "r" ∨ msg.y = str "e") := by
    intro r s' same sent
    obtain ⟨rfl, rfl⟩ := (reply_sent_iff env raddr m.t r s' addr msg).mp sent
    exact ⟨rfl, congrArg Config.readOnly same, rfl, Or.inl rfl⟩
  unfold handleQuery at sent
  rw [Act.get_bind_effects] at sent
  simp only [Act.ite_effects, Act.bind_effects, Act.modify_effects, Act.emit_effects,
    Act.pure_effects, List.nil_append] at sent
  split at sent
  · exact replies rfl sent
  · split at sent
    · exact replies rfl sent
    · split at sent
      · refine replies ?_ ((List.mem_append.mp sent).resolve_right ?_)
        · rfl
        · simp
      · split at sent
        · split at sent
          · cases sent
          · exact replies rfl ((List.mem_append.mp sent).resolve_right (by simp))
        · unfold sendError at sent
          rw [Act.bind_effects, Act.pure_effects, List.append_nil, send_sent_iff] at sent
          obtain ⟨rfl, rfl⟩ := sent
          exact ⟨rfl, rfl, rfl, Or.inr rfl⟩

/-- **What leaves the server.** In every state and for every event, a datagram goes to an address of
a family that the server speaks and says whether the server is read-only. It is a query of the
server; or it answers the query that has just come from this address, under the transaction id of
the query, and then the address is not on the blacklist and the server is not read-only. -/
theorem outgoing_discipline (s : Server) (event : Event) (addr : Addr) (msg : Message)
    (sent : .sent addr msg ∈ (perform event).effects s) :
    s.isDisabled addr = false ∧ msg.ro = s.conf.readOnly ∧
      (msg.y = str "q" ∨ s.conf.readOnly = false ∧ (msg.y = str "r" ∨ msg.y = str "e") ∧
        ∃ env m, event = .packet env addr (some m) ∧ m.y = str "q" ∧ msg.t = m.t ∧
          env.blacklisted addr = false) := by
  by_cases query : ∃ env kaddr m, event = .packet env kaddr (some m) ∧ m.y = str "q"
  · obtain ⟨env, kaddr, m, rfl, isQuery⟩ := query
    obtain ⟨hears, sent⟩ := (handlePacket_query_sent_iff env kaddr isQuery s addr msg).mp sent
    have mode : ((addNodeOf env kaddr m.a.id m.ro).state s).conf.readOnly = s.conf.readOnly :=
      congrArg Prod.fst (keeps_manners (addNodeOf_keeps env kaddr m.a.id m.ro) s)
    have active := mode.symm.trans hears.active
    obtain ⟨rfl, flag, tid, kind⟩ := handleQuery_sent sent
    rw [mode] at flag
    exact ⟨hears.enabled, flag, Or.inr ⟨active, kind, env, m, rfl, isQuery, tid, hears.welcome⟩⟩
  · have own : SendsOwn (perform event) :=
      sendsOwn_perform fun env kaddr m same isQuery => query ⟨env, kaddr, m, same, isQuery⟩
    obtain ⟨enabled, flag, isQuery⟩ := own.2 s _ sent
    exact ⟨enabled, flag, Or.inl isQuery⟩

theorem outgoing_discipline_ping :
    let ping := newQueryMsg (str "aa") queryMethodPing { id := Hash.fill 2 }
    .sent honestAddr (secretServer.replyMsg (str "aa") {}) ∈
        (perform (.packet {} honestAddr (some ping))).effects secretServer ∧
      secretServer.isDisabled honestAddr = false := by
  intro ping
  have sent : .sent honestAddr (secretServer.replyMsg (str "aa") {}) ∈
      (perform (.packet {} honestAddr (some ping))).effects secretServer := by decide +kernel
  exact ⟨sent, (outgoing_discipline _ _ _ _ sent).1⟩

end GoBt.Dht.Server
