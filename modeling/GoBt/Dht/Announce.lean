/-
**Announces of peers.**

Two sides of `announce_peer`: the server that receives one, and `AnnouncePeer`, which sends them.

* `handleQuery_announce_effects` — what an `announce_peer` query makes the server do.
* **`announce_accepted_iff_invalid`** — over every run, the server accepts an announce exactly when
  its token is *not* valid: the test in `handleQuery` has the wrong sense.
* `announceTo_sent`, `announceTo_reaches` — which announces the loop of `AnnouncePeer` sends.
* **`announcePeer_uses_token_iff`** — over every run, `AnnouncePeer` uses the token its search was
  handed exactly when the token manager filed it under the infohash, which it does only for a node
  whose id is the infohash.
-/

import GoBt.Dht.Histories

namespace GoBt.Dht

open GoBt.Lib GoBt.Metainfo GoBt.Krpc

namespace Server

/-! ### Receiving an announce -/

/-- The reply to a query that succeeds and asks for nothing. -/
def successReply (s : Server) (tid : GoString) : Message := s.replyMsg tid {}

/-- The server replies with success and reports the torrent. -/
def AnnounceAccepted (env : Env) (s : Server) (raddr : Addr) (m : Message) : Prop :=
  .sent raddr (s.successReply m.t) ∈ (handleQuery env raddr m).effects s ∧
    .onTorrent (Hex.encode m.a.infoHash.bytes) raddr.string ∈ (handleQuery env raddr m).effects s

instance (env : Env) (s : Server) (raddr : Addr) (m : Message) :
    Decidable (AnnounceAccepted env s raddr m) :=
  inferInstanceAs (Decidable (_ ∧ _))

/-- The query changes nothing and nothing is sent or reported. -/
def NoEffect (env : Env) (s : Server) (raddr : Addr) (m : Message) : Prop :=
  (handleQuery env raddr m).effects s = [] ∧ (handleQuery env raddr m).state s = s

/-- The announce is gated by the validity of its token: accepted exactly if it is valid, and without
effect if it is not. -/
def TokenGated (valid : Prop) (env : Env) (s : Server) (raddr : Addr) (m : Message) : Prop :=
  (AnnounceAccepted env s raddr m ↔ valid) ∧ (¬ valid → NoEffect env s raddr m)

theorem handleQuery_announce_effects (env : Env) (raddr : Addr) {m : Message}
    (isAnnounce : m.q = queryMethodAnnouncePeer) (s : Server) :
    (handleQuery env raddr m).effects s =
      if s.tokenManager.check raddr m.a.token = true then []
      else (reply env raddr m.t {}).effects s ++
        [.onTorrent (Hex.encode m.a.infoHash.bytes) raddr.string] := by
  have notPing : ¬ m.q = queryMethodPing := by rw [isAnnounce]; decide
  have notFind : ¬ m.q = queryMethodFindNode := by rw [isAnnounce]; decide
  have notGet : ¬ m.q = queryMethodGetPeers := by rw [isAnnounce]; decide
  unfold handleQuery
  rw [Act.get_bind_effects, if_neg notPing, if_neg notFind, if_neg notGet, if_pos isAnnounce,
    Act.ite_effects]
  rfl

theorem announce_of_check (env : Env) (raddr : Addr) {m : Message}
    (isAnnounce : m.q = queryMethodAnnouncePeer) (s : Server) :
    (s.tokenManager.check raddr m.a.token = true → NoEffect env s raddr m) ∧
      (s.tokenManager.check raddr m.a.token ≠ true → AnnounceAccepted env s raddr m) := by
  have effects := handleQuery_announce_effects env raddr isAnnounce s
  have state : (handleQuery env raddr m).state s = s := by
    rw [handleQuery_state, if_neg]
    rw [isAnnounce]
    decide
  constructor
  · intro passes
    rw [if_pos passes] at effects
    exact ⟨effects, state⟩
  · intro fails
    rw [if_neg fails] at effects
    unfold AnnounceAccepted
    rw [effects]
    exact ⟨List.mem_append_left _ ((reply_sent_iff env raddr m.t {} s _ _).mpr ⟨rfl, rfl⟩),
      List.mem_append_right _ List.mem_cons_self⟩

/-- **The announces a server accepts.** After every run, an `announce_peer` query is accepted
exactly when its token is not valid — neither the current nor the previous one, or the address
holds none — and has no effect when it is. So no announce is ever gated by its token. -/
theorem announce_accepted_iff_invalid (config : Config) (setup : Setup) (events : List Event)
    (env : Env) (raddr : Addr) (m : Message) (isAnnounce : m.q = queryMethodAnnouncePeer) :
    let s := run step (newServer config setup) events
    let valid := TokenManager.Valid setup.token (tokenHistory (newServer config setup) events) raddr
      m.a.token
    (s.tokenManager.check raddr m.a.token = true ↔ valid) ∧
      (AnnounceAccepted env s raddr m ↔ ¬ valid) ∧ (valid → NoEffect env s raddr m) ∧
        ¬ TokenGated valid env s raddr m := by
  intro s valid
  have checked : s.tokenManager.check raddr m.a.token = true ↔ valid := by
    show (run step (newServer config setup) events).tokenManager.check raddr m.a.token = true ↔
      valid
    rw [run_tokenManager]
    exact TokenManager.check_run_iff _ _ _ _
  obtain ⟨silent, accepting⟩ := announce_of_check env raddr isAnnounce s
  have accepted : AnnounceAccepted env s raddr m ↔ ¬ valid := by
    constructor
    · intro accepts holds
      have none := (silent (checked.mpr holds)).1
      rw [AnnounceAccepted, none] at accepts
      cases accepts.1
    · exact fun invalid => accepting fun passes => invalid (checked.mp passes)
  refine ⟨checked, accepted, fun holds => silent (checked.mpr holds), fun gated => ?_⟩
  by_cases holds : valid
  · exact accepted.mp (gated.1.mpr holds) holds
  · exact holds (gated.1.mp (accepted.mpr holds))

def honestAddr : Addr := ⟨[10, 0, 0, 1], 6881⟩

def secretServer : Server := newServer {} { token := str "secret" }

/-- The `get_peers` query of the honest node. -/
def askEvents : List Event :=
  [.packet {} honestAddr (some (newQueryMsg (str "aa") queryMethodGetPeers
    { id := Hash.fill 2, infoHash := Hash.fill 3 }))]

def announceMsg (token : String) : Message :=
  newQueryMsg (str "ab") queryMethodAnnouncePeer
    { id := Hash.fill 2, infoHash := Hash.fill 3, token := str token }

/-- The token handed out in that run is valid, and the announce with it has no effect. -/
theorem honest_announce_ignored :
    TokenManager.Valid (str "secret") (tokenHistory secretServer askEvents) honestAddr
        (str "secret") ∧
      NoEffect {} (run step secretServer askEvents) honestAddr (announceMsg "secret") := by
  have result := announce_accepted_iff_invalid {} { token := str "secret" } askEvents {} honestAddr
    (announceMsg "secret") rfl
  have valid := result.1.mp (by decide)
  exact ⟨valid, result.2.2.1 valid⟩

/-- **The test is inverted**: the honest node with the token it was handed gets no answer, a
stranger with a made-up token is accepted. -/
theorem announce_check_inverted :
    (run step secretServer askEvents).tokenManager.check honestAddr (str "secret") = true ∧
      (handleQuery {} honestAddr (announceMsg "secret")).effects (run step secretServer askEvents) =
        [] ∧
      (run step secretServer askEvents).tokenManager.check ⟨[6, 6, 6, 6], 66⟩ (str "forged") =
        false ∧
      AnnounceAccepted {} (run step secretServer askEvents) ⟨[6, 6, 6, 6], 66⟩
        (announceMsg "forged") := by
  decide

/-! ### Sending announces -/

/-- The announce of an infohash that `AnnouncePeer` sends under a transaction id. -/
def announceQuery (s : Server) (tid : GoString) (infohash : Hash) (port : UInt16)
    (impliedPort : Bool) (token : GoString) : Message :=
  { newQueryMsg tid queryMethodAnnouncePeer
      { id := s.conf.id, infoHash := infohash, port := port, impliedPort := impliedPort,
        token := token } with ro := s.conf.readOnly }

section AnnounceTo

variable (env : Env) (infohash : Hash) (port : UInt16) (impliedPort : Bool)

def announceTransaction (token : GoString) (node : Node) : Transaction :=
  newTransaction node.addr queryMethodAnnouncePeer
    { impliedPort := impliedPort, infoHash := infohash, port := port, token := token } none env.now

theorem announceTransaction_fixed (token : GoString) (node : Node) (s : Server) :
    ((request env (announceTransaction env infohash port impliedPort token node)).state s).fixed =
      s.fixed :=
  keeps_fixed (fun _ elementary => elementary.request env (fun isSearch =>
    nomatch (show ResponseHandler.noopResponse = .onGetPeersResp from isSearch)) trivial) s

theorem isDisabled_of_fixed {s s' : Server} (same : s'.fixed = s.fixed) (addr : Addr) :
    s'.isDisabled addr = s.isDisabled addr := by
  have same4 : s'.ipv4 = s.ipv4 := congrArg (fun part => part.2.1) same
  have same6 : s'.ipv6 = s.ipv6 := congrArg (fun part => part.2.2.1) same
  unfold isDisabled
  rw [same4, same6]

theorem announceQuery_of_fixed {s s' : Server} (same : s'.fixed = s.fixed) (tid token : GoString) :
    s'.announceQuery tid infohash port impliedPort token =
      s.announceQuery tid infohash port impliedPort token := by
  have sameConf : s'.conf = s.conf := congrArg Prod.fst same
  unfold announceQuery
  rw [sameConf]

theorem announceTo_cons_effects (node : Node) (rest : List Node) (s : Server) :
    (announceTo env infohash port impliedPort (node :: rest)).effects s =
      if s.tokenPeerManager.get infohash node.addr = [] then
        (announceTo env infohash port impliedPort rest).effects s
      else
        let t := announceTransaction env infohash port impliedPort
          (s.tokenPeerManager.get infohash node.addr) node
        (request env t).effects s ++
          (announceTo env infohash port impliedPort rest).effects ((request env t).state s) := by
  rw [announceTo, Act.get_bind_effects, Act.ite_effects, Act.bind_effects, Act.bind_effects,
    Act.pure_effects, List.append_nil]
  rfl

theorem announceTo_cons_value (node : Node) (rest : List Node) (s : Server) :
    (announceTo env infohash port impliedPort (node :: rest)).value s =
      if s.tokenPeerManager.get infohash node.addr = [] then
        (announceTo env infohash port impliedPort rest).value s
      else
        let t := announceTransaction env infohash port impliedPort
          (s.tokenPeerManager.get infohash node.addr) node
        let sent := (announceTo env infohash port impliedPort rest).value ((request env t).state s)
        if (request env t).value s = none then node :: sent else sent := by
  rw [announceTo, Act.get_bind_value, Act.ite_value, Act.bind_value, Act.bind_value, Act.pure_value]
  rfl

theorem announceTo_sent {nodes : List Node} {s : Server} {addr : Addr} {msg : Message}
    (sent : .sent addr msg ∈ (announceTo env infohash port impliedPort nodes).effects s) :
    ∃ node ∈ nodes, node.addr = addr ∧ ∃ tid, msg = s.announceQuery tid infohash port impliedPort
      (s.tokenPeerManager.get infohash node.addr) := by
  induction nodes generalizing s with
  | nil => cases sent
  | cons node rest ih =>
    rw [announceTo_cons_effects] at sent
    split at sent
    · obtain ⟨node', member, found⟩ := ih sent
      exact ⟨node', List.mem_cons_of_mem _ member, found⟩
    · rcases List.mem_append.mp sent with here | later
      · obtain ⟨_, rfl, rfl⟩ := (request_sent_iff _ _ _ _ _).mp here
        exact ⟨node, List.mem_cons_self, rfl, _, rfl⟩
      · have same := announceTransaction_fixed env infohash port impliedPort
          (s.tokenPeerManager.get infohash node.addr) node s
        obtain ⟨node', member, target, tid, message⟩ := ih later
        refine ⟨node', List.mem_cons_of_mem _ member, target, tid, ?_⟩
        rw [message, announceQuery_of_fixed infohash port impliedPort same,
          (managers_of_fixed same).2]

/-- Every node with a stored token is sent an announce with it and listed, if the server speaks to
its address and sending succeeds. -/
theorem announceTo_reaches {nodes : List Node} {s : Server} {node : Node} (member : node ∈ nodes)
    (stored : s.tokenPeerManager.get infohash node.addr ≠ [])
    (enabled : s.isDisabled node.addr = false)
    (delivers : ∀ msg, sendOutcome env node.addr msg = none) :
    node ∈ (announceTo env infohash port impliedPort nodes).value s ∧
      ∃ tid, .sent node.addr (s.announceQuery tid infohash port impliedPort
        (s.tokenPeerManager.get infohash node.addr)) ∈
          (announceTo env infohash port impliedPort nodes).effects s := by
  induction nodes generalizing s with
  | nil => cases member
  | cons first rest ih =>
    rw [announceTo_cons_effects, announceTo_cons_value]
    rcases List.mem_cons.mp member with rfl | later
    · rw [if_neg stored, if_neg stored]
      constructor
      · have succeeds : (request env (announceTransaction env infohash port impliedPort
            (s.tokenPeerManager.get infohash node.addr) node)).value s = none := by
          rw [request_value]
          exact (if_neg (Bool.eq_false_iff.mp enabled)).trans (delivers _)
        rw [if_pos succeeds]
        exact List.mem_cons_self
      · exact ⟨_, List.mem_append_left _ ((request_sent_iff _ _ _ _ _).mpr ⟨enabled, rfl, rfl⟩)⟩
    · by_cases skipped : s.tokenPeerManager.get infohash first.addr = []
      · rw [if_pos skipped, if_pos skipped]
        exact ih later stored enabled
      · rw [if_neg skipped, if_neg skipped]
        have same := announceTransaction_fixed env infohash port impliedPort
          (s.tokenPeerManager.get infohash first.addr) first s
        have samePeers := (managers_of_fixed same).2
        obtain ⟨listed, tid, sent⟩ := ih later (by rw [samePeers]; exact stored)
          ((isDisabled_of_fixed same _).trans enabled)
        rw [announceQuery_of_fixed infohash port impliedPort same, samePeers] at sent
        refine ⟨?_, tid, List.mem_append_right _ sent⟩
        dsimp only
        split
        · exact List.mem_cons_of_mem _ listed
        · exact listed

end AnnounceTo

/-- In the run, a `get_peers` query for the infohash, sent to the address, was answered by a
response with the token. -/
def SearchObtained (start : Server) (events : List Event) (infohash : Hash) (addr : Addr)
    (token : GoString) : Prop :=
  ∃ before env kaddr m after t, events = before ++ .packet env kaddr (some m) :: after ∧
    incoming env (run step start before) kaddr (some m) = some m ∧
    answered env (run step start before) kaddr m = some t ∧ t.onResponse = .onGetPeersResp ∧
    t.arg.infoHash = infohash ∧ t.addr = addr ∧ m.r.token = token

/-- `AnnouncePeer` sends the node an announce with the token and lists it. -/
def AnnouncesWith (env : Env) (s : Server) (infohash : Hash) (port : UInt16) (impliedPort : Bool)
    (node : Node) (token : GoString) : Prop :=
  (∃ nodes, (announcePeer env infohash port impliedPort).value s = some nodes ∧ node ∈ nodes) ∧
    ∃ tid, .sent node.addr (s.announceQuery tid infohash port impliedPort token) ∈
      (announcePeer env infohash port impliedPort).effects s

theorem searchObtained_spec {config : Config} {setup : Setup} {events : List Event}
    {infohash : Hash} {addr : Addr} {token : GoString}
    (obtained : SearchObtained (newServer config setup) events infohash addr token) :
    infohash.isZero = false ∧
      (run step (newServer config setup) events).isDisabled addr = false := by
  obtain ⟨before, env, kaddr, m, after, t, split, _, answers, search, rfl, rfl, _⟩ := obtained
  have sound := sound_run config setup before
  unfold answered at answers
  split at answers
  · obtain ⟨_, enabled, wellFormed⟩ := sound _ t answers
    refine ⟨wellFormed search, ?_⟩
    rw [split, run_append, run_isDisabled sound]
    exact enabled
  · cases answers

/-- **The announces that use the token of the search.** After every run in which a `get_peers` query
for the infohash was answered from an address with a token, `AnnouncePeer` sends the near node at
that address an announce with this token, and lists it, exactly when the last unexpired token that
came from the address in a response **of a node whose own id is the infohash** is this one. -/
theorem announcePeer_uses_token_iff (config : Config) (setup : Setup) (events : List Event)
    (infohash : Hash) (addr : Addr) (token : GoString) (nonempty : token ≠ [])
    (obtained : SearchObtained (newServer config setup) events infohash addr token) (env : Env)
    (delivers : ∀ msg, sendOutcome env addr msg = none) (port : UInt16) (impliedPort : Bool)
    (node : Node)
    (near : node ∈ (run step (newServer config setup) events).nearNodes infohash)
    (there : node.addr = addr) :
    AnnouncesWith env (run step (newServer config setup) events) infohash port impliedPort node
        token ↔
      TokenPeerManager.LastSet (peerHistory (newServer config setup) events) infohash addr.string
        token := by
  obtain ⟨nonzero, enabled⟩ := searchObtained_spec obtained
  rw [← TokenPeerManager.get_run_iff _ _ _ nonempty, ← run_tokenPeerManager, ← there]
  rw [← there] at enabled delivers
  generalize run step (newServer config setup) events = s at near enabled ⊢
  have value : (announcePeer env infohash port impliedPort).value s =
      some ((announceTo env infohash port impliedPort (s.nearNodes infohash)).value s) := by
    unfold announcePeer
    rw [if_neg (Bool.eq_false_iff.mp nonzero)]
    rfl
  have effects : (announcePeer env infohash port impliedPort).effects s =
      (announceTo env infohash port impliedPort (s.nearNodes infohash)).effects s := by
    unfold announcePeer
    rw [if_neg (Bool.eq_false_iff.mp nonzero), Act.get_bind_effects, Act.bind_effects,
      Act.pure_effects, List.append_nil]
  unfold AnnouncesWith
  rw [value, effects]
  constructor
  · rintro ⟨_, tid, sent⟩
    obtain ⟨node', _, sameAddr, tid', message⟩ := announceTo_sent env infohash port impliedPort sent
    have sameToken : token = s.tokenPeerManager.get infohash node'.addr :=
      congrArg (fun msg : Message => msg.a.token) message
    rw [sameToken, sameAddr]
  · rintro rfl
    obtain ⟨listed, tid, sent⟩ :=
      announceTo_reaches env infohash port impliedPort near nonempty enabled delivers
    exact ⟨⟨_, rfl, listed⟩, tid, sent⟩

/-- A search for the infohash `03..03` at the honest node, whose id is `responder`, and its answer
with a token. -/
def searchEvents (responder : Hash) : List Event :=
  [.addNode {} ⟨responder, honestAddr⟩, .getPeers {} (Hash.fill 3) none,
    .packet {} honestAddr (some (newResponseMsg (str "1") { id := responder, token := str "tok" }))]

theorem searchEvents_obtained {responder : Hash} (known : responder = Hash.fill 3 ∨
    responder = Hash.fill 4) :
    SearchObtained secretServer (searchEvents responder) (Hash.fill 3) honestAddr (str "tok") := by
  refine ⟨[.addNode {} ⟨responder, honestAddr⟩, .getPeers {} (Hash.fill 3) none], {}, honestAddr,
    newResponseMsg (str "1") { id := responder, token := str "tok" }, [],
    { newTransaction honestAddr queryMethodGetPeers
        { id := Hash.fill 1, infoHash := Hash.fill 3, wants := [wantNodes, wantNodes6] } none 0 with
      serial := 1, id := str "1", onResponse := .onGetPeersResp, depth := 8, visited := ⟨0, 1, 1⟩ },
    rfl, ?_, ?_, rfl, rfl, rfl, rfl⟩
  · rcases known with rfl | rfl <;> decide
  · rcases known with rfl | rfl <;> decide

/-- The theorem at a search whose answer comes from a node with the infohash as its id: the announce
uses the token. -/
theorem announcePeer_uses_token_at_infohash :
    AnnouncesWith {} (run step secretServer (searchEvents (Hash.fill 3))) (Hash.fill 3) 6881 false
      ⟨Hash.fill 3, honestAddr⟩ (str "tok") := by
  have history : peerHistory secretServer (searchEvents (Hash.fill 3)) =
      [.set (Hash.fill 3) honestAddr (str "tok") 0] := by decide
  refine (announcePeer_uses_token_iff {} { token := str "secret" } (searchEvents (Hash.fill 3))
    (Hash.fill 3) honestAddr (str "tok") (by decide) (searchEvents_obtained (Or.inl rfl)) {}
    (fun _ => rfl) 6881 false ⟨Hash.fill 3, honestAddr⟩ (by decide) rfl).mpr ?_
  show TokenPeerManager.LastSet (peerHistory secretServer (searchEvents (Hash.fill 3))) _ _ _
  rw [history]
  exact ⟨[], _, [], _, rfl, ⟨rfl, rfl, rfl⟩, rfl, fun _ member => nomatch member⟩

/-- **The token of a search is lost** when the answer comes from any other node: nothing is sent and
no node is listed. -/
theorem announcePeer_loses_token :
    SearchObtained secretServer (searchEvents (Hash.fill 4)) (Hash.fill 3) honestAddr (str "tok") ∧
      ⟨Hash.fill 4, honestAddr⟩ ∈
        (run step secretServer (searchEvents (Hash.fill 4))).nearNodes (Hash.fill 3) ∧
      (announcePeer {} (Hash.fill 3) 6881 false).value
        (run step secretServer (searchEvents (Hash.fill 4))) = some [] ∧
      (announcePeer {} (Hash.fill 3) 6881 false).effects
        (run step secretServer (searchEvents (Hash.fill 4))) = [] :=
  ⟨searchEvents_obtained (Or.inr rfl), by decide, by decide, by decide⟩

end Server

end GoBt.Dht
