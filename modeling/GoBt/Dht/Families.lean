/-
**The families of the routing tables.**

A server with an empty storage files every node in the table of its family, on whichever path the
node comes: as the sender of a query or of a response, as a node listed in a response, or from the
user. So the lists of nodes in its replies are of one family each, and survive the encoding.

* `Separated` — the nodes of `routingTable4` have IPv4 addresses, those of `routingTable6` IPv6
  addresses that are not IPv4 in disguise; `separated_stable`: every event keeps it.
* `handlePacket_query_sent_iff` — the reply to a query is the one of `handleQuery`, after the sender has
  been filed.
* `Selected` — the results of the replies to `find_node` and `get_peers`; `Selected.inFamilies`.
* **`families_and_replies`** — over every run: the tables are separated, every reply is encoded, and
  it is decoded with the same nodes in the same order if its strings have less than 2^31 bytes.
* `longValue_not_decoded` — with a value of 2^31 bytes from the user's peer manager the reply is
  encoded and not decoded.
-/

import GoBt.Dht.FindNode
import GoBt.Dht.Values
import GoBt.Krpc.Encoding

namespace GoBt.Dht

open GoBt.Lib GoBt.Metainfo GoBt.Krpc

namespace Server

/-! ### The tables -/

/-- The IP of the node has 4 or 16 bytes. -/
def Sized (node : Node) : Prop := node.addr.ip.length = 4 ∨ node.addr.ip.length = 16

def ProperIPv6 (node : Node) : Prop := node.addr.ip.to4 = none ∧ node.addr.ip.length = 16

def Separated (s : Server) : Prop :=
  s.routingTable4.AllNodes (fun n => n.HasForm Ip.to4) ∧ s.routingTable6.AllNodes ProperIPv6

theorem hasForm_of_not_isIPv6 {node : Node} (four : isIPv6 node.addr.ip = false) :
    node.HasForm Ip.to4 := by
  unfold isIPv6 at four
  rwa [Option.isNone_eq_false_iff] at four

theorem properIPv6_of_isIPv6 {node : Node} (sized : Sized node)
    (six : isIPv6 node.addr.ip = true) : ProperIPv6 node := by
  have none' : node.addr.ip.to4 = none := Option.isNone_iff_eq_none.mp six
  refine ⟨none', sized.resolve_left fun size => ?_⟩
  rw [Ip.to4, if_pos size] at none'
  cases none'

theorem ProperIPv6.hasForm {node : Node} (proper : ProperIPv6 node) : node.HasForm Ip.to16 := by
  have other : node.addr.ip.length ≠ 4 := by
    rw [proper.2]
    decide
  rw [Node.HasForm, Ip.to16, if_neg other, if_pos proper.2]
  rfl

/-- **Every event keeps the families apart.** -/
theorem separated_stable : Stable Sized Separated where
  nil := trivial
  table4 _ _ now separated _ four _ :=
    ⟨separated.1.addNode (hasForm_of_not_isIPv6 four) now, separated.2⟩
  table6 _ _ now separated sized six _ :=
    ⟨separated.1, separated.2.addNode (properIPv6_of_isIPv6 sized six) now⟩
  takeID _ separated := separated
  file _ _ separated _ _ _ := separated
  slices _ _ separated := separated
  tokens _ _ separated := separated
  peers _ _ separated := separated
  pop _ _ _ separated := separated
  sweep _ _ _ _ separated := separated
  check4 _ now separated := ⟨separated.1.checkAllBuckets now, separated.2⟩
  check6 _ now separated := ⟨separated.1, separated.2.checkAllBuckets now⟩

theorem tables_separated (config : Config) {setup : Setup} (empty4 : setup.stored4 = [])
    (empty6 : setup.stored6 = []) {events : List Event}
    (sized : ∀ event ∈ events, event.Allowed Sized) :
    Separated (run step (newServer config setup) events) := by
  refine separated_stable.run_newServer config setup ?_ events sized
  unfold Separated newServer
  rw [empty4, empty6]
  exact ⟨RoutingTable.empty_allNodes _ _, RoutingTable.empty_allNodes _ _⟩

/-! ### The reply to a query -/

theorem addNode_sent (env : Env) (node : Node) (s : Server) (addr : Addr) (msg : Message) :
    .sent addr msg ∉ (Server.addNode env node).effects s := by
  unfold Server.addNode
  rw [Act.get_bind_effects]
  simp only [Act.ite_effects, Act.bind_effects, Act.modify_effects, Act.pure_effects,
    List.append_nil, ite_self]
  exact List.not_mem_nil

theorem addNodeOf_sent (env : Env) (kaddr : Addr) (id : Hash) (ro : Bool) (s : Server) (addr : Addr)
    (msg : Message) : .sent addr msg ∉ (addNodeOf env kaddr id ro).effects s := by
  unfold addNodeOf
  rw [Act.ite_effects]
  split
  · exact List.not_mem_nil
  · rw [Act.bind_effects, List.mem_append]
    rintro (sent | sent)
    · exact addNode_sent _ _ _ _ _ sent
    · rw [Act.ite_effects] at sent
      split at sent
      · cases List.mem_singleton.mp sent
      · cases sent

/-- The server answers the query: nothing on the way to `handleQuery` turns it away. -/
structure Hears (env : Env) (kaddr : Addr) (m : Message) (s : Server) : Prop where
  enabled : s.isDisabled kaddr = false
  welcome : env.blacklisted kaddr = false
  tid : m.t ≠ []
  unhandled : env.handleIn kaddr m = false
  id : m.a.id.isZero = false
  unchanged : (addNodeOf env kaddr m.a.id m.ro).value s ≠ .nodeExistAndChanged
  active : ((addNodeOf env kaddr m.a.id m.ro).state s).conf.readOnly = false

/-- **What a query makes the server send** is the reply of `handleQuery`, after the sender has been
filed. -/
theorem handlePacket_query_sent_iff (env : Env) (kaddr : Addr) {m : Message} (isQuery : m.y = str "q")
    (s : Server) (addr : Addr) (msg : Message) :
    .sent addr msg ∈ (handlePacket env kaddr (some m)).effects s ↔
      Hears env kaddr m s ∧ .sent addr msg ∈
        (handleQuery env kaddr m).effects ((addNodeOf env kaddr m.a.id m.ro).state s) := by
  have filing := addNodeOf_sent env kaddr m.a.id m.ro s addr msg
  unfold handlePacket
  rw [Act.get_bind_effects]
  simp only [Act.ite_effects, Act.pure_effects, handleMessage, dispatch, if_pos isQuery]
  constructor
  · intro sent
    split_ifs at sent with disabled banned noTid handled noId
    iterate 5 cases sent
    rw [Act.bind_effects, List.mem_append] at sent
    replace sent := sent.resolve_left filing
    rw [Act.get_bind_effects, Act.ite_effects] at sent
    split_ifs at sent with answers
    · exact ⟨⟨by simpa using disabled, by simpa using banned, noTid, by simpa using handled,
        by simpa using noId, answers.1, answers.2⟩, sent⟩
    · cases sent
  · rintro ⟨hears, sent⟩
    rw [if_neg (by simp [hears.enabled]), if_neg (by simp [hears.welcome]), if_neg hears.tid,
      if_neg (by simp [hears.unhandled]), if_neg (by simp [hears.id]), Act.bind_effects,
      List.mem_append]
    refine .inr ?_
    rw [Act.get_bind_effects, Act.ite_effects, if_pos ⟨hears.unchanged, hears.active⟩]
    exact sent

/-! ### The selected nodes -/

/-- The result of the reply to a `find_node` or `get_peers` query. -/
def Selected (env : Env) (s : Server) (raddr : Addr) (m : Message) (r : ResponseResult) : Prop :=
  (m.q = queryMethodFindNode ∧ r = closestNodes s raddr m.a m.a.infoHash {}) ∨
    (m.q = queryMethodGetPeers ∧ r = getPeersResult env s raddr m.a)

theorem closestNodes_inFamilies {s : Server} (separated : s.Separated) (raddr : Addr) (a : QueryArg)
    (target : Hash) {r : ResponseResult} (families : r.InFamilies) :
    (closestNodes s raddr a target r).InFamilies := by
  have near4 : ∀ n ∈ s.routingTable4.closest target s.conf.k, n.HasForm Ip.to4 :=
    fun n member => separated.1.mem ((s.routingTable4.closest_isNearest _ _).mem member)
  have near6 : ∀ n ∈ s.routingTable6.closest target s.conf.k, n.HasForm Ip.to16 :=
    fun n member => (separated.2.mem ((s.routingTable6.closest_isNearest _ _).mem member)).hasForm
  unfold closestNodes
  cases a.containsWant wantNodes <;> cases a.containsWant wantNodes6 <;> cases isIPv6 raddr.ip
  all_goals
    constructor
    · first | exact near4 | exact families.nodes
    · first | exact near6 | exact families.nodes6

/-- **The nodes of a reply are of the families of their lists.** -/
theorem Selected.inFamilies {env : Env} {s : Server} (separated : s.Separated) {raddr : Addr}
    {m : Message} {r : ResponseResult} (selected : Selected env s raddr m r) : r.InFamilies := by
  rcases selected with ⟨_, rfl⟩ | ⟨_, rfl⟩
  · exact closestNodes_inFamilies separated _ _ _ ⟨by simp, by simp⟩
  · have values : ResponseResult.InFamilies { values := valuesFor env s raddr m.a } :=
      ⟨by simp, by simp⟩
    have chosen : ResponseResult.InFamilies
        (if (valuesFor env s raddr m.a).length = 0 then
          closestNodes s raddr m.a m.a.infoHash { values := valuesFor env s raddr m.a }
        else { values := valuesFor env s raddr m.a }) := by
      split
      · exact closestNodes_inFamilies separated _ _ _ values
      · exact values
    exact ⟨chosen.nodes, chosen.nodes6⟩

theorem handleQuery_sent_selected {env : Env} {raddr : Addr} {m : Message}
    (kind : m.q = queryMethodFindNode ∨ m.q = queryMethodGetPeers) {s : Server} {addr : Addr}
    {msg : Message} (sent : .sent addr msg ∈ (handleQuery env raddr m).effects s) :
    ∃ r, Selected env s raddr m r ∧ msg = s.replyMsg m.t r := by
  rcases kind with isFind | isGet
  · rw [handleQuery_findNode_sent_iff env raddr isFind] at sent
    exact ⟨_, .inl ⟨isFind, rfl⟩, sent.2⟩
  · rw [handleQuery_getPeers_sent_iff env raddr isGet] at sent
    exact ⟨_, .inr ⟨isGet, rfl⟩, sent.2⟩

/-! ### The replies -/

/-- The strings of a response have less than 2^31 bytes; a list of nodes is one string. -/
structure ShortStrings (msg : Message) : Prop where
  t : msg.t.length < 2 ^ 31
  nodes : msg.r.nodes.length * 26 < 2 ^ 31
  nodes6 : msg.r.nodes6.length * 38 < 2 ^ 31
  token : msg.r.token.length < 2 ^ 31
  values : ∀ value ∈ msg.r.values, value.length < 2 ^ 31

theorem replyMsg_built (s : Server) {tid : GoString} {r : ResponseResult} (families : r.InFamilies)
    (short : ShortStrings (s.replyMsg tid r)) : (s.replyMsg tid r).Built :=
  .response _ short.t ⟨families.nodes, families.nodes6, short.nodes, short.nodes6, short.token,
    short.values⟩

/-- **The families stay apart, and no reply loses a node.** After every run of a server with an empty
storage whose events bring IPs of 4 or 16 bytes, the nodes of `routingTable4` have IPv4 addresses and
those of `routingTable6` proper IPv6 addresses. Every reply to a `find_node` or `get_peers` query is
encoded, and, if its strings have less than 2^31 bytes, decoded with the same nodes in order, with
equal IPs. -/
theorem families_and_replies (lib : HashText) (config : Config) (setup : Setup)
    (empty4 : setup.stored4 = []) (empty6 : setup.stored6 = []) (events : List Event)
    (sized : ∀ event ∈ events, event.Allowed Sized) :
    let s := run step (newServer config setup) events
    (∀ n ∈ s.routingTable4.nodes, n.addr.ip.to4.isSome = true) ∧
      (∀ n ∈ s.routingTable6.nodes, n.addr.ip.to4 = none ∧ n.addr.ip.length = 16) ∧
      ∀ (env : Env) (kaddr : Addr) (m : Message), (kaddr.ip.length = 4 ∨ kaddr.ip.length = 16) →
        m.y = str "q" → (m.q = queryMethodFindNode ∨ m.q = queryMethodGetPeers) →
        ∀ addr msg, .sent addr msg ∈ (handlePacket env kaddr (some m)).effects s →
        ∀ nils, ∃ b, encodeMessage lib nils msg = .ok b ∧
          (ShortStrings msg → ∃ m', decodeMessage lib b = .ok m' ∧
            List.Forall₂ (fun n n' => Node.equal n n' = true) msg.r.nodes m'.r.nodes ∧
            List.Forall₂ (fun n n' => Node.equal n n' = true) msg.r.nodes6 m'.r.nodes6) := by
  intro s
  have separated : s.Separated := tables_separated config empty4 empty6 sized
  refine ⟨fun n => separated.1.mem, fun n => separated.2.mem, ?_⟩
  intro env kaddr m sizedSender isQuery kind addr msg sent nils
  have filed : Separated ((addNodeOf env kaddr m.a.id m.ro).state s) :=
    separated_stable.toElementary.addNodeOf env sizedSender m.ro s separated
  obtain ⟨_, sent⟩ := (handlePacket_query_sent_iff env kaddr isQuery s addr msg).mp sent
  obtain ⟨r, selected, rfl⟩ := handleQuery_sent_selected kind sent
  have families := selected.inFamilies filed
  obtain ⟨b, encoded⟩ := Message.encodes (m := replyMsg _ m.t r) lib nils
    ⟨families.nodes, families.nodes6⟩
  refine ⟨b, encoded, fun short => ?_⟩
  obtain ⟨b', m', encoded', decoded, same⟩ :=
    message_round_trip lib nils (replyMsg_built _ families short)
  obtain rfl := Except.ok.inj (encoded.symm.trans encoded')
  exact ⟨m', decoded, same.nodes, same.nodes6⟩

/-- The theorem at a server that knows two nodes: the reply that brings `nodeA` is decoded with a node
equal to it. -/
theorem families_and_replies_narrow :
    ∃ msg, .sent ⟨[10, 0, 0, 9], 9⟩ msg ∈
        (handlePacket {} ⟨[10, 0, 0, 9], 9⟩ (some (findMsg nodeA.id))).effects narrowServer ∧
      msg.r.nodes = [nodeA] ∧ ∃ b m', encodeMessage noHashText {} msg = .ok b ∧
        decodeMessage noHashText b = .ok m' ∧
        List.Forall₂ (fun n n' => Node.equal n n' = true) [nodeA] m'.r.nodes := by
  have sent : .sent ⟨[10, 0, 0, 9], 9⟩ (narrowServer.replyMsg (str "aa") { nodes := [nodeA] }) ∈
      (handlePacket {} ⟨[10, 0, 0, 9], 9⟩ (some (findMsg nodeA.id))).effects narrowServer := by
    decide +kernel
  obtain ⟨_, _, replies⟩ := families_and_replies noHashText { k := 1 } {} rfl rfl
    [.addNode {} nodeA, .addNode {} nodeB]
    (List.forall_mem_cons.mpr ⟨.inl rfl, List.forall_mem_singleton.mpr (.inl rfl)⟩)
  obtain ⟨b, encoded, decodes⟩ := replies {} ⟨[10, 0, 0, 9], 9⟩ (findMsg nodeA.id) (.inl rfl) rfl
    (.inl rfl) _ _ sent {}
  obtain ⟨m', decoded, nodes, _⟩ := decodes
    ⟨by decide, by decide, by decide, by decide, nofun⟩
  exact ⟨_, sent, rfl, b, m', encoded, decoded, nodes⟩

/-- The user's peer manager knows one peer, with this text. -/
def onePeer (text : GoString) : Env := { customPeers := fun _ _ _ => [text] }

def onePeerReply (text : GoString) : Message :=
  { newResponseMsg (str "aa") { id := Hash.fill 1, values := [text] } with ro := false }

theorem onePeer_sent (text : GoString) :
    .sent ⟨[10, 0, 0, 9], 9⟩ (onePeerReply text) ∈
      (handlePacket (onePeer text) ⟨[10, 0, 0, 9], 9⟩ (some (peersMsg []))).effects
        (newServer { customPeers := true } {}) := by
  have added : (addNodeOf (onePeer text) ⟨[10, 0, 0, 9], 9⟩ (peersMsg []).a.id
      (peersMsg []).ro).value (newServer { customPeers := true } {}) = .nodeAdded := rfl
  refine (handlePacket_query_sent_iff _ _ rfl _ _ _).mpr
    ⟨⟨rfl, rfl, by decide, rfl, by decide, ?_, rfl⟩, ?_⟩
  · rw [added]
    decide
  · exact (handleQuery_getPeers_sent_iff _ _ rfl _ _ _).mpr ⟨rfl, rfl⟩

/-- **A reply that nobody decodes**: the encoder writes a string of 2^31 bytes, the decoder does not
read it. -/
theorem longValue_not_decoded :
    let text : GoString := List.replicate (2 ^ 31) 0
    ∃ msg b, .sent ⟨[10, 0, 0, 9], 9⟩ msg ∈
        (handlePacket (onePeer text) ⟨[10, 0, 0, 9], 9⟩ (some (peersMsg []))).effects
          (newServer { customPeers := true } {}) ∧
      encodeMessage noHashText {} msg = .ok b ∧ ∀ m', decodeMessage noHashText b ≠ .ok m' := by
  intro text
  have long : 2 ^ 31 ≤ text.length := List.length_replicate.ge
  clear_value text
  obtain ⟨b, encoded, refused⟩ := Message.decodeMessage_of_long (m := onePeerReply text)
    noHashText {} ⟨nofun, nofun⟩ (List.mem_singleton.mpr rfl) long
  exact ⟨_, b, onePeer_sent text, encoded, refused⟩

end Server

end GoBt.Dht
