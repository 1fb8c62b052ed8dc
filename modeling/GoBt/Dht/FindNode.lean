/-
**Answers to `find_node`.**

The answer of `handleQuery` to a `find_node` query, and whether it brings the nodes closest to the
target of the query.

* `tables_filed` — in every reachable state both routing tables are filed, so that distances tell
  their nodes apart.
* `handleQuery_findNode_sent_iff` — the one reply to the query: the nodes closest to its *infohash*.
* **`findNode_answers_target_iff`** — over every run, the reply brings the nodes closest to the
  target exactly when the infohash picks the same nodes as the target.
-/

import GoBt.Dht.ServerRuns

namespace GoBt.Dht

open GoBt.Lib GoBt.Metainfo GoBt.Krpc

namespace Server

theorem filed_stable :
    Stable (fun _ => True) fun s => s.routingTable4.Filed ∧ s.routingTable6.Filed where
  nil := trivial
  table4 _ node now filed _ _ _ := ⟨filed.1.addNode node now, filed.2⟩
  table6 _ node now filed _ _ _ := ⟨filed.1, filed.2.addNode node now⟩
  takeID _ filed := filed
  file _ _ filed _ _ _ := filed
  slices _ _ filed := filed
  tokens _ _ filed := filed
  peers _ _ filed := filed
  pop _ _ _ filed := filed
  sweep _ _ _ _ filed := filed
  check4 _ now filed := ⟨filed.1.checkAllBuckets now, filed.2⟩
  check6 _ now filed := ⟨filed.1, filed.2.checkAllBuckets now⟩

theorem tables_filed (config : Config) (setup : Setup) (events : List Event) :
    (run step (newServer config setup) events).routingTable4.Filed ∧
      (run step (newServer config setup) events).routingTable6.Filed :=
  filed_stable.run_newServer config setup
    ⟨RoutingTable.newRoutingTable_filed _ _ _ _, RoutingTable.newRoutingTable_filed _ _ _ _⟩ events
    fun event _ => event.allowed_any

/-! ### The families of an answer -/

/-- The querier wants IPv4 nodes, or wants no family and asks from an IPv4 address. -/
def Answers4 (raddr : Addr) (a : QueryArg) : Prop :=
  a.containsWant wantNodes = true ∨
    (a.containsWant wantNodes6 = false ∧ isIPv6 raddr.ip = false)

/-- The querier wants IPv6 nodes, or wants no family and asks from an IPv6 address. -/
def Answers6 (raddr : Addr) (a : QueryArg) : Prop :=
  a.containsWant wantNodes6 = true ∨
    (a.containsWant wantNodes = false ∧ isIPv6 raddr.ip = true)

/-- In each family it answers for, the result holds the `k` nodes of the table closest to the
target. -/
def AnswersTarget (s : Server) (raddr : Addr) (a : QueryArg) (r : ResponseResult) : Prop :=
  (Answers4 raddr a →
      IsNearest (nodeDist a.target) s.conf.k.toNat s.routingTable4.nodes r.nodes) ∧
    (Answers6 raddr a →
      IsNearest (nodeDist a.target) s.conf.k.toNat s.routingTable6.nodes r.nodes6)

/-- In each family of the answer, every node of the table takes as many of the `k` places nearest to
the infohash as of those nearest to the target. -/
def InfoHashPicksAlike (s : Server) (raddr : Addr) (a : QueryArg) : Prop :=
  (Answers4 raddr a → ∀ x ∈ s.routingTable4.nodes,
      places (nodeDist a.target) s.conf.k.toNat s.routingTable4.nodes x =
        places (nodeDist a.infoHash) s.conf.k.toNat s.routingTable4.nodes x) ∧
    (Answers6 raddr a → ∀ x ∈ s.routingTable6.nodes,
      places (nodeDist a.target) s.conf.k.toNat s.routingTable6.nodes x =
        places (nodeDist a.infoHash) s.conf.k.toNat s.routingTable6.nodes x)

theorem closestNodes_eq (s : Server) (raddr : Addr) (a : QueryArg) (target : Hash) :
    (Answers4 raddr a →
        (closestNodes s raddr a target {}).nodes = s.routingTable4.closest target s.conf.k) ∧
      (Answers6 raddr a →
        (closestNodes s raddr a target {}).nodes6 = s.routingTable6.closest target s.conf.k) := by
  unfold Answers4 Answers6 closestNodes
  cases a.containsWant wantNodes <;> cases a.containsWant wantNodes6 <;>
    cases isIPv6 raddr.ip <;> simp

/-! ### The answer -/

theorem handleQuery_findNode_sent_iff (env : Env) (raddr : Addr) {m : Message}
    (isFind : m.q = queryMethodFindNode) (s : Server) (addr : Addr) (msg : Message) :
    .sent addr msg ∈ (handleQuery env raddr m).effects s ↔
      addr = raddr ∧ msg = s.replyMsg m.t (closestNodes s raddr m.a m.a.infoHash {}) := by
  have notPing : ¬ m.q = queryMethodPing := by rw [isFind]; decide
  unfold handleQuery
  rw [Act.get_bind_effects, if_neg notPing, if_pos isFind]
  exact reply_sent_iff env raddr m.t _ s addr msg

/-- **The answers for the target.** After every run, the one reply to a `find_node` query brings the
nodes closest to the target, in each family it answers for, exactly when the infohash of the query
picks the same nodes. -/
theorem findNode_answers_target_iff (config : Config) (setup : Setup) (events : List Event)
    (env : Env) (raddr : Addr) (m : Message) (isFind : m.q = queryMethodFindNode) :
    let s := run step (newServer config setup) events
    ∃ r, (∀ addr msg, .sent addr msg ∈ (handleQuery env raddr m).effects s ↔
        addr = raddr ∧ msg = s.replyMsg m.t r) ∧
      (AnswersTarget s raddr m.a r ↔ InfoHashPicksAlike s raddr m.a) := by
  intro s
  obtain ⟨filed4, filed6⟩ : s.routingTable4.Filed ∧ s.routingTable6.Filed :=
    tables_filed config setup events
  obtain ⟨nodes, nodes6⟩ := closestNodes_eq s raddr m.a m.a.infoHash
  refine ⟨_, handleQuery_findNode_sent_iff env raddr isFind s, ?_⟩
  unfold AnswersTarget InfoHashPicksAlike
  refine and_congr (forall_congr' fun answers => ?_) (forall_congr' fun answers => ?_)
  · rw [nodes answers]
    exact isNearest_iff_places (s.routingTable4.closest_isNearest _ _) (filed4.noTies _)
      (filed4.noTies _)
  · rw [nodes6 answers]
    exact isNearest_iff_places (s.routingTable6.closest_isNearest _ _) (filed6.noTies _)
      (filed6.noTies _)

def nodeA : Node := ⟨Hash.fill 0x80, ⟨[10, 0, 0, 1], 1⟩⟩

def nodeB : Node := ⟨Hash.fill 0x40, ⟨[10, 0, 0, 2], 2⟩⟩

/-- A server with `K = 1` that knows two nodes. -/
def narrowServer : Server :=
  run step (newServer { k := 1 } {}) [.addNode {} nodeA, .addNode {} nodeB]

/-- A query for the node `nodeA` with some infohash. -/
def findMsg (infoHash : Hash) : Message :=
  newQueryMsg (str "aa") queryMethodFindNode
    { id := Hash.fill 2, target := nodeA.id, infoHash := infoHash }

/-- The theorem at a query whose infohash is its target: the reply brings the node closest to it. -/
theorem findNode_same_infoHash :
    ∃ r, .sent ⟨[10, 0, 0, 9], 9⟩ (narrowServer.replyMsg (str "aa") r) ∈
      (handleQuery {} ⟨[10, 0, 0, 9], 9⟩ (findMsg nodeA.id)).effects narrowServer ∧
    AnswersTarget narrowServer ⟨[10, 0, 0, 9], 9⟩ (findMsg nodeA.id).a r := by
  obtain ⟨r, sent, answers⟩ := findNode_answers_target_iff { k := 1 } {}
    [.addNode {} nodeA, .addNode {} nodeB] {} ⟨[10, 0, 0, 9], 9⟩ (findMsg nodeA.id) rfl
  exact ⟨r, (sent _ _).mpr ⟨rfl, rfl⟩,
    answers.mpr ⟨fun _ _ _ => rfl, fun _ _ _ => rfl⟩⟩

/-- **The answer depends on the infohash and misses the target.** Two queries for `nodeA` that
differ in the infohash get different nodes, and without an infohash the node is not the one closest
to the target. -/
theorem findNode_misses_target :
    (handleQuery {} ⟨[10, 0, 0, 9], 9⟩ (findMsg nodeA.id)).effects narrowServer =
        [.sent ⟨[10, 0, 0, 9], 9⟩ (narrowServer.replyMsg (str "aa") { nodes := [nodeA] })] ∧
      (handleQuery {} ⟨[10, 0, 0, 9], 9⟩ (findMsg zeroHash)).effects narrowServer =
        [.sent ⟨[10, 0, 0, 9], 9⟩ (narrowServer.replyMsg (str "aa") { nodes := [nodeB] })] ∧
      ¬ AnswersTarget narrowServer ⟨[10, 0, 0, 9], 9⟩ (findMsg zeroHash).a
        { nodes := [nodeB] } := by
  refine ⟨by decide, by decide, fun answers => ?_⟩
  obtain ⟨left, perm, far⟩ := (answers.1 (Or.inr ⟨by decide, by decide⟩)).rest
  have inside : nodeA ∈ [nodeB] ++ left := perm.mem_iff.mpr (by decide)
  rcases List.mem_append.mp inside with same | outside
  · exact absurd (List.mem_singleton.mp same) (by decide)
  · exact absurd (far nodeA outside nodeB List.mem_cons_self) (by decide)

end Server

end GoBt.Dht
