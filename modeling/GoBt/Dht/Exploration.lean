/-
**How far `FindNode` explores.**

`FindNode` passes `SearchDepth` on to `findNode`, which does not put it into the transaction; the
depth of every `find_node` query is zero. So the handler of its response stops before it looks at
the nodes that the response lists.

* `findNodeQuery` — the transaction of the query that `FindNode` sends.
* `newNodes` — the nodes of a response that were not visited and that `AddNode` would add.
* `Explored` — what `SearchDepth` promises for a response: the new nodes are in the routing table,
  and unless the target is listed each of them is asked, with one level less to go.
* `collect_first` — the first node that the loops of the handler would add is not in the table.
* **`findNode_explores_iff`** — over every run, a response to the query of `FindNode` is explored
  exactly when it brings no new node.
-/

import GoBt.Dht.FindNode
import GoBt.Dht.Search

namespace GoBt.Dht

open GoBt.Lib GoBt.Metainfo GoBt.Krpc

namespace Server

/-! ### What adding a node does to the tables -/

def tableOf (s : Server) (node : Node) : RoutingTable :=
  if isIPv6 node.addr.ip then s.routingTable6 else s.routingTable4

def TablesFiled (s : Server) : Prop := s.routingTable4.Filed ∧ s.routingTable6.Filed

theorem addNode_added {env : Env} {node : Node} {s : Server} (filed : s.TablesFiled)
    (added : (addNode env node).value s = .nodeAdded) : node ∉ (s.tableOf node).nodes := by
  unfold addNode at added
  rw [Act.get_bind_value] at added
  unfold tableOf
  simp only [Act.ite_value, Act.bind_value, Act.pure_value] at added
  split at added
  · rw [if_pos ‹_›]
    split at added
    · exact filed.2.not_mem_of_added added
    · cases added
  · rw [if_neg ‹_›]
    split at added
    · exact filed.1.not_mem_of_added added
    · cases added

theorem addNode_refused {env : Env} {node : Node} {s : Server}
    (refused : (addNode env node).value s ≠ .nodeAdded) (other : Node) :
    (((addNode env node).state s).tableOf other).nodes = (s.tableOf other).nodes := by
  have tables : ((addNode env node).state s).routingTable4.nodes = s.routingTable4.nodes ∧
      ((addNode env node).state s).routingTable6.nodes = s.routingTable6.nodes := by
    unfold addNode at refused ⊢
    rw [Act.get_bind_value] at refused
    rw [Act.get_bind_state]
    simp only [Act.ite_value, Act.bind_value, Act.pure_value, Act.ite_state, Act.bind_state,
      Act.modify_state, Act.pure_state] at refused ⊢
    split at refused
    · rw [if_pos ‹_›]
      split at refused
      · rw [if_pos ‹_›]
        exact ⟨rfl, RoutingTable.nodes_of_not_added refused⟩
      · rw [if_neg ‹_›]
        exact ⟨rfl, rfl⟩
    · rw [if_neg ‹_›]
      split at refused
      · rw [if_pos ‹_›]
        exact ⟨RoutingTable.nodes_of_not_added refused, rfl⟩
      · rw [if_neg ‹_›]
        exact ⟨rfl, rfl⟩
  unfold tableOf
  split
  · exact tables.2
  · exact tables.1

theorem addNode2_added {env : Env} {node : Node} {ro : Bool} {s : Server} (filed : s.TablesFiled)
    (added : (addNode2 env node ro).value s = .nodeAdded) : node ∉ (s.tableOf node).nodes := by
  unfold addNode2 at added
  split at added
  · cases added
  · exact addNode_added filed added

theorem addNode2_refused {env : Env} {node : Node} {ro : Bool} {s : Server}
    (refused : (addNode2 env node ro).value s ≠ .nodeAdded) (other : Node) :
    (((addNode2 env node ro).state s).tableOf other).nodes = (s.tableOf other).nodes := by
  unfold addNode2 at refused ⊢
  split at refused
  · rw [if_pos ‹_›]
    rfl
  · rw [if_neg ‹_›]
    exact addNode_refused refused other

/-- **The first node that the loops add is not in the table** when they start: until then they
change no node of the tables. -/
theorem collect_first (env : Env) (wanted : Hash) (t : Transaction) (m : Message) {s : Server}
    (filed : s.TablesFiled) :
    ((collect env wanted t m).value s).nodes = [] ∨
      ∃ node ∈ ((collect env wanted t m).value s).nodes, node ∉ (s.tableOf node).nodes := by
  have rule : (((collect env wanted t m).value s).nodes = [] ∧
      ((collect env wanted t m).state s).TablesFiled ∧
      ∀ other, (((collect env wanted t m).state s).tableOf other).nodes =
        (s.tableOf other).nodes) ∨
      ∃ node ∈ ((collect env wanted t m).value s).nodes, node ∉ (s.tableOf node).nodes := by
    refine collectNodes_rule (R := fun c s' => (c.nodes = [] ∧ s'.TablesFiled ∧
      ∀ other, (s'.tableOf other).nodes = (s.tableOf other).nodes) ∨
      ∃ node ∈ c.nodes, node ∉ (s.tableOf node).nodes) ?_ (listed m)
      (Or.inl ⟨rfl, filed, fun _ => rfl⟩)
    intro node acc s' acc' s'' so visits
    cases visits with
    | known member => exact so
    | added new added =>
      right
      rcases so with ⟨none, filed', same⟩ | ⟨first, member, outside⟩
      · refine ⟨node, List.mem_append_right _ (List.mem_singleton_self node), ?_⟩
        rw [← same]
        exact addNode2_added filed' added
      · exact ⟨first, List.mem_append_left _ member, outside⟩
    | refused new refused =>
      rcases so with ⟨none, filed', same⟩ | first
      · refine Or.inl ⟨none, ?_, fun other => (addNode2_refused refused other).trans (same other)⟩
        exact filed_stable.toElementary.addNode2 env trivial m.ro s' filed'
      · exact Or.inr first
  exact rule.imp_left fun unchanged => unchanged.1

/-! ### The promise and the query -/

/-- The transaction of the query that `FindNode(addr, target)` sends. -/
def findNodeQuery (s : Server) (env : Env) (addr : Addr) (target : Hash) : Transaction :=
  (s.identify (findNodeTransaction s.want target addr SliceRef.nil env.now)).1

/-- The nodes of a response that were not visited before and that `AddNode` would add, one after the
other. -/
def newNodes (env : Env) (s : Server) (kaddr : Addr) (m : Message) (t : Transaction) : List Node :=
  ((collect env t.arg.target t m).value (received env s kaddr m)).nodes

/-- What `SearchDepth` promises for a response to a `find_node` query with so many levels left. The
new nodes are in the routing table; unless the response lists the target, each of them is sent a
query for the target that has one level less to go, and the responses to it are explored too. -/
def Explored : Nat → Env → Server → Addr → Message → Transaction → Prop
  | 0, _, _, _, _, _ => True
  | 1, _, _, _, _, _ => True
  | depth + 2, env, s, kaddr, m, t =>
      (∀ node ∈ newNodes env s kaddr m t,
        node ∈ ((s.step (.packet env kaddr (some m))).tableOf node).nodes) ∧
      ((∀ node ∈ listed m, node.id ≠ t.arg.target) → ∀ node ∈ newNodes env s kaddr m t,
        ∃ t' : Transaction, t'.addr = node.addr ∧ t'.query = queryMethodFindNode ∧
          t'.arg.target = t.arg.target ∧ t'.depth = depth + 1 ∧
          .sent node.addr (queryMsg t' s.conf.readOnly) ∈
            (perform (.packet env kaddr (some m))).effects s ∧
          ∀ later env' kaddr' m',
            let s' := run step (s.step (.packet env kaddr (some m))) later
            completed env' s' kaddr' (some m') = some (m', t') →
              Explored (depth + 1) env' s' kaddr' m' t')

/-! ### What the handler does -/

theorem onFindNodeResp_shallow (env : Env) {t : Transaction} (shallow : t.depth = 0) (m : Message)
    (s : Server) : (onFindNodeResp env t m).state s = s := by
  have ends : t.depth - 1 < 1 := by rw [shallow]; decide
  unfold onFindNodeResp
  rw [Act.bind_state, done_state, searchOn, if_pos ends, Act.pure_state]

/-- **`FindNode` explores nothing.** After every run, a response to the query that `FindNode` sent is
explored, with `SearchDepth` levels to go, exactly when it brings no new node. -/
theorem findNode_explores_iff (config : Config) (setup : Setup) (before after : List Event)
    (call env : Env) (addr kaddr : Addr) (target : Hash) (m : Message)
    (deep : 2 ≤ (newServer config setup).conf.searchDepth) :
    let caller := run step (newServer config setup) before
    let t := caller.findNodeQuery call addr target
    let s := run step (newServer config setup) (before ++ .findNode call addr target :: after)
    completed env s kaddr (some m) = some (m, t) →
      (Explored (newServer config setup).conf.searchDepth.toNat env s kaddr m t ↔
        newNodes env s kaddr m t = []) := by
  intro caller t s complete
  obtain ⟨depth, levels⟩ : ∃ depth, (newServer config setup).conf.searchDepth.toNat = depth + 2 :=
    ⟨_, (Nat.sub_add_cancel (by omega)).symm⟩
  rw [levels]
  constructor
  · intro explored
    have filed : (received env s kaddr m).TablesFiled :=
      filed_stable.toElementary.addNodeOf env trivial m.ro s (tables_filed config setup _)
    have unchanged : s.step (.packet env kaddr (some m)) = received env s kaddr m :=
      (handlePacket_completed_state complete).trans (onFindNodeResp_shallow env rfl m _)
    rcases collect_first env t.arg.target t m filed with none | ⟨node, member, outside⟩
    · exact none
    · have inside := explored.1 node member
      rw [unchanged] at inside
      exact absurd inside outside
  · intro none
    refine ⟨fun node member => ?_, fun _ node member => ?_⟩
    · rw [none] at member
      cases member
    · rw [none] at member
      cases member

theorem findNode_explores_known :
    let start := newServer {} {}
    let s := run step start [.findNode {} askedNode.addr (Hash.fill 3)]
    let m := newResponseMsg (str "1") { id := askedNode.id, nodes := [askedNode] }
    let t := start.findNodeQuery {} askedNode.addr (Hash.fill 3)
    completed {} s askedNode.addr (some m) = some (m, t) ∧
      Explored start.conf.searchDepth.toNat {} s askedNode.addr m t := by
  intro start s m t
  have complete : completed {} s askedNode.addr (some m) = some (m, t) := by decide +kernel
  have known : newNodes {} s askedNode.addr m t = [] := by decide +kernel
  exact ⟨complete, (findNode_explores_iff {} {} [] [] {} {} askedNode.addr askedNode.addr
    (Hash.fill 3) m (by decide) complete).mpr known⟩

/-- **A listed node is neither filed nor asked.** `FindNode` asks `askedNode`, with `SearchDepth` at
its default; the response lists a node that the server does not know and that `AddNode` would add.
The server sends nothing, and does not know the node afterwards. -/
theorem findNode_ignores_listed :
    let start := newServer {} {}
    let s := run step start [.findNode {} askedNode.addr (Hash.fill 3)]
    let t := start.findNodeQuery {} askedNode.addr (Hash.fill 3)
    let after := s.step (.packet {} askedNode.addr (some listingMsg))
    completed {} s askedNode.addr (some listingMsg) = some (listingMsg, t) ∧
      newNodes {} s askedNode.addr listingMsg t = [listedNode] ∧
      listedNode ∉ (after.tableOf listedNode).nodes ∧
      (perform (.packet {} askedNode.addr (some listingMsg))).effects s = [] ∧
      ¬ Explored start.conf.searchDepth.toNat {} s askedNode.addr listingMsg t := by
  intro start s t after
  have new : newNodes {} s askedNode.addr listingMsg t = [listedNode] := by decide +kernel
  have unknown : listedNode ∉ (after.tableOf listedNode).nodes := by decide +kernel
  refine ⟨by decide +kernel, new, unknown, by decide +kernel, fun explored => unknown ?_⟩
  exact explored.1 listedNode (new ▸ List.mem_singleton_self listedNode)

end Server

end GoBt.Dht
