/-
**The nodes closest to a target.**

`push` keeps a sorted list of at most `maxnum` nodes by binary search and a shifting `copy`, as the
source does; `closest` pushes every node of the table.

* `push_eq` — on a sorted list, `push` is the insertion of the library cut to `maxnum`.
* `closest_eq` — so `closest` is `nearestOf`, and **`closest_isNearest`**: it chooses the
  `min maxnum len` nodes of the table nearest to the target, sorted by distance.
* **`closest_nearest_sorted`** — the same spelled out, and that the order in which the buckets are
  visited does not matter if no id stands in the table twice.
-/

import GoBt.Dht.RoutingTable
import GoBt.Lib.Nearest

namespace GoBt.Dht

open GoBt.Lib GoBt.Metainfo GoBt.Krpc

def nodeDist (target : Hash) (n : Node) : Nat := dist target n.id

/-- `ns.push(node)` for the nodes collected so far. -/
def push (target : Hash) (maxnum : Int) (nodes : List Node) (node : Node) : List Node :=
  let ix := search nodes.length fun i =>
    nodes[i]?.any fun n => 0 < distcmp target n.id node.id
  let nodes := if nodes.length < maxnum then nodes ++ [node] else nodes
  if ix ≠ nodes.length then (copyTo nodes (ix + 1) ix).set ix node else nodes

def RoutingTable.closest (rt : RoutingTable) (target : Hash) (maxnum : Int) : List Node :=
  rt.nodes.foldl (push target maxnum) []

section Push

variable {target : Hash} {nodes : List Node}

theorem search_splits (sorted : SortedBy (nodeDist target) nodes) (node : Node) :
    let ix := search nodes.length fun i => nodes[i]?.any fun n => 0 < distcmp target n.id node.id
    ix ≤ nodes.length ∧ (∀ n ∈ nodes.take ix, nodeDist target n ≤ nodeDist target node) ∧
      ∀ n ∈ nodes.drop ix, nodeDist target node < nodeDist target n := by
  intro ix
  have test : ∀ i (inside : i < nodes.length),
      (nodes[i]?.any fun n => decide (0 < distcmp target n.id node.id)) = true ↔
        nodeDist target node < nodeDist target nodes[i] := by
    intro i inside
    rw [List.getElem?_eq_getElem inside, Option.any_some, decide_eq_true_eq]
    exact distcmp_pos_iff target nodes[i].id node.id
  have mono : ∀ i j, i ≤ j → j < nodes.length →
      (nodes[i]?.any fun n => decide (0 < distcmp target n.id node.id)) = true →
        (nodes[j]?.any fun n => decide (0 < distcmp target n.id node.id)) = true := by
    intro i j ordered inside holds
    rw [test j inside]
    have far := (test i (by omega)).mp holds
    rcases Nat.eq_or_lt_of_le ordered with rfl | before
    · exact far
    · exact far.trans_le (List.pairwise_iff_getElem.mp sorted i j (by omega) inside before)
  refine ⟨search_le mono, fun n member => ?_, fun n member => ?_⟩
  · obtain ⟨i, inside, rfl⟩ := List.mem_iff_getElem.mp member
    have short : i < ix ∧ i < nodes.length := by rwa [List.length_take, lt_min_iff] at inside
    rw [List.getElem_take]
    by_contra far
    have holds := (test i short.2).mpr (not_le.mp far)
    rw [search_below mono short.1] at holds
    cases holds
  · obtain ⟨i, inside, rfl⟩ := List.mem_iff_getElem.mp member
    have short : ix + i < nodes.length := by rw [List.length_drop] at inside; omega
    rw [List.getElem_drop]
    exact (test (ix + i) short).mp (search_above mono (by omega) short)

/-- **`push` is the insertion of the library, cut to `maxnum`.** -/
theorem push_eq {maxnum : Int} (sorted : SortedBy (nodeDist target) nodes)
    (bounded : nodes.length ≤ maxnum.toNat) (node : Node) :
    push target maxnum nodes node =
      (insertAfter (nodeDist target) node nodes).take maxnum.toNat := by
  obtain ⟨short, near, far⟩ := search_splits sorted node
  unfold push
  generalize search nodes.length (fun i => nodes[i]?.any fun n =>
    decide (0 < distcmp target n.id node.id)) = ix at short near far ⊢
  have inserted : insertAfter (nodeDist target) node nodes =
      nodes.take ix ++ node :: nodes.drop ix := by
    rw [← insertAfter_split near far, List.take_append_drop]
  have size : (nodes.take ix ++ node :: nodes.drop ix).length = nodes.length + 1 := by
    rw [← inserted, length_insertAfter]
  rw [inserted]
  by_cases room : (nodes.length : Int) < maxnum
  · have inside : ix < (nodes ++ [node]).length := by
      rw [List.length_append, List.length_singleton]
      omega
    have whole : (nodes.take ix ++ node :: nodes.drop ix).take maxnum.toNat =
        nodes.take ix ++ node :: nodes.drop ix := List.take_of_length_le (by rw [size]; omega)
    rw [whole, if_pos room, if_pos inside.ne, set_copyTo _ _ inside,
      List.take_append_of_le_length short, List.drop_append_of_le_length short,
      List.dropLast_concat]
  · have full : maxnum.toNat = nodes.length := by omega
    rw [if_neg room, full]
    by_cases atEnd : ix = nodes.length
    · subst atEnd
      rw [if_neg (by simp), List.take_length, List.take_append_of_le_length le_rfl,
        List.take_length]
    · have inside : ix < nodes.length := by omega
      have some : nodes.drop ix ≠ [] := List.ne_nil_of_length_pos (by rw [List.length_drop]; omega)
      rw [if_pos atEnd, set_copyTo _ _ inside]
      have cut : nodes.length = (nodes.take ix ++ node :: nodes.drop ix).length - 1 := by omega
      rw [cut, ← List.dropLast_eq_take, List.dropLast_append_of_ne_nil (List.cons_ne_nil _ _),
        List.dropLast_cons_of_ne_nil some]

theorem foldl_push_eq (maxnum : Int) (table : List Node) :
    table.foldl (push target maxnum) [] = nearestOf (nodeDist target) maxnum.toNat table := by
  induction table using List.reverseRecOn with
  | nil => rfl
  | append_singleton table node ih =>
    obtain ⟨near, sorted⟩ := nearestOf_spec (d := nodeDist target) maxnum.toNat table
    rw [List.foldl_append, List.foldl_cons, List.foldl_nil, ih, push_eq sorted near.length_le,
      nearestOf_concat]

end Push

theorem RoutingTable.closest_eq (rt : RoutingTable) (target : Hash) (maxnum : Int) :
    rt.closest target maxnum = nearestOf (nodeDist target) maxnum.toNat rt.nodes :=
  foldl_push_eq maxnum rt.nodes

/-- **`closest` chooses the nodes nearest to the target.** -/
theorem RoutingTable.closest_isNearest (rt : RoutingTable) (target : Hash) (maxnum : Int) :
    IsNearest (nodeDist target) maxnum.toNat rt.nodes (rt.closest target maxnum) := by
  rw [closest_eq]
  exact (nearestOf_spec maxnum.toNat rt.nodes).1

/-- The nodes of the table, with the buckets visited in some order. -/
def RoutingTable.nodesIn (rt : RoutingTable) (order : List (Fin bktlen)) : List Node :=
  order.flatMap fun i => (rt.bkts i).nodes.map WrappedNode.node

theorem RoutingTable.nodesIn_perm (rt : RoutingTable) {order : List (Fin bktlen)}
    (whole : order.Perm (List.finRange bktlen)) : rt.nodes.Perm (rt.nodesIn order) := by
  rw [nodes, entries, List.map_flatMap]
  exact (whole.flatMap_right _).symm

theorem RoutingTable.noTies_of_nodup {rt : RoutingTable} (distinct : rt.ids.Nodup) (target : Hash) :
    NoTies (nodeDist target) rt.nodes := by
  have ids : (rt.nodes.map Node.id).Nodup := by
    rw [nodes, List.map_map]
    exact distinct
  exact fun x xMember y yMember same =>
    List.inj_on_of_nodup_map ids xMember yMember (dist_injective target same)

/-- **`Closest` returns the nearest nodes**: as many as are asked for and there are, a part of the
table, sorted by distance, and no node left out is nearer than one returned. If all ids are distinct,
the order in which the buckets are visited does not matter. -/
theorem RoutingTable.closest_nearest_sorted (rt : RoutingTable) (target : Hash) (maxnum : Int) :
    ((rt.closest target maxnum).length : Int) = min (max maxnum 0) rt.len ∧
      (∃ left, (rt.closest target maxnum ++ left).Perm rt.nodes ∧
        ∀ x ∈ left, ∀ y ∈ rt.closest target maxnum, dist target y.id ≤ dist target x.id) ∧
      (rt.closest target maxnum).Pairwise (fun x y => dist target x.id ≤ dist target y.id) ∧
      (rt.ids.Nodup → ∀ order : List (Fin bktlen), order.Perm (List.finRange bktlen) →
        (rt.nodesIn order).foldl (push target maxnum) [] = rt.closest target maxnum) := by
  obtain ⟨near, sorted⟩ := nearestOf_spec (d := nodeDist target) maxnum.toNat rt.nodes
  rw [← closest_eq] at near sorted
  refine ⟨?_, near.rest, sorted, fun distinct order whole => ?_⟩
  · have size := near.size
    rw [nodes, List.length_map] at size
    rw [len]
    omega
  · rw [foldl_push_eq, closest_eq]
    exact (nearestOf_perm (rt.nodesIn_perm whole) (noTies_of_nodup distinct target) _).symm

theorem RoutingTable.Filed.noTies {rt : RoutingTable} (filed : rt.Filed) (target : Hash) :
    NoTies (nodeDist target) rt.nodes :=
  fun _ xMember _ yMember same =>
    filed.node_eq_of_id_eq xMember yMember (dist_injective target same)

end GoBt.Dht
