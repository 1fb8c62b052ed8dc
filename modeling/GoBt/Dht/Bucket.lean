/-
**A bucket of the routing table.**

`Bucket.addNode` and `Bucket.checkAllNodes` as the source computes them. A bucket holds pointers to
its nodes; the eviction path of `addNode` can leave one pointer in the bucket twice, so every entry
carries the pointer it is (`ptr`), and an update through a pointer changes every entry that is that
pointer.

* `Bucket.addNode_cases` — everything `addNode` can do: refresh a known node, refuse a known id with
  another address, append to a bucket with room, evict from a full one, or refuse.
* `Bucket.checkAllNodes_sublist` — a sweep only removes entries.
* `Bucket.evict_nodes` — **an eviction removes the bad node, doubles the last one and appends the
  new one**, so the bucket grows.
* **`Bucket.checkAllNodes_exact_iff`** — a sweep removes the bad nodes and no others exactly when
  there is at most one: the indexes of the others are stale after the first deletion.
-/

import GoBt.Dht.Distance
import GoBt.Krpc.Message
import GoBt.Lib.Slice

namespace GoBt.Dht

open GoBt.Lib GoBt.Metainfo GoBt.Krpc

def badTimeout : Duration := minute * 20

def dubiousTimeout : Duration := minute * 15

/-! ### Nodes -/

/-- A node with the time of its last change, behind a pointer. -/
structure WrappedNode where
  ptr : Nat
  node : Node
  lastChanged : Time
  deriving DecidableEq

def WrappedNode.isBad (n : WrappedNode) (now : Time) : Bool := now.sub n.lastChanged > badTimeout

inductive NodeStatus
  | good
  | dubious
  | bad
  deriving DecidableEq

def WrappedNode.status (n : WrappedNode) (now : Time) : NodeStatus :=
  let duration := now.sub n.lastChanged
  if duration > badTimeout then .bad
  else if duration > dubiousTimeout then .dubious
  else .good

/-! ### Adding a node -/

structure Bucket where
  nodes : List WrappedNode
  lastChanged : Time
  deriving DecidableEq

/-- What adding a node reports. -/
inductive AddStatus
  | nodeAdded
  | nodeNotAdded
  | nodeExistAndUpdated
  | nodeExistAndChanged
  deriving DecidableEq

namespace Bucket

def empty : Bucket := ⟨[], 0⟩

def ids (b : Bucket) : List Hash := b.nodes.map fun w => w.node.id

/-- `orig.UpdateLastChangedTime(now)`, which also updates the bucket. -/
def touch (b : Bucket) (ptr : Nat) (now : Time) : Bucket where
  nodes := b.nodes.map fun w => if w.ptr = ptr then { w with lastChanged := now } else w
  lastChanged := now

/-- The branch of `AddNode` for a bucket that is not full. -/
def append (b : Bucket) (ptr : Nat) (n : Node) (now : Time) : Bucket :=
  ⟨b.nodes ++ [⟨ptr, n, now⟩], now⟩

/-- The branch of `AddNode` for a bad node at index `i`: the nodes behind it move down by `copy`,
then the new node is appended. -/
def evict (b : Bucket) (i ptr : Nat) (n : Node) (now : Time) : Bucket :=
  ⟨copyTo b.nodes i (i + 1) ++ [⟨ptr, n, now⟩], now⟩

/-- `b.AddNode(n, now)`; `ptr` is the pointer a new node gets. -/
def addNode (b : Bucket) (k ptr : Nat) (n : Node) (now : Time) : AddStatus × Bucket :=
  match b.nodes.find? fun orig => orig.node.id == n.id with
  | some orig =>
      if orig.node.addr.equal n.addr then (.nodeExistAndUpdated, b.touch orig.ptr now)
      else (.nodeExistAndChanged, b)
  | none =>
      if b.nodes.length < k then (.nodeAdded, b.append ptr n now)
      else match b.nodes.findIdx? fun node => node.isBad now with
        | some i => (.nodeAdded, b.evict i ptr n now)
        | none => (.nodeNotAdded, b)

/-- The bucket is full, does not know the id, and holds a bad node: `addNode` will evict. -/
def Evicts (b : Bucket) (k : Nat) (n : Node) (now : Time) : Prop :=
  n.id ∉ b.ids ∧ k ≤ b.nodes.length ∧ ∃ w ∈ b.nodes, w.isBad now = true

instance (b : Bucket) (k : Nat) (n : Node) (now : Time) : Decidable (b.Evicts k n now) := by
  unfold Evicts
  infer_instance

theorem mem_ids {b : Bucket} {h : Hash} : h ∈ b.ids ↔ ∃ w ∈ b.nodes, w.node.id = h :=
  List.mem_map

/-- **Everything `addNode` can do.** -/
theorem addNode_cases (b : Bucket) (k ptr : Nat) (n : Node) (now : Time) :
    (∃ orig ∈ b.nodes, orig.node.id = n.id ∧ orig.node.addr.equal n.addr = true ∧
        b.addNode k ptr n now = (.nodeExistAndUpdated, b.touch orig.ptr now)) ∨
      (∃ orig ∈ b.nodes, orig.node.id = n.id ∧ orig.node.addr.equal n.addr = false ∧
        b.addNode k ptr n now = (.nodeExistAndChanged, b)) ∨
      (n.id ∉ b.ids ∧ b.nodes.length < k ∧
        b.addNode k ptr n now = (.nodeAdded, b.append ptr n now)) ∨
      (b.Evicts k n now ∧ ∃ i < b.nodes.length,
        b.addNode k ptr n now = (.nodeAdded, b.evict i ptr n now)) ∨
      (n.id ∉ b.ids ∧ ¬ b.Evicts k n now ∧ b.addNode k ptr n now = (.nodeNotAdded, b)) := by
  unfold addNode
  cases known : b.nodes.find? fun orig => orig.node.id == n.id with
  | some orig =>
    have member := List.mem_of_find?_eq_some known
    have same : orig.node.id = n.id := by simpa using List.find?_some known
    cases addrs : orig.node.addr.equal n.addr with
    | true => exact Or.inl ⟨orig, member, same, addrs, by simp [addrs]⟩
    | false => exact Or.inr (Or.inl ⟨orig, member, same, addrs, by simp [addrs]⟩)
  | none =>
    have fresh : n.id ∉ b.ids := by
      intro inside
      obtain ⟨w, member, same⟩ := mem_ids.mp inside
      exact List.find?_eq_none.mp known w member (by simpa using same)
    by_cases room : b.nodes.length < k
    · exact Or.inr (Or.inr (Or.inl ⟨fresh, room, by simp [room]⟩))
    · cases found : b.nodes.findIdx? fun node => node.isBad now with
      | some i =>
        obtain ⟨inside, bad, _⟩ := List.findIdx?_eq_some_iff_getElem.mp found
        refine Or.inr (Or.inr (Or.inr (Or.inl ⟨⟨fresh, not_lt.mp room, b.nodes[i],
          List.getElem_mem inside, bad⟩, i, inside, by simp [room]⟩)))
      | none =>
        refine Or.inr (Or.inr (Or.inr (Or.inr ⟨fresh, ?_, by simp [room]⟩)))
        rintro ⟨_, _, w, member, bad⟩
        rw [List.findIdx?_eq_none_iff.mp found w member] at bad
        cases bad

theorem addNode_of_room {b : Bucket} {k : Nat} {n : Node} (new : n.id ∉ b.ids)
    (room : b.nodes.length < k) (ptr : Nat) (now : Time) :
    b.addNode k ptr n now = (.nodeAdded, b.append ptr n now) := by
  have unknown : b.nodes.find? (fun orig => orig.node.id == n.id) = none :=
    List.find?_eq_none.mpr fun w member same =>
      new (mem_ids.mpr ⟨w, member, by simpa using same⟩)
  rw [addNode, unknown]
  dsimp only
  rw [if_pos room]

theorem touch_nodes (b : Bucket) (ptr : Nat) (now : Time) :
    (b.touch ptr now).nodes.map WrappedNode.node = b.nodes.map WrappedNode.node := by
  simp only [touch, List.map_map]
  refine List.map_congr_left fun w _ => ?_
  simp only [Function.comp_apply]
  split <;> rfl

theorem touch_ids (b : Bucket) (ptr : Nat) (now : Time) : (b.touch ptr now).ids = b.ids := by
  have same := congrArg (List.map Node.id) (b.touch_nodes ptr now)
  rwa [List.map_map, List.map_map] at same

theorem touch_length (b : Bucket) (ptr : Nat) (now : Time) :
    (b.touch ptr now).nodes.length = b.nodes.length := by
  rw [touch, List.length_map]

/-- **What an eviction leaves**: the bad node is gone, the last node stands twice, the new node
follows. -/
theorem evict_nodes (b : Bucket) {i : Nat} (inside : i < b.nodes.length) (ptr : Nat) (n : Node)
    (now : Time) :
    (b.evict i ptr n now).nodes = b.nodes.eraseIdx i ++
      [b.nodes.getLast (List.ne_nil_of_length_pos (by omega))] ++ [⟨ptr, n, now⟩] := by
  rw [evict, copyTo_succ b.nodes i inside]

theorem evict_length (b : Bucket) {i : Nat} (inside : i < b.nodes.length) (ptr : Nat) (n : Node)
    (now : Time) : (b.evict i ptr n now).nodes.length = b.nodes.length + 1 := by
  rw [evict_nodes b inside, List.length_append, List.length_append,
    List.length_eraseIdx_of_lt inside,
    List.length_singleton, List.length_singleton]
  omega

theorem mem_addNode {b : Bucket} {k ptr : Nat} {n : Node} {now : Time} {w : WrappedNode}
    (member : w ∈ (b.addNode k ptr n now).2.nodes) :
    w.node = n ∨ ∃ old ∈ b.nodes, w.node = old.node := by
  have unchanged : w ∈ b.nodes → w.node = n ∨ ∃ old ∈ b.nodes, w.node = old.node :=
    fun old => Or.inr ⟨w, old, rfl⟩
  obtain ⟨orig, _, _, _, result⟩ | ⟨_, _, _, _, result⟩ | ⟨_, _, result⟩ | ⟨_, i, inside, result⟩ |
    ⟨_, _, result⟩ := b.addNode_cases k ptr n now
  · rw [result] at member
    have inside : w.node ∈ (b.touch orig.ptr now).nodes.map WrappedNode.node :=
      List.mem_map_of_mem member
    rw [touch_nodes] at inside
    obtain ⟨old, oldMember, same⟩ := List.mem_map.mp inside
    exact Or.inr ⟨old, oldMember, same.symm⟩
  · rw [result] at member
    exact unchanged member
  · rw [result] at member
    rcases List.mem_append.mp member with old | new
    · exact unchanged old
    · exact Or.inl (by rw [List.mem_singleton.mp new])
  · rw [result, evict_nodes b inside] at member
    rcases List.mem_append.mp member with old | new
    · rcases List.mem_append.mp old with old | last
      · exact unchanged (List.mem_of_mem_eraseIdx old)
      · refine unchanged ?_
        rw [List.mem_singleton.mp last]
        exact List.getLast_mem _
    · exact Or.inl (by rw [List.mem_singleton.mp new])
  · rw [result] at member
    exact unchanged member

theorem addNode_known {b : Bucket} {n : Node} (known : n.id ∈ b.ids) (k ptr : Nat) (now : Time) :
    (b.addNode k ptr n now).2.nodes.map WrappedNode.node = b.nodes.map WrappedNode.node := by
  obtain ⟨orig, _, _, _, result⟩ | ⟨_, _, _, _, result⟩ | ⟨fresh, _, _⟩ | ⟨⟨fresh, _⟩, _⟩ |
    ⟨fresh, _, _⟩ := b.addNode_cases k ptr n now
  · rw [result]
    exact b.touch_nodes orig.ptr now
  · rw [result]
  · exact absurd known fresh
  · exact absurd known fresh
  · exact absurd known fresh

theorem fresh_of_added {b : Bucket} {k ptr : Nat} {n : Node} {now : Time}
    (added : (b.addNode k ptr n now).1 = .nodeAdded) : n.id ∉ b.ids := by
  obtain ⟨_, _, _, _, result⟩ | ⟨_, _, _, _, result⟩ | ⟨fresh, _, _⟩ | ⟨⟨fresh, _⟩, _⟩ |
    ⟨fresh, _, _⟩ := b.addNode_cases k ptr n now
  · rw [result] at added
    cases added
  · rw [result] at added
    cases added
  · exact fresh
  · exact fresh
  · exact fresh

theorem nodes_of_not_added {b : Bucket} {k ptr : Nat} {n : Node} {now : Time}
    (refused : (b.addNode k ptr n now).1 ≠ .nodeAdded) :
    (b.addNode k ptr n now).2.nodes.map WrappedNode.node = b.nodes.map WrappedNode.node := by
  obtain ⟨orig, _, _, _, result⟩ | ⟨_, _, _, _, result⟩ | ⟨_, _, result⟩ | ⟨_, _, _, result⟩ |
    ⟨_, _, result⟩ := b.addNode_cases k ptr n now
  · rw [result]
    exact b.touch_nodes orig.ptr now
  · rw [result]
  · exact absurd (congrArg Prod.fst result) refused
  · exact absurd (congrArg Prod.fst result) refused
  · rw [result]

/-! ### Checking the nodes -/

/-- The deletions of `CheckAllNodes`, one index after the other; an index beyond the nodes that are
left panics, and the deletions made so far stay. -/
def delNodesByIndex : List Nat → List WrappedNode → List WrappedNode × Bool
  | [], nodes => (nodes, false)
  | index :: rest, nodes =>
      if index < nodes.length then delNodesByIndex rest (nodes.eraseIdx index) else (nodes, true)

/-- The outcome of `CheckAllNodes`. -/
structure Checked where
  bucket : Bucket
  pinged : List Addr
  panicked : Bool

/-- The indexes that `CheckAllNodes` collects. -/
def badIndexes (nodes : List WrappedNode) (now : Time) : List Nat :=
  (List.range nodes.length).filter fun i => nodes[i]?.any fun node => node.status now = .bad

def checkAllNodes (b : Bucket) (now : Time) : Checked :=
  if b.nodes.length = 0 ∨ now.sub b.lastChanged < dubiousTimeout then ⟨b, [], false⟩
  else
    let pinged := (b.nodes.filter fun node => node.status now = .dubious).map fun node =>
      node.node.addr
    let (nodes, panicked) := delNodesByIndex (badIndexes b.nodes now) b.nodes
    ⟨{ b with nodes := nodes }, pinged, panicked⟩

theorem delNodesByIndex_sublist (indexes : List Nat) (nodes : List WrappedNode) :
    (delNodesByIndex indexes nodes).1.Sublist nodes := by
  induction indexes generalizing nodes with
  | nil => exact List.Sublist.refl _
  | cons index rest ih =>
    rw [delNodesByIndex]
    split
    · exact (ih _).trans (List.eraseIdx_sublist nodes index)
    · exact List.Sublist.refl _

/-- **A sweep only removes entries.** -/
theorem checkAllNodes_sublist (b : Bucket) (now : Time) :
    (b.checkAllNodes now).bucket.nodes.Sublist b.nodes := by
  unfold checkAllNodes
  split
  · exact List.Sublist.refl _
  · exact delNodesByIndex_sublist _ _

/-! ### What a sweep leaves -/

theorem status_eq_bad_iff (w : WrappedNode) (now : Time) :
    w.status now = .bad ↔ badTimeout < now - w.lastChanged := by
  rw [← Time.lt_sub_iff (by decide) (by decide)]
  unfold WrappedNode.status
  dsimp only
  split_ifs <;> simp_all

theorem status_eq_dubious_iff (w : WrappedNode) (now : Time) :
    w.status now = .dubious ↔
      dubiousTimeout < now - w.lastChanged ∧ now - w.lastChanged ≤ badTimeout := by
  rw [← not_lt, ← Time.lt_sub_iff (by decide) (by decide), ← Time.lt_sub_iff (by decide) (by decide)]
  unfold WrappedNode.status
  dsimp only
  split_ifs <;> simp_all

theorem length_badIndexes (nodes : List WrappedNode) (now : Time) :
    (badIndexes nodes now).length = nodes.countP fun node => node.status now = .bad :=
  (countP_eq_length_filter_range _ nodes).symm

theorem badIndexes_increasing (nodes : List WrappedNode) (now : Time) :
    (badIndexes nodes now).Pairwise (· < ·) :=
  List.pairwise_lt_range.filter _

theorem mem_badIndexes {nodes : List WrappedNode} {now : Time} {i : Nat} :
    i ∈ badIndexes nodes now ↔ ∃ w, nodes[i]? = some w ∧ w.status now = .bad := by
  rw [badIndexes, List.mem_filter, List.mem_range]
  constructor
  · rintro ⟨inside, bad⟩
    rw [List.getElem?_eq_getElem inside] at bad ⊢
    exact ⟨_, rfl, by simpa using bad⟩
  · rintro ⟨w, found, bad⟩
    rw [found]
    exact ⟨(List.getElem?_eq_some_iff.mp found).1, by simpa using bad⟩

theorem delNodesByIndex_before {p : Nat} (indexes : List Nat) (nodes : List WrappedNode)
    (behind : ∀ i ∈ indexes, p < i) : (delNodesByIndex indexes nodes).1[p]? = nodes[p]? := by
  induction indexes generalizing nodes with
  | nil => rfl
  | cons index rest ih =>
    obtain ⟨here, later⟩ := List.forall_mem_cons.mp behind
    rw [delNodesByIndex]
    split
    · rw [ih _ later, List.getElem?_eraseIdx_of_lt here]
    · rfl

theorem eraseIdx_eq_filter {nodes : List WrappedNode} {now : Time} {i : Nat}
    (only : badIndexes nodes now = [i]) :
    nodes.eraseIdx i = nodes.filter fun w => w.status now ≠ .bad := by
  have bad : i ∈ badIndexes nodes now := by rw [only]; exact List.mem_singleton.mpr rfl
  obtain ⟨w, found, isBad⟩ := mem_badIndexes.mp bad
  have others : ∀ j, j ≠ i → ∀ v, nodes[j]? = some v → v.status now ≠ .bad := by
    intro j other v there isBad
    have member : j ∈ badIndexes nodes now := mem_badIndexes.mpr ⟨v, there, isBad⟩
    rw [only] at member
    exact other (List.mem_singleton.mp member)
  obtain ⟨inside, rfl⟩ := List.getElem?_eq_some_iff.mp found
  have split : nodes = nodes.take i ++ nodes[i] :: nodes.drop (i + 1) := by
    rw [List.getElem_cons_drop, List.take_append_drop]
  have front : ∀ v ∈ nodes.take i, v.status now ≠ .bad := by
    intro v member
    obtain ⟨j, there⟩ := List.mem_iff_getElem?.mp member
    have before : j < i := by
      have inside := (List.getElem?_eq_some_iff.mp there).1
      rw [List.length_take] at inside
      omega
    rw [List.getElem?_take_of_lt before] at there
    exact others j before.ne v there
  have back : ∀ v ∈ nodes.drop (i + 1), v.status now ≠ .bad := by
    intro v member
    obtain ⟨j, there⟩ := List.mem_iff_getElem?.mp member
    rw [List.getElem?_drop] at there
    exact others _ (by omega) v there
  rw [List.eraseIdx_eq_take_drop_succ]
  nth_rewrite 3 [split]
  rw [List.filter_append, List.filter_cons_of_neg (by simpa using isBad),
    List.filter_eq_self.mpr (by simpa using front), List.filter_eq_self.mpr (by simpa using back)]

/-- **The sweep of the bad nodes**: no panic, and the others are left in order, exactly when at most
one node is bad. The second bad node is never deleted, since the first deletion has moved it in front
of its index. -/
theorem delNodesByIndex_exact_iff (nodes : List WrappedNode) (now : Time) :
    delNodesByIndex (badIndexes nodes now) nodes =
        (nodes.filter (fun w => w.status now ≠ .bad), false) ↔
      (nodes.countP fun w => w.status now = .bad) ≤ 1 := by
  rw [← length_badIndexes]
  have increasing := badIndexes_increasing nodes now
  match indexes : badIndexes nodes now with
  | [] =>
    have fine : ∀ w ∈ nodes, w.status now ≠ .bad := by
      intro w member isBad
      obtain ⟨i, there⟩ := List.mem_iff_getElem?.mp member
      have inside : i ∈ badIndexes nodes now := mem_badIndexes.mpr ⟨w, there, isBad⟩
      rw [indexes] at inside
      cases inside
    refine iff_of_true ?_ (Nat.zero_le _)
    rw [delNodesByIndex, List.filter_eq_self.mpr (by simpa using fine)]
  | [i] =>
    have inside : i ∈ badIndexes nodes now := by rw [indexes]; exact List.mem_singleton.mpr rfl
    obtain ⟨w, found, _⟩ := mem_badIndexes.mp inside
    refine iff_of_true ?_ le_rfl
    rw [delNodesByIndex, if_pos (List.getElem?_eq_some_iff.mp found).1, delNodesByIndex,
      eraseIdx_eq_filter indexes]
  | i :: j :: rest =>
    refine iff_of_false (fun exact' => ?_) (by simp)
    rw [indexes] at increasing
    obtain ⟨first, increasing⟩ := List.pairwise_cons.mp increasing
    obtain ⟨second, _⟩ := List.pairwise_cons.mp increasing
    have before : i < j := first j List.mem_cons_self
    have member : ∀ p ∈ [i, j], p ∈ badIndexes nodes now := by
      rw [indexes]
      simp
    obtain ⟨_, found, _⟩ := mem_badIndexes.mp (member i (by simp))
    obtain ⟨w, there, isBad⟩ := mem_badIndexes.mp (member j (by simp))
    have stays : (delNodesByIndex (i :: j :: rest) nodes).1[j - 1]? = some w := by
      rw [delNodesByIndex, if_pos (List.getElem?_eq_some_iff.mp found).1,
        delNodesByIndex_before, List.getElem?_eraseIdx_of_ge (by omega),
        Nat.sub_add_cancel (by omega), there]
      rintro p inside
      rcases List.mem_cons.mp inside with rfl | later
      · omega
      · have := second p later
        omega
    rw [exact'] at stays
    have kept := List.mem_of_getElem? stays
    exact absurd isBad (by simpa using (List.mem_filter.mp kept).2)

/-- **What `CheckAllNodes` does to a bucket that is due**: it finishes, leaves exactly the nodes that
are not bad, in order, and pings the dubious ones, exactly when at most one node is bad. -/
theorem checkAllNodes_exact_iff (b : Bucket) (now : Time)
    (due : dubiousTimeout ≤ now - b.lastChanged) :
    ((b.checkAllNodes now).panicked = false ∧
        (b.checkAllNodes now).bucket.nodes =
          b.nodes.filter (fun w => now - w.lastChanged ≤ badTimeout) ∧
        (b.checkAllNodes now).pinged =
          (b.nodes.filter fun w => dubiousTimeout < now - w.lastChanged ∧
            now - w.lastChanged ≤ badTimeout).map fun w => w.node.addr) ↔
      (b.nodes.countP fun w => badTimeout < now - w.lastChanged) ≤ 1 := by
  have late : ¬ now.sub b.lastChanged < dubiousTimeout := by
    rw [Time.sub_lt_iff (by decide) (by decide)]
    exact not_lt.mpr due
  have kept : (fun w : WrappedNode => decide (w.status now ≠ .bad)) =
      fun w => decide (now - w.lastChanged ≤ badTimeout) := by
    funext w
    simp [status_eq_bad_iff]
  have bad : (fun w : WrappedNode => decide (w.status now = .bad)) =
      fun w => decide (badTimeout < now - w.lastChanged) := by
    funext w
    simp [status_eq_bad_iff]
  have dubious : (fun w : WrappedNode => decide (w.status now = .dubious)) =
      fun w => decide (dubiousTimeout < now - w.lastChanged ∧ now - w.lastChanged ≤ badTimeout) := by
    funext w
    simp only [status_eq_dubious_iff]
  have swept := delNodesByIndex_exact_iff b.nodes now
  rw [kept, bad] at swept
  rw [← swept, Prod.ext_iff]
  unfold checkAllNodes
  by_cases empty : b.nodes.length = 0
  · have none' : b.nodes = [] := List.length_eq_zero_iff.mp empty
    rw [if_pos (.inl empty), none']
    simp [badIndexes, delNodesByIndex]
  · rw [if_neg (by simp [empty, late]), dubious]
    dsimp only
    exact ⟨fun whole => ⟨whole.2.1, whole.1⟩, fun whole => ⟨whole.2, whole.1, rfl⟩⟩

theorem checkAllNodes_exact_one :
    let b : Bucket := ⟨[⟨0, ⟨Hash.fill 1, ⟨[10, 0, 0, 1], 1⟩⟩, minute * 30⟩,
      ⟨1, ⟨Hash.fill 2, ⟨[10, 0, 0, 2], 2⟩⟩, 0⟩,
      ⟨2, ⟨Hash.fill 3, ⟨[10, 0, 0, 3], 3⟩⟩, minute * 14⟩], 0⟩
    (b.checkAllNodes (minute * 30)).panicked = false ∧
      (b.checkAllNodes (minute * 30)).bucket.ids = [Hash.fill 1, Hash.fill 3] ∧
      (b.checkAllNodes (minute * 30)).pinged = [⟨[10, 0, 0, 3], 3⟩] := by
  intro b
  obtain ⟨finished, nodes, pinged⟩ :=
    (b.checkAllNodes_exact_iff (minute * 30) (by decide)).mpr (by decide)
  refine ⟨finished, ?_, ?_⟩
  · rw [ids, nodes]
    decide
  · rw [pinged]
    decide

/-- **Two bad nodes**: with a good node behind each, the sweep drops a good node and keeps a bad one;
at the end of the bucket it panics. -/
theorem checkAllNodes_two_bad :
    let node : Nat → Time → WrappedNode := fun i changed =>
      ⟨i, ⟨Hash.fill (UInt8.ofNat i), ⟨[10, 0, 0, UInt8.ofNat i], 1⟩⟩, changed⟩
    let spread : Bucket := ⟨[node 1 0, node 2 (minute * 30), node 3 0, node 4 (minute * 30)], 0⟩
    let atEnd : Bucket := ⟨[node 1 0, node 2 0], 0⟩
    (spread.checkAllNodes (minute * 30)).panicked = false ∧
      (spread.checkAllNodes (minute * 30)).bucket.nodes = [node 2 (minute * 30), node 3 0] ∧
      (atEnd.checkAllNodes (minute * 30)).panicked = true := by
  decide

end Bucket

end GoBt.Dht
