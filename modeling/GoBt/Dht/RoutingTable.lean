/-
**The routing table and its invariant.**

The table has 160 buckets; a node goes to the bucket of its id. The model follows the source:
`addNode` (the exported `AddNode`) refuses the root, `addNodeAt` (the internal `addNode`) files a
node at a time, `checkAllBuckets` sweeps the buckets in order and gives up the sweep at a panic,
which the source recovers from.

* `RoutingTable.Inv` — at most `k` nodes in a bucket, no id twice, every node in the bucket of its
  id, the root absent. `inv_iff`: it is a property of each bucket on its own.
* `step_inv` — a step that does not evict keeps the invariant; `step_evicts_not_inv` — one that
  evicts breaks it.
* **`inv_along_run_iff`** — in a run from the empty table the invariant holds in every state exactly
  when no step of the run evicts.
* `Filed` — what no step breaks: every node is in the bucket of its id, and entries with one id are
  one node (`Filed.node_eq_of_id_eq`).
-/

import GoBt.Dht.Bucket
import GoBt.Lib.Runs
import Mathlib.Data.List.FinRange
import Mathlib.Data.List.Nodup

namespace GoBt.Dht

open GoBt.Lib GoBt.Metainfo GoBt.Krpc

/-- The routing table. `next` is the next pointer to allocate. -/
structure RoutingTable where
  k : Nat
  root : Hash
  next : Nat
  bkts : Fin bktlen → Bucket

namespace RoutingTable

def empty (root : Hash) (k : Nat) : RoutingTable := ⟨k, root, 0, fun _ => Bucket.empty⟩

def bucketOf (rt : RoutingTable) (id : Hash) : Fin bktlen :=
  ⟨bucketid rt.root id, bucketid_lt rt.root id⟩

/-- `rt.addNode(n, now)`. -/
def addNodeAt (rt : RoutingTable) (n : Node) (now : Time) : AddStatus × RoutingTable :=
  let bktid := rt.bucketOf n.id
  let (status, bkt) := (rt.bkts bktid).addNode rt.k rt.next n now
  (status, { rt with next := rt.next + 1, bkts := Function.update rt.bkts bktid bkt })

/-- `rt.AddNode(n)` at the time `now`. -/
def addNode (rt : RoutingTable) (n : Node) (now : Time) : AddStatus × RoutingTable :=
  if n.id = rt.root then (.nodeNotAdded, rt) else rt.addNodeAt n now

/-- The loop of `checkAllBuckets`: a panic ends it, with the buckets as they are then. The second
component lists the addresses pinged. -/
def checkBuckets (now : Time) :
    List (Fin bktlen) → (Fin bktlen → Bucket) → (Fin bktlen → Bucket) × List Addr
  | [], bkts => (bkts, [])
  | i :: rest, bkts =>
      let checked := (bkts i).checkAllNodes now
      let bkts := Function.update bkts i checked.bucket
      if checked.panicked then (bkts, checked.pinged)
      else
        let (bkts, pinged) := checkBuckets now rest bkts
        (bkts, checked.pinged ++ pinged)

/-- `rt.checkAllBuckets(now)`, with the addresses it pings. -/
def checkAllBuckets (rt : RoutingTable) (now : Time) : RoutingTable × List Addr :=
  let (bkts, pinged) := checkBuckets now (List.finRange bktlen) rt.bkts
  ({ rt with bkts := bkts }, pinged)

def entries (rt : RoutingTable) : List WrappedNode :=
  (List.finRange bktlen).flatMap fun i => (rt.bkts i).nodes

def nodes (rt : RoutingTable) : List Node := rt.entries.map WrappedNode.node

def ids (rt : RoutingTable) : List Hash := rt.entries.map fun w => w.node.id

def len (rt : RoutingTable) : Nat := rt.entries.length

/-- The turn of the loop of `newRoutingTable` for one stored node. -/
def loadEntry (now : Time) (rt : RoutingTable) (entry : Node × Time) : RoutingTable :=
  if now.sub entry.2 < dubiousTimeout then (rt.addNodeAt entry.1 entry.2).2 else rt

/-- `newRoutingTable`: the stored nodes that are not yet dubious are filed again. -/
def newRoutingTable (root : Hash) (k : Nat) (stored : List (Node × Time)) (now : Time) :
    RoutingTable :=
  stored.foldl (loadEntry now) (empty root k)

/-! ### Steps -/

inductive Op
  | addNode (n : Node) (now : Time)
  | checkAllBuckets (now : Time)

def step (rt : RoutingTable) : Op → RoutingTable
  | .addNode n now => (rt.addNode n now).2
  | .checkAllBuckets now => (rt.checkAllBuckets now).1

/-- The step adds an unknown node to a full bucket that holds a bad one. -/
def Evicts (rt : RoutingTable) : Op → Prop
  | .addNode n now => n.id ≠ rt.root ∧ (rt.bkts (rt.bucketOf n.id)).Evicts rt.k n now
  | .checkAllBuckets _ => False

/-! ### Properties of single buckets

Every property below is checked bucket by bucket, so one rule for each operation carries it. -/

theorem addNodeAt_bkts (rt : RoutingTable) (n : Node) (now : Time) :
    (rt.addNodeAt n now).2.bkts = Function.update rt.bkts (rt.bucketOf n.id)
      ((rt.bkts (rt.bucketOf n.id)).addNode rt.k rt.next n now).2 := rfl

theorem forall_addNodeAt {Q : Fin bktlen → Bucket → Prop} {rt : RoutingTable} {n : Node}
    {now : Time} (holds : ∀ i, Q i (rt.bkts i))
    (here : Q (rt.bucketOf n.id) ((rt.bkts (rt.bucketOf n.id)).addNode rt.k rt.next n now).2) :
    ∀ i, Q i ((rt.addNodeAt n now).2.bkts i) := by
  intro i
  rw [addNodeAt_bkts]
  by_cases same : i = rt.bucketOf n.id
  · subst same
    rw [Function.update_self]
    exact here
  · rw [Function.update_of_ne same]
    exact holds i

theorem forall_checkBuckets {Q : Fin bktlen → Bucket → Prop} (now : Time)
    (shrinks : ∀ i b b', b'.nodes.Sublist b.nodes → Q i b → Q i b') :
    ∀ (order : List (Fin bktlen)) (bkts : Fin bktlen → Bucket), (∀ i, Q i (bkts i)) →
      ∀ i, Q i ((checkBuckets now order bkts).1 i) := by
  intro order
  induction order with
  | nil => exact fun bkts holds => holds
  | cons here rest ih =>
    intro bkts holds
    have updated : ∀ i,
        Q i (Function.update bkts here ((bkts here).checkAllNodes now).bucket i) := by
      intro i
      by_cases same : i = here
      · subst same
        rw [Function.update_self]
        exact shrinks i _ _ ((bkts i).checkAllNodes_sublist now) (holds i)
      · rw [Function.update_of_ne same]
        exact holds i
    simp only [checkBuckets]
    split
    · exact updated
    · exact ih _ updated

theorem forall_checkAllBuckets {Q : Fin bktlen → Bucket → Prop} {rt : RoutingTable} (now : Time)
    (shrinks : ∀ i b b', b'.nodes.Sublist b.nodes → Q i b → Q i b') (holds : ∀ i, Q i (rt.bkts i)) :
    ∀ i, Q i ((rt.checkAllBuckets now).1.bkts i) :=
  forall_checkBuckets now shrinks (List.finRange bktlen) rt.bkts holds

@[simp] theorem step_root (rt : RoutingTable) (op : Op) : (rt.step op).root = rt.root := by
  cases op with
  | addNode n now =>
    simp only [step, addNode]
    split <;> rfl
  | checkAllBuckets now => rfl

@[simp] theorem step_k (rt : RoutingTable) (op : Op) : (rt.step op).k = rt.k := by
  cases op with
  | addNode n now =>
    simp only [step, addNode]
    split <;> rfl
  | checkAllBuckets now => rfl

theorem mem_entries {rt : RoutingTable} {w : WrappedNode} :
    w ∈ rt.entries ↔ ∃ i, w ∈ (rt.bkts i).nodes := by
  simp [entries]

/-! ### The invariant -/

structure Inv (rt : RoutingTable) : Prop where
  size : ∀ i, (rt.bkts i).nodes.length ≤ rt.k
  unique : rt.ids.Nodup
  placed : ∀ i, ∀ w ∈ (rt.bkts i).nodes, bucketid rt.root w.node.id = i
  rootAbsent : rt.root ∉ rt.ids

/-- What the invariant says about one bucket. -/
structure BucketInv (root : Hash) (k : Nat) (i : Fin bktlen) (b : Bucket) : Prop where
  size : b.nodes.length ≤ k
  unique : b.ids.Nodup
  placed : ∀ w ∈ b.nodes, bucketid root w.node.id = i
  rootAbsent : root ∉ b.ids

theorem ids_eq (rt : RoutingTable) :
    rt.ids = (List.finRange bktlen).flatMap fun i => (rt.bkts i).ids := by
  rw [ids, entries, List.map_flatMap]
  rfl

theorem ids_nodup_iff {rt : RoutingTable}
    (placed : ∀ i, ∀ w ∈ (rt.bkts i).nodes, bucketid rt.root w.node.id = i) :
    rt.ids.Nodup ↔ ∀ i, (rt.bkts i).ids.Nodup := by
  rw [ids_eq, List.nodup_flatMap]
  constructor
  · exact fun both i => both.1 i (List.mem_finRange i)
  · intro each
    refine ⟨fun i _ => each i, (List.nodup_finRange bktlen).pairwise_of_forall_ne ?_⟩
    intro i _ j _ different h inFirst inSecond
    obtain ⟨w, member, rfl⟩ := Bucket.mem_ids.mp inFirst
    obtain ⟨w', member', same⟩ := Bucket.mem_ids.mp inSecond
    have first := placed i w member
    have second := placed j w' member'
    rw [same, first] at second
    exact different (Fin.ext second)

/-- **The invariant is a property of each bucket.** -/
theorem inv_iff (rt : RoutingTable) : rt.Inv ↔ ∀ i, BucketInv rt.root rt.k i (rt.bkts i) := by
  constructor
  · intro inv i
    refine ⟨inv.size i, (ids_nodup_iff inv.placed).mp inv.unique i, inv.placed i, fun inside => ?_⟩
    refine inv.rootAbsent ?_
    rw [ids_eq]
    exact List.mem_flatMap.mpr ⟨i, List.mem_finRange i, inside⟩
  · intro each
    refine ⟨fun i => (each i).size, (ids_nodup_iff fun i => (each i).placed).mpr fun i =>
      (each i).unique, fun i => (each i).placed, fun inside => ?_⟩
    rw [ids_eq] at inside
    obtain ⟨i, _, member⟩ := List.mem_flatMap.mp inside
    exact (each i).rootAbsent member

theorem BucketInv.sublist {root : Hash} {k : Nat} (i : Fin bktlen) (b b' : Bucket)
    (fewer : b'.nodes.Sublist b.nodes) (inv : BucketInv root k i b) : BucketInv root k i b' := by
  have fewerIds : b'.ids.Sublist b.ids := fewer.map _
  exact ⟨fewer.length_le.trans inv.size, inv.unique.sublist fewerIds,
    fun w member => inv.placed w (fewer.subset member),
    fun inside => inv.rootAbsent (fewerIds.subset inside)⟩

theorem BucketInv.addNode {root : Hash} {k : Nat} {i : Fin bktlen} {b : Bucket} {ptr : Nat}
    {n : Node} {now : Time} (inv : BucketInv root k i b) (here : bucketid root n.id = i)
    (notRoot : n.id ≠ root) (stays : ¬ b.Evicts k n now) :
    BucketInv root k i (b.addNode k ptr n now).2 := by
  have placed : ∀ w ∈ (b.addNode k ptr n now).2.nodes, bucketid root w.node.id = i := by
    intro w member
    rcases Bucket.mem_addNode member with new | ⟨old, oldMember, same⟩
    · rw [new]
      exact here
    · rw [same]
      exact inv.placed old oldMember
  obtain ⟨orig, _, _, _, result⟩ | ⟨_, _, _, _, result⟩ | ⟨fresh, room, result⟩ | ⟨evicts, _⟩ |
    ⟨_, _, result⟩ := b.addNode_cases k ptr n now
  · rw [result] at placed ⊢
    refine ⟨?_, ?_, placed, ?_⟩
    · rw [Bucket.touch_length]
      exact inv.size
    · rw [Bucket.touch_ids]
      exact inv.unique
    · rw [Bucket.touch_ids]
      exact inv.rootAbsent
  · rw [result]
    exact inv
  · have newIds : (b.append ptr n now).ids = b.ids ++ [n.id] := by
      simp [Bucket.ids, Bucket.append]
    rw [result] at placed ⊢
    refine ⟨?_, ?_, placed, ?_⟩
    · simpa [Bucket.append] using room
    · rw [newIds]
      exact List.nodup_append.mpr ⟨inv.unique, List.nodup_singleton _, fun h inside h' last same =>
        fresh (by rw [← List.mem_singleton.mp last, ← same]; exact inside)⟩
    · rw [newIds, List.mem_append, List.mem_singleton]
      rintro (inside | new)
      · exact inv.rootAbsent inside
      · exact notRoot new.symm
  · exact absurd evicts stays
  · rw [result]
    exact inv

theorem empty_inv (root : Hash) (k : Nat) : (empty root k).Inv := by
  refine (inv_iff _).mpr fun i => ⟨Nat.zero_le _, List.nodup_nil, fun w member => ?_, fun h => ?_⟩
  · cases member
  · cases h

/-- **A step that does not evict keeps the invariant.** -/
theorem step_inv (rt : RoutingTable) (op : Op) (inv : rt.Inv) (stays : ¬ rt.Evicts op) :
    (rt.step op).Inv := by
  rw [inv_iff] at inv ⊢
  rw [step_root, step_k]
  cases op with
  | addNode n now =>
    simp only [step, addNode]
    split
    · exact inv
    · rename_i notRoot
      refine forall_addNodeAt inv ((inv _).addNode rfl notRoot fun evicts => ?_)
      exact stays ⟨notRoot, evicts⟩
  | checkAllBuckets now => exact forall_checkAllBuckets now BucketInv.sublist inv

/-- **A step that evicts overfills its bucket.** -/
theorem step_evicts_length {rt : RoutingTable} {n : Node} {now : Time}
    (evicts : rt.Evicts (.addNode n now)) :
    rt.k < ((rt.step (.addNode n now)).bkts (rt.bucketOf n.id)).nodes.length := by
  obtain ⟨notRoot, fresh, full, bad⟩ := evicts
  have here : (rt.step (.addNode n now)).bkts (rt.bucketOf n.id) =
      ((rt.bkts (rt.bucketOf n.id)).addNode rt.k rt.next n now).2 := by
    simp only [step, addNode, if_neg notRoot, addNodeAt_bkts, Function.update_self]
  obtain ⟨orig, member, same, _⟩ | ⟨orig, member, same, _⟩ | ⟨_, room, _⟩ | ⟨_, i, inside, result⟩ |
    ⟨_, stays, _⟩ := (rt.bkts (rt.bucketOf n.id)).addNode_cases rt.k rt.next n now
  · exact absurd (Bucket.mem_ids.mpr ⟨orig, member, same⟩) fresh
  · exact absurd (Bucket.mem_ids.mpr ⟨orig, member, same⟩) fresh
  · exact absurd room (not_lt.mpr full)
  · rw [here, result, Bucket.evict_length _ inside]
    omega
  · exact absurd ⟨fresh, full, bad⟩ stays

theorem step_evicts_not_inv (rt : RoutingTable) (op : Op) (evicts : rt.Evicts op) :
    ¬ (rt.step op).Inv := by
  cases op with
  | addNode n now =>
    intro inv
    have size := inv.size (rt.bucketOf n.id)
    rw [step_k] at size
    exact absurd (step_evicts_length evicts) (not_lt.mpr size)
  | checkAllBuckets now => exact evicts.elim

/-- **The invariant along a run.** In a run from the empty table, the invariant holds in every state
reached exactly when no step adds an unknown node to a full bucket that holds a bad one. -/
theorem inv_along_run_iff (root : Hash) (k : Nat) (ops : List Op) :
    (∀ before, before <+: ops → (run step (empty root k) before).Inv) ↔
      ∀ point ∈ trace step (empty root k) ops, ¬ point.1.Evicts point.2 :=
  prefix_holds_iff_trace_meets step step_inv
    (fun rt op _ evicts => step_evicts_not_inv rt op (not_not.mp evicts)) (empty_inv root k) ops

/-- The failing run, with `k = 2`: two nodes fill a bucket, and the third one comes when the first
has been silent for more than twenty minutes. -/
def evictingRun : List Op :=
  [.addNode ⟨Hash.fill 0x80, ⟨[10, 0, 0, 1], 1⟩⟩ 0,
    .addNode ⟨Hash.fill 0x81, ⟨[10, 0, 0, 2], 2⟩⟩ (badTimeout + 1),
    .addNode ⟨Hash.fill 0x82, ⟨[10, 0, 0, 3], 3⟩⟩ (badTimeout + 1)]

/-- **The invariant fails in a reachable state**: the bucket of size 2 ends with three entries, the
second node twice. -/
theorem evictingRun_not_inv :
    ((run step (empty zeroHash 2) evictingRun).bkts 0).ids =
        [Hash.fill 0x81, Hash.fill 0x81, Hash.fill 0x82] ∧
      ¬ (run step (empty zeroHash 2) evictingRun).Inv := by
  have overfull : ((run step (empty zeroHash 2) evictingRun).bkts 0).ids =
      [Hash.fill 0x81, Hash.fill 0x81, Hash.fill 0x82] := by decide
  refine ⟨overfull, fun inv => ?_⟩
  have unique := ((inv_iff _).mp inv 0).unique
  rw [overfull] at unique
  exact absurd unique (by decide)

/-! ### What no step breaks -/

/-- In bucket `i`, every node belongs there, and entries with one id are one node. -/
structure BucketFiled (root : Hash) (i : Fin bktlen) (b : Bucket) : Prop where
  placed : ∀ w ∈ b.nodes, bucketid root w.node.id = i
  oneNode : ∀ w ∈ b.nodes, ∀ w' ∈ b.nodes, w.node.id = w'.node.id → w.node = w'.node

def Filed (rt : RoutingTable) : Prop := ∀ i, BucketFiled rt.root i (rt.bkts i)

theorem empty_filed (root : Hash) (k : Nat) : (empty root k).Filed := by
  intro i
  constructor <;> intro w member <;> cases member

theorem BucketFiled.sublist {root : Hash} (i : Fin bktlen) (b b' : Bucket)
    (fewer : b'.nodes.Sublist b.nodes) (filed : BucketFiled root i b) : BucketFiled root i b' :=
  ⟨fun w member => filed.placed w (fewer.subset member), fun w member w' member' =>
    filed.oneNode w (fewer.subset member) w' (fewer.subset member')⟩

theorem BucketFiled.addNode {root : Hash} {i : Fin bktlen} {b : Bucket} {n : Node}
    (filed : BucketFiled root i b) (here : bucketid root n.id = i) (k ptr : Nat) (now : Time) :
    BucketFiled root i (b.addNode k ptr n now).2 := by
  refine ⟨fun w member => ?_, fun w member w' member' same => ?_⟩
  · rcases Bucket.mem_addNode member with new | ⟨old, oldMember, equal⟩
    · rw [new]
      exact here
    · rw [equal]
      exact filed.placed old oldMember
  · by_cases known : n.id ∈ b.ids
    · -- nothing is appended: both entries are old nodes
      have nodes := Bucket.addNode_known known k ptr now
      have first : w.node ∈ (b.addNode k ptr n now).2.nodes.map WrappedNode.node :=
        List.mem_map_of_mem member
      have second : w'.node ∈ (b.addNode k ptr n now).2.nodes.map WrappedNode.node :=
        List.mem_map_of_mem member'
      rw [nodes] at first second
      obtain ⟨old, oldMember, equal⟩ := List.mem_map.mp first
      obtain ⟨old', oldMember', equal'⟩ := List.mem_map.mp second
      rw [← equal, ← equal'] at same ⊢
      exact filed.oneNode old oldMember old' oldMember' same
    · rcases Bucket.mem_addNode member with new | ⟨old, oldMember, equal⟩ <;>
        rcases Bucket.mem_addNode member' with new' | ⟨old', oldMember', equal'⟩
      · rw [new, new']
      · exact absurd (Bucket.mem_ids.mpr ⟨old', oldMember', by rw [← equal', ← same, new]⟩) known
      · exact absurd (Bucket.mem_ids.mpr ⟨old, oldMember, by rw [← equal, same, new']⟩) known
      · rw [equal, equal'] at same ⊢
        exact filed.oneNode old oldMember old' oldMember' same

theorem Filed.addNodeAt {rt : RoutingTable} (filed : rt.Filed) (n : Node) (now : Time) :
    (rt.addNodeAt n now).2.Filed :=
  forall_addNodeAt (Q := BucketFiled rt.root) filed ((filed _).addNode rfl _ _ _)

theorem Filed.addNode {rt : RoutingTable} (filed : rt.Filed) (n : Node) (now : Time) :
    (rt.addNode n now).2.Filed := by
  unfold RoutingTable.addNode
  split
  · exact filed
  · exact filed.addNodeAt n now

theorem Filed.checkAllBuckets {rt : RoutingTable} (filed : rt.Filed) (now : Time) :
    (rt.checkAllBuckets now).1.Filed :=
  forall_checkAllBuckets (Q := BucketFiled rt.root) now BucketFiled.sublist filed

theorem newRoutingTable_filed (root : Hash) (k : Nat) (stored : List (Node × Time)) (now : Time) :
    (newRoutingTable root k stored now).Filed := by
  refine List.foldlRecOn stored _ (empty_filed root k) fun rt filed entry _ => ?_
  unfold loadEntry
  split
  · exact filed.addNodeAt entry.1 entry.2
  · exact filed

def AllNodes (P : Node → Prop) (rt : RoutingTable) : Prop := ∀ i, ∀ w ∈ (rt.bkts i).nodes, P w.node

section AllNodes

variable {P : Node → Prop} {rt : RoutingTable}

theorem empty_allNodes (root : Hash) (k : Nat) : (empty root k).AllNodes P := by
  intro i w member
  cases member

theorem AllNodes.mem (all : rt.AllNodes P) {n : Node} (member : n ∈ rt.nodes) : P n := by
  obtain ⟨w, inside, rfl⟩ := List.mem_map.mp member
  obtain ⟨i, inside⟩ := mem_entries.mp inside
  exact all i w inside

theorem AllNodes.addNode (all : rt.AllNodes P) {n : Node} (fine : P n) (now : Time) :
    (rt.addNode n now).2.AllNodes P := by
  unfold RoutingTable.addNode
  split
  · exact all
  · refine forall_addNodeAt (Q := fun _ b => ∀ w ∈ b.nodes, P w.node) all fun w member => ?_
    rcases Bucket.mem_addNode member with new | ⟨old, oldMember, same⟩
    · rwa [new]
    · rw [same]
      exact all _ old oldMember

theorem AllNodes.checkAllBuckets (all : rt.AllNodes P) (now : Time) :
    (rt.checkAllBuckets now).1.AllNodes P :=
  forall_checkAllBuckets (Q := fun _ b => ∀ w ∈ b.nodes, P w.node) now
    (fun _ _ _ fewer each w member => each w (fewer.subset member)) all

end AllNodes

theorem Filed.node_eq_of_id_eq {rt : RoutingTable} (filed : rt.Filed) {x y : Node}
    (xMember : x ∈ rt.nodes) (yMember : y ∈ rt.nodes) (same : x.id = y.id) : x = y := by
  obtain ⟨w, wMember, rfl⟩ := List.mem_map.mp xMember
  obtain ⟨w', wMember', rfl⟩ := List.mem_map.mp yMember
  obtain ⟨i, inside⟩ := mem_entries.mp wMember
  obtain ⟨j, inside'⟩ := mem_entries.mp wMember'
  have oneBucket : i = j := by
    apply Fin.ext
    rw [← (filed i).placed w inside, same, (filed j).placed w' inside']
  subst oneBucket
  exact (filed i).oneNode w inside w' inside' same

theorem Filed.not_mem_of_added {rt : RoutingTable} (filed : rt.Filed) {n : Node} {now : Time}
    (added : (rt.addNode n now).1 = .nodeAdded) : n ∉ rt.nodes := by
  unfold RoutingTable.addNode at added
  split at added
  · cases added
  · intro member
    obtain ⟨w, inside, rfl⟩ := List.mem_map.mp member
    obtain ⟨i, inside⟩ := mem_entries.mp inside
    have here : rt.bucketOf w.node.id = i := Fin.ext ((filed i).placed w inside)
    refine Bucket.fresh_of_added added (Bucket.mem_ids.mpr ⟨w, ?_, rfl⟩)
    rw [here]
    exact inside

theorem nodes_eq (rt : RoutingTable) :
    rt.nodes = (List.finRange bktlen).flatMap fun i => (rt.bkts i).nodes.map WrappedNode.node := by
  rw [nodes, entries, List.map_flatMap]

theorem nodes_of_not_added {rt : RoutingTable} {n : Node} {now : Time}
    (refused : (rt.addNode n now).1 ≠ .nodeAdded) : (rt.addNode n now).2.nodes = rt.nodes := by
  unfold RoutingTable.addNode at refused ⊢
  by_cases isRoot : n.id = rt.root
  · rw [if_pos isRoot]
  · rw [if_neg isRoot] at refused ⊢
    have same : ∀ i, ((rt.addNodeAt n now).2.bkts i).nodes.map WrappedNode.node =
        (rt.bkts i).nodes.map WrappedNode.node :=
      forall_addNodeAt (Q := fun i b => b.nodes.map WrappedNode.node =
        (rt.bkts i).nodes.map WrappedNode.node) (fun _ => rfl) (Bucket.nodes_of_not_added refused)
    rw [nodes_eq, nodes_eq]
    simp only [same]

end RoutingTable

end GoBt.Dht
