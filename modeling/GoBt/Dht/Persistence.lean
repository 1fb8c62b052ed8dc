/-
**The routing table is stored and loaded again** (`dht/routing_table.go`).

`dump` stores the nodes bucket by bucket, each with the time of its last change; `newRoutingTable`
files the stored nodes one by one, at these times.

* `RoutingTable.dump` — what is in the storage afterwards; `Bucket.content` — what of a bucket is
  stored.
* `foldl_loadEntry_content` — filing nodes that are new to the table and for which there is room puts
  the fresh ones of them behind what is there, bucket by bucket.
* `belonging_dumped` — what of a dumped table goes to a bucket is the content of that bucket.
* **`newRoutingTable_dump`** — a table that was dumped is loaded with the same buckets, without the
  nodes that have become dubious.
-/

import GoBt.Dht.RoutingTable

namespace GoBt.Dht

open GoBt.Lib GoBt.Metainfo GoBt.Krpc

/-- The nodes of a bucket with the times of their last changes. -/
def Bucket.content (b : Bucket) : List (Node × Time) := b.nodes.map fun w => (w.node, w.lastChanged)

namespace RoutingTable

/-- The nodes that `rt.dump()` collects. -/
def dumped (rt : RoutingTable) : List (Node × Time) :=
  (List.finRange bktlen).flatMap fun i => (rt.bkts i).content

/-- `rt.dump()`: what is in the storage then. -/
def dump (rt : RoutingTable) (stored : List (Node × Time)) : List (Node × Time) :=
  if 0 < rt.dumped.length then rt.dumped else stored

/-- The stored nodes that belong to a bucket. -/
def belonging (root : Hash) (i : Fin bktlen) (stored : List (Node × Time)) : List (Node × Time) :=
  stored.filter fun entry => bucketid root entry.1.id = i

def fresh (now : Time) (stored : List (Node × Time)) : List (Node × Time) :=
  stored.filter fun entry => now - entry.2 < dubiousTimeout

/-! ### Filing the nodes -/

theorem ids_eq_content (b : Bucket) : b.ids = b.content.map fun entry => entry.1.id := by
  simp [Bucket.ids, Bucket.content]

theorem content_addNode {b : Bucket} {k : Nat} {n : Node} (new : n.id ∉ b.ids)
    (room : b.content.length < k) (ptr : Nat) (time : Time) :
    (b.addNode k ptr n time).2.content = b.content ++ [(n, time)] := by
  rw [Bucket.content, List.length_map] at room
  rw [Bucket.addNode_of_room new room, Bucket.content, Bucket.append, List.map_append]
  rfl

/-- The stored nodes can be filed: none of them is there, no two have one id, and there is room. -/
structure Fits (rt : RoutingTable) (stored : List (Node × Time)) : Prop where
  unique : ∀ i, (((rt.bkts i).content ++ belonging rt.root i stored).map fun entry =>
    entry.1.id).Nodup
  room : ∀ i, ((rt.bkts i).content ++ belonging rt.root i stored).length ≤ rt.k

theorem belonging_cons (root : Hash) (i : Fin bktlen) (entry : Node × Time)
    (rest : List (Node × Time)) :
    belonging root i (entry :: rest) = belonging root i [entry] ++ belonging root i rest :=
  List.filter_append [entry] rest

theorem Fits.content_addNodeAt {rt : RoutingTable} {entry : Node × Time}
    {rest : List (Node × Time)} (fits : rt.Fits (entry :: rest)) (i : Fin bktlen) :
    ((rt.addNodeAt entry.1 entry.2).2.bkts i).content =
      (rt.bkts i).content ++ belonging rt.root i [entry] := by
  rw [addNodeAt_bkts]
  by_cases here : i = rt.bucketOf entry.1.id
  · have belongs : belonging rt.root i [entry] = [entry] := by
      rw [here]
      simp [belonging, bucketOf]
    have unique := fits.unique i
    have room := fits.room i
    rw [belonging_cons, belongs, List.map_append] at unique
    rw [belonging_cons, belongs, List.length_append, List.length_append, List.length_singleton]
      at room
    rw [belongs, ← here, Function.update_self, content_addNode ?_ (by omega)]
    rw [ids_eq_content]
    intro known
    exact (List.nodup_append.mp unique).2.2 _ known _ (by simp) rfl
  · have elsewhere : belonging rt.root i [entry] = [] := by
      refine List.filter_eq_nil_iff.mpr fun other member same => here (Fin.ext ?_)
      rw [List.mem_singleton.mp member] at same
      exact (of_decide_eq_true same).symm
    rw [elsewhere, List.append_nil, Function.update_of_ne here]

/-- **Filing nodes that fit** puts the fresh ones behind the content of their buckets. -/
theorem foldl_loadEntry_content (now : Time) {stored : List (Node × Time)} {rt : RoutingTable}
    (fits : rt.Fits stored) (i : Fin bktlen) :
    ((stored.foldl (loadEntry now) rt).bkts i).content =
      (rt.bkts i).content ++ fresh now (belonging rt.root i stored) := by
  induction stored generalizing rt with
  | nil => simp [belonging, fresh]
  | cons entry rest ih =>
    have compare := Time.sub_lt_iff (d := dubiousTimeout) (by decide) (by decide) now entry.2
    rw [List.foldl_cons, loadEntry, belonging_cons, fresh, List.filter_append]
    by_cases young : now - entry.2 < dubiousTimeout
    · have kept : (belonging rt.root i [entry]).filter
          (fun entry => now - entry.2 < dubiousTimeout) = belonging rt.root i [entry] := by
        refine List.filter_eq_self.mpr fun other member => ?_
        rw [List.mem_singleton.mp (List.mem_of_mem_filter member)]
        exact decide_eq_true young
      have fits' : (rt.addNodeAt entry.1 entry.2).2.Fits rest := by
        constructor <;> intro j <;> rw [fits.content_addNodeAt j, List.append_assoc]
        · exact belonging_cons rt.root j entry rest ▸ fits.unique j
        · exact belonging_cons rt.root j entry rest ▸ fits.room j
      rw [if_pos (compare.mpr young), ih fits', fits.content_addNodeAt i, kept, List.append_assoc]
      rfl
    · have dropped : (belonging rt.root i [entry]).filter
          (fun entry => now - entry.2 < dubiousTimeout) = [] := by
        refine List.filter_eq_nil_iff.mpr fun other member same => young ?_
        rw [List.mem_singleton.mp (List.mem_of_mem_filter member)] at same
        exact of_decide_eq_true same
      have fewer : ∀ j, ((rt.bkts j).content ++ belonging rt.root j rest).Sublist
          ((rt.bkts j).content ++ belonging rt.root j (entry :: rest)) := fun j =>
        (List.Sublist.refl _).append ((List.sublist_cons_self entry rest).filter _)
      have fits' : rt.Fits rest := ⟨fun j => (fits.unique j).sublist ((fewer j).map _),
        fun j => (fewer j).length_le.trans (fits.room j)⟩
      rw [if_neg (mt compare.mp young), ih fits', dropped, List.nil_append]
      rfl

/-! ### What was dumped -/

/-- **What goes to a bucket** of the nodes of a dumped table is what was in it. -/
theorem belonging_dumped {rt : RoutingTable}
    (placed : ∀ i, ∀ w ∈ (rt.bkts i).nodes, bucketid rt.root w.node.id = i) (i : Fin bktlen) :
    belonging rt.root i rt.dumped = (rt.bkts i).content := by
  have place : ∀ j, ∀ entry ∈ (rt.bkts j).content, bucketid rt.root entry.1.id = j := by
    intro j entry member
    obtain ⟨w, inside, rfl⟩ := List.mem_map.mp member
    exact placed j w inside
  rw [belonging, dumped, List.filter_flatMap,
    flatMap_eq_of_others_nil (List.nodup_finRange bktlen) (List.mem_finRange i)]
  · exact List.filter_eq_self.mpr fun entry member => decide_eq_true (place i entry member)
  · intro j _ other
    refine List.filter_eq_nil_iff.mpr fun entry member here => other (Fin.ext ?_)
    rw [← place j entry member]
    exact of_decide_eq_true here

theorem dump_nil (rt : RoutingTable) : rt.dump [] = rt.dumped := by
  unfold dump
  split
  · rfl
  · exact (List.eq_nil_of_length_eq_zero (by omega)).symm

/-- **A dumped table is loaded again**, without the nodes that have become dubious. -/
theorem newRoutingTable_dump {rt : RoutingTable} (inv : rt.Inv) (now : Time) (i : Fin bktlen) :
    ((newRoutingTable rt.root rt.k (rt.dump []) now).bkts i).content =
      (rt.bkts i).content.filter fun entry => now - entry.2 < dubiousTimeout := by
  have each := (inv_iff rt).mp inv
  have fits : (empty rt.root rt.k).Fits rt.dumped := by
    have content : ∀ j, ((empty rt.root rt.k).bkts j).content ++
        belonging (empty rt.root rt.k).root j rt.dumped = (rt.bkts j).content :=
      fun j => belonging_dumped inv.placed j
    constructor <;> intro j <;> rw [content j]
    · exact ids_eq_content _ ▸ (each j).unique
    · rw [Bucket.content, List.length_map]
      exact (each j).size
  have loaded := foldl_loadEntry_content now fits i
  rw [dump_nil]
  refine loaded.trans ?_
  show [] ++ fresh now (belonging rt.root i rt.dumped) = _
  rw [List.nil_append, belonging_dumped inv.placed i]
  rfl

/-- A table of two nodes, one of which is dubious by then. -/
theorem newRoutingTable_dump_two :
    let rt := run step (empty zeroHash 8)
      [.addNode ⟨Hash.fill 0x80, ⟨[10, 0, 0, 1], 1⟩⟩ 0,
        .addNode ⟨Hash.fill 0x81, ⟨[10, 0, 0, 2], 2⟩⟩ 1]
    rt.Inv ∧ ((newRoutingTable rt.root rt.k (rt.dump []) dubiousTimeout).bkts 0).content =
      (rt.bkts 0).content.filter fun entry => dubiousTimeout - entry.2 < dubiousTimeout := by
  intro rt
  have inv : rt.Inv := by
    simp only [rt, run_cons, run_nil]
    refine step_inv _ _ (step_inv _ _ (empty_inv zeroHash 8) ?_) ?_
    · rintro ⟨_, _, full, _⟩
      exact absurd full (by decide)
    · rintro ⟨_, _, full, _⟩
      exact absurd full (by decide)
  exact ⟨inv, newRoutingTable_dump inv dubiousTimeout 0⟩

end RoutingTable

end GoBt.Dht
