/-
**The allowed fast set** (`peerprotocol/fastset.go`).

BEP 6 has a peer and a torrent determine a sequence of piece indexes, five from each hash of a chain of
hashes, and takes the first distinct ones. The source looks for an index in the whole slice that it
fills, where the places that are still to be filled are zero. SHA1 is a parameter.

* `generateAllowedFastSet` — the source's function; the rounds of its outer loop are counted by fuel.
* `bep6Values` — the sequence.
* `fastWords_slots`, `fastLoop_step` — the loops collect the distinct values other than zero.
* **`fastSet_iff`** — the slice gets the first distinct values exactly if zero is none of them.
* `fastSet_of_one_piece` — with a single piece the function does not return.
-/

import GoBt.Krpc.Addr
import GoBt.Lib.BigEndian
import GoBt.Lib.Distinct
import GoBt.Metainfo.Hash

namespace GoBt.PeerProtocol

open GoBt.Lib GoBt.Krpc GoBt.Metainfo

/-! ### The source -/

def uint32Contains (ss : List UInt32) (s : UInt32) : Bool := ss.any fun v => v == s

/-- What is hashed first: the last byte of the IP is left zero. -/
def fastSeed (ip : Ip) (infohash : Hash) : List UInt8 :=
  let ip := ip.to4.getD ip
  ip.dropLast.map (fun byte => byte &&& 0xff) ++ List.replicate (min ip.length 1) 0 ++ infohash.bytes

/-- `binary.BigEndian.Uint32(x[j : j+4]) % sz`, where `j` is `i * 4`. -/
def fastIndex (sz : UInt32) (x : List UInt8) (i : Nat) : UInt32 :=
  beUInt32 (cut x (i * 4) (i * 4 + 4)) % sz

/-- The inner loop, over what is left of the values of `i`; with the slice and `cur`. -/
def fastWords (sz : UInt32) (x : List UInt8) :
    List Nat → List UInt32 × Nat → Except Panic (List UInt32 × Nat)
  | [], filled => .ok filled
  | i :: rest, (set, cur) =>
      if cur < set.length then
        if sz = 0 then .error (.explicit (str "runtime error: integer divide by zero"))
        else if uint32Contains set (fastIndex sz x i) then fastWords sz x rest (set, cur)
        else fastWords sz x rest (set.set cur (fastIndex sz x i), cur + 1)
      else .ok (set, cur)

/-- The outer loop; `none` if it takes more rounds than there is fuel. -/
def fastLoop (sha1 : List UInt8 → Hash) (sz : UInt32) :
    Nat → List UInt8 → List UInt32 × Nat → Option (Except Panic (List UInt32))
  | 0, _, _ => none
  | fuel + 1, x, (set, cur) =>
      if cur < set.length then
        match fastWords sz (sha1 x).bytes [0, 1, 2, 3, 4] (set, cur) with
        | .ok filled => fastLoop sha1 sz fuel (sha1 x).bytes filled
        | .error panic => some (.error panic)
      else some (.ok set)

/-- `GenerateAllowedFastSet(set, sz, ip, infohash)`: the slice as it is left. -/
def generateAllowedFastSet (sha1 : List UInt8 → Hash) (fuel : Nat) (set : List UInt32) (sz : UInt32)
    (ip : Ip) (infohash : Hash) : Option (Except Panic (List UInt32)) :=
  fastLoop sha1 sz fuel (fastSeed ip infohash) (set, 0)

/-! ### BEP 6 -/

section Bep6

variable (sha1 : List UInt8 → Hash) (sz : UInt32) (ip : Ip) (infohash : Hash)

/-- The chain of hashes, from the IP with its last byte cleared and the info hash on. -/
def bep6Hash : Nat → List UInt8
  | 0 => (ip.to4.getD ip).set ((ip.to4.getD ip).length - 1) 0 ++ infohash.bytes
  | n + 1 => (sha1 (bep6Hash n)).bytes

/-- The `n`-th index: five from each hash. -/
def bep6Value (n : Nat) : UInt32 := fastIndex sz (bep6Hash sha1 ip infohash (n / 5 + 1)) (n % 5)

def bep6Values (n : Nat) : List UInt32 := (List.range n).map (bep6Value sha1 sz ip infohash)

end Bep6

theorem fastSeed_eq (sha1 : List UInt8 → Hash) (ip : Ip) (infohash : Hash) :
    fastSeed ip infohash = bep6Hash sha1 ip infohash 0 := by
  rw [fastSeed, bep6Hash]
  generalize ip.to4.getD ip = ip
  have ones : ∀ byte : UInt8, byte &&& 0xff = byte := fun _ => UInt8.and_neg_one
  congr 1
  rcases List.eq_nil_or_concat ip with rfl | ⟨front, last, rfl⟩
  · rfl
  · simp [ones]

/-! ### What the loops do -/

/-- The slice with the values `acc` filled in, and `cur`. -/
def fastSlots (count : Nat) (acc : List UInt32) : List UInt32 × Nat :=
  (acc ++ List.replicate (count - acc.length) 0, acc.length)

theorem cur_lt_iff {count : Nat} {acc : List UInt32} :
    (fastSlots count acc).2 < (fastSlots count acc).1.length ↔ acc.length < count := by
  simp only [fastSlots, List.length_append, List.length_replicate]
  omega

theorem contains_slots {count : Nat} {acc : List UInt32} (room : acc.length < count) (v : UInt32) :
    uint32Contains (fastSlots count acc).1 v = true ↔ v ∈ acc ∨ v = 0 := by
  obtain ⟨more, left⟩ := Nat.exists_eq_add_of_lt room
  have places : count - acc.length = more + 1 := by omega
  simp only [uint32Contains, fastSlots, places, List.any_eq_true, beq_iff_eq, exists_eq_right,
    List.mem_append, List.mem_replicate]
  simp

theorem set_slots {count : Nat} {acc : List UInt32} (room : acc.length < count) (v : UInt32) :
    ((fastSlots count acc).1.set acc.length v, acc.length + 1) = fastSlots count (acc ++ [v]) := by
  obtain ⟨more, left⟩ := Nat.exists_eq_add_of_lt room
  have places : count - acc.length = more + 1 := by omega
  have fewer : count - (acc ++ [v]).length = more := by
    rw [List.length_append, List.length_singleton]
    omega
  rw [fastSlots, fastSlots, places, fewer, List.length_append, List.length_singleton,
    List.set_append_right _ _ le_rfl, Nat.sub_self, List.replicate_succ, List.set_cons_zero,
    List.append_assoc]
  rfl

section Loops

variable {sz : UInt32} (positive : 0 < sz) (count : Nat)

include positive

/-- **The inner loop** collects the indexes other than zero. -/
theorem fastWords_slots (x : List UInt8) (is : List Nat) (acc : List UInt32) :
    fastWords sz x is (fastSlots count acc) = .ok (fastSlots count
      ((is.map (fastIndex sz x)).foldl (gather (fun v => v != 0) count) acc)) := by
  have some' : sz ≠ 0 := by
    rintro rfl
    exact absurd positive (by decide)
  induction is generalizing acc with
  | nil => rfl
  | cons i rest ih =>
    rw [List.map_cons, List.foldl_cons]
    by_cases room : acc.length < count
    · have unfolded : fastWords sz x (i :: rest) (fastSlots count acc) =
          if uint32Contains (fastSlots count acc).1 (fastIndex sz x i) then
            fastWords sz x rest (fastSlots count acc)
          else fastWords sz x rest
            ((fastSlots count acc).1.set acc.length (fastIndex sz x i), acc.length + 1) := by
        rw [← Prod.eta (fastSlots count acc), fastWords, if_pos (cur_lt_iff.mpr room), if_neg some']
        rfl
      rw [unfolded, set_slots room, gather]
      by_cases contained : fastIndex sz x i ∈ acc ∨ fastIndex sz x i = 0
      · rw [if_pos ((contains_slots room _).mpr contained), ih, if_neg]
        rintro ⟨_, kept, fresh⟩
        exact contained.elim fresh (by simpa using kept)
      · rw [if_neg (mt (contains_slots room _).mp contained), ih, if_pos]
        push Not at contained
        exact ⟨room, by simpa using contained.2, contained.1⟩
    · rw [← List.foldl_cons, foldl_gather_of_full (not_lt.mp room), ← Prod.eta (fastSlots count acc),
        fastWords, if_neg (mt cur_lt_iff.mp room)]

end Loops

section Rounds

variable (sha1 : List UInt8 → Hash) (sz : UInt32) (ip : Ip) (infohash : Hash) (count : Nat)

/-- The first values other than zero, as they are collected. -/
def gathered (n : Nat) : List UInt32 :=
  (bep6Values sha1 sz ip infohash n).foldl (gather (fun v => v != 0) count) []

theorem bep6Values_add (n more : Nat) :
    bep6Values sha1 sz ip infohash (n + more) = bep6Values sha1 sz ip infohash n ++
      (List.range more).map fun i => bep6Value sha1 sz ip infohash (n + i) := by
  rw [bep6Values, List.range_add, List.map_append, List.map_map]
  rfl

theorem bep6Values_round (r : Nat) :
    bep6Values sha1 sz ip infohash (5 * (r + 1)) = bep6Values sha1 sz ip infohash (5 * r) ++
      [0, 1, 2, 3, 4].map (fastIndex sz (bep6Hash sha1 ip infohash (r + 1))) := by
  rw [Nat.mul_succ, bep6Values_add]
  congr 1
  have place : ∀ i < 5, bep6Value sha1 sz ip infohash (5 * r + i) =
      fastIndex sz (bep6Hash sha1 ip infohash (r + 1)) i := by
    intro i small
    rw [bep6Value, Nat.mul_add_div (by decide), Nat.div_eq_of_lt small, Nat.mul_add_mod,
      Nat.mod_eq_of_lt small, Nat.add_zero]
  rw [List.map_congr_left fun i member => place i (List.mem_range.mp member)]
  rfl

variable {sz count}

theorem gathered_add {n : Nat} (full : count ≤ (gathered sha1 sz ip infohash count n).length)
    (more : Nat) :
    gathered sha1 sz ip infohash count (n + more) = gathered sha1 sz ip infohash count n := by
  rw [gathered, bep6Values_add, List.foldl_append]
  exact foldl_gather_of_full full _

variable (positive : 0 < sz)
include positive

/-- **A round of the outer loop**: five more values, or the end. -/
theorem fastLoop_step (fuel r : Nat) :
    fastLoop sha1 sz (fuel + 1) (bep6Hash sha1 ip infohash r)
        (fastSlots count (gathered sha1 sz ip infohash count (5 * r))) =
      if (gathered sha1 sz ip infohash count (5 * r)).length < count then
        fastLoop sha1 sz fuel (bep6Hash sha1 ip infohash (r + 1))
          (fastSlots count (gathered sha1 sz ip infohash count (5 * (r + 1))))
      else some (.ok (gathered sha1 sz ip infohash count (5 * r))) := by
  have words := fastWords_slots positive count (bep6Hash sha1 ip infohash (r + 1)) [0, 1, 2, 3, 4]
    (gathered sha1 sz ip infohash count (5 * r))
  have next : gathered sha1 sz ip infohash count (5 * (r + 1)) =
      ([0, 1, 2, 3, 4].map (fastIndex sz (bep6Hash sha1 ip infohash (r + 1)))).foldl
        (gather (fun v => v != 0) count) (gathered sha1 sz ip infohash count (5 * r)) := by
    rw [gathered, bep6Values_round, List.foldl_append]
    rfl
  rw [← next] at words
  rw [← Prod.eta (fastSlots count (gathered sha1 sz ip infohash count (5 * r))), fastLoop]
  by_cases room : (gathered sha1 sz ip infohash count (5 * r)).length < count
  · rw [if_pos (cur_lt_iff.mpr room), if_pos room]
    show (match fastWords sz (bep6Hash sha1 ip infohash (r + 1)) [0, 1, 2, 3, 4]
        (fastSlots count (gathered sha1 sz ip infohash count (5 * r))) with
      | .ok filled => fastLoop sha1 sz fuel (bep6Hash sha1 ip infohash (r + 1)) filled
      | .error panic => some (.error panic)) = _
    rw [words]
  · rw [if_neg (mt cur_lt_iff.mp room), if_neg room, fastSlots, Nat.sub_eq_zero_of_le (not_lt.mp room),
      List.replicate_zero, List.append_nil]

theorem exists_fastLoop_eq (rounds r : Nat)
    (full : (gathered sha1 sz ip infohash count (5 * (r + rounds))).length = count) :
    ∃ fuel, fastLoop sha1 sz fuel (bep6Hash sha1 ip infohash r)
        (fastSlots count (gathered sha1 sz ip infohash count (5 * r))) =
      some (.ok (gathered sha1 sz ip infohash count (5 * (r + rounds)))) := by
  induction rounds generalizing r with
  | zero =>
    rw [Nat.add_zero] at full ⊢
    refine ⟨1, ?_⟩
    rw [fastLoop_step sha1 ip infohash positive, if_neg (not_lt.mpr full.ge)]
  | succ rounds ih =>
    by_cases room : (gathered sha1 sz ip infohash count (5 * r)).length < count
    · obtain ⟨fuel, returned⟩ := ih (r + 1) (by rw [← full]; congr 3; omega)
      refine ⟨fuel + 1, ?_⟩
      rw [fastLoop_step sha1 ip infohash positive, if_pos room, returned]
      congr 4
      omega
    · have same := gathered_add sha1 ip infohash (not_lt.mp room) (5 * (rounds + 1))
      refine ⟨1, ?_⟩
      rw [fastLoop_step sha1 ip infohash positive, if_neg room, Nat.mul_add, same]

theorem gathered_of_fastLoop (fuel r : Nat) {result : Except Panic (List UInt32)}
    (returned : fastLoop sha1 sz fuel (bep6Hash sha1 ip infohash r)
      (fastSlots count (gathered sha1 sz ip infohash count (5 * r))) = some result) :
    ∃ n, result = .ok (gathered sha1 sz ip infohash count n) ∧
      count ≤ (gathered sha1 sz ip infohash count n).length := by
  induction fuel generalizing r with
  | zero => cases returned
  | succ fuel ih =>
    rw [fastLoop_step sha1 ip infohash positive] at returned
    split_ifs at returned with room
    · exact ih (r + 1) returned
    · exact ⟨5 * r, (Option.some.inj returned).symm, not_lt.mp room⟩

end Rounds

/-! ### Agreement -/

section Agreement

variable (sha1 : List UInt8 → Hash) {sz : UInt32} (ip : Ip) (infohash : Hash)

theorem generate_eq (sz : UInt32) (fuel count : Nat) :
    generateAllowedFastSet sha1 fuel (List.replicate count 0) sz ip infohash =
      fastLoop sha1 sz fuel (bep6Hash sha1 ip infohash 0)
        (fastSlots count (gathered sha1 sz ip infohash count (5 * 0))) := by
  rw [generateAllowedFastSet, fastSeed_eq sha1]
  rfl

/-- **When the set is that of BEP 6.** If the sequence has `count` distinct values, then the function
returns with the first of them exactly if zero is none of them. -/
theorem fastSet_iff (positive : 0 < sz) (count n : Nat)
    (enough : count ≤ (bep6Values sha1 sz ip infohash n).eraseDups.length) :
    (∃ fuel, generateAllowedFastSet sha1 fuel (List.replicate count 0) sz ip infohash =
        some (.ok ((bep6Values sha1 sz ip infohash n).eraseDups.take count))) ↔
      0 ∉ (bep6Values sha1 sz ip infohash n).eraseDups.take count := by
  constructor
  · rintro ⟨fuel, returned⟩ zero
    rw [generate_eq] at returned
    obtain ⟨m, same, _⟩ := gathered_of_fastLoop sha1 ip infohash positive fuel 0 returned
    rw [Except.ok.inj same] at zero
    exact absurd (keep_of_mem_foldl_gather zero) (by decide)
  · intro noZero
    have first : gathered sha1 sz ip infohash count n =
        (bep6Values sha1 sz ip infohash n).eraseDups.take count := by
      refine foldl_gather_of_forall enough fun v member => ?_
      exact bne_iff_ne.mpr fun zero => noZero (zero ▸ member)
    have full : (gathered sha1 sz ip infohash count n).length = count := by
      rw [first, List.length_take_of_le enough]
    have later : gathered sha1 sz ip infohash count (5 * (0 + n)) =
        gathered sha1 sz ip infohash count n := by
      rw [show 5 * (0 + n) = n + 4 * n by omega]
      exact gathered_add sha1 ip infohash full.ge _
    obtain ⟨fuel, returned⟩ := exists_fastLoop_eq sha1 ip infohash positive n 0 (later ▸ full)
    refine ⟨fuel, ?_⟩
    rw [generate_eq, returned, later, first]

/-- A hash with the words 1, 2, 3, 4 and 5. -/
def fiveWords (_ : List UInt8) : Hash :=
  .copyFrom [0, 0, 0, 1, 0, 0, 0, 2, 0, 0, 0, 3, 0, 0, 0, 4, 0, 0, 0, 5]

theorem fastSet_of_five :
    ∃ fuel, generateAllowedFastSet fiveWords fuel (List.replicate 4 0) 5 [80, 4, 4, 200] zeroHash =
      some (.ok [1, 2, 3, 4]) := by
  have first : (bep6Values fiveWords 5 [80, 4, 4, 200] zeroHash 5).eraseDups = [1, 2, 3, 4, 0] := by
    decide
  have found := fastSet_iff fiveWords [80, 4, 4, 200] zeroHash (by decide : (0 : UInt32) < 5) 4 5
    (by rw [first]; decide)
  rw [first] at found
  exact found.mpr (by decide)

theorem gathered_of_one (count n : Nat) : gathered sha1 1 ip infohash count n = [] := by
  rw [gathered, foldl_gather, List.filter_eq_nil_iff.mpr]
  · exact List.take_nil
  · intro v member
    obtain ⟨i, _, rfl⟩ := List.mem_map.mp member
    rw [bep6Value, fastIndex, UInt32.mod_one]
    decide

/-- **A torrent of one piece**: its sequence has one distinct value, and the function does not
return. -/
theorem fastSet_of_one_piece :
    (bep6Values fiveWords 1 [] zeroHash 1).eraseDups = [0] ∧
      ∀ fuel, generateAllowedFastSet fiveWords fuel [0] 1 [] zeroHash = none := by
  refine ⟨by decide, fun fuel => ?_⟩
  cases returned : generateAllowedFastSet fiveWords fuel [0] 1 [] zeroHash with
  | none => rfl
  | some result =>
      have started := generate_eq fiveWords [] zeroHash 1 fuel 1
      obtain ⟨n, _, full⟩ := gathered_of_fastLoop fiveWords [] zeroHash (by decide) fuel 0
        (started.symm.trans returned)
      rw [gathered_of_one] at full
      cases full

end Agreement

end GoBt.PeerProtocol
