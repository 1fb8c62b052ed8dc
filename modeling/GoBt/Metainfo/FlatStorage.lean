/-
**The storage of a torrent is one flat array of bytes.**

The files are laid end to end (`Lib.Segments`). While their lengths fit into 64 bits together, a
write puts its bytes there, and a read of what has been written returns it.

* `writeLoop_fills`, `readLoop_written` — what the loops do, by induction on their turns.
* `Simulates.make`, `run_flat` — a call, and a run of calls, keep that the disk holds what has been
  written last at every position.
* `storage_is_flat` — the result of every call of a run, and what can be read after it.
-/

import GoBt.Metainfo.Storage

namespace GoBt.Metainfo

open GoBt.Lib

/-! ### Names -/

def DistinctPaths (root : GoString) (info : Info) : Prop :=
  (info.storedFiles.map fun f => f.pathWithPrefix root info).Nodup

instance (root : GoString) (info : Info) : Decidable (DistinctPaths root info) :=
  inferInstanceAs (Decidable (info.storedFiles.map fun f => f.pathWithPrefix root info).Nodup)

/-- The byte at a position of the whole torrent. -/
abbrev byteOf (root : GoString) (info : Info) : Disk → Nat → Option UInt8 :=
  byteAt File.size (fun f => f.pathWithPrefix root info) info.storedFiles

/-- The bytes at a position of the whole torrent have been written, and no others. -/
abbrev WroteBytes (root : GoString) (info : Info) : Disk → Disk → Nat → List UInt8 → Prop :=
  Wrote File.size (fun f => f.pathWithPrefix root info) info.storedFiles

/-! ### Writing -/

theorem Writer.open_permitted {os : Os} (creates : ∀ name, os.createError name = none) (w : Writer)
    (disk : Disk) (filename : GoString) :
    ∃ opened disk', w.open os disk filename = ({ w with files := opened }, disk', none) ∧
      ∀ o bytes, writeSegment disk' filename o bytes = writeSegment disk filename o bytes := by
  unfold Writer.open
  split
  · exact ⟨w.files, disk, rfl, fun _ _ => rfl⟩
  · rw [creates]
    refine ⟨_, _, rfl, fun o bytes => ?_⟩
    rw [writeSegment, writeSegment, Function.update_idem, contentOf, Function.update_self,
      Option.getD_some]

theorem take_cut_drop (p : List UInt8) (n k : Nat) {stop : Int} (end_eq : stop = n + k) :
    (p.take (if p.length < stop then p.length else stop.toNat)).drop n = (p.drop n).take k := by
  split
  · rw [List.take_length, List.take_of_length_le]
    rw [List.length_drop]
    omega
  · rw [List.drop_take]
    congr 1
    omega

theorem take_split (q : List UInt8) {a b : Nat} (le : a ≤ b) :
    q.take b = q.take a ++ (q.drop (q.take a).length).take (b - (q.take a).length) := by
  rw [List.length_take]
  conv_lhs =>
    rw [← List.take_append_drop (min a q.length) (q.take b), List.take_take, List.drop_take]
  congr 1
  rw [List.take_eq_take_iff]
  omega

theorem Writer.writeLoop_inside {os : Os} (creates : ∀ name, os.createError name = none)
    {w : Writer} (nonneg : w.info.NonNegative) (bound : w.info.size < 2 ^ 63)
    {before after : List File} {f : File}
    (files : w.info.storedFiles = before ++ f :: after) {o : Nat} (inside : o < f.size)
    {p : List UInt8} {n : Nat} (left : n < p.length) (started : n ≤ span File.size before + o)
    (disk : Disk) (fuel : Nat) {bytes : List UInt8} (part : bytes = (p.drop n).take (f.size - o)) :
    ∃ opened, writeLoop os p (fuel + 1) w disk n (span File.size before + o : Nat) =
      writeLoop os p fuel { w with files := opened }
        (writeSegment disk (f.pathWithPrefix w.root w.info) o bytes) (n + bytes.length)
        (span File.size before + o + bytes.length : Nat) := by
  have size := Info.span_add_size_le files
  have length := File.size_eq (nonneg f (by simp [files]))
  have short : bytes.length ≤ f.size - o := by
    rw [part]
    exact List.length_take_le _ _
  obtain ⟨opened, disk', isOpen, same⟩ :=
    open_permitted creates w disk (f.pathWithPrefix w.root w.info)
  refine ⟨opened, ?_⟩
  have place := Info.getFileByOffset_inside nonneg files inside (by omega)
  rw [writeLoop, if_pos left, Nat.cast_add, place]
  dsimp only
  rw [if_neg (by omega), int64_add_int64, int64_of_range (by omega) (by omega), if_neg (by omega),
    take_cut_drop p n (f.size - o) (by omega), ← part, isOpen]
  dsimp only
  rw [fileWriteAt, if_neg (by omega), Int.toNat_natCast, same]
  dsimp only
  rw [int64_of_range (by omega) (by omega)]
  congr 1

/-- What the loop of `WriteAt` leaves if the first `n` bytes of `p`, which belongs at `x`, have been
written: what fits before the end is written too, and `io.ErrShortWrite` is returned if that is not
all. -/
def Writer.Fills (w : Writer) (p : List UInt8) (x n : Nat) (disk : Disk) (result : WriteResult) :
    Prop :=
  ∃ opened disk', result =
      ⟨{ w with files := opened }, disk', min p.length (w.info.size - x),
        .returned (if p.length ≤ w.info.size - x then none else some .shortWrite)⟩ ∧
    WroteBytes w.root w.info disk disk' (x + n) ((p.drop n).take (w.info.size - (x + n)))

section Fills

variable {w : Writer} {p : List UInt8} {x n : Nat} {disk : Disk}

theorem Writer.fills_done (within : x + p.length ≤ w.info.size) :
    w.Fills p x p.length disk ⟨w, disk, p.length, .returned none⟩ := by
  refine ⟨w.files, disk, ?_, ?_⟩
  · rw [if_pos (by omega), Nat.min_eq_left (by omega)]
  · rw [List.drop_length, List.take_nil]
    exact Wrote.nil _ _

theorem Writer.fills_end (left : n < p.length) (atEnd : x + n = w.info.size) :
    w.Fills p x n disk ⟨w, disk, n, .returned (some .shortWrite)⟩ := by
  have room : w.info.size - x = n := by omega
  refine ⟨w.files, disk, ?_, ?_⟩
  · rw [room, if_neg (by omega), Nat.min_eq_right left.le]
  · rw [atEnd, Nat.sub_self, List.take_zero]
    exact Wrote.nil _ _

theorem Writer.Fills.write (distinct : DistinctPaths w.root w.info) {before after : List File}
    {f : File} (files : w.info.storedFiles = before ++ f :: after) {o : Nat}
    (position : x + n = span File.size before + o) (inside : o < f.size) {bytes : List UInt8}
    (part : bytes = (p.drop n).take (f.size - o)) {opened : List GoString} {result : WriteResult}
    (rest : Fills { w with files := opened } p x (n + bytes.length)
      (writeSegment disk (f.pathWithPrefix w.root w.info) o bytes) result) :
    w.Fills p x n disk result := by
  obtain ⟨opened', disk', result_eq, later⟩ := rest
  have short : bytes.length ≤ f.size - o := by
    rw [part]
    exact List.length_take_le _ _
  have here : WroteBytes w.root w.info disk
      (writeSegment disk (f.pathWithPrefix w.root w.info) o bytes) (x + n) bytes := by
    unfold DistinctPaths at distinct
    unfold WroteBytes
    rw [files] at distinct ⊢
    rw [position]
    exact wrote_segment distinct disk (by omega)
  have all : (p.drop n).take (w.info.size - (x + n)) =
      bytes ++ (p.drop (n + bytes.length)).take (w.info.size - (x + (n + bytes.length))) := by
    have size := Info.span_add_size_le files
    have reach : f.size - o ≤ w.info.size - (x + n) := by omega
    rw [← List.drop_drop, ← Nat.add_assoc x, ← Nat.sub_sub _ (x + n), part]
    exact take_split _ reach
  refine ⟨opened', disk', result_eq, ?_⟩
  rw [all]
  refine here.append ?_
  rw [Nat.add_assoc]
  exact later

/-- **The loop of `WriteAt`** fills one file after the other. -/
theorem Writer.writeLoop_fills {os : Os} (creates : ∀ name, os.createError name = none)
    (nonneg : w.info.NonNegative) (distinct : DistinctPaths w.root w.info)
    (bound : w.info.size < 2 ^ 63) {fuel : Nat} (within : x + n ≤ w.info.size)
    (sofar : n ≤ p.length) (enough : p.length < n + fuel) :
    w.Fills p x n disk (writeLoop os p fuel w disk n (x + n : Nat)) := by
  -- the position `x + n` moves to the end of a file in every turn
  induction fuel generalizing w n disk with
  | zero => omega
  | succ fuel ih =>
    rcases sofar.eq_or_lt with rfl | left
    · rw [writeLoop_done le_rfl]
      exact fills_done within
    rcases within.eq_or_lt with atEnd | inside
    · obtain ⟨file, place⟩ := Info.getFileByOffset_end nonneg (by omega)
      rw [atEnd, writeLoop, if_pos left, place]
      dsimp only
      rw [if_pos (Or.inr rfl)]
      exact fills_end left atEnd
    · obtain ⟨before, f, after, o, files, position, room⟩ := exists_locate File.size inside
      obtain ⟨bytes, part⟩ : ∃ bytes, bytes = (p.drop n).take (f.size - o) := ⟨_, rfl⟩
      have length : bytes.length = min (f.size - o) (p.length - n) := by
        rw [part, List.length_take, List.length_drop]
      have size := Info.span_add_size_le files
      obtain ⟨opened, turn⟩ := writeLoop_inside creates nonneg bound files room left (by omega)
        disk fuel part
      have reached : x + (n + bytes.length) ≤ w.info.size := by omega
      rw [position, turn, ← position, Nat.add_assoc x]
      exact Fills.write distinct files position room part
        (ih nonneg distinct bound reached (by omega) (by omega))

end Fills

/-! ### Reading -/

theorem Reader.open_permitted {os : Os} {filename : GoString}
    (opens : os.openError filename = none) (r : Reader) {disk : Disk} {o : Nat} {b : UInt8}
    (there : (contentOf disk filename)[o]? = some b) :
    ∃ opened, r.open os disk filename = ({ r with files := opened }, none) := by
  have stored : disk filename ≠ none := by
    intro absent
    rw [contentOf, absent] at there
    cases there
  unfold Reader.open
  by_cases cached : filename ∈ r.files
  · rw [if_pos cached]
    exact ⟨r.files, rfl⟩
  · rw [if_neg cached, if_neg stored, opens]
    exact ⟨_, rfl⟩

theorem Reader.readLoop_inside {os : Os} {r : Reader} {f : File}
    (opens : os.openError (f.pathWithPrefix r.root r.info) = none)
    (nonneg : r.info.NonNegative) (bound : r.info.size < 2 ^ 63) {before after : List File}
    (files : r.info.storedFiles = before ++ f :: after) {o len : Nat}
    (inside : o < f.size) {data : List UInt8} (left : data.length < len)
    (started : data.length ≤ span File.size before + o) {disk : Disk} {b : UInt8}
    (there : (contentOf disk (f.pathWithPrefix r.root r.info))[o]? = some b) {part : List UInt8}
    (count : part.length = min (f.size - o) (len - data.length))
    (content : ((contentOf disk (f.pathWithPrefix r.root r.info)).drop o).take part.length = part)
    (fuel : Nat) :
    ∃ opened, readLoop os disk len (fuel + 1) r data (span File.size before + o : Nat) =
      readLoop os disk len fuel { r with files := opened } (data ++ part)
        (span File.size before + o + part.length : Nat) := by
  have size := Info.span_add_size_le files
  have length := File.size_eq (nonneg f (by simp [files]))
  obtain ⟨opened, isOpen⟩ := open_permitted opens r there
  have place := Info.getFileByOffset_inside nonneg files inside (by omega)
  have pend : (if f.length - o + data.length > len then (len : Int)
      else f.length - o + data.length) = data.length + part.length := by
    split <;> omega
  refine ⟨opened, ?_⟩
  rw [readLoop, if_pos left, Nat.cast_add, place]
  dsimp only
  rw [if_neg (by omega), isOpen, add_comm (data.length : Int), int64_add_int64,
    int64_of_range (by omega) (by omega)]
  dsimp only
  rw [pend, if_neg (by omega), add_sub_cancel_left, Int.toNat_natCast, fileReadAt,
    if_neg (by omega), Int.toNat_natCast, content]
  dsimp only
  rw [if_neg (lt_irrefl _)]
  dsimp only
  rw [int64_of_range (by omega) (by omega)]
  congr 1

/-- **The loop of `ReadAt`** returns the bytes that are there. -/
theorem Reader.readLoop_written {os : Os} {r : Reader}
    (opens : ∀ f ∈ r.info.storedFiles, os.openError (f.pathWithPrefix r.root r.info) = none)
    (nonneg : r.info.NonNegative) (bound : r.info.size < 2 ^ 63) {disk : Disk} {x : Nat}
    {bytes : List UInt8} (there : ∀ i (inside : i < bytes.length),
      byteOf r.root r.info disk (x + i) = some bytes[i])
    {n fuel : Nat} (sofar : n ≤ bytes.length) (enough : bytes.length < n + fuel) :
    ∃ opened, readLoop os disk bytes.length fuel r (bytes.take n) (x + n : Nat) =
      ⟨{ r with files := opened }, bytes, .returned none⟩ := by
  induction fuel generalizing r n with
  | zero => omega
  | succ fuel ih =>
    have read : (bytes.take n).length = n := by
      rw [List.length_take]
      omega
    rcases sofar.eq_or_lt with rfl | left
    · refine ⟨r.files, ?_⟩
      rw [readLoop_done read.ge, List.take_length]
    -- the byte at `x + n` says in which file the position is
    obtain ⟨⟨f, o⟩, located, found⟩ := Option.bind_eq_some_iff.mp (there n left)
    obtain ⟨before, after, files, position, room⟩ := (locate_eq_some_iff File.size).mp located
    obtain ⟨part, cut⟩ : ∃ part, part = (bytes.drop n).take (f.size - o) := ⟨_, rfl⟩
    have count : part.length = min (f.size - o) (bytes.length - n) := by
      rw [cut, List.length_take, List.length_drop]
    have fits : o + part.length ≤ f.size := by omega
    have here : ∀ i (inside : i < part.length), byteAt File.size
        (fun f => f.pathWithPrefix r.root r.info) (before ++ f :: after) disk
        (span File.size before + o + i) = some part[i] := by
      intro i inside
      have byte := there (n + i) (by omega)
      rw [← Nat.add_assoc, position, byteOf, files] at byte
      rw [byte]
      simp [cut]
    have content := take_drop_of_byteAt fits here
    obtain ⟨opened, turn⟩ := readLoop_inside (opens f (by simp [files])) nonneg bound files
      room (read.trans_lt left)
      (by omega) found (by rw [count, read]) content fuel
    have joined : bytes.take n ++ part = bytes.take (n + part.length) := by
      rw [List.take_add, List.append_cancel_left_eq, count, cut, List.take_eq_take_iff,
        List.length_drop]
      omega
    obtain ⟨opened', rest⟩ := ih (r := { r with files := opened }) (n := n + part.length) opens
      nonneg bound there (by omega) (by omega)
    refine ⟨opened', ?_⟩
    rw [position, turn, ← position, joined, Nat.add_assoc x, rest]

/-! ### Runs of calls -/

/-- A call of `WriteAt` or `WriteBlock`. -/
structure Call where
  place : Place
  bytes : List UInt8

namespace Call

/-- What a call leaves of the writer and the disk. -/
def make (os : Os) (state : Writer × Disk) (call : Call) : Writer × Disk :=
  let result := state.1.write os state.2 call.bytes call.place
  (result.writer, result.disk)

/-- What a call means: its bytes, up to the end, are written into a flat array. -/
def flat (info : Info) (array : Nat → Option UInt8) (call : Call) : Nat → Option UInt8 :=
  let x := (call.place.start info).toNat
  flatWrite array x (call.bytes.take (info.size - x))

/-- The call starts within the torrent. -/
def InRange (info : Info) (call : Call) : Prop :=
  0 ≤ call.place.start info ∧ call.place.start info ≤ info.totalLength

instance (info : Info) (call : Call) : Decidable (call.InRange info) :=
  inferInstanceAs (Decidable (_ ∧ _))

/-- **One call**, within the torrent. -/
theorem write_wrote {os : Os} (creates : ∀ name, os.createError name = none) {w : Writer}
    (nonneg : w.info.NonNegative) (distinct : DistinctPaths w.root w.info)
    (bound : w.info.size < 2 ^ 63) {call : Call} (inRange : call.InRange w.info) (disk : Disk) :
    ∃ (x : Nat) (opened : List GoString) (disk' : Disk), call.place.start w.info = x ∧
      x ≤ w.info.size ∧
      w.write os disk call.bytes call.place =
        ⟨{ w with files := opened }, disk', min call.bytes.length (w.info.size - x),
          .returned (if call.bytes.length ≤ w.info.size - x then none else some .shortWrite)⟩ ∧
      WroteBytes w.root w.info disk disk' x (call.bytes.take (w.info.size - x)) := by
  obtain ⟨low, high⟩ := inRange
  rw [Info.totalLength_eq nonneg (by omega)] at high
  obtain ⟨x, start⟩ := Int.eq_ofNat_of_zero_le low
  have fills : w.Fills call.bytes x 0 disk _ := Writer.writeLoop_fills creates nonneg distinct bound
    (by omega) (Nat.zero_le _) (by omega : _ < 0 + (call.bytes.length + 1))
  obtain ⟨opened, disk', result, wrote⟩ := fills
  refine ⟨x, opened, disk', start, by omega, ?_, wrote⟩
  rw [Writer.write_eq, start]
  exact result

end Call

/-- The bytes that a run of calls has written last. -/
def lastWritten (info : Info) (calls : List Call) : Nat → Option UInt8 :=
  run (Call.flat info) (fun _ => none) calls

/-- What holds between the state of a run of calls and the flat array. -/
structure Simulates (w : Writer) (disk : Disk) (state : Writer × Disk)
    (array : Nat → Option UInt8) : Prop where
  info : state.1.info = w.info
  root : state.1.root = w.root
  bounded : ∀ f ∈ w.info.storedFiles,
    (contentOf state.2 (f.pathWithPrefix w.root w.info)).length ≤
      max (contentOf disk (f.pathWithPrefix w.root w.info)).length f.size
  refines : Refines File.size (fun f => f.pathWithPrefix w.root w.info) w.info.storedFiles
    state.2 array

section Runs

variable {os : Os} {w : Writer} {disk : Disk}

/-- **A call keeps the simulation.** -/
theorem Simulates.make (creates : ∀ name, os.createError name = none) (nonneg : w.info.NonNegative)
    (distinct : DistinctPaths w.root w.info) (bound : w.info.size < 2 ^ 63)
    {state : Writer × Disk} {array : Nat → Option UInt8} (sim : Simulates w disk state array)
    {call : Call} (inRange : call.InRange w.info) :
    Simulates w disk (call.make os state) (call.flat w.info array) := by
  obtain ⟨info, root, bounded, refines⟩ := sim
  rw [← info] at nonneg bound inRange
  rw [← info, ← root] at distinct
  obtain ⟨x, opened, disk', start, -, result, wrote⟩ :=
    Call.write_wrote creates nonneg distinct bound inRange state.2
  rw [WroteBytes, info, root] at wrote
  rw [info] at start
  have next : call.make os state = ({ state.1 with files := opened }, disk') := by
    rw [Call.make, result]
  rw [next]
  refine ⟨info, root, fun f member => ?_, ?_⟩
  · have grown := wrote.bounded f member
    have before := bounded f member
    dsimp only at grown ⊢
    omega
  · rw [Call.flat, start]
    exact wrote.refines refines

theorem simulates_initial (w : Writer) (disk : Disk) :
    Simulates w disk (w, disk) fun _ => none where
  info := rfl
  root := rfl
  bounded _ _ := le_max_left _ _
  refines _ _ written := nomatch written

/-- **A run of calls** leaves on the disk what has been written last at every position. -/
theorem run_flat (creates : ∀ name, os.createError name = none) (nonneg : w.info.NonNegative)
    (distinct : DistinctPaths w.root w.info) (bound : w.info.size < 2 ^ 63) {calls : List Call}
    (inRange : ∀ call ∈ calls, call.InRange w.info) :
    Simulates w disk (run (Call.make os) (w, disk) calls) (lastWritten w.info calls) :=
  run_simulates (Call.make os) (Call.flat w.info)
    (fun _ _ _ sim inRange => sim.make creates nonneg distinct bound inRange)
    (simulates_initial w disk) inRange

theorem Simulates.read (opens : ∀ name, os.openError name = none) (nonneg : w.info.NonNegative)
    (bound : w.info.size < 2 ^ 63) {state : Writer × Disk} {array : Nat → Option UInt8}
    (sim : Simulates w disk state array) {r : Reader} (info : r.info = w.info)
    (root : r.root = w.root) {place : Place} {x len : Nat} (start : place.start w.info = x)
    (written : ∀ i < len, (array (x + i)).isSome) :
    (r.read os state.2 len place).ending = .returned none ∧
      (r.read os state.2 len place).data.length = len ∧
      ∀ i < len, (r.read os state.2 len place).data[i]? = array (x + i) := by
  obtain ⟨bytes, bytes_eq⟩ : ∃ bytes : List UInt8,
      bytes = (List.range len).map fun i => (array (x + i)).getD 0 := ⟨_, rfl⟩
  have length : bytes.length = len := by rw [bytes_eq, List.length_map, List.length_range]
  have byte : ∀ i (inside : i < bytes.length), array (x + i) = some bytes[i] := by
    intro i inside
    obtain ⟨b, eq⟩ := Option.isSome_iff_exists.mp (written i (length ▸ inside))
    simp [bytes_eq, eq]
  rw [← info] at nonneg bound start
  have there : ∀ i (inside : i < bytes.length),
      byteOf r.root r.info state.2 (x + i) = some bytes[i] := by
    rw [info, root]
    exact fun i inside => sim.refines _ _ (byte i inside)
  obtain ⟨opened, result⟩ := Reader.readLoop_written (fun _ _ => opens _) nonneg bound there (n := 0)
    (Nat.zero_le _) (by omega : _ < 0 + (bytes.length + 1))
  rw [List.take_zero, Nat.add_zero x, length, ← start] at result
  rw [Reader.read_eq, Reader.readAt, result]
  refine ⟨rfl, length, fun i inside => ?_⟩
  rw [byte i (length ▸ inside), List.getElem?_eq_getElem]

/-- **The storage is one flat array of bytes.** Along every run of calls that start within the
torrent, each writes what fits before the end and returns `io.ErrShortWrite` if that is not all; no
file grows beyond its length; and whatever has been written everywhere is read as it was written
last. -/
theorem storage_is_flat (creates : ∀ name, os.createError name = none)
    (opens : ∀ name, os.openError name = none) (nonneg : w.info.NonNegative)
    (distinct : DistinctPaths w.root w.info) (bound : w.info.size < 2 ^ 63) {calls : List Call}
    (inRange : ∀ call ∈ calls, call.InRange w.info) :
    (∀ point ∈ trace (Call.make os) (w, disk) calls,
      let call := point.2
      let result := point.1.1.write os point.1.2 call.bytes call.place
      (result.n : Int) = min (call.bytes.length : Int)
          (w.info.totalLength - call.place.start w.info) ∧
        result.ending =
          .returned (if result.n = call.bytes.length then none else some .shortWrite)) ∧
    (∀ f ∈ w.info.storedFiles,
      let name := f.pathWithPrefix w.root w.info
      ((contentOf (run (Call.make os) (w, disk) calls).2 name).length : Int) ≤
        max ((contentOf disk name).length : Int) f.length) ∧
    (∀ (r : Reader) (place : Place) (x len : Nat), r.info = w.info → r.root = w.root →
      place.start w.info = x → (∀ i < len, (lastWritten w.info calls (x + i)).isSome) →
      let result := r.read os (run (Call.make os) (w, disk) calls).2 len place
      result.ending = .returned none ∧ result.data.length = len ∧
        ∀ i < len, result.data[i]? = lastWritten w.info calls (x + i)) := by
  have sim : ∀ {part}, (∀ call ∈ part, call.InRange w.info) →
      Simulates w disk (run (Call.make os) (w, disk) part) (lastWritten w.info part) :=
    fun within => run_flat creates nonneg distinct bound within
  refine ⟨fun point member => ?_, fun f member => ?_,
    fun r place x len info root start written => ?_⟩
  · obtain ⟨before, after, rfl, reached⟩ := (mem_trace_iff _).mp member
    obtain ⟨info, root, -, -⟩ := sim fun call earlier =>
      inRange call (List.mem_append_left _ earlier)
    rw [reached] at info root
    have here := inRange point.2 (by simp)
    have total := Info.totalLength_eq nonneg (by omega)
    rw [← info] at nonneg bound here total ⊢
    rw [← info, ← root] at distinct
    obtain ⟨x, opened, disk', start, within, result, -⟩ :=
      Call.write_wrote creates nonneg distinct bound here point.1.2
    dsimp only
    rw [result, start, total]
    have whole : min point.2.bytes.length (point.1.1.info.size - x) = point.2.bytes.length ↔
        point.2.bytes.length ≤ point.1.1.info.size - x := by omega
    dsimp only
    refine ⟨by omega, ?_⟩
    simp only [whole]
  · have grown := (sim inRange).bounded f member
    have size := File.size_eq (nonneg f member)
    dsimp only
    omega
  · exact (sim inRange).read opens nonneg bound info root start written

end Runs

/-- Two writes that cross the ends of files, the second over a part of the first and over the
end. -/
def sampleCalls : List Call :=
  [⟨.total 0, [1, 2, 3, 4]⟩, ⟨.block 1 1, [5, 6, 7, 8, 9]⟩]

theorem overlapping_writes_read :
    let disk := (run (Call.make permissive) (newWriter [] sampleInfo, fun _ => none) sampleCalls).2
    ((newReader [] sampleInfo).read permissive disk 6 (.total 0)).ending = .returned none ∧
      ∀ i < 6, ((newReader [] sampleInfo).read permissive disk 6 (.total 0)).data[i]? =
        [1, 2, 3, 5, 6, 7][i]? := by
  have inRange : ∀ call ∈ sampleCalls, call.InRange sampleInfo := by decide
  have creates : ∀ name, permissive.createError name = none := fun _ => rfl
  have opens : ∀ name, permissive.openError name = none := fun _ => rfl
  obtain ⟨-, -, reads⟩ := storage_is_flat (w := newWriter [] sampleInfo) creates opens (by decide)
    (by decide) (by decide) inRange
  obtain ⟨ending, -, data⟩ := reads (newReader [] sampleInfo) (.total 0) 0 6 rfl rfl rfl (by decide)
  refine ⟨ending, fun i inside => (data i inside).trans ?_⟩
  revert i
  decide

/-- Files whose lengths do not fit into 64 bits together. -/
def hugeInfo : Info where
  name := str "huge"
  files := [⟨5, [str "a"]⟩, ⟨2 ^ 63 - 1, [str "b"]⟩, ⟨2 ^ 63 - 1, [str "c"]⟩]

/-- With such lengths the end of the second file, counted from the start of the write, overflows:
ten bytes are given, five are written, and no error is returned. -/
theorem overflow_ends_write :
    let result := (newWriter [] hugeInfo).write permissive (fun _ => none) (List.replicate 10 1)
      (.total 0)
    hugeInfo.NonNegative ∧ DistinctPaths [] hugeInfo ∧ 0 ≤ hugeInfo.totalLength ∧
      10 < hugeInfo.size ∧ result.n = 5 ∧ result.ending = .returned none := by
  refine ⟨by decide, by decide, by decide, by decide, by decide, by decide⟩

end GoBt.Metainfo
