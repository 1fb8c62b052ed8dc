/-
**The places of the files and their pieces** (`metainfo/file.go`, `piece.go`).

* `File.offset` — where a file starts in the whole torrent; `none` is a panic. `offset_of_split`: it
  is the length of the files before it if the paths are distinct.
* **`getFileByOffset_inverts_offset`** — the file at an offset starts as much before it as the place
  in the file says.
* `File.filePieces` — the ranges of pieces a file lies in. `pieceRanges_of_range`: what they are
  when nothing overflows.
* `Partitions` — the ranges are a partition of the file into parts of existing pieces.
* **`filePieces_partition_iff`** — they are one exactly when the file ends inside a piece; at the end
  of a piece there is an empty range behind it (`filePieces_end_of_piece`).
-/

import GoBt.Lib.Tiling
import GoBt.Metainfo.Info

namespace GoBt.Metainfo

open GoBt.Lib

/-! ### The offset of a file -/

namespace File

def path (f : File) (info : Info) : GoString :=
  if info.isDir then Filepath.join (info.name :: f.paths) else info.name

/-- The loop of `Offset` over the files that are left. -/
def offsetLoop (info : Info) (path : GoString) : List File → Int → Option Int
  | [], _ => none
  | file :: rest, ret =>
      if path = file.path info then some ret
      else offsetLoop info path rest (int64 (ret + file.length))

def offset (f : File) (info : Info) : Option Int :=
  offsetLoop info (f.path info) info.allFiles 0

theorem offsetLoop_split {info : Info} {f : File} {before after : List File} {ret : Int}
    (other : ∀ g ∈ before, f.path info ≠ g.path info) :
    offsetLoop info (f.path info) (before ++ f :: after) ret =
      some (before.foldl (fun ret fi => int64 (ret + fi.length)) ret) := by
  induction before generalizing ret with
  | nil => simp [offsetLoop]
  | cons g rest ih =>
    obtain ⟨here, later⟩ := List.forall_mem_cons.mp other
    rw [List.cons_append, offsetLoop, if_neg here, ih later, List.foldl_cons]

theorem exists_offset {info : Info} {f : File} (member : f ∈ info.allFiles) :
    ∃ start, f.offset info = some start ∧ IsInt64 start := by
  have found : ∀ {files : List File} {ret : Int}, f ∈ files → IsInt64 ret →
      ∃ start, offsetLoop info (f.path info) files ret = some start ∧ IsInt64 start := by
    intro files
    induction files with
    | nil => nofun
    | cons g rest ih =>
      intro ret member fits
      unfold offsetLoop
      split
      · exact ⟨ret, rfl, fits⟩
      · rename_i other
        rcases List.mem_cons.mp member with rfl | later
        · exact absurd rfl other
        · exact ih later (isInt64_int64 _)
  exact found member ⟨by decide, by decide⟩

end File

namespace Info

def DistinctPaths (info : Info) : Prop := (info.allFiles.map (·.path info)).Nodup

instance (info : Info) : Decidable info.DistinctPaths :=
  inferInstanceAs (Decidable (List.Nodup _))

theorem allFiles_of_isDir {info : Info} (dir : info.isDir = true) :
    info.allFiles = info.storedFiles := by
  rw [allFiles, if_pos dir, storedFiles_of_isDir dir]

/-- **The offset of a file** of several is the length of the files before it. -/
theorem offset_of_split {info : Info} (nonneg : info.NonNegative) (distinct : info.DistinctPaths)
    (dir : info.isDir = true) {before after : List File} {f : File}
    (files : info.storedFiles = before ++ f :: after)
    (bound : (span File.size before : Int) < 2 ^ 63) :
    f.offset info = some (span File.size before : Int) := by
  unfold DistinctPaths at distinct
  unfold NonNegative at nonneg
  rw [allFiles_of_isDir dir, files, List.map_append, List.map_cons] at distinct
  rw [files] at nonneg
  have other : ∀ g ∈ before, f.path info ≠ g.path info := by
    intro g member same
    exact (List.nodup_append.mp distinct).2.2 _ (List.mem_map_of_mem member) _ List.mem_cons_self
      same.symm
  have total := foldl_length_eq (fun g member => nonneg g (List.mem_append_left _ member))
    (by simpa using bound : ((0 : Nat) : Int) + _ < _)
  rw [File.offset, allFiles_of_isDir dir, files, File.offsetLoop_split other]
  simpa using total

/-- **The lookup inverts the offsets.** -/
theorem getFileByOffset_inverts_offset {info : Info} (nonneg : info.NonNegative)
    (distinct : info.DistinctPaths) {offset : Int} (low : 0 ≤ offset)
    (high : offset ≤ info.totalLength) :
    ∃ f o start, info.getFileByOffset offset = some (f, o) ∧ f.offset info = some start ∧
      start + o = offset ∧
      (0 ≤ o ∧ o < f.length ∨
        offset = info.totalLength ∧ info.storedFiles.getLast? = some f ∧ o = f.length) := by
  cases dir : info.isDir with
  | false =>
      have total : info.totalLength = info.length := by rw [totalLength, dir, if_neg Bool.false_ne_true]
      rw [total] at high ⊢
      refine ⟨⟨info.length, [info.name]⟩, offset, 0, ?_, ?_, zero_add _, ?_⟩
      · rw [getFileByOffset, dir, if_neg Bool.false_ne_true, if_neg (not_lt.mpr high)]
      · simp [File.offset, File.offsetLoop, allFiles, File.path, dir]
      · rcases high.lt_or_eq with inside | atEnd
        · exact .inl ⟨low, inside⟩
        · exact .inr ⟨atEnd, by rw [storedFiles_of_not_isDir dir]; rfl, atEnd⟩
  | true =>
      have wraps := totalLength_of_isDir nonneg dir
      obtain ⟨_, bound⟩ := isInt64_int64 info.size
      rw [← wraps] at bound
      obtain ⟨x, rfl⟩ := Int.eq_ofNat_of_zero_le low
      by_cases inside : x < info.size
      · obtain ⟨before, f, after, o, files, rfl, within⟩ := exists_locate File.size inside
        rw [Nat.cast_add] at high ⊢
        have size := File.size_eq (nonneg f (by simp [files]))
        exact ⟨f, o, span File.size before,
          getFileByOffset_inside nonneg files within (by omega),
          offset_of_split nonneg distinct dir files (by omega), rfl, .inl ⟨by omega, by omega⟩⟩
      · -- `TotalLength` has not wrapped around, and the offset is the end of the files.
        have total : info.totalLength = info.size := totalLength_eq nonneg (by omega)
        obtain rfl : x = info.size := by omega
        obtain ⟨before, last, files⟩ := info.exists_last
        have whole : info.size = span File.size before + last.size := by simp [Info.size, files]
        have size := File.size_eq (nonneg last (by simp [files]))
        refine ⟨last, last.length, span File.size before, ?_,
          offset_of_split nonneg distinct dir files (by omega), by omega,
          .inr ⟨total.symm, by simp [files], rfl⟩⟩
        have stops : getFileLoop (before ++ [last]) ⟨0, []⟩ _ = _ :=
          getFileLoop_end (files ▸ nonneg) (by rw [← files, ← Info.size]; omega)
        rw [← files, ← Info.size] at stops
        rw [getFileByOffset, if_pos dir, ← storedFiles_of_isDir dir, stops]

theorem getFileByOffset_inverts_between :
    let info : Info := { name := str "d", files := [⟨2, [str "a"]⟩, ⟨0, [str "b"]⟩, ⟨1, [str "c"]⟩] }
    ∃ f o start, info.getFileByOffset 2 = some (f, o) ∧ f.offset info = some start ∧
      start + o = 2 ∧
      (0 ≤ o ∧ o < f.length ∨
        2 = info.totalLength ∧ info.storedFiles.getLast? = some f ∧ o = f.length) :=
  getFileByOffset_inverts_offset (by decide) (by decide +kernel) (by decide) (by decide)

end Info

/-! ### The pieces of a file -/

/-- `FilePiece`: a range of one piece. -/
structure FilePiece where
  index : UInt32
  offset : UInt32 := 0
  length : UInt32
  deriving DecidableEq

def FilePiece.totalOffset (fp : FilePiece) (pieceLength : Int) : Int :=
  int64 (int64 (fp.index.toNat * pieceLength) + fp.offset.toNat)

/-- The lines of `FilePieces` behind the call of `Offset`; `none` is a panic. -/
def pieceRanges (pieceLength startOffset length : Int) : Option (List FilePiece) :=
  if pieceLength = 0 then none
  else
    let startPieceIndex := int64 (startOffset.tdiv pieceLength)
    let startPieceOffset := startOffset.tmod pieceLength
    let endOffset := int64 (startOffset + length)
    let endPieceIndex := int64 (endOffset.tdiv pieceLength)
    let endPieceOffset := endOffset.tmod pieceLength
    if startPieceIndex = endPieceIndex then
      some [⟨uint32 startPieceIndex, uint32 startPieceOffset,
        uint32 (endPieceOffset - startPieceOffset)⟩]
    -- `make` panics at a negative capacity.
    else if int64 (endPieceIndex - startPieceIndex + 1) < 0 then none
    else
      let i := int64 (startPieceIndex + 1)
      some (⟨uint32 startPieceIndex, uint32 startPieceOffset,
          uint32 (pieceLength - startPieceOffset)⟩ ::
        ((List.range (endPieceIndex - i).toNat).map fun k => ⟨uint32 (i + k), 0, uint32 pieceLength⟩) ++
        [⟨uint32 endPieceIndex, 0, uint32 endPieceOffset⟩])

def File.filePieces (f : File) (info : Info) : Option (List FilePiece) :=
  if f.length < 1 then some []
  else (f.offset info).bind fun startOffset => pieceRanges info.pieceLength startOffset f.length

/-- The number of pieces that the files fill. -/
def Info.numPieces (info : Info) : Int :=
  (info.totalLength + info.pieceLength - 1) / info.pieceLength

/-- The range is not empty and lies, by its offset and by where it is placed, inside the piece of
its index, which is one of the first `num`. -/
structure FilePiece.InPiece (pieceLength num : Int) (fp : FilePiece) : Prop where
  nonempty : 0 < fp.length.toNat
  inside : (fp.offset.toNat + fp.length.toNat : Int) ≤ pieceLength
  placed : fp.index.toNat * pieceLength ≤ fp.totalOffset pieceLength ∧
    fp.totalOffset pieceLength + fp.length.toNat ≤ (fp.index.toNat + 1) * pieceLength
  exists' : (fp.index.toNat : Int) < num

/-- **The ranges are a partition** of the positions from `start` to `stop` into parts of the first
`num` pieces. -/
structure Partitions (pieceLength num : Int) (fps : List FilePiece) (start stop : Int) : Prop where
  tiles : Tiles (·.totalOffset pieceLength) (·.length.toNat) fps start stop
  covers : ∀ x, (∃ fp ∈ fps, fp.totalOffset pieceLength ≤ x ∧
    x < fp.totalOffset pieceLength + fp.length.toNat) ↔ start ≤ x ∧ x < stop
  inPiece : ∀ fp ∈ fps, fp.InPiece pieceLength num

section Ranges

variable {pieceLength start length num : Int}

theorem totalOffset_of_range {index offset : Int} (positive : 1 ≤ pieceLength)
    (low : 0 ≤ index) (high : index < 2 ^ 32) (lowOffset : 0 ≤ offset) (highOffset : offset < 2 ^ 32)
    (bound : index * pieceLength + offset < 2 ^ 63) (n : UInt32) :
    (⟨uint32 index, uint32 offset, n⟩ : FilePiece).totalOffset pieceLength =
      index * pieceLength + offset := by
  have product : 0 ≤ index * pieceLength := mul_nonneg low (by omega)
  rw [FilePiece.totalOffset, uint32_of_range low high, uint32_of_range lowOffset highOffset,
    int64_add_int64, int64_of_range (by omega) bound]

theorem inPiece_of_range {index offset n : Int} (positive : 1 ≤ pieceLength)
    (small : pieceLength < 2 ^ 32) (few : num ≤ 2 ^ 32) (low : 0 ≤ index) (high : index < num)
    (lowOffset : 0 ≤ offset) (some' : 0 < n) (inside : offset + n ≤ pieceLength)
    (bound : index * pieceLength + offset < 2 ^ 63) :
    (⟨uint32 index, uint32 offset, uint32 n⟩ : FilePiece).InPiece pieceLength num := by
  have place := totalOffset_of_range positive low (by omega) lowOffset (by omega) bound (uint32 n)
  have size := uint32_of_range (n := n) (by omega) (by omega)
  have index' := uint32_of_range (n := index) low (by omega)
  have offset' := uint32_of_range (n := offset) lowOffset (by omega)
  refine ⟨by dsimp only; omega, by dsimp only; omega, ?_, by dsimp only; omega⟩
  rw [place]
  dsimp only
  rw [size, index', add_mul, one_mul]
  omega

theorem FilePiece.InPiece.index_eq {fp : FilePiece} (positive : 1 ≤ pieceLength)
    (here : fp.InPiece pieceLength num) :
    (fp.index.toNat : Int) = fp.totalOffset pieceLength / pieceLength := by
  obtain ⟨low, high⟩ := here.placed
  have some' := here.nonempty
  rw [add_mul, one_mul] at high
  exact ((Int.ediv_eq_iff_of_pos (by omega)).mpr ⟨low, by omega⟩).symm

/-! ### Without overflow -/

/-- The ranges from the offset `r` of the piece `q` to the offset `r'` of the piece `q'`. -/
def rangesBetween (pieceLength q r q' r' : Int) : List FilePiece :=
  if q = q' then [⟨uint32 q, uint32 r, uint32 (r' - r)⟩]
  else
    ⟨uint32 q, uint32 r, uint32 (pieceLength - r)⟩ ::
      ((List.range (q' - (q + 1)).toNat).map fun k => ⟨uint32 (q + 1 + k), 0, uint32 pieceLength⟩) ++
      [⟨uint32 q', 0, uint32 r'⟩]

/-- **What the function computes** when the end does not overflow. -/
theorem pieceRanges_of_range (positive : 1 ≤ pieceLength) (low : 0 ≤ start) (some' : 1 ≤ length)
    (high : start + length < 2 ^ 63) :
    pieceRanges pieceLength start length =
      let q := start / pieceLength
      let q' := (start + length) / pieceLength
      if q ≠ q' ∧ int64 (q' - q + 1) < 0 then none
      else some (rangesBetween pieceLength q (start % pieceLength) q'
        ((start + length) % pieceLength)) := by
  have first : 0 ≤ start / pieceLength := Int.ediv_nonneg low (by omega)
  have less : start / pieceLength ≤ start := Int.ediv_le_self _ low
  have order : start / pieceLength ≤ (start + length) / pieceLength :=
    Int.ediv_le_ediv (by omega) (by omega)
  have last : (start + length) / pieceLength ≤ start + length := Int.ediv_le_self _ (by omega)
  unfold pieceRanges rangesBetween
  dsimp only
  rw [if_neg (by omega), int64_of_range (by omega) high, Int.tdiv_eq_ediv_of_nonneg low,
    Int.tmod_eq_emod_of_nonneg low, Int.tdiv_eq_ediv_of_nonneg (by omega),
    Int.tmod_eq_emod_of_nonneg (by omega), int64_of_range (by omega) (by omega),
    int64_of_range (by omega) (by omega)]
  by_cases same : start / pieceLength = (start + length) / pieceLength
  · rw [if_pos same, if_neg fun both => both.1 same, if_pos same]
  · rw [if_neg same, if_neg same, int64_of_range (n := start / pieceLength + 1) (by omega) (by omega)]
    simp only [ne_eq, same, not_false_eq_true, true_and]

theorem tiles_wholePieces {q : Int} {n : Nat} (positive : 1 ≤ pieceLength)
    (small : pieceLength < 2 ^ 32) (few : num ≤ 2 ^ 32) (low : 0 ≤ q) (exists' : q + n ≤ num)
    (bound : (q + n) * pieceLength < 2 ^ 63) :
    let pieces : List FilePiece :=
      (List.range n).map fun k : Nat => ⟨uint32 (q + k), 0, uint32 pieceLength⟩
    Tiles (·.totalOffset pieceLength) (·.length.toNat) pieces (q * pieceLength)
        ((q + n) * pieceLength) ∧
      ∀ fp ∈ pieces, fp.InPiece pieceLength num := by
  intro pieces
  have zero : (0 : UInt32) = uint32 0 := rfl
  have before : ∀ k < n, (q + k) * pieceLength + pieceLength ≤ (q + n) * pieceLength := by
    intro k inside
    have steps := mul_le_mul_of_nonneg_right (show q + k + 1 ≤ q + (n : Int) by omega)
      (show 0 ≤ pieceLength by omega)
    linarith
  have size := uint32_of_range (n := pieceLength) (by omega) small
  constructor
  · have tiles : Tiles (·.totalOffset pieceLength) (·.length.toNat) pieces (q * pieceLength)
        (q * pieceLength + n * (uint32 pieceLength).toNat) := by
      refine tiles_range fun k inside => ⟨?_, rfl⟩
      have behind := before k inside
      rw [zero, totalOffset_of_range positive (by omega) (by omega) (by omega) (by omega) (by omega),
        size]
      ring
    rwa [size, ← add_mul] at tiles
  · intro fp member
    obtain ⟨k, inside, rfl⟩ := List.mem_map.mp member
    have inside := List.mem_range.mp inside
    have behind := before k inside
    rw [zero]
    exact inPiece_of_range positive small few (by omega) (by omega) (by omega) (by omega) (by omega)
      (by omega)

/-- **The ranges are a partition** if the last piece exists and is not left empty. -/
theorem rangesBetween_partitions {q r q' r' : Int} (positive : 1 ≤ pieceLength)
    (small : pieceLength < 2 ^ 32) (few : num ≤ 2 ^ 32) (low : 0 ≤ q) (order : q ≤ q')
    (exists' : q' < num) (first : 0 ≤ r ∧ r < pieceLength) (last : 0 < r' ∧ r' < pieceLength)
    (less : q = q' → r < r') (bound : q' * pieceLength + r' < 2 ^ 63) :
    Partitions pieceLength num (rangesBetween pieceLength q r q' r') (q * pieceLength + r)
      (q' * pieceLength + r') := by
  obtain ⟨tiles, inPiece⟩ : Tiles (·.totalOffset pieceLength) (·.length.toNat)
      (rangesBetween pieceLength q r q' r') (q * pieceLength + r) (q' * pieceLength + r') ∧
      ∀ fp ∈ rangesBetween pieceLength q r q' r', fp.InPiece pieceLength num := by
    unfold rangesBetween
    by_cases same : q = q'
    · subst same
      have less := less rfl
      rw [if_pos rfl]
      refine ⟨⟨totalOffset_of_range positive low (by omega) (by omega) (by omega) (by omega) _, ?_⟩,
        List.forall_mem_singleton.mpr (inPiece_of_range positive small few low exists' (by omega)
          (by omega) (by omega) (by omega))⟩
      show _ + ((uint32 _).toNat : Int) = _
      rw [uint32_of_range (by omega) (by omega)]
      omega
    · have next : (q + 1) * pieceLength ≤ q' * pieceLength :=
        mul_le_mul_of_nonneg_right (by omega) (by omega)
      rw [add_mul, one_mul] at next
      have upTo : q + 1 + ((q' - (q + 1)).toNat : Int) = q' := by omega
      obtain ⟨tiles, inPiece⟩ := tiles_wholePieces (n := (q' - (q + 1)).toNat) positive small few
        (show 0 ≤ q + 1 by omega) (by omega) (by rw [upTo]; omega)
      have zero : (0 : UInt32) = uint32 0 := rfl
      rw [if_neg same, List.cons_append, List.forall_mem_cons]
      refine ⟨⟨totalOffset_of_range positive low (by omega) (by omega) (by omega) (by omega) _, ?_⟩,
        inPiece_of_range positive small few low (by omega) (by omega) (by omega) (by omega)
          (by omega), ?_⟩
      · rw [upTo] at tiles
        have start : q * pieceLength + r + ((uint32 (pieceLength - r)).toNat : Int) =
            (q + 1) * pieceLength := by
          rw [uint32_of_range (by omega) (by omega)]
          ring
        rw [start]
        refine tiles_append.mpr ⟨_, tiles, ?_, ?_⟩
        · show FilePiece.totalOffset ⟨uint32 q', uint32 0, uint32 r'⟩ pieceLength = _
          rw [totalOffset_of_range positive (by omega) (by omega) (by omega) (by omega) (by omega),
            add_zero]
        · show _ + ((uint32 r').toNat : Int) = _
          rw [uint32_of_range (by omega) (by omega)]
      · refine List.forall_mem_append.mpr ⟨inPiece, List.forall_mem_singleton.mpr ?_⟩
        rw [zero]
        exact inPiece_of_range positive small few (by omega) exists' (by omega) (by omega) (by omega)
          (by omega)
  exact ⟨tiles, tiles.covers, inPiece⟩

/-- **In a partition the last piece exists and is not left empty.** -/
theorem of_rangesBetween_partitions {q r q' r' start stop : Int} (positive : 1 ≤ pieceLength)
    (small : pieceLength < 2 ^ 32) (first : 0 ≤ r ∧ r < pieceLength)
    (last : 0 ≤ r' ∧ r' < pieceLength) (start_eq : start = q * pieceLength + r)
    (stop_eq : stop = q' * pieceLength + r') (less : q = q' → r < r')
    (partition : Partitions pieceLength num (rangesBetween pieceLength q r q' r') start stop) :
    r' ≠ 0 ∧ q' < num := by
  obtain ⟨tiles, _, inPiece⟩ := partition
  unfold rangesBetween at tiles inPiece
  by_cases same : q = q'
  · have less := less same
    rw [if_pos same] at tiles inPiece
    obtain ⟨place, _⟩ := tiles_singleton.mp tiles
    have here := List.forall_mem_singleton.mp inPiece
    have index : _ = q := (here.index_eq positive).trans
      ((Int.ediv_eq_iff_of_pos (by omega)).mpr ⟨by omega, by omega⟩)
    exact ⟨by omega, by rw [← same, ← index]; exact here.exists'⟩
  · rw [if_neg same] at tiles inPiece
    obtain ⟨middle, _, behind⟩ := tiles_append.mp tiles
    obtain ⟨place, total⟩ := tiles_singleton.mp behind
    have here := (List.forall_mem_append.mp inPiece).2 _ List.mem_cons_self
    have size := uint32_of_range (n := r') last.1 (by omega)
    have some' := here.nonempty
    dsimp only at total some'
    have index : _ = q' := (here.index_eq positive).trans
      ((Int.ediv_eq_iff_of_pos (by omega)).mpr ⟨by omega, by omega⟩)
    exact ⟨by omega, by rw [← index]; exact here.exists'⟩

/-! ### With overflow -/

theorem pieceRanges_of_overflow {fps : List FilePiece} (positive : 1 ≤ pieceLength)
    (low : 0 ≤ start) (few : start / pieceLength < 2 ^ 32) (fits : IsInt64 start)
    (lengthFits : IsInt64 length) (overflow : 2 ^ 63 ≤ start + length)
    (found : pieceRanges pieceLength start length = some fps) :
    fps.length ≤ 2 ∧ (start < 2 * pieceLength ∨ pieceLength ≤ 2 ^ 30) := by
  obtain ⟨_, high⟩ := fits
  obtain ⟨_, lengthHigh⟩ := lengthFits
  have wraps : int64 (start + length) = start + length - 2 ^ 64 := by
    rw [int64, Int.bmod_def]
    omega
  have first : 0 ≤ start / pieceLength := Int.ediv_nonneg low (by omega)
  unfold pieceRanges at found
  dsimp only at found
  rw [if_neg (by omega), wraps, Int.tdiv_eq_ediv_of_nonneg low,
    int64_of_range (by omega) (by omega)] at found
  -- The end is negative, so that the index of its piece is not positive.
  obtain ⟨e, e_eq⟩ : ∃ e, start + length - 2 ^ 64 = -e := ⟨_, (neg_neg _).symm⟩
  rw [e_eq, Int.neg_tdiv, Int.tdiv_eq_ediv_of_nonneg (show 0 ≤ e by omega)] at found
  have last : 0 ≤ e / pieceLength := Int.ediv_nonneg (by omega) (by omega)
  have less : e / pieceLength ≤ e := Int.ediv_le_self _ (by omega)
  rw [int64_of_range (by omega) (by omega)] at found
  by_cases same : start / pieceLength = -(e / pieceLength)
  · rw [if_pos same] at found
    cases found
    refine ⟨by simp, .inl ?_⟩
    have less := (Int.ediv_lt_iff_lt_mul (show 0 < pieceLength by omega)).mp
      (show start / pieceLength < 2 by omega)
    exact less
  · rw [if_neg same] at found
    split at found
    · cases found
    · rename_i room
      rw [int64_of_range (n := start / pieceLength + 1) (by omega) (by omega),
        show (-(e / pieceLength) - (start / pieceLength + 1)).toNat = 0 by omega] at found
      cases found
      refine ⟨by simp, ?_⟩
      by_contra! large
      have two : ¬ start / pieceLength < 2 := by
        intro small
        have := (Int.ediv_lt_iff_lt_mul (show 0 < pieceLength by omega)).mp small
        omega
      have near : e / pieceLength < 2 ^ 33 + 1 := by
        rw [Int.ediv_lt_iff_lt_mul (by omega)]
        omega
      rw [int64_of_range (by omega) (by omega)] at room
      omega

/-- **In a partition the end has not overflowed.** -/
theorem end_of_partitions {fps : List FilePiece} (positive : 1 ≤ pieceLength)
    (small : pieceLength < 2 ^ 32) (fits : IsInt64 start) (some' : 1 ≤ length)
    (lengthFits : IsInt64 length) (found : pieceRanges pieceLength start length = some fps)
    (partition : Partitions pieceLength num fps start (start + length)) :
    0 ≤ start ∧ start + length < 2 ^ 63 := by
  obtain ⟨tiles, _, inPiece⟩ := partition
  cases fps with
  | nil =>
    have none : start = start + length := tiles
    omega
  | cons fp rest =>
    have here := inPiece fp List.mem_cons_self
    have place : fp.totalOffset pieceLength = start := tiles.1
    have index := here.index_eq positive
    have few := fp.index.toNat_lt
    rw [place] at index
    have low : 0 ≤ start := by
      have product : 0 ≤ fp.index.toNat * pieceLength := mul_nonneg (by omega) (by omega)
      have below := here.placed.1
      omega
    refine ⟨low, ?_⟩
    by_contra overflow
    obtain ⟨two, near⟩ := pieceRanges_of_overflow positive low (by omega) fits lengthFits
      (by omega) found
    -- Two ranges are too short for such a file.
    have total : length ≤ 2 * pieceLength := by
      have each : ∀ range ∈ fp :: rest, range.length.toNat ≤ pieceLength.toNat := by
        intro range member
        have inside := (inPiece range member).inside
        omega
      have sum := span_le (fun fp : FilePiece => fp.length.toNat) each
      have stop := tiles.stop_eq
      have short := Nat.mul_le_mul_right pieceLength.toNat two
      omega
    have below := (Int.ediv_lt_iff_lt_mul (show 0 < pieceLength by omega)).mp
      (show start / pieceLength < 2 ^ 32 by omega)
    rcases near with near | near <;> omega

/-- The file starts and ends among the positions of the existing pieces, and it does not end where a
piece ends. -/
structure EndsInside (pieceLength num start length : Int) : Prop where
  low : 0 ≤ start
  high : start + length < 2 ^ 63
  inside : ¬ pieceLength ∣ start + length
  exists' : (start + length) / pieceLength < num

/-- **The ranges are a partition exactly when the file ends inside a piece.** -/
theorem pieceRanges_partition_iff (positive : 1 ≤ pieceLength) (small : pieceLength < 2 ^ 32)
    (few : num < 2 ^ 32) (fits : IsInt64 start) (some' : 1 ≤ length) (lengthFits : IsInt64 length) :
    (∃ fps, pieceRanges pieceLength start length = some fps ∧
        Partitions pieceLength num fps start (start + length)) ↔
      EndsInside pieceLength num start length := by
  have first := Int.ediv_mul_add_emod start pieceLength
  have last := Int.ediv_mul_add_emod (start + length) pieceLength
  have firstLow := Int.emod_nonneg start (show pieceLength ≠ 0 by omega)
  have firstHigh := Int.emod_lt_of_pos start (show 0 < pieceLength by omega)
  have lastLow := Int.emod_nonneg (start + length) (show pieceLength ≠ 0 by omega)
  have lastHigh := Int.emod_lt_of_pos (start + length) (show 0 < pieceLength by omega)
  have less : start / pieceLength = (start + length) / pieceLength →
      start % pieceLength < (start + length) % pieceLength := by
    intro same
    rw [same] at first
    omega
  constructor
  · rintro ⟨fps, found, partition⟩
    obtain ⟨low, high⟩ := end_of_partitions positive small fits some' lengthFits found partition
    rw [pieceRanges_of_range positive low some' high] at found
    dsimp only at found
    split at found
    · cases found
    · cases found
      obtain ⟨inside, exists'⟩ := of_rangesBetween_partitions positive small ⟨firstLow, firstHigh⟩
        ⟨lastLow, lastHigh⟩ first.symm last.symm less partition
      exact ⟨low, high, mt Int.emod_eq_zero_of_dvd inside, exists'⟩
  · rintro ⟨low, high, inside, exists'⟩
    have inside := mt Int.dvd_of_emod_eq_zero inside
    have index : 0 ≤ start / pieceLength := Int.ediv_nonneg low (by omega)
    have order : start / pieceLength ≤ (start + length) / pieceLength :=
      Int.ediv_le_ediv (by omega) (by omega)
    refine ⟨rangesBetween pieceLength (start / pieceLength) (start % pieceLength)
      ((start + length) / pieceLength) ((start + length) % pieceLength), ?_, ?_⟩
    · rw [pieceRanges_of_range positive low some' high]
      dsimp only
      rw [if_neg]
      rintro ⟨_, negative⟩
      rw [int64_of_range (by omega) (by omega)] at negative
      omega
    · have partition := rangesBetween_partitions positive small few.le index order exists'
        ⟨firstLow, firstHigh⟩ ⟨by omega, lastHigh⟩ less (by omega)
      rwa [first, last] at partition

end Ranges

/-- **The pieces of a file are a partition of it exactly when it ends inside a piece.** -/
theorem filePieces_partition_iff {info : Info} {f : File} (positive : 1 ≤ info.pieceLength)
    (small : info.pieceLength < 2 ^ 32) (few : info.numPieces < 2 ^ 32)
    (member : f ∈ info.allFiles) (fits : IsInt64 f.length) (some' : 1 ≤ f.length) :
    ∃ start, f.offset info = some start ∧
      ((∃ fps, f.filePieces info = some fps ∧
          Partitions info.pieceLength info.numPieces fps start (start + f.length)) ↔
        EndsInside info.pieceLength info.numPieces start f.length) := by
  obtain ⟨start, offset, startFits⟩ := File.exists_offset member
  refine ⟨start, offset, ?_⟩
  rw [File.filePieces, if_neg (by omega), offset]
  exact pieceRanges_partition_iff positive small few startFits some' fits

/-- A file of three bytes in pieces of two bytes: the two ranges of it. -/
theorem filePieces_partition_three :
    let info : Info := { name := str "f", pieceLength := 2, length := 3 }
    let f : File := ⟨3, []⟩
    ∃ fps, f.filePieces info = some fps ∧
      Partitions info.pieceLength info.numPieces fps 0 (0 + f.length) := by
  intro info f
  obtain ⟨start, offset, exact'⟩ := filePieces_partition_iff (by decide : 1 ≤ info.pieceLength)
    (by decide) (by decide) (by decide : f ∈ info.allFiles) ⟨by decide, by decide⟩ (by decide)
  have first : f.offset info = some 0 := by decide
  obtain rfl : 0 = start := Option.some.inj (first.symm.trans offset)
  exact exact'.mpr ⟨by decide, by decide, by decide, by decide⟩

/-- **A file that ends where a piece ends**: there is an empty range behind it, of a piece that does
not exist. -/
theorem filePieces_end_of_piece :
    let info : Info := { name := str "f", pieceLength := 2, length := 2 }
    let f : File := ⟨2, []⟩
    f ∈ info.allFiles ∧ info.DistinctPaths ∧ info.numPieces = 1 ∧
      f.filePieces info = some [⟨0, 0, 2⟩, ⟨1, 0, 0⟩] ∧
      ¬ Partitions info.pieceLength info.numPieces [⟨0, 0, 2⟩, ⟨1, 0, 0⟩] 0 2 := by
  refine ⟨by decide, by decide, by decide, by decide, fun partition => ?_⟩
  exact absurd (partition.inPiece ⟨1, 0, 0⟩ (by decide)).nonempty (by decide)

end GoBt.Metainfo
