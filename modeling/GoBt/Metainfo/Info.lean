/-
**The files of a torrent** (`metainfo/info.go`, `file.go`).

* `Info.getFileByOffset` — the file at an offset of the whole torrent; `none` is a panic.
* `getFileByOffset_inside`, `getFileByOffset_end` — up to the end, it finds the file in which the
  offset lies when the files are laid end to end.
* `getFileByOffset_eq_none_iff` — when it panics.
-/

import GoBt.Go.Filepath
import GoBt.Lib.Segments
import GoBt.Metainfo.Hash

namespace GoBt.Metainfo

open GoBt.Lib

structure File where
  length : Int
  paths : List GoString
  deriving DecidableEq

structure Info where
  name : GoString
  pieceLength : Int := 0
  pieces : List Hash := []
  length : Int := 0
  files : List File := []

namespace Info

def isDir (info : Info) : Bool := info.files.length != 0

def totalLength (info : Info) : Int :=
  if info.isDir then info.files.foldl (fun ret fi => int64 (ret + fi.length)) 0 else info.length

def pieceOffset (info : Info) (index offset : UInt32) : Int :=
  int64 (int64 (index.toNat * info.pieceLength) + offset.toNat)

/-- The loop of `GetFileByOffset` over the files that are left; `file` and `fileOffset` are the
variables of the function. -/
def getFileLoop : List File → File → Int → Option (File × Int)
  | [], file, fileOffset => if fileOffset > file.length then none else some (file, fileOffset)
  | next :: rest, _, fileOffset =>
      if fileOffset < next.length then some (next, fileOffset)
      else if fileOffset = next.length ∧ rest = [] then some (next, fileOffset)
      else getFileLoop rest next (int64 (fileOffset - next.length))

def getFileByOffset (info : Info) (offset : Int) : Option (File × Int) :=
  if info.isDir then getFileLoop info.files ⟨0, []⟩ offset
  else if offset > info.length then none
  else some (⟨info.length, [info.name]⟩, offset)

def allFiles (info : Info) : List File :=
  if info.isDir then info.files else [{ length := info.length, paths := [] }]

/-- The files that `GetFileByOffset` can return, in order. -/
def storedFiles (info : Info) : List File :=
  if info.isDir then info.files else [⟨info.length, [info.name]⟩]

end Info

def File.pathWithPrefix (f : File) (root : GoString) (info : Info) : GoString :=
  if info.isDir then Filepath.join (root :: info.name :: f.paths)
  else Filepath.join [root, info.name]

/-! ### The file at an offset -/

def File.size (f : File) : Nat := f.length.toNat

theorem File.size_eq {f : File} (nonneg : 0 ≤ f.length) : (f.size : Int) = f.length :=
  Int.toNat_of_nonneg nonneg

namespace Info

theorem getFileLoop_pass {next file : File} {rest : List File} {o : Int} (nonneg : 0 ≤ next.length)
    (behind : 0 ≤ o) (notEnd : 0 < o ∨ rest ≠ []) (bound : next.size + o < 2 ^ 63) :
    getFileLoop (next :: rest) file (next.size + o) = getFileLoop rest next o := by
  have size := File.size_eq nonneg
  have passes : ¬ ((next.size : Int) + o = next.length ∧ rest = []) := by
    rintro ⟨atEnd, last⟩
    rcases notEnd with more | other
    · omega
    · exact other last
  rw [getFileLoop, if_neg (by omega), if_neg passes, int64_of_range (by omega) (by omega)]
  congr 1
  omega

theorem getFileLoop_append {before after : List File} {f file : File} {o : Nat}
    (nonneg : ∀ g ∈ before, 0 ≤ g.length) (bound : (span File.size before : Int) + o < 2 ^ 63) :
    ∃ file', getFileLoop (before ++ f :: after) file (span File.size before + o) =
      getFileLoop (f :: after) file' o := by
  induction before generalizing file with
  | nil => exact ⟨file, by simp⟩
  | cons g rest ih =>
    rw [span_cons, Nat.cast_add, add_assoc] at bound ⊢
    rw [List.cons_append,
      getFileLoop_pass (nonneg g (by simp)) (by omega) (Or.inr (by simp)) bound]
    exact ih (fun h member => nonneg h (List.mem_cons_of_mem _ member)) (by omega)

theorem getFileLoop_inside {before after : List File} {f file : File} {o : Nat}
    (nonneg : ∀ g ∈ before ++ f :: after, 0 ≤ g.length) (inside : o < f.size)
    (bound : (span File.size before : Int) + o < 2 ^ 63) :
    getFileLoop (before ++ f :: after) file (span File.size before + o) = some (f, (o : Int)) := by
  have size := File.size_eq (nonneg f (by simp))
  obtain ⟨file', passed⟩ :=
    getFileLoop_append (fun g member => nonneg g (List.mem_append_left _ member)) bound
  rw [passed, getFileLoop, if_pos (by omega)]

theorem getFileLoop_end {before : List File} {last file : File}
    (nonneg : ∀ g ∈ before ++ [last], 0 ≤ g.length)
    (bound : (span File.size (before ++ [last]) : Int) < 2 ^ 63) :
    getFileLoop (before ++ [last]) file (span File.size (before ++ [last])) =
      some (last, last.length) := by
  have size := File.size_eq (nonneg last (by simp))
  rw [span_append, span_cons, span_nil, Nat.add_zero, Nat.cast_add] at bound ⊢
  obtain ⟨file', passed⟩ :=
    getFileLoop_append (fun g member => nonneg g (List.mem_append_left _ member)) bound
  rw [passed, getFileLoop, size, if_neg (lt_irrefl _), if_pos ⟨rfl, rfl⟩]

theorem getFileLoop_beyond {files : List File} {file : File} {o : Int}
    (nonneg : ∀ g ∈ files, 0 ≤ g.length) (beyond : 0 < o)
    (bound : span File.size files + o < 2 ^ 63) :
    getFileLoop files file (span File.size files + o) = getFileLoop [] (files.getLastD file) o := by
  induction files generalizing file with
  | nil => simp
  | cons g rest ih =>
    rw [span_cons, Nat.cast_add, add_assoc] at bound ⊢
    rw [getFileLoop_pass (nonneg g (by simp)) (by omega) (Or.inl (by omega)) bound,
      List.getLastD_cons]
    exact ih (fun h member => nonneg h (List.mem_cons_of_mem _ member)) (by omega)

theorem getFileLoop_negative {next file : File} {rest : List File} {offset : Int}
    (nonneg : 0 ≤ next.length) (negative : offset < 0) :
    getFileLoop (next :: rest) file offset = some (next, offset) := by
  rw [getFileLoop, if_pos (by omega)]

/-! ### `GetFileByOffset` -/

/-- The number of bytes of all files, without overflow. -/
def size (info : Info) : Nat := span File.size info.storedFiles

def NonNegative (info : Info) : Prop := ∀ f ∈ info.storedFiles, 0 ≤ f.length

instance (info : Info) : Decidable info.NonNegative :=
  inferInstanceAs (Decidable (∀ f ∈ info.storedFiles, 0 ≤ f.length))

theorem storedFiles_of_isDir {info : Info} (dir : info.isDir = true) :
    info.storedFiles = info.files := if_pos dir

theorem storedFiles_of_not_isDir {info : Info} (single : info.isDir = false) :
    info.storedFiles = [⟨info.length, [info.name]⟩] := by
  rw [storedFiles, single]
  rfl

theorem exists_last (info : Info) : ∃ before last, info.storedFiles = before ++ [last] := by
  cases dir : info.isDir with
  | false => exact ⟨[], _, storedFiles_of_not_isDir dir⟩
  | true =>
    rw [storedFiles_of_isDir dir]
    have nonempty : info.files ≠ [] := by
      rintro empty
      rw [isDir, empty] at dir
      cases dir
    exact ⟨_, _, (List.dropLast_append_getLast nonempty).symm⟩

/-- **Within the files**, the offset is in the file in which it lies. -/
theorem getFileByOffset_inside {info : Info} (nonneg : info.NonNegative) {before after : List File}
    {f : File} (files : info.storedFiles = before ++ f :: after) {o : Nat} (inside : o < f.size)
    (bound : (span File.size before : Int) + o < 2 ^ 63) :
    info.getFileByOffset (span File.size before + o) = some (f, (o : Int)) := by
  unfold NonNegative at nonneg
  rw [files] at nonneg
  unfold getFileByOffset
  cases dir : info.isDir with
  | true =>
    rw [storedFiles_of_isDir dir] at files
    rw [if_pos rfl, files]
    exact getFileLoop_inside nonneg inside bound
  | false =>
    rw [storedFiles_of_not_isDir dir] at files
    cases before with
    | cons g rest => cases rest <;> cases files
    | nil =>
      obtain ⟨rfl, rfl⟩ := List.cons.inj files
      have size : ((⟨info.length, [info.name]⟩ : File).size : Int) = info.length :=
        File.size_eq (nonneg _ List.mem_cons_self)
      rw [if_neg nofun, span_nil, Nat.cast_zero, zero_add, if_neg (by omega)]

/-- **At the end**, the offset is at the end of the last file. -/
theorem getFileByOffset_end {info : Info} (nonneg : info.NonNegative)
    (bound : (info.size : Int) < 2 ^ 63) :
    ∃ f, info.getFileByOffset info.size = some (f, f.length) := by
  obtain ⟨before, last, files⟩ := info.exists_last
  refine ⟨last, ?_⟩
  unfold NonNegative at nonneg
  unfold size at bound ⊢
  unfold getFileByOffset
  cases dir : info.isDir with
  | true =>
    rw [files] at nonneg bound ⊢
    rw [storedFiles_of_isDir dir] at files
    rw [if_pos rfl, files]
    exact getFileLoop_end nonneg bound
  | false =>
    rw [storedFiles_of_not_isDir dir] at files nonneg ⊢
    cases before with
    | cons g rest => cases rest <;> cases files
    | nil =>
      obtain ⟨rfl, _⟩ := List.cons.inj files
      have size : ((⟨info.length, [info.name]⟩ : File).size : Int) = info.length :=
        File.size_eq (nonneg _ List.mem_cons_self)
      rw [if_neg nofun, span_cons, span_nil, Nat.add_zero, size, if_neg (lt_irrefl _)]

theorem size_of_not_isDir {info : Info} (nonneg : info.NonNegative) (single : info.isDir = false) :
    (info.size : Int) = info.length := by
  have files := storedFiles_of_not_isDir single
  rw [size, files, span_cons, span_nil, Nat.add_zero]
  exact File.size_eq (nonneg ⟨info.length, [info.name]⟩ (by simp [files]))

theorem getFileLoop_isInt64 {files : List File} {file found : File} {offset fileOffset : Int}
    (lengths : ∀ f ∈ file :: files, IsInt64 f.length) (fits : IsInt64 offset)
    (result : getFileLoop files file offset = some (found, fileOffset)) :
    IsInt64 found.length ∧ IsInt64 fileOffset := by
  induction files generalizing file offset with
  | nil =>
    unfold getFileLoop at result
    split at result <;> cases result
    exact ⟨lengths _ List.mem_cons_self, fits⟩
  | cons next rest ih =>
    obtain ⟨_, later⟩ := List.forall_mem_cons.mp lengths
    unfold getFileLoop at result
    split_ifs at result
    · cases result
      exact ⟨later _ List.mem_cons_self, fits⟩
    · cases result
      exact ⟨later _ List.mem_cons_self, fits⟩
    · exact ih later (isInt64_int64 _) result

theorem getFileByOffset_isInt64 {info : Info} (lengths : ∀ f ∈ info.storedFiles, IsInt64 f.length)
    {offset fileOffset : Int} (fits : IsInt64 offset) {file : File}
    (found : info.getFileByOffset offset = some (file, fileOffset)) :
    IsInt64 file.length ∧ IsInt64 fileOffset := by
  unfold getFileByOffset at found
  cases dir : info.isDir with
  | true =>
    rw [dir, if_pos rfl] at found
    rw [storedFiles_of_isDir dir] at lengths
    have zero : IsInt64 0 := ⟨by decide, by decide⟩
    exact getFileLoop_isInt64 (List.forall_mem_cons.mpr ⟨zero, lengths⟩) fits found
  | false =>
    rw [dir, if_neg nofun] at found
    rw [storedFiles_of_not_isDir dir] at lengths
    split at found <;> cases found
    exact ⟨lengths _ (List.mem_singleton.mpr rfl), fits⟩

def lastLength (info : Info) : Int := (info.storedFiles.getLastD ⟨0, []⟩).length

theorem lastLength_nonneg {info : Info} (nonneg : info.NonNegative) : 0 ≤ info.lastLength := by
  obtain ⟨before, last, files⟩ := info.exists_last
  rw [lastLength, files, List.getLastD_concat]
  exact nonneg last (by simp [files])

theorem getFileByOffset_of_le {info : Info} (nonneg : info.NonNegative) {offset : Int}
    (bound : offset < 2 ^ 63) (within : offset ≤ info.size) :
    info.getFileByOffset offset ≠ none := by
  rcases Int.lt_or_le offset 0 with negative | nonnegative
  · unfold getFileByOffset
    split
    · rename_i dir
      rw [← storedFiles_of_isDir dir]
      cases files : info.storedFiles with
      | nil => simp [getFileLoop, negative.le]
      | cons next rest =>
        rw [getFileLoop_negative (nonneg next (by simp [files])) negative]
        nofun
    · rename_i single
      have length := nonneg ⟨info.length, [info.name]⟩
        (by simp [storedFiles_of_not_isDir (eq_false_of_ne_true single)])
      rw [if_neg (by dsimp only at length; omega)]
      nofun
  · obtain ⟨x, rfl⟩ := Int.eq_ofNat_of_zero_le nonnegative
    rcases (Int.ofNat_le.mp within).lt_or_eq with before | rfl
    · obtain ⟨front, f, back, o, files, rfl, inside⟩ := exists_locate File.size before
      rw [Nat.cast_add] at bound ⊢
      rw [getFileByOffset_inside nonneg files inside bound]
      nofun
    · obtain ⟨f, here⟩ := getFileByOffset_end nonneg bound
      rw [here]
      nofun

/-- **When `GetFileByOffset` panics**: beyond the end of a single file, but for several files only
if it is beyond the end by more than the last file is long. -/
theorem getFileByOffset_eq_none_iff {info : Info} (nonneg : info.NonNegative) {offset : Int}
    (bound : offset < 2 ^ 63) :
    info.getFileByOffset offset = none ↔
      if info.isDir then info.size + info.lastLength < offset else info.size < offset := by
  rcases le_or_gt offset info.size with within | beyond
  · have last := lastLength_nonneg nonneg
    refine iff_of_false (getFileByOffset_of_le nonneg bound within) ?_
    split <;> omega
  · obtain ⟨o, rfl⟩ : ∃ o, offset = info.size + o := ⟨offset - info.size, by omega⟩
    unfold getFileByOffset
    cases dir : info.isDir with
    | true =>
      have files := storedFiles_of_isDir dir
      rw [if_pos rfl, if_pos rfl, ← files, size, getFileLoop_beyond nonneg (by omega) bound,
        getFileLoop, lastLength]
      simp
    | false =>
      have whole := size_of_not_isDir nonneg dir
      have outside : info.size + o > info.length := by omega
      simpa [outside] using beyond

theorem foldl_length_eq {files : List File} (nonneg : ∀ f ∈ files, 0 ≤ f.length) {start : Nat}
    (bound : (start : Int) + span File.size files < 2 ^ 63) :
    files.foldl (fun ret fi => int64 (ret + fi.length)) (start : Int) =
      start + span File.size files := by
  induction files generalizing start with
  | nil => simp
  | cons f rest ih =>
    have size := File.size_eq (nonneg f List.mem_cons_self)
    rw [span_cons, Nat.cast_add] at bound ⊢
    rw [List.foldl_cons, ← size, int64_of_range (by omega) (by omega), ← Nat.cast_add,
      ih (fun g member => nonneg g (List.mem_cons_of_mem _ member)) (by omega)]
    omega

theorem totalLength_eq {info : Info} (nonneg : info.NonNegative)
    (bound : (info.size : Int) < 2 ^ 63) : info.totalLength = info.size := by
  unfold totalLength
  cases dir : info.isDir with
  | true =>
    have files := storedFiles_of_isDir dir
    have total := foldl_length_eq nonneg (by simpa [size] using bound : ((0 : Nat) : Int) + _ < _)
    rw [if_pos rfl, ← files, size]
    simpa using total
  | false => exact (size_of_not_isDir nonneg dir).symm

theorem foldl_length_wraps (files : List File) (nonneg : ∀ f ∈ files, 0 ≤ f.length) (start : Int) :
    files.foldl (fun ret fi => int64 (ret + fi.length)) (int64 start) =
      int64 (start + span File.size files) := by
  induction files generalizing start with
  | nil => simp
  | cons f rest ih =>
    have size := File.size_eq (nonneg f List.mem_cons_self)
    rw [List.foldl_cons, int64_add_int64, ih fun g member => nonneg g (List.mem_cons_of_mem _ member),
      span_cons, Nat.cast_add, size, add_assoc]

theorem totalLength_of_isDir {info : Info} (nonneg : info.NonNegative) (dir : info.isDir = true) :
    info.totalLength = int64 info.size := by
  have files := storedFiles_of_isDir dir
  unfold NonNegative at nonneg
  rw [files] at nonneg
  have wraps := foldl_length_wraps info.files nonneg 0
  rw [int64_of_range (by decide) (by decide), zero_add] at wraps
  rw [totalLength, if_pos dir, size, files, wraps]

theorem span_add_size_le {info : Info} {before after : List File} {f : File}
    (files : info.storedFiles = before ++ f :: after) :
    span File.size before + f.size ≤ info.size := by
  rw [size, files, span_append, span_cons]
  omega

end Info

end GoBt.Metainfo
