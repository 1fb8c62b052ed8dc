/-
**Creating a torrent** (`metainfo/piece.go`, `info.go`, `internal/helper/io.go`).

The files are written one after the other into a pipe, and what comes out of it is hashed piece by
piece. The hash function is not interpreted.

* `copyNBuffer`, `generatePieces`, `writeFiles`, `generatePiecesFromFiles`, `newInfoFromFilePath` —
  the code; `Piece` — its pieces.
* `FileTree` — what is at the path the torrent is made of.
* `generatePieces_spec` — **the hashes are those of the blocks of the stream.**
* `created_info_verifies` — what is read back of each piece has its hash.
-/

import GoBt.Lib.Blocks
import GoBt.Lib.Stream
import GoBt.Metainfo.FlatStorage

namespace GoBt.Metainfo

open GoBt.Lib

/-! ### Copying -/

/-- An error of a copy. -/
inductive IoError
  | eof
  | other (text : GoString)
  deriving DecidableEq

/-- `err.Error()`. -/
def IoError.text : IoError → GoString
  | .eof => str "EOF"
  | .other text => text

/-- A reader, and the error that it returns at its end: `io.EOF`, or the error with which the writer
closed the pipe. -/
structure Source (ρ : Type) where
  reader : ρ
  last : IoError := .eof

variable {ρ : Type} [ByteReader ρ]

/-- `helper.CopyNBuffer(dst, src, n, buf)` for a destination that takes everything: the portions
that are written, the error, and the source. -/
def copyNBuffer (src : Source ρ) (n : Int) (buf : Nat) :
    List (List UInt8) × Option IoError × Source ρ :=
  let (portions, ended, reader) := copyLoop buf (n.toNat + 1) src.reader n.toNat
  -- `io.CopyBuffer` does not report `io.EOF`.
  let err := if ended.isSome ∧ src.last ≠ .eof then some src.last else none
  let written : Int := portions.flatten.length
  if written = n then (portions, none, { src with reader })
  else if written < n ∧ err = none then (portions, some .eof, { src with reader })
  else (portions, err, { src with reader })

/-- `GeneratePieces(r, pieceLength)`: every turn that goes on takes a piece from the stream. -/
def generatePiecesLoop (sha1 : List UInt8 → Hash) (pieceLength : Int) :
    Nat → Source ρ → List Hash → List Hash × Option IoError
  | 0, _, hs => (hs, none)
  | fuel + 1, r, hs =>
      let (portions, err, r) := copyNBuffer r pieceLength pieceLength.toNat
      let hs := if 0 < portions.flatten.length then hs ++ [sha1 portions.flatten] else hs
      match err with
      | some .eof => (hs, none)
      | some err => ([], some err)
      | none => generatePiecesLoop sha1 pieceLength fuel r hs

def generatePieces (sha1 : List UInt8 → Hash) (r : Source ρ) (pieceLength : Int) :
    List Hash × Option IoError :=
  generatePiecesLoop sha1 pieceLength ((remaining r.reader).length + 1) r []

def File.string (f : File) : GoString := Filepath.join f.paths

/-- `writeFiles(w, files, open)` into a pipe: the portions that are written, and the error. -/
def writeFiles (opener : File → Except GoString (List UInt8)) :
    List File → List (List UInt8) × Option GoString
  | [] => ([], none)
  | file :: rest =>
      match opener file with
      | .error err => ([], some (str "error opening " ++ file.string ++ str ": " ++ err))
      | .ok content =>
          let source : Source Chunked := { reader := .whole content }
          let (portions, err, _) := copyNBuffer source file.length 8192
          if (portions.flatten.length : Int) ≠ file.length then
            (portions, some (str "error copying " ++ file.string ++ str ": " ++
              (err.elim [] IoError.text)))
          else
            let (more, err) := writeFiles opener rest
            (portions ++ more, err)

def generatePiecesFromFiles (sha1 : List UInt8 → Hash) (files : List File) (pieceLength : Int)
    (opener : File → Except GoString (List UInt8)) : List Hash × Option GoString :=
  if pieceLength ≤ 0 then ([], some (str "piece length must be a positive integer"))
  else
    let (portions, err) := writeFiles opener files
    let pipe : Source Chunked :=
      { reader := .ofPortions portions, last := err.elim .eof .other }
    let (hs, err) := generatePieces sha1 pipe pieceLength
    (hs, err.map IoError.text)

/-! ### What is copied and hashed -/

section Copying

variable {src : Source ρ}

/-- **What `CopyNBuffer` copies**: `n` bytes, or all there is and the error at the end. -/
theorem copyNBuffer_spec (src : Source ρ) {n : Int} (nonneg : 0 ≤ n) {buf : Nat}
    (positive : 0 < buf) :
    ∃ portions reader, portions.flatten = (remaining src.reader).take n.toNat ∧
      remaining reader = (remaining src.reader).drop n.toNat ∧
      copyNBuffer src n buf = (portions,
        if n.toNat ≤ (remaining src.reader).length then none else some src.last,
        { src with reader := reader }) := by
  obtain ⟨copied, _, ended, left⟩ :=
    copyLoop_spec positive (n.toNat + 1) src.reader n.toNat (Nat.lt_succ_self _)
  refine ⟨_, _, copied, left, ?_⟩
  unfold copyNBuffer
  generalize copyLoop buf (n.toNat + 1) src.reader n.toNat = result at copied ended left ⊢
  obtain ⟨portions, eof, reader⟩ := result
  dsimp only at copied ended left ⊢
  rw [copied, ended, List.length_take]
  by_cases enough : n.toNat ≤ (remaining src.reader).length
  · rw [if_pos (by omega), if_pos enough]
  · rw [if_neg (by omega), if_neg enough]
    simp only [if_neg enough, Option.isSome_some, true_and]
    by_cases eof : src.last = .eof
    · rw [if_neg (not_not.mpr eof), if_pos ⟨by omega, rfl⟩, eof]
    · rw [if_pos eof, if_neg (fun both => nomatch both.2)]

/-- The hashes of the pieces of a stream. -/
def pieceHashes (sha1 : List UInt8 → Hash) (stream : List UInt8) (pieceLength : Nat) : List Hash :=
  (blocks stream pieceLength).map sha1

theorem generatePiecesLoop_spec (sha1 : List UInt8 → Hash) {pieceLength : Int}
    (positive : 0 < pieceLength) (fuel : Nat) (r : Source ρ) (hs : List Hash)
    (enough : (remaining r.reader).length < fuel) :
    generatePiecesLoop sha1 pieceLength fuel r hs = match r.last with
      | .eof => (hs ++ pieceHashes sha1 (remaining r.reader) pieceLength.toNat, none)
      | .other text => ([], some (.other text)) := by
  have size : 0 < pieceLength.toNat := by omega
  induction fuel generalizing r hs with
  | zero => cases enough
  | succ fuel ih =>
    obtain ⟨portions, reader, copied, left, eq⟩ := copyNBuffer_spec r positive.le size
    unfold generatePiecesLoop pieceHashes
    rw [eq]
    dsimp only
    rw [copied]
    by_cases whole : pieceLength.toNat ≤ (remaining r.reader).length
    · have some' : remaining r.reader ≠ [] := List.length_pos_iff.mp (by omega)
      rw [if_pos whole, if_pos (by rw [List.length_take]; omega)]
      dsimp only
      rw [ih _ _ (by rw [left, List.length_drop]; omega), left, blocks_cons size some']
      cases r.last with
      | eof => simp [pieceHashes]
      | other text => rfl
    · have all : (remaining r.reader).take pieceLength.toNat = remaining r.reader :=
        List.take_of_length_le (by omega)
      rw [if_neg whole, all]
      cases r.last with
      | other text => rfl
      | eof =>
        dsimp only
        by_cases empty : remaining r.reader = []
        · rw [empty, blocks_nil size]
          simp
        · rw [if_pos (List.length_pos_iff.mpr empty), blocks_cons size empty, all,
            List.drop_of_length_le (by omega), blocks_nil size]
          rfl

/-- **The hashes are those of the blocks of the stream**, and an error of the source is returned. -/
theorem generatePieces_spec (sha1 : List UInt8 → Hash) {pieceLength : Int}
    (positive : 0 < pieceLength) (r : Source ρ) :
    generatePieces sha1 r pieceLength = match r.last with
      | .eof => (pieceHashes sha1 (remaining r.reader) pieceLength.toNat, none)
      | .other text => ([], some (.other text)) :=
  generatePiecesLoop_spec sha1 positive _ r [] (Nat.lt_succ_self _)

end Copying

section Files

variable {opener : File → Except GoString (List UInt8)} {files : List File}

def dataOf (opener : File → Except GoString (List UInt8)) (f : File) : List UInt8 :=
  match opener f with
  | .ok content => content
  | .error _ => []

def AllOpen (opener : File → Except GoString (List UInt8)) (files : List File) : Prop :=
  ∀ f ∈ files, ∃ content, opener f = .ok content

/-- **The files are written one after the other**, if they have their lengths and can be opened. -/
theorem writeFiles_spec
    (sizes : ∀ f ∈ files, ∀ content, opener f = .ok content → (content.length : Int) = f.length) :
    ((writeFiles opener files).2 = none ↔ AllOpen opener files) ∧
      ((writeFiles opener files).2 = none →
        (writeFiles opener files).1.flatten = (files.map (dataOf opener)).flatten) := by
  induction files with
  | nil => exact ⟨iff_of_true rfl nofun, fun _ => rfl⟩
  | cons file rest ih =>
    obtain ⟨here, later⟩ := List.forall_mem_cons.mp sizes
    obtain ⟨opens, written⟩ := ih later
    unfold AllOpen writeFiles
    rw [List.forall_mem_cons, List.map_cons, List.flatten_cons, dataOf]
    cases opened : opener file with
    | error err => simp
    | ok content =>
      have size := here content opened
      have length : file.length.toNat = content.length := by omega
      obtain ⟨portions, _, copied, _, eq⟩ := copyNBuffer_spec
        ({ reader := .whole content } : Source Chunked) (show 0 ≤ file.length by omega)
        (show 0 < 8192 by decide)
      rw [Chunked.remaining_whole, length, List.take_length] at copied
      dsimp only
      rw [eq]
      dsimp only
      rw [copied, if_neg (not_not.mpr size)]
      refine ⟨by simpa [AllOpen] using opens, fun fine => ?_⟩
      rw [List.flatten_append, copied, written fine]

/-- **The hashes of the files laid end to end.** -/
theorem generatePiecesFromFiles_spec (sha1 : List UInt8 → Hash) {pieceLength : Int}
    (positive : 0 < pieceLength)
    (sizes : ∀ f ∈ files, ∀ content, opener f = .ok content → (content.length : Int) = f.length) :
    ((generatePiecesFromFiles sha1 files pieceLength opener).2 = none ↔ AllOpen opener files) ∧
      ((generatePiecesFromFiles sha1 files pieceLength opener).2 = none →
        (generatePiecesFromFiles sha1 files pieceLength opener).1 =
          pieceHashes sha1 (files.map (dataOf opener)).flatten pieceLength.toNat) := by
  obtain ⟨opens, written⟩ := writeFiles_spec sizes
  unfold generatePiecesFromFiles
  rw [if_neg (not_le.mpr positive)]
  generalize writeFiles opener files = result at opens written ⊢
  obtain ⟨portions, err⟩ := result
  dsimp only at opens written ⊢
  rw [generatePieces_spec sha1 positive]
  cases err with
  | some text => simpa using opens
  | none =>
    simp only [Option.elim_none, Option.map_none, true_iff, forall_const] at opens written ⊢
    refine ⟨opens, ?_⟩
    rw [Chunked.remaining_ofPortions, written]

end Files

/-! ### Directory trees -/

/-- A file of a directory tree: the names on the way to it and its content. -/
structure TreeFile where
  names : List GoString
  content : List UInt8
  named : names ≠ [] ∧ ∀ name ∈ names, Filepath.IsName name
  size : content.length < 2 ^ 63

/-- What is at a path: nothing that can be read, a file, or a directory with files below it. `Walk`
may end with an error. -/
inductive FileTree
  | missing (err : GoString)
  | file (content : List UInt8) (size : content.length < 2 ^ 63)
  | dir (files : List TreeFile) (distinct : (files.map TreeFile.names).Nodup)
      (walkError : Option GoString)

namespace FileTree

/-- The files on the disk, if the tree is at `root`. -/
def disk (root : GoString) : FileTree → Disk
  | .missing _ => fun _ => none
  | .file content _ => fun path => if path = root then some content else none
  | .dir files _ _ => fun path =>
      (files.find? fun f => Filepath.join (root :: f.names) = path).map TreeFile.content

end FileTree

/-- `getAllInfoFiles(rootDir)`: what `Walk` visits, without the files below or named `.git`. -/
def getAllInfoFiles (rootDir : GoString) (visited : List TreeFile) (walkError : Option GoString) :
    List File × Option GoString :=
  let files := (visited.filter fun f => str ".git" ∉ f.names).map fun f =>
    { length := (f.content.length : Int), paths := f.names }
  match walkError with
  | some err => (files, some err)
  | none =>
      if files.length = 0 then
        (files, some (str "no files in the directory '" ++ rootDir ++ str "'"))
      else (files, none)

/-- `sort.Sort(files(fs))`. -/
def sortFiles (fs : List File) : List File := fs.mergeSort fun f g => ¬ g.string < f.string

/-- Where `NewInfoFromFilePath` opens a file. -/
def File.pathBelow (root : GoString) (file : File) : GoString :=
  if 0 < file.paths.length then Filepath.join (root :: file.paths) else root

/-- The function that `NewInfoFromFilePath` opens the files with. -/
def openAt (os : Os) (disk : Disk) (root : GoString) (file : File) :
    Except GoString (List UInt8) :=
  let path := file.pathBelow root
  match disk path with
  | none => .error (str "open " ++ path ++ str ": no such file or directory")
  | some content =>
      match os.openError path with
      | some err => .error (str err.text)
      | none => .ok content

/-- What `NewInfoFromFilePath` does once it has the files. -/
def fillInfo (os : Os) (sha1 : List UInt8 → Hash) (disk : Disk) (root : GoString)
    (pieceLength : Int) (info : Info) : Info × Option GoString :=
  let (pieces, err) :=
    generatePiecesFromFiles sha1 info.allFiles pieceLength (openAt os disk root)
  match err with
  | none => ({ info with
      pieces := pieces
      name := Filepath.base root
      pieceLength := pieceLength }, none)
  | some err => ({ info with pieces := pieces }, some (str "error generating pieces: " ++ err))

def newInfoFromFilePath (os : Os) (sha1 : List UInt8 → Hash) (tree : FileTree) (root : GoString)
    (pieceLength : Int) : Info × Option GoString :=
  let root := Filepath.clean root
  match tree with
  | .missing err => ({ name := [] }, some err)
  | .file content _ =>
      fillInfo os sha1 (tree.disk root) root pieceLength { name := [], length := content.length }
  | .dir visited _ walkError =>
      match getAllInfoFiles root visited walkError with
      | (files, some err) => ({ name := [], files := files }, some err)
      | (files, none) =>
          fillInfo os sha1 (tree.disk root) root pieceLength { name := [], files := sortFiles files }

/-! ### Pieces -/

structure Piece where
  info : Info
  index : Nat

def Info.countPieces (info : Info) : Nat := info.pieces.length

/-- `info.Piece(index)`; `none` is a panic. -/
def Info.piece (info : Info) (index : Nat) : Option Piece :=
  if info.pieces.length ≤ index then none else some ⟨info, index⟩

namespace Piece

def offset (p : Piece) : Int := int64 (p.index * p.info.pieceLength)

/-- `p.Hash()`; `none` is a panic. -/
def hash (p : Piece) : Option Hash := p.info.pieces[p.index]?

def length (p : Piece) : Int :=
  if (p.index : Int) = p.info.countPieces - 1 then
    int64 (p.info.totalLength - int64 (p.index * p.info.pieceLength))
  else p.info.pieceLength

end Piece

/-! ### The files of the torrent and those on the disk -/

theorem openAt_eq_ok_iff {os : Os} {disk : Disk} {root : GoString} {f : File}
    {content : List UInt8} : openAt os disk root f = .ok content ↔
      disk (f.pathBelow root) = some content ∧ os.openError (f.pathBelow root) = none := by
  unfold openAt
  dsimp only
  cases disk (f.pathBelow root) with
  | none => simp
  | some held =>
    cases os.openError (f.pathBelow root) with
    | none => simp
    | some err => simp

/-- The pieces, the files and the disk are about the same bytes. -/
structure Describes (os : Os) (sha1 : List UInt8 → Hash) (disk : Disk) (root : GoString)
    (info : Info) (data : List UInt8) (pieceLength : Nat) : Prop where
  positive : 0 < pieceLength
  pieceLength_eq : info.pieceLength = pieceLength
  pieces_eq : info.pieces = pieceHashes sha1 data pieceLength
  nonneg : info.NonNegative
  size_eq : info.size = data.length
  bytes : ∀ x, byteOf root info disk x = data[x]?
  opens : ∀ f ∈ info.storedFiles, os.openError (f.pathWithPrefix root info) = none

/-- What `NewInfoFromFilePath` leaves on success. -/
def Info.finish (info : Info) (root : GoString) (pieces : List Hash) (pieceLength : Int) : Info :=
  { info with pieces := pieces, name := Filepath.base root, pieceLength := pieceLength }

section Finish

variable {os : Os} {sha1 : List UInt8 → Hash} {disk : Disk} {info : Info} {path : GoString}
  {pieceLength : Int}

theorem fillInfo_created (created : (fillInfo os sha1 disk path pieceLength info).2 = none) :
    (generatePiecesFromFiles sha1 info.allFiles pieceLength (openAt os disk path)).2 = none ∧
      (fillInfo os sha1 disk path pieceLength info).1 = info.finish path
        (generatePiecesFromFiles sha1 info.allFiles pieceLength (openAt os disk path)).1
        pieceLength := by
  unfold fillInfo at created ⊢
  generalize generatePiecesFromFiles sha1 info.allFiles pieceLength (openAt os disk path) = result
    at created ⊢
  obtain ⟨pieces, err⟩ := result
  cases err with
  | some err => cases created
  | none => exact ⟨rfl, rfl⟩

theorem storedFiles_finish
    (named : ∀ f ∈ info.files, f.paths ≠ [] ∧ ∀ name ∈ f.paths, Filepath.IsName name)
    (path : GoString) (pieces : List Hash) (pieceLength : Int) :
    let made := info.finish (Filepath.clean path) pieces pieceLength
    (made.storedFiles.map fun f =>
        (f.length, f.pathWithPrefix (Filepath.dir (Filepath.clean path)) made)) =
      info.allFiles.map fun f => (f.length, f.pathBelow (Filepath.clean path)) := by
  dsimp only
  unfold Info.storedFiles Info.allFiles File.pathWithPrefix
  have same : (info.finish (Filepath.clean path) pieces pieceLength).isDir = info.isDir := rfl
  rw [same]
  cases info.isDir with
  | true =>
    refine List.map_congr_left fun f member => ?_
    obtain ⟨some', areNames⟩ := named f member
    rw [if_pos rfl, File.pathBelow, if_pos (List.length_pos_iff.mpr some')]
    exact congrArg _ (Filepath.join_dir_base path areNames)
  | false =>
    have noNames : ∀ name ∈ ([] : List GoString), Filepath.IsName name := by simp
    have place := Filepath.join_dir_base path noNames
    obtain ⟨rooted, stack, canonical, eq⟩ := Filepath.clean_canonical path
    have here : Filepath.join [Filepath.clean path] = Filepath.clean path := by
      rw [eq, Filepath.join_names canonical noNames]
      rfl
    rw [here] at place
    exact congrArg (fun filename => [(info.length, filename)]) place

/-- If the files of a torrent are on the disk with their lengths, its bytes are those of the files in
order. -/
theorem bytes_of_held {made : Info} {root : GoString} {files : List File}
    {place : File → GoString}
    (found : (made.storedFiles.map fun f => (f.length, f.pathWithPrefix root made)) =
      files.map fun f => (f.length, place f))
    (held : ∀ f ∈ files, ∃ content, disk (place f) = some content ∧
      (content.length : Int) = f.length) :
    made.NonNegative ∧ made.size = (files.map fun f => contentOf disk (place f)).flatten.length ∧
      ∀ x, byteOf root made disk x = (files.map fun f => contentOf disk (place f)).flatten[x]? := by
  have full : ∀ entry ∈ files.map fun f => (f.length, place f),
      ((contentOf disk entry.2).length : Int) = entry.1 := by
    rw [List.forall_mem_map]
    intro f member
    obtain ⟨content, there, length⟩ := held f member
    rw [contentOf, there]
    exact length
  rw [← found, List.forall_mem_map] at full
  have contents : (files.map fun f => contentOf disk (place f)) =
      made.storedFiles.map fun f => contentOf disk (f.pathWithPrefix root made) := by
    have mapped := congrArg (List.map fun entry : Int × GoString => contentOf disk entry.2) found
    rw [List.map_map, List.map_map] at mapped
    exact mapped.symm
  have sizes : ∀ f ∈ made.storedFiles,
      (contentOf disk (f.pathWithPrefix root made)).length = f.size := by
    intro f member
    have length := full f member
    dsimp only at length
    rw [File.size]
    omega
  rw [contents]
  refine ⟨fun f member => ?_, ?_, byteAt_flatten sizes⟩
  · have length := full f member
    dsimp only at length
    omega
  · rw [Info.size, span, List.length_flatten, List.map_map]
    exact congrArg List.sum (List.map_congr_left fun f member => (sizes f member).symm)

theorem sizes_of_held {root : GoString}
    (held : ∀ f ∈ info.allFiles, ∃ content, disk (f.pathBelow root) = some content ∧
      (content.length : Int) = f.length) :
    ∀ f ∈ info.allFiles, ∀ content, openAt os disk root f = .ok content →
      (content.length : Int) = f.length := by
  intro f member content opens
  obtain ⟨content', there, length⟩ := held f member
  rw [(openAt_eq_ok_iff.mp opens).1] at there
  cases there
  exact length

theorem fillInfo_succeeds {root : GoString} (positive : 0 < pieceLength)
    (opens : ∀ name, os.openError name = none)
    (held : ∀ f ∈ info.allFiles, ∃ content, disk (f.pathBelow root) = some content ∧
      (content.length : Int) = f.length) :
    (fillInfo os sha1 disk root pieceLength info).2 = none := by
  have generated := (generatePiecesFromFiles_spec sha1 positive (sizes_of_held held)).1.mpr
    fun f member => by
      obtain ⟨content, there, _⟩ := held f member
      exact ⟨content, openAt_eq_ok_iff.mpr ⟨there, opens _⟩⟩
  unfold fillInfo
  generalize generatePiecesFromFiles sha1 info.allFiles pieceLength (openAt os disk root) = result
    at generated ⊢
  obtain ⟨pieces, err⟩ := result
  cases generated
  rfl

/-- **The bytes that are hashed are those that the reader finds.** -/
theorem fillInfo_describes (positive : 0 < pieceLength)
    (named : ∀ f ∈ info.files, f.paths ≠ [] ∧ ∀ name ∈ f.paths, Filepath.IsName name)
    (held : ∀ f ∈ info.allFiles, ∃ content, disk (f.pathBelow (Filepath.clean path)) =
      some content ∧ (content.length : Int) = f.length)
    (created : (fillInfo os sha1 disk (Filepath.clean path) pieceLength info).2 = none) :
    ∃ data, Describes os sha1 disk (Filepath.dir (Filepath.clean path))
      (fillInfo os sha1 disk (Filepath.clean path) pieceLength info).1 data pieceLength.toNat := by
  obtain ⟨generated, made⟩ := fillInfo_created created
  obtain ⟨opened, hashes⟩ := generatePiecesFromFiles_spec sha1 positive
    (sizes_of_held held)
  have allOpen := opened.mp generated
  have hashed : (info.allFiles.map (dataOf (openAt os disk (Filepath.clean path)))) =
      info.allFiles.map fun f => contentOf disk (f.pathBelow (Filepath.clean path)) := by
    refine List.map_congr_left fun f member => ?_
    obtain ⟨content, opens⟩ := allOpen f member
    rw [dataOf, opens, contentOf, (openAt_eq_ok_iff.mp opens).1]
    rfl
  have found := storedFiles_finish named path
    (generatePiecesFromFiles sha1 info.allFiles pieceLength (openAt os disk (Filepath.clean path))).1
    pieceLength
  have permitted : ∀ entry ∈ info.allFiles.map fun f =>
      (f.length, f.pathBelow (Filepath.clean path)), os.openError entry.2 = none := by
    rw [List.forall_mem_map]
    intro f member
    obtain ⟨content, opens⟩ := allOpen f member
    exact (openAt_eq_ok_iff.mp opens).2
  rw [← found, List.forall_mem_map] at permitted
  obtain ⟨nonneg, size, bytes⟩ := bytes_of_held found held
  rw [made]
  refine ⟨_, by omega, ?_, ?_, nonneg, size, bytes, permitted⟩
  · exact (Int.toNat_of_nonneg positive.le).symm
  · exact (hashes generated).trans (by rw [hashed])

end Finish

/-! ### Reading the pieces back -/

section Reading

variable {os : Os} {sha1 : List UInt8 → Hash} {disk : Disk} {root : GoString} {info : Info}
  {data : List UInt8} {pieceLength : Nat}

theorem Describes.countPieces (d : Describes os sha1 disk root info data pieceLength) :
    info.countPieces = blockCount data.length pieceLength := by
  rw [Info.countPieces, d.pieces_eq, pieceHashes, List.length_map, blocks, List.length_map,
    List.length_range]

theorem Describes.totalLength (d : Describes os sha1 disk root info data pieceLength)
    (bound : data.length < 2 ^ 63) : info.totalLength = data.length := by
  have size := d.size_eq
  rw [Info.totalLength_eq d.nonneg (by omega), size]

theorem Describes.offset (d : Describes os sha1 disk root info data pieceLength)
    (bound : data.length < 2 ^ 63) {i : Nat} (inside : i * pieceLength < data.length) :
    (⟨info, i⟩ : Piece).offset = (i * pieceLength : Nat) := by
  rw [Piece.offset, d.pieceLength_eq]
  dsimp only
  rw [← Nat.cast_mul, int64_of_range (by omega) (by omega)]

theorem Describes.length (d : Describes os sha1 disk root info data pieceLength)
    (bound : data.length < 2 ^ 63) {i : Nat} (inside : i < info.countPieces) :
    (⟨info, i⟩ : Piece).length = (block data pieceLength i).length := by
  have positive := d.positive
  have starts : i * pieceLength < data.length :=
    (lt_blockCount_iff positive).mp (d.countPieces ▸ inside)
  rw [Piece.length, length_block, ← Piece.offset, d.offset bound starts, d.totalLength bound,
    d.pieceLength_eq]
  dsimp only
  split
  · rename_i last
    have ends : data.length ≤ (i + 1) * pieceLength := by
      rw [← blockCount_le_iff positive, ← d.countPieces]
      omega
    rw [Nat.succ_mul] at ends
    rw [int64_of_range (by omega) (by omega)]
    omega
  · rename_i notLast
    have more : (i + 1) * pieceLength < data.length := by
      rw [← lt_blockCount_iff positive, ← d.countPieces]
      omega
    rw [Nat.succ_mul] at more
    omega

theorem Describes.read (d : Describes os sha1 disk root info data pieceLength)
    (bound : data.length < 2 ^ 63) {i : Nat} (inside : i < info.countPieces)
    (opened : List GoString) :
    let p : Piece := ⟨info, i⟩
    let result := Reader.readAt os ⟨info, root, opened⟩ disk p.length.toNat p.offset
    result.ending = .returned none ∧ (result.data.length : Int) = p.length ∧
      p.hash = some (sha1 result.data) := by
  have starts : i * pieceLength < data.length :=
    (lt_blockCount_iff d.positive).mp (d.countPieces ▸ inside)
  have there : ∀ j (within : j < (block data pieceLength i).length),
      byteOf root info disk (i * pieceLength + j) = some (block data pieceLength i)[j] := by
    intro j within
    rw [d.bytes, ← List.getElem?_drop, ← List.getElem?_eq_getElem within, block]
    rw [length_block] at within
    rw [List.getElem?_take_of_lt (by omega)]
  have fits : info.size < 2 ^ 63 := d.size_eq ▸ bound
  obtain ⟨opened', result⟩ := Reader.readLoop_written (r := ⟨info, root, opened⟩) (n := 0)
    d.opens d.nonneg fits there (Nat.zero_le _) (Nat.lt_add_left 0 (Nat.lt_succ_self _))
  rw [List.take_zero, Nat.add_zero] at result
  dsimp only
  rw [d.length bound inside, d.offset bound starts, Int.toNat_natCast, Reader.readAt, result]
  refine ⟨rfl, rfl, ?_⟩
  rw [d.countPieces] at inside
  rw [Piece.hash, d.pieces_eq, pieceHashes, blocks, List.map_map, List.getElem?_map,
    List.getElem?_range inside]
  rfl

theorem Describes.sum_lengths (d : Describes os sha1 disk root info data pieceLength)
    (bound : data.length < 2 ^ 63) :
    (((List.range info.countPieces).filterMap info.piece).map Piece.length).sum = data.length := by
  have enough : data.length ≤ info.countPieces * pieceLength := by
    rw [← blockCount_le_iff d.positive, d.countPieces]
  have lengths : ((List.range info.countPieces).filterMap info.piece).map Piece.length =
      ((List.range info.countPieces).map (block data pieceLength)).map fun b => (b.length : Int) := by
    rw [List.map_map, List.map_filterMap, ← List.filterMap_eq_map]
    refine List.filterMap_congr fun i member => ?_
    have inside := List.mem_range.mp member
    have here : info.piece i = some ⟨info, i⟩ := if_neg (not_le.mpr inside)
    rw [here, Option.map_some, d.length bound inside]
    rfl
  have flat := congrArg List.length (flatten_blocks enough)
  rw [List.length_flatten] at flat
  rw [lengths, ← flat, Nat.cast_list_sum, List.map_map (l := (List.range _).map _)]
  rfl

end Reading

/-! ### Trees on the disk -/

namespace FileTree

/-- The number of bytes of the files that a torrent is made of. -/
def size : FileTree → Nat
  | .missing _ => 0
  | .file content _ => content.length
  | .dir files _ _ => span (fun f => f.content.length) (files.filter fun f => str ".git" ∉ f.names)

theorem disk_dir {files : List TreeFile} (distinct : (files.map TreeFile.names).Nodup)
    (walkError : Option GoString) (path : GoString) {f : TreeFile} (member : f ∈ files) :
    (FileTree.dir files distinct walkError).disk (Filepath.clean path)
      (Filepath.join (Filepath.clean path :: f.names)) = some f.content := by
  obtain ⟨rooted, stack, canonical, eq⟩ := Filepath.clean_canonical path
  rw [disk, eq, Option.map_eq_some_iff]
  cases found : files.find? fun g => decide
      (Filepath.join (Filepath.render rooted stack :: g.names) =
        Filepath.join (Filepath.render rooted stack :: f.names)) with
  | none => exact absurd (List.find?_eq_none.mp found f member) (by simp)
  | some g =>
    have same := List.find?_some found
    rw [decide_eq_true_eq] at same
    have names := Filepath.join_injective canonical g.named.2 f.named.2 same
    have unique := List.inj_on_of_nodup_map distinct (List.mem_of_find?_eq_some found) member names
    exact ⟨g, rfl, by rw [unique]⟩

end FileTree

theorem getAllInfoFiles_ok {rootDir : GoString} {visited : List TreeFile}
    {walkError : Option GoString} {files : List File}
    (found : getAllInfoFiles rootDir visited walkError = (files, none)) :
    files ≠ [] ∧ files = (visited.filter fun f => str ".git" ∉ f.names).map fun f =>
      { length := (f.content.length : Int), paths := f.names } := by
  unfold getAllInfoFiles at found
  cases walkError with
  | some err => cases found
  | none =>
    dsimp only at found
    split at found
    · cases found
    · rename_i some'
      obtain ⟨rfl, _⟩ := Prod.mk.inj found
      exact ⟨fun empty => some' (by rw [empty]; rfl), rfl⟩

section Created

variable {os : Os} {sha1 : List UInt8 → Hash} {root : GoString} {pieceLength : Int}

theorem fillInfo_file_describes {content : List UInt8} (size : content.length < 2 ^ 63)
    (positive : 0 < pieceLength)
    (created : (fillInfo os sha1 ((FileTree.file content size).disk (Filepath.clean root))
      (Filepath.clean root) pieceLength { name := [], length := content.length }).2 = none) :
    ∃ data, data.length = content.length ∧
      Describes os sha1 ((FileTree.file content size).disk (Filepath.clean root))
        (Filepath.dir (Filepath.clean root))
        (fillInfo os sha1 ((FileTree.file content size).disk (Filepath.clean root))
          (Filepath.clean root) pieceLength { name := [], length := content.length }).1
        data pieceLength.toNat := by
  have held : ∀ f ∈ ({ name := [], length := content.length } : Info).allFiles, ∃ stored,
      (FileTree.file content size).disk (Filepath.clean root)
        (f.pathBelow (Filepath.clean root)) = some stored ∧ (stored.length : Int) = f.length := by
    intro f member
    rw [List.mem_singleton.mp member]
    exact ⟨content, if_pos rfl, rfl⟩
  obtain ⟨data, d⟩ := fillInfo_describes positive (by simp) held created
  obtain ⟨_, made⟩ := fillInfo_created created
  refine ⟨data, ?_, d⟩
  rw [← d.size_eq, made]
  simp [Info.size, Info.storedFiles, Info.isDir, Info.finish, File.size]

section Dir

variable {visited : List TreeFile} (distinct : (visited.map TreeFile.names).Nodup)
  (walkError : Option GoString) {files : List File}

theorem mem_sortFiles {rootDir : GoString}
    (found : getAllInfoFiles rootDir visited walkError = (files, none)) :
    ∀ f ∈ sortFiles files, ∃ g ∈ visited,
      f = { length := (g.content.length : Int), paths := g.names } := by
  intro f member
  rw [sortFiles, List.mem_mergeSort, (getAllInfoFiles_ok found).2] at member
  obtain ⟨g, kept, rfl⟩ := List.mem_map.mp member
  exact ⟨g, (List.mem_filter.mp kept).1, rfl⟩

theorem isDir_sortFiles {rootDir : GoString}
    (found : getAllInfoFiles rootDir visited walkError = (files, none)) :
    ({ name := [], files := sortFiles files } : Info).isDir = true := by
  rw [Info.isDir, sortFiles, List.length_mergeSort, bne_iff_ne]
  exact fun zero => (getAllInfoFiles_ok found).1 (List.length_eq_zero_iff.mp zero)

theorem held_sortFiles
    (found : getAllInfoFiles (Filepath.clean root) visited walkError = (files, none)) :
    ∀ f ∈ ({ name := [], files := sortFiles files } : Info).allFiles, ∃ stored,
      (FileTree.dir visited distinct walkError).disk (Filepath.clean root)
        (f.pathBelow (Filepath.clean root)) = some stored ∧ (stored.length : Int) = f.length := by
  intro f member
  rw [Info.allFiles, if_pos (isDir_sortFiles walkError found)] at member
  obtain ⟨g, there, rfl⟩ := mem_sortFiles walkError found f member
  refine ⟨g.content, ?_, rfl⟩
  rw [File.pathBelow, if_pos (List.length_pos_iff.mpr g.named.1)]
  exact FileTree.disk_dir distinct walkError root there

theorem fillInfo_dir_describes (positive : 0 < pieceLength)
    (found : getAllInfoFiles (Filepath.clean root) visited walkError = (files, none))
    (created : (fillInfo os sha1
      ((FileTree.dir visited distinct walkError).disk (Filepath.clean root))
      (Filepath.clean root) pieceLength { name := [], files := sortFiles files }).2 = none) :
    ∃ data, data.length = (FileTree.dir visited distinct walkError).size ∧
      Describes os sha1 ((FileTree.dir visited distinct walkError).disk (Filepath.clean root))
        (Filepath.dir (Filepath.clean root))
        (fillInfo os sha1 ((FileTree.dir visited distinct walkError).disk (Filepath.clean root))
          (Filepath.clean root) pieceLength { name := [], files := sortFiles files }).1
        data pieceLength.toNat := by
  have named : ∀ f ∈ sortFiles files, f.paths ≠ [] ∧ ∀ name ∈ f.paths, Filepath.IsName name := by
    intro f member
    obtain ⟨g, _, rfl⟩ := mem_sortFiles walkError found f member
    exact g.named
  obtain ⟨data, d⟩ := fillInfo_describes positive named (held_sortFiles distinct walkError found)
    created
  obtain ⟨_, made⟩ := fillInfo_created created
  refine ⟨data, ?_, d⟩
  have order : (sortFiles files).Perm files := List.mergeSort_perm _ _
  have stored : (fillInfo os sha1
      ((FileTree.dir visited distinct walkError).disk (Filepath.clean root)) (Filepath.clean root)
      pieceLength { name := [], files := sortFiles files }).1.storedFiles = sortFiles files := by
    rw [made]
    exact if_pos (isDir_sortFiles walkError found)
  rw [← d.size_eq, Info.size, stored, span, (order.map File.size).sum_eq,
    (getAllInfoFiles_ok found).2, List.map_map]
  rfl

end Dir

theorem newInfo_describes {tree : FileTree} (positive : 0 < pieceLength)
    (created : (newInfoFromFilePath os sha1 tree root pieceLength).2 = none) :
    ∃ data, data.length = tree.size ∧
      Describes os sha1 (tree.disk (Filepath.clean root)) (Filepath.dir (Filepath.clean root))
        (newInfoFromFilePath os sha1 tree root pieceLength).1 data pieceLength.toNat := by
  unfold newInfoFromFilePath at created ⊢
  dsimp only at created ⊢
  cases tree with
  | missing err => cases created
  | file content size => exact fillInfo_file_describes size positive created
  | dir visited distinct walkError =>
    dsimp only at created ⊢
    split at created
    · cases created
    · rename_i files found
      exact fillInfo_dir_describes distinct walkError positive found created

/-- **A created torrent verifies against its own data.** It has the pieces that its length asks for;
each is at least one byte and at most the piece length long, and they add up; and what a reader in
the directory above finds of a piece has its hash. -/
theorem created_info_verifies {tree : FileTree} (positive : 0 < pieceLength)
    (fits : tree.size < 2 ^ 63)
    (created : (newInfoFromFilePath os sha1 tree root pieceLength).2 = none) :
    let info := (newInfoFromFilePath os sha1 tree root pieceLength).1
    let disk := tree.disk (Filepath.clean root)
    info.countPieces = (info.totalLength + pieceLength - 1) / pieceLength ∧
      (((List.range info.countPieces).filterMap info.piece).map Piece.length).sum =
        info.totalLength ∧
      ∀ i < info.countPieces, ∃ p, info.piece i = some p ∧
        0 < p.length ∧ p.length ≤ pieceLength ∧
        ∀ opened : List GoString,
          let reader : Reader := ⟨info, Filepath.dir (Filepath.clean root), opened⟩
          let result := reader.readAt os disk p.length.toNat p.offset
          result.ending = .returned none ∧ (result.data.length : Int) = p.length ∧
            p.hash = some (sha1 result.data) := by
  obtain ⟨data, size, d⟩ := newInfo_describes positive created
  have bound : data.length < 2 ^ 63 := size ▸ fits
  have total := d.totalLength bound
  have cast : (pieceLength.toNat : Int) = pieceLength := Int.toNat_of_nonneg positive.le
  refine ⟨?_, ?_, fun i inside => ?_⟩
  · rw [d.countPieces, total, blockCount, Int.natCast_ediv, cast]
    congr 1
    omega
  · rw [d.sum_lengths bound, total]
  · have starts : i * pieceLength.toNat < data.length :=
      (lt_blockCount_iff d.positive).mp (d.countPieces ▸ inside)
    have length := d.length bound inside
    rw [length_block] at length
    exact ⟨⟨_, i⟩, if_neg (not_le.mpr inside), by omega, by omega, d.read bound inside⟩

/-- Nothing but an error of the operating system, or that there are no files, keeps a directory from
being made into a torrent. -/
theorem newInfo_succeeds (sha1 : List UInt8 → Hash) (root : GoString) {visited : List TreeFile}
    (distinct : (visited.map TreeFile.names).Nodup) (positive : 0 < pieceLength)
    (opens : ∀ name, os.openError name = none)
    (some' : ∃ f ∈ visited, str ".git" ∉ f.names) :
    (newInfoFromFilePath os sha1 (.dir visited distinct none) root pieceLength).2 = none ∧
      (newInfoFromFilePath os sha1 (.dir visited distinct none) root pieceLength).1.isDir = true := by
  obtain ⟨files, found⟩ : ∃ files,
      getAllInfoFiles (Filepath.clean root) visited none = (files, none) := by
    refine ⟨_, if_neg ?_⟩
    obtain ⟨f, member, kept⟩ := some'
    intro zero
    have empty := List.map_eq_nil_iff.mp (List.length_eq_zero_iff.mp zero)
    exact List.filter_eq_nil_iff.mp empty f member (by simpa using kept)
  have isDir := isDir_sortFiles none found
  have held := held_sortFiles distinct none found
  have fine : (fillInfo os sha1 ((FileTree.dir visited distinct none).disk (Filepath.clean root))
      (Filepath.clean root) pieceLength { name := [], files := sortFiles files }).2 = none :=
    fillInfo_succeeds positive opens held
  unfold newInfoFromFilePath
  dsimp only
  rw [found]
  refine ⟨fine, ?_⟩
  dsimp only
  rw [(fillInfo_created fine).2]
  exact isDir

end Created

/-- Two files, one of them empty, and one that is left out. -/
def sampleTree : List TreeFile :=
  [⟨[str ".git", str "HEAD"], [9], by decide, by decide⟩,
    ⟨[str "a"], [1, 2, 3], by decide, by decide⟩, ⟨[str "b"], [], by decide, by decide⟩]

theorem sample_tree_verifies :
    let tree : FileTree := .dir sampleTree (by decide) none
    let info := (newInfoFromFilePath permissive Hash.copyFrom tree (str "x/dir") 2).1
    info.countPieces = 2 ∧ ∀ i < 2, ∃ p, info.piece i = some p ∧
      let reader : Reader := newReader (str "x") info
      let result := reader.readAt permissive (tree.disk (str "x/dir")) p.length.toNat p.offset
      p.hash = some (Hash.copyFrom result.data) := by
  intro tree info
  have positive : (0 : Int) < 2 := by decide
  have fits : tree.size < 2 ^ 63 := by decide
  have created : (newInfoFromFilePath permissive Hash.copyFrom tree (str "x/dir") 2).2 = none :=
    (newInfo_succeeds _ _ _ positive (fun _ => rfl)
      ⟨_, List.mem_cons_of_mem _ List.mem_cons_self, by decide⟩).1
  obtain ⟨data, size, d⟩ := newInfo_describes positive created
  have count : info.countPieces = 2 := by
    rw [d.countPieces, size]
    decide
  obtain ⟨_, _, pieces⟩ := created_info_verifies positive fits created
  have above : Filepath.dir (Filepath.clean (str "x/dir")) = str "x" := by decide
  have clean : Filepath.clean (str "x/dir") = str "x/dir" := by decide
  refine ⟨count, fun i inside => ?_⟩
  obtain ⟨p, piece, _, _, read⟩ := pieces i (count.symm ▸ inside)
  have hash := (read []).2.2
  rw [above, clean] at hash
  exact ⟨p, piece, hash⟩

def zeros (name : GoString) (isName : Filepath.IsName name) (size : Nat) (fits : size < 2 ^ 63) :
    TreeFile :=
  ⟨[name], List.replicate size 0, ⟨List.cons_ne_nil _ _, by simpa using isName⟩,
    by rwa [List.length_replicate]⟩

def twins (size : Nat) (fits : size < 2 ^ 63) : List TreeFile :=
  [zeros (str "a") (by decide) size fits, zeros (str "b") (by decide) size fits]

theorem nodup_twins (size : Nat) (fits : size < 2 ^ 63) :
    ((twins size fits).map TreeFile.names).Nodup := by
  show [[str "a"], [str "b"]].Nodup
  decide

theorem size_twins (size : Nat) (fits : size < 2 ^ 63) :
    (FileTree.dir (twins size fits) (nodup_twins size fits) none).size = size + size := by
  have kept : ((twins size fits).filter fun f => str ".git" ∉ f.names) = twins size fits := by
    refine List.filter_eq_self.mpr fun f member => ?_
    simp only [twins, List.mem_cons, List.not_mem_nil, or_false] at member
    rcases member with rfl | rfl <;> exact decide_eq_true (by simp only [zeros]; decide)
  rw [FileTree.size, kept]
  simp [twins, zeros]

theorem twins_created {size : Nat} (fits : size < 2 ^ 63) {pieceLength : Int}
    (positive : 0 < pieceLength) :
    let created := newInfoFromFilePath permissive Hash.copyFrom
      (.dir (twins size fits) (nodup_twins size fits) none) (str "dir") pieceLength
    created.2 = none ∧ created.1.countPieces = blockCount (size + size) pieceLength.toNat ∧
      created.1.totalLength = int64 (size + size : Nat) := by
  have made := newInfo_succeeds Hash.copyFrom (str "dir") (nodup_twins size fits) positive
    (show ∀ name, permissive.openError name = none from fun _ => rfl)
    ⟨_, List.mem_cons_self, by simp only [zeros]; decide⟩
  obtain ⟨data, length, d⟩ := newInfo_describes positive made.1
  rw [size_twins] at length
  refine ⟨made.1, ?_, ?_⟩
  · rw [d.countPieces, length]
  · rw [Info.totalLength_of_isDir d.nonneg made.2, d.size_eq, length]

/-- A directory of two files of `2 ^ 62` bytes each is made into a torrent of `2 ^ 23` pieces of
`2 ^ 40` bytes, but its length is negative. -/
theorem overflowing_tree_created :
    ∃ tree : FileTree,
      let created := newInfoFromFilePath permissive Hash.copyFrom tree (str "dir") (2 ^ 40)
      created.2 = none ∧ created.1.countPieces = 2 ^ 23 ∧ created.1.totalLength = -2 ^ 63 ∧
        (created.1.countPieces : Int) ≠ (created.1.totalLength + 2 ^ 40 - 1) / 2 ^ 40 := by
  have fits : 2 ^ 62 < 2 ^ 63 := by decide
  obtain ⟨created, count, total⟩ := twins_created fits (show (0 : Int) < 2 ^ 40 by decide)
  have pieces : blockCount (2 ^ 62 + 2 ^ 62) (2 ^ 40 : Int).toNat = 2 ^ 23 := by decide
  have length : int64 (2 ^ 62 + 2 ^ 62 : Nat) = -2 ^ 63 := by decide
  rw [pieces] at count
  rw [length] at total
  refine ⟨_, created, count, total, ?_⟩
  rw [count, total]
  decide

end GoBt.Metainfo
