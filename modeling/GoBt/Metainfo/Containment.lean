/-
**Where the writer of a torrent can write** (`metainfo/file.go`, `writer.go`).

The name of a torrent and the paths of its files are whatever stood in the torrent, and
`PathWithPrefix` joins them to the directory of the writer without a look at them.

* `Info.Reaches` — the files that a write can come to.
* `run_confined` — a run of writes opens and changes no other files.
* **`contained_iff`** — the path of a file is strictly below the directory exactly when its elements
  lead there (`Filepath.LeadsBelow`), and the writer stays below its directory exactly when that
  is so for every file that a write can come to.
* **`writer_escapes`** — a file with the path `../../etc/x` is written outside of the directory.
-/

import GoBt.Metainfo.FlatStorage

namespace GoBt.Metainfo

open GoBt.Lib
open GoBt.Filepath (clean isRooted Below LeadsBelow)

/-- The elements that `PathWithPrefix` joins to the prefix. -/
def File.elements (f : File) (info : Info) : List GoString :=
  if info.isDir then info.name :: f.paths else [info.name]

theorem File.pathWithPrefix_eq (f : File) (root : GoString) (info : Info) :
    f.pathWithPrefix root info = Filepath.join (root :: f.elements info) := by
  unfold File.pathWithPrefix File.elements
  split <;> rfl

/-- A write comes to the file: bytes of it are left behind some offset. -/
def Info.Reaches (info : Info) (f : File) : Prop :=
  ∃ offset fileOffset, IsInt64 offset ∧ info.getFileByOffset offset = some (f, fileOffset) ∧
    f.length ≠ 0 ∧ 0 < int64 (f.length - fileOffset)

/-- The offset and the number of bytes of the call are those of Go values. -/
def Call.Valid (info : Info) (call : Call) : Prop :=
  IsInt64 (call.place.start info) ∧ call.bytes.length < 2 ^ 63

/-! ### What a run opens -/

/-- The writer has opened only files of which `P` holds, and no other ones have changed. -/
structure Confined (w : Writer) (disk : Disk) (P : GoString → Prop) (state : Writer × Disk) :
    Prop where
  info : state.1.info = w.info
  root : state.1.root = w.root
  opened : ∀ name ∈ state.1.files, P name
  others : ∀ name, ¬ P name → state.2 name = disk name

section Confined

variable {w : Writer} {disk : Disk} {P : GoString → Prop} {os : Os}

theorem Confined.open (os : Os) {state : Writer × Disk} (confined : Confined w disk P state)
    {filename : GoString} (allowed : P filename) :
    let opened := state.1.open os state.2 filename
    Confined w disk P (opened.1, opened.2.1) := by
  obtain ⟨info, root, opened, others⟩ := confined
  unfold Writer.open
  split
  · exact ⟨info, root, opened, others⟩
  · split
    · exact ⟨info, root, opened, others⟩
    · refine ⟨info, root, List.forall_mem_cons.mpr ⟨allowed, opened⟩, fun name other => ?_⟩
      have different : name ≠ filename := fun same => other (same ▸ allowed)
      exact (Function.update_of_ne different _ _).trans (others name other)

theorem Confined.fileWriteAt {state : Writer × Disk} (confined : Confined w disk P state)
    {filename : GoString} (allowed : P filename) (bytes : List UInt8) (off : Int) :
    Confined w disk P (state.1, (fileWriteAt state.2 filename bytes off).1) := by
  obtain ⟨info, root, opened, others⟩ := confined
  unfold Metainfo.fileWriteAt
  split
  · exact ⟨info, root, opened, others⟩
  · refine ⟨info, root, opened, fun name other => ?_⟩
    have different : name ≠ filename := fun same => other (same ▸ allowed)
    exact (Function.update_of_ne different _ _).trans (others name other)

theorem left_of_goes_on {length fileOffset : Int} {n len : Nat} (inside : n < len)
    (fits : len < 2 ^ 63)
    (goesOn : ¬ (¬ (len : Int) < int64 (int64 (length - fileOffset) + n) ∧
      int64 (int64 (length - fileOffset) + n) ≤ n)) : 0 < int64 (length - fileOffset) := by
  obtain ⟨low, _⟩ := isInt64_int64 (length - fileOffset)
  by_contra none
  rw [int64_of_range (by omega) (by omega)] at goesOn
  exact goesOn ⟨by omega, by omega⟩

/-- **One call** opens and changes only files that it can come to. -/
theorem Confined.writeLoop
    (allowed : ∀ f, w.info.Reaches f → P (f.pathWithPrefix w.root w.info)) {p : List UInt8}
    (fits : p.length < 2 ^ 63) (fuel : Nat) {state : Writer × Disk}
    (confined : Confined w disk P state) (n : Nat) {offset : Int} (start : IsInt64 offset) :
    let result := Writer.writeLoop os p fuel state.1 state.2 n offset
    Confined w disk P (result.writer, result.disk) := by
  induction fuel generalizing state n offset with
  | zero => exact confined
  | succ fuel ih =>
    rw [Writer.writeLoop]
    split
    case isFalse => exact confined
    case isTrue inside =>
      cases found : state.1.info.getFileByOffset offset with
      | none => exact confined
      | some place =>
        obtain ⟨file, fileOffset⟩ := place
        dsimp only
        split
        · exact confined
        next some' =>
        split
        · exact confined
        next goesOn =>
        rw [confined.info] at found
        have reached : P (file.pathWithPrefix state.1.root state.1.info) := by
          rw [confined.info, confined.root]
          exact allowed file ⟨offset, fileOffset, start, found, fun zero => some' (.inl zero),
            left_of_goes_on inside fits goesOn⟩
        have opened := confined.open os reached
        rcases result : state.1.open os state.2 _ with ⟨w', disk', _ | err⟩
        all_goals
          rw [result] at opened
          dsimp only at opened ⊢
        case some => exact opened
        generalize (p.take _).drop n = bytes
        have wrote := opened.fileWriteAt reached bytes fileOffset
        rcases written : Metainfo.fileWriteAt disk' _ bytes fileOffset with ⟨disk'', m, _ | err⟩
        all_goals
          dsimp only at wrote ⊢
          rw [written] at wrote
        case some => exact wrote
        exact ih wrote _ (isInt64_int64 _)

/-- **A run of calls** opens and changes only files that they can come to. -/
theorem run_confined (allowed : ∀ f, w.info.Reaches f → P (f.pathWithPrefix w.root w.info))
    (fresh : w.files = []) {calls : List Call} (valid : ∀ call ∈ calls, call.Valid w.info) :
    Confined w disk P (run (Call.make os) (w, disk) calls) := by
  refine run_holds_of_mem _ (fun state call confined valid => ?_) ⟨rfl, rfl, ?_, fun _ _ => rfl⟩
    valid
  · obtain ⟨start, fits⟩ := valid
    rw [Call.make, Writer.write_eq, confined.info]
    exact confined.writeLoop allowed fits _ 0 start
  · rw [fresh]
    exact List.forall_mem_nil _

end Confined

/-! ### Containment -/

/-- Whatever the calls and the operating system do, the writer opens and changes only files strictly
below its directory. -/
def Contained (root : GoString) (info : Info) : Prop :=
  ∀ (os : Os) (disk : Disk) (calls : List Call), (∀ call ∈ calls, call.Valid info) →
    let final := run (Call.make os) (newWriter root info, disk) calls
    ∀ name, name ∈ final.1.files ∨ final.2 name ≠ disk name → Below root name

theorem opens_of_reaches {root : GoString} {info : Info} {f : File} {offset fileOffset : Int}
    (found : info.getFileByOffset offset = some (f, fileOffset)) (some' : f.length ≠ 0)
    (left : 0 < int64 (f.length - fileOffset)) (disk : Disk) :
    f.pathWithPrefix root info ∈
      (Writer.writeAt permissive (newWriter root info) disk [0] offset).writer.files := by
  have inside : ¬ (f.length = 0 ∨ f.length = fileOffset) := by
    rintro (zero | same)
    · exact some' zero
    · rw [same, Int.sub_self] at left
      exact absurd left (by decide)
  obtain ⟨low, high⟩ := isInt64_int64 (f.length - fileOffset)
  have length : int64 (int64 (f.length - fileOffset) + (0 : Nat)) =
      int64 (f.length - fileOffset) := by
    rw [Nat.cast_zero, add_zero, int64_of_range low high]
  have goesOn : ¬ (¬ (([0] : List UInt8).length : Int) < int64 (f.length - fileOffset) ∧
      int64 (f.length - fileOffset) ≤ (0 : Nat)) := by
    rintro ⟨_, none⟩
    omega
  have first : (0 : Nat) < ([0] : List UInt8).length := Nat.zero_lt_one
  rw [Writer.writeAt, Writer.writeLoop, if_pos first,
    show (newWriter root info).info = info from rfl, found]
  dsimp only
  rw [if_neg inside, length, if_neg goesOn]
  have isOpen : (Writer.open permissive (newWriter root info) disk
      (f.pathWithPrefix root info)) = (⟨info, root, [f.pathWithPrefix root info]⟩,
        Function.update disk (f.pathWithPrefix root info)
          (some (contentOf disk (f.pathWithPrefix root info))), none) := rfl
  have whole : 1 ≤ ((([0] : List UInt8).take (if (([0] : List UInt8).length : Int) <
      int64 (f.length - fileOffset) then ([0] : List UInt8).length
      else (int64 (f.length - fileOffset)).toNat)).drop 0).length := by
    rw [List.drop_zero, List.length_take]
    split
    · simp
    · simp
      omega
  generalize (List.take _ [(0 : UInt8)]).drop 0 = bytes at whole ⊢
  rw [show (newWriter root info).root = root from rfl, isOpen]
  dsimp only
  split
  · exact List.mem_singleton_self _
  · rename_i written
    have done : ([0] : List UInt8).length ≤ 0 + bytes.length := by
      rw [Nat.zero_add]
      exact whole
    rw [fileWriteAt_done written, show ([0] : List UInt8).length = 0 + 1 from rfl,
      Writer.writeLoop_done done]
    exact List.mem_singleton_self _

/-- **Where the files of a torrent go.** The path of a file is strictly below the directory exactly if
its elements lead there, and the writer is contained exactly if those of the files that a write can
come to do. -/
theorem contained_iff {root : GoString} (isClean : clean root = root)
    (absolute : isRooted root = true) (info : Info) :
    (∀ f : File, Below root (f.pathWithPrefix root info) ↔ LeadsBelow root (f.elements info)) ∧
      (Contained root info ↔ ∀ f, info.Reaches f → LeadsBelow root (f.elements info)) := by
  have path : ∀ f : File,
      Below root (f.pathWithPrefix root info) ↔ LeadsBelow root (f.elements info) := by
    intro f
    rw [File.pathWithPrefix_eq]
    exact Filepath.below_join_iff isClean absolute _
  refine ⟨path, fun contained f reached => (path f).mp ?_, fun leads os disk calls valid => ?_⟩
  · obtain ⟨offset, fileOffset, start, found, some', left⟩ := reached
    have fits : ([0] : List UInt8).length < 2 ^ 63 := by decide
    refine contained permissive (fun _ => none) [⟨.total offset, [0]⟩]
      (List.forall_mem_singleton.mpr ⟨start, fits⟩) _ (.inl ?_)
    exact opens_of_reaches found some' left _
  · have confined : Confined (newWriter root info) disk (Below root)
        (run (Call.make os) (newWriter root info, disk) calls) :=
      run_confined (fun f reached => (path f).mpr (leads f reached)) rfl valid
    rintro final name (opened | changed)
    · exact confined.opened name opened
    · by_contra outside
      exact changed (confined.others name outside)

theorem contained_single :
    Contained (str "/srv") { name := str "movie", length := 5 } :=
  (contained_iff (by decide) (by decide) _).2.mpr fun _ _ =>
    show LeadsBelow (str "/srv") [str "movie"] by decide

/-- A writer for the directory `/srv` writes a file with the path `../../etc/x` to `/etc/x`. -/
theorem writer_escapes :
    let f : File := ⟨1, [str "..", str "..", str "etc", str "x"]⟩
    let info : Info := { name := str "t", files := [f] }
    clean (str "/srv") = str "/srv" ∧ isRooted (str "/srv") = true ∧
      f.pathWithPrefix (str "/srv") info = str "/etc/x" ∧
      ¬ Below (str "/srv") (f.pathWithPrefix (str "/srv") info) ∧
      ((newWriter (str "/srv") info).writeAt permissive (fun _ => none) [7] 0).disk
        (str "/etc/x") = some [7] ∧
      ¬ Contained (str "/srv") info := by
  intro f info
  have outside : ¬ Below (str "/srv") (f.pathWithPrefix (str "/srv") info) := by
    rw [File.pathWithPrefix_eq, Filepath.below_join_iff (by decide) (by decide)]
    decide
  have path : f.pathWithPrefix (str "/srv") info = str "/etc/x" := by decide
  have wrote : ((newWriter (str "/srv") info).writeAt permissive (fun _ => none) [7] 0).disk
      (str "/etc/x") = some [7] := by decide
  refine ⟨by decide, by decide, path, outside, wrote, fun contained => outside ?_⟩
  rw [path]
  refine contained permissive (fun _ => none) [⟨.total 0, [7]⟩]
    (List.forall_mem_singleton.mpr ⟨⟨by decide, by decide⟩, by decide⟩) _ (.inr ?_)
  exact ne_of_eq_of_ne wrote nofun

end GoBt.Metainfo
