/-
**Writing and reading the files of a torrent** (`metainfo/writer.go`, `reader.go`).

The disk holds a growable array of bytes under each file name. What the operating system may refuse
is to open a file (`Os`).

* `Writer.writeAt`, `Writer.writeBlock`, `Reader.readAt`, `Reader.readBlock` — the source's methods.
* `writeLoop_fuel`, `readLoop_fuel` — every turn of the loops that goes on makes progress, so that
  the fuel they are given does not run out.
* `beyond_rejected_iff` — which offsets beyond the end are rejected.
-/

import GoBt.Metainfo.Info

namespace GoBt.Metainfo

open GoBt.Lib

/-- The bytes of each file, by its name. -/
abbrev Disk := Store GoString

/-- The answers of the operating system. -/
structure Os where
  /-- The error of `os.MkdirAll` for the directory of a file or of `os.OpenFile` for writing it. -/
  createError : GoString → Option GoError
  /-- The error of `os.Open` for a file that is there. -/
  openError : GoString → Option GoError

/-- How a call ends; `outOfFuel` is the model's own. -/
inductive Ending
  | panicked
  | returned (err : Option GoError)
  | outOfFuel
  deriving DecidableEq

/-- `f.WriteAt(bytes, off)` of an open file, with the number of bytes written. -/
def fileWriteAt (disk : Disk) (filename : GoString) (bytes : List UInt8) (off : Int) :
    Disk × Nat × Option GoError :=
  if off < 0 then (disk, 0, some (.other "negative offset"))
  else (writeSegment disk filename off.toNat bytes, bytes.length, none)

/-- `f.ReadAt(p, off)` of an open file for a buffer of `count` bytes, with the bytes read. -/
def fileReadAt (disk : Disk) (filename : GoString) (count : Nat) (off : Int) :
    List UInt8 × Option GoError :=
  if off < 0 then ([], some (.other "negative offset"))
  else
    let data := ((contentOf disk filename).drop off.toNat).take count
    (data, if data.length < count then some .eof else none)

/-! ### The writer -/

/-- `writer`; of the open files, the names. -/
structure Writer where
  info : Info
  root : GoString
  files : List GoString

def newWriter (rootDir : GoString) (info : Info) : Writer := ⟨info, rootDir, []⟩

/-- What a call of `WriteAt` leaves: the number of bytes written and how it ended. -/
structure WriteResult where
  writer : Writer
  disk : Disk
  n : Nat
  ending : Ending

/-- `w.open(filename)`: a file that is opened for the first time is created if it is not there. -/
def Writer.open (os : Os) (w : Writer) (disk : Disk) (filename : GoString) :
    Writer × Disk × Option GoError :=
  if filename ∈ w.files then (w, disk, none)
  else
    match os.createError filename with
    | some err => (w, disk, some err)
    | none =>
        ({ w with files := filename :: w.files },
          Function.update disk filename (some (contentOf disk filename)), none)

namespace Writer

/-- The loop of `WriteAt`; the fuel bounds the number of its turns. -/
def writeLoop (os : Os) (p : List UInt8) : Nat → Writer → Disk → Nat → Int → WriteResult
  | 0, w, disk, n, _ => ⟨w, disk, n, .outOfFuel⟩
  | fuel + 1, w, disk, n, offset =>
      if n < p.length then
        match w.info.getFileByOffset offset with
        | none => ⟨w, disk, n, .panicked⟩
        | some (file, fileOffset) =>
            if file.length = 0 ∨ file.length = fileOffset then
              ⟨w, disk, n, .returned (some .shortWrite)⟩
            else
              let length := int64 (int64 (file.length - fileOffset) + n)
              if ¬ p.length < length ∧ length ≤ n then ⟨w, disk, n, .returned none⟩
              else
                -- `p[n:length]`, where `length` is cut down to the length of `p`
                let bytes := (p.take (if p.length < length then p.length else length.toNat)).drop n
                let filename := file.pathWithPrefix w.root w.info
                match w.open os disk filename with
                | (w, disk, some err) => ⟨w, disk, n, .returned (some err)⟩
                | (w, disk, none) =>
                    match fileWriteAt disk filename bytes fileOffset with
                    | (disk, m, some err) => ⟨w, disk, n + m, .returned (some err)⟩
                    | (disk, m, none) => writeLoop os p fuel w disk (n + m) (int64 (offset + m))
      else ⟨w, disk, n, .returned none⟩

def writeAt (os : Os) (w : Writer) (disk : Disk) (p : List UInt8) (offset : Int) : WriteResult :=
  writeLoop os p (p.length + 1) w disk 0 offset

def writeBlock (os : Os) (w : Writer) (disk : Disk) (pieceIndex pieceOffset : UInt32)
    (p : List UInt8) : WriteResult :=
  w.writeAt os disk p (w.info.pieceOffset pieceIndex pieceOffset)

end Writer

/-! ### The reader -/

/-- `reader`; of the open files, the names. -/
structure Reader where
  info : Info
  root : GoString
  files : List GoString

def newReader (rootDir : GoString) (info : Info) : Reader := ⟨info, rootDir, []⟩

/-- What a call of `ReadAt` leaves: the bytes read, `p[:n]`, and how it ended. -/
structure ReadResult where
  reader : Reader
  data : List UInt8
  ending : Ending

def Reader.open (os : Os) (r : Reader) (disk : Disk) (filename : GoString) :
    Reader × Option GoError :=
  if filename ∈ r.files then (r, none)
  else if disk filename = none then (r, some (.other "no such file or directory"))
  else
    match os.openError filename with
    | some err => (r, some err)
    | none => ({ r with files := filename :: r.files }, none)

namespace Reader

/-- The loop of `ReadAt` into a buffer of `len` bytes; the fuel bounds the number of its turns. -/
def readLoop (os : Os) (disk : Disk) (len : Nat) : Nat → Reader → List UInt8 → Int → ReadResult
  | 0, r, data, _ => ⟨r, data, .outOfFuel⟩
  | fuel + 1, r, data, offset =>
      if data.length < len then
        match r.info.getFileByOffset offset with
        | none => ⟨r, data, .panicked⟩
        | some (file, fileOffset) =>
            if file.length = 0 ∨ file.length = fileOffset then
              ⟨r, data, .returned (some .eof)⟩
            else
              let pend := int64 (data.length + int64 (file.length - fileOffset))
              let pend := if pend > len then (len : Int) else pend
              let filename := file.pathWithPrefix r.root r.info
              match r.open os disk filename with
              | (r, some err) => ⟨r, data, .returned (some err)⟩
              | (r, none) =>
                  -- `p[n:pend]` panics if its bounds are not in order
                  if pend < data.length then ⟨r, data, .panicked⟩
                  else
                    match fileReadAt disk filename (pend - data.length).toNat fileOffset with
                    | (more, some err) => ⟨r, data ++ more, .returned (some err)⟩
                    | (more, none) =>
                        readLoop os disk len fuel r (data ++ more) (int64 (offset + more.length))
      else ⟨r, data, .returned none⟩

/-- `r.ReadAt(p, offset)` for a buffer of `len` bytes. -/
def readAt (os : Os) (r : Reader) (disk : Disk) (len : Nat) (offset : Int) : ReadResult :=
  readLoop os disk len (len + 1) r [] offset

def readBlock (os : Os) (r : Reader) (disk : Disk) (pieceIndex pieceOffset : UInt32) (len : Nat) :
    ReadResult :=
  r.readAt os disk len (r.info.pieceOffset pieceIndex pieceOffset)

end Reader

/-! ### The fuel of the loops -/

theorem fileWriteAt_done {disk disk' : Disk} {filename : GoString} {bytes : List UInt8} {off : Int}
    {m : Nat} (done : fileWriteAt disk filename bytes off = (disk', m, none)) :
    m = bytes.length := by
  unfold fileWriteAt at done
  split at done <;> cases done
  rfl

theorem fileReadAt_done {disk : Disk} {filename : GoString} {count : Nat} {off : Int}
    {more : List UInt8} (done : fileReadAt disk filename count off = (more, none)) :
    more.length = count := by
  unfold fileReadAt at done
  split at done
  · cases done
  · obtain ⟨rfl, full⟩ := Prod.mk.inj done
    have short := List.length_take_le count ((contentOf disk filename).drop off.toNat)
    by_cases less : (((contentOf disk filename).drop off.toNat).take count).length < count
    · rw [if_pos less] at full
      cases full
    · omega

theorem Writer.writeLoop_done {os : Os} {p : List UInt8} {n : Nat} (done : p.length ≤ n)
    (fuel : Nat) (w : Writer) (disk : Disk) (offset : Int) :
    writeLoop os p (fuel + 1) w disk n offset = ⟨w, disk, n, .returned none⟩ := by
  rw [writeLoop, if_neg (by omega)]

/-- A turn of the loop of `WriteAt` that goes on writes at least one byte: with more fuel than there
are bytes left it does not run out, and more of it makes no difference. -/
theorem Writer.writeLoop_fuel {os : Os} {p : List UInt8} {fuel n : Nat}
    (enough : p.length - n < fuel) (more : Nat) (w : Writer) (disk : Disk) (offset : Int) :
    writeLoop os p (fuel + more) w disk n offset = writeLoop os p fuel w disk n offset ∧
      (writeLoop os p fuel w disk n offset).ending ≠ .outOfFuel := by
  induction fuel generalizing w disk n offset with
  | zero => cases enough
  | succ fuel ih =>
    rw [Nat.add_right_comm]
    simp only [writeLoop]
    split
    case isFalse => exact ⟨rfl, Ending.noConfusion⟩
    case isTrue left =>
      cases w.info.getFileByOffset offset with
      | none => exact ⟨rfl, Ending.noConfusion⟩
      | some place =>
        obtain ⟨file, fileOffset⟩ := place
        dsimp only
        generalize int64 (int64 (file.length - fileOffset) + n) = length
        by_cases atEnd : file.length = 0 ∨ file.length = fileOffset
        · rw [if_pos atEnd, if_pos atEnd]
          exact ⟨rfl, Ending.noConfusion⟩
        by_cases stops : ¬ p.length < length ∧ length ≤ n
        · rw [if_neg atEnd, if_pos stops, if_neg atEnd, if_pos stops]
          exact ⟨rfl, Ending.noConfusion⟩
        rw [if_neg atEnd, if_neg stops, if_neg atEnd, if_neg stops]
        have some : 0 < ((p.take (if p.length < length then p.length else length.toNat)).drop
            n).length := by
          rw [List.length_drop, List.length_take]
          split <;> omega
        rcases w.open os disk (file.pathWithPrefix w.root w.info) with ⟨w', disk', _ | err⟩
        case some => exact ⟨rfl, Ending.noConfusion⟩
        dsimp only
        rcases written : fileWriteAt disk' _ _ fileOffset with ⟨disk'', m, _ | err⟩
        case some => exact ⟨rfl, Ending.noConfusion⟩
        rw [← fileWriteAt_done written] at some
        exact ih (by omega) w' disk'' _

theorem Reader.readLoop_done {os : Os} {disk : Disk} {len : Nat} {data : List UInt8}
    (done : len ≤ data.length) (fuel : Nat) (r : Reader) (offset : Int) :
    readLoop os disk len (fuel + 1) r data offset = ⟨r, data, .returned none⟩ := by
  rw [readLoop, if_neg (by omega)]

theorem Reader.open_info (os : Os) (r : Reader) (disk : Disk) (filename : GoString) :
    (r.open os disk filename).1.info = r.info := by
  unfold Reader.open
  split_ifs
  · rfl
  · rfl
  · cases os.openError filename <;> rfl

theorem Reader.readLoop_fuel {os : Os} {disk : Disk} {len fuel : Nat} {data : List UInt8}
    (enough : len - data.length < fuel) (more : Nat) {r : Reader}
    (lengths : ∀ f ∈ r.info.storedFiles, IsInt64 f.length) {offset : Int} (fits : IsInt64 offset) :
    readLoop os disk len (fuel + more) r data offset = readLoop os disk len fuel r data offset ∧
      (readLoop os disk len fuel r data offset).ending ≠ .outOfFuel := by
  induction fuel generalizing r data offset with
  | zero => cases enough
  | succ fuel ih =>
    rw [Nat.add_right_comm]
    simp only [readLoop]
    split
    case isFalse => exact ⟨rfl, Ending.noConfusion⟩
    case isTrue left =>
      cases found : r.info.getFileByOffset offset with
      | none => exact ⟨rfl, Ending.noConfusion⟩
      | some place =>
        obtain ⟨file, fileOffset⟩ := place
        dsimp only
        by_cases atEnd : file.length = 0 ∨ file.length = fileOffset
        · rw [if_pos atEnd, if_pos atEnd]
          exact ⟨rfl, Ending.noConfusion⟩
        rw [if_neg atEnd, if_neg atEnd]
        obtain ⟨length, place⟩ := Info.getFileByOffset_isInt64 lengths fits found
        -- the end of the slice is not its start, since the file does not end here
        have moves := int64_sub_add_ne length place (fun same => atEnd (Or.inr same))
          (data.length : Int)
        rw [add_comm (int64 _)] at moves
        generalize int64 (data.length + int64 (file.length - fileOffset)) = pend at moves ⊢
        have behind : (if pend > len then (len : Int) else pend) ≠ data.length := by
          split <;> omega
        generalize (if pend > len then (len : Int) else pend) = pend at behind ⊢
        have same := r.open_info os disk (file.pathWithPrefix r.root r.info)
        rcases opened : r.open os disk (file.pathWithPrefix r.root r.info) with ⟨r', _ | err⟩
        case some => exact ⟨rfl, Ending.noConfusion⟩
        rw [opened] at same
        dsimp only at same ⊢
        by_cases order : pend < data.length
        · rw [if_pos order, if_pos order]
          exact ⟨rfl, Ending.noConfusion⟩
        rw [if_neg order, if_neg order]
        rcases read : fileReadAt disk _ _ fileOffset with ⟨bytes, _ | err⟩
        case some => exact ⟨rfl, Ending.noConfusion⟩
        have count := fileReadAt_done read
        refine ih ?_ (same ▸ lengths) (isInt64_int64 _)
        rw [List.length_append, count]
        omega

/-- **The loops return.** The fuel that `WriteAt` and `ReadAt` are given, one turn for every byte
and one for the last test, does not run out, and with more of it the loops do the same. -/
theorem storage_loops_return (os : Os) (disk : Disk) (offset : Int) (more : Nat) :
    (∀ (w : Writer) (p : List UInt8),
      (w.writeAt os disk p offset).ending ≠ .outOfFuel ∧
        Writer.writeLoop os p (p.length + 1 + more) w disk 0 offset =
          w.writeAt os disk p offset) ∧
    ∀ (r : Reader) (len : Nat), (∀ f ∈ r.info.storedFiles, IsInt64 f.length) → IsInt64 offset →
      (r.readAt os disk len offset).ending ≠ .outOfFuel ∧
        Reader.readLoop os disk len (len + 1 + more) r [] offset =
          r.readAt os disk len offset := by
  constructor
  · intro w p
    exact (Writer.writeLoop_fuel (Nat.lt_succ_self _) more w disk offset).symm
  · intro r len lengths fits
    exact (Reader.readLoop_fuel (Nat.lt_succ_self _) more lengths fits).symm

/-! ### Offsets beyond the end -/

/-- Where a call starts: `WriteAt` and `ReadAt` are given an offset of the whole torrent,
`WriteBlock` and `ReadBlock` one of a piece. -/
inductive Place
  | total (offset : Int)
  | block (pieceIndex pieceOffset : UInt32)

def Place.start (info : Info) : Place → Int
  | .total offset => offset
  | .block pieceIndex pieceOffset => info.pieceOffset pieceIndex pieceOffset

/-- The call of `WriteAt` or `WriteBlock`. -/
def Writer.write (os : Os) (w : Writer) (disk : Disk) (p : List UInt8) : Place → WriteResult
  | .total offset => w.writeAt os disk p offset
  | .block pieceIndex pieceOffset => w.writeBlock os disk pieceIndex pieceOffset p

/-- The call of `ReadAt` or `ReadBlock`. -/
def Reader.read (os : Os) (r : Reader) (disk : Disk) (len : Nat) : Place → ReadResult
  | .total offset => r.readAt os disk len offset
  | .block pieceIndex pieceOffset => r.readBlock os disk pieceIndex pieceOffset len

theorem Writer.write_eq (os : Os) (w : Writer) (disk : Disk) (p : List UInt8) (place : Place) :
    w.write os disk p place = w.writeAt os disk p (place.start w.info) := by
  cases place <;> rfl

theorem Reader.read_eq (os : Os) (r : Reader) (disk : Disk) (len : Nat) (place : Place) :
    r.read os disk len place = r.readAt os disk len (place.start r.info) := by
  cases place <;> rfl

/-- `GetFileByOffset` panics, no call that starts there writes, and none reads a byte. -/
structure Rejects (info : Info) (offset : Int) : Prop where
  panics : info.getFileByOffset offset = none
  noWrite : ∀ os w disk p place, w.info = info → place.start info = offset →
    (Writer.write os w disk p place).disk = disk
  noRead : ∀ os r disk len place, r.info = info → place.start info = offset →
    (Reader.read os r disk len place).data = []

theorem rejects_iff {info : Info} {offset : Int} :
    Rejects info offset ↔ info.getFileByOffset offset = none := by
  refine ⟨Rejects.panics, fun panics => ⟨panics, ?_, ?_⟩⟩
  · rintro os w disk p place rfl rfl
    rw [Writer.write_eq, Writer.writeAt]
    cases p with
    | nil => rfl
    | cons b rest =>
      rw [Writer.writeLoop, panics, if_pos (by simp)]
  · rintro os r disk len place rfl rfl
    rw [Reader.read_eq, Reader.readAt]
    cases len with
    | zero => rfl
    | succ len =>
      rw [Reader.readLoop, panics, if_pos (by simp)]

/-- **Offsets beyond the end** are rejected exactly if there is a single file, or if they are beyond
the end by more than the last file is long: `GetFileByOffset` compares what is left of the offset
after all files with the length of the last one. -/
theorem beyond_rejected_iff {info : Info} (nonneg : info.NonNegative) {offset : Int}
    (fits : IsInt64 offset) (beyond : offset > info.totalLength) :
    Rejects info offset ↔ info.isDir = false ∨ info.size + info.lastLength < offset := by
  rw [rejects_iff, Info.getFileByOffset_eq_none_iff nonneg fits.2]
  cases dir : info.isDir with
  | true => simp
  | false =>
      have whole := Info.size_of_not_isDir nonneg dir
      rw [Info.totalLength, dir] at beyond
      simpa [whole] using beyond

def permissive : Os := ⟨fun _ => none, fun _ => none⟩

def sampleInfo : Info where
  name := str "test_rw"
  pieceLength := 2
  files := [⟨1, [str "file1"]⟩, ⟨2, [str "file2"]⟩, ⟨3, [str "file3"]⟩]

theorem far_beyond_rejected : Rejects sampleInfo 10 :=
  (beyond_rejected_iff (by decide : sampleInfo.NonNegative) ⟨by decide, by decide⟩
    (by decide)).mpr (Or.inr (by decide))

/-- The loops over the three files, with one turn more than they are given. -/
theorem storage_loops_return_sample :
    let disk : Disk := fun _ => some [1, 2, 3]
    let r := newReader [] sampleInfo
    (r.readAt permissive disk 6 0).ending ≠ .outOfFuel ∧
      Reader.readLoop permissive disk 6 8 r [] 0 = r.readAt permissive disk 6 0 := by
  intro disk r
  refine (storage_loops_return permissive disk 0 1).2 r 6 ?_ ⟨by decide, by decide⟩
  simp [r, newReader, sampleInfo, Info.storedFiles, Info.isDir, IsInt64]

/-- With six bytes in all, a write at 7 overwrites the second byte of the third file, and a read
there returns it. -/
theorem beyond_overwrites :
    let disk : Disk := fun name => if name = str "test_rw/file3" then some [1, 2, 3] else none
    sampleInfo.NonNegative ∧ IsInt64 7 ∧ 7 > sampleInfo.totalLength ∧
      sampleInfo.getFileByOffset 7 = some (⟨3, [str "file3"]⟩, 1) ∧
      ((newWriter [] sampleInfo).writeAt permissive disk [9] 7).disk (str "test_rw/file3") =
        some [1, 9, 3] ∧
      ((newReader [] sampleInfo).readAt permissive disk 1 7).data = [2] ∧
      ¬ Rejects sampleInfo 7 := by
  refine ⟨by decide, ⟨by decide, by decide⟩, by decide, by decide, by decide, by decide, ?_⟩
  rw [rejects_iff]
  decide

end GoBt.Metainfo
