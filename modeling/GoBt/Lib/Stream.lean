/-
**Byte streams.**

A reader delivers a stream of bytes in portions of its own choice: a call asks for some number of
bytes and gets at least one and at most that many, until the stream ends.

* `ByteReader` — a reader and the stream it has left.
* `Chunked` — a stream that arrives in given portions; `Limited` — the front of another reader's
  stream.
* `readFull`, `readAll` — the loops that read a number of bytes, and all of them. `readFull_spec`,
  `readAll_spec`: what they return depends on the stream only, not on the portions.
* `copyLoop` — the loop that copies up to a number of bytes portion by portion; `copyLoop_spec`.
* `Parses` — a program over a limited reader reads exactly these bytes and returns this value. The
  rules `Parses.pure`, `Parses.bind`, … compose it along the program.
-/

import Mathlib.Data.List.Basic
import Mathlib.Tactic

namespace GoBt.Lib

/-- Why a read fails: the stream has ended, or it has ended too early. -/
inductive ReadError
  | eof
  | unexpectedEOF
  deriving DecidableEq

/-- A reader; `remaining` is the stream it has left. -/
class ByteReader (ρ : Type) where
  /-- One call that asks for up to `n` bytes. -/
  read : ρ → Nat → List UInt8 × Option ReadError × ρ
  remaining : ρ → List UInt8
  read_of_nil : ∀ r n, remaining r = [] → 0 < n →
    (read r n).1 = [] ∧ (read r n).2.1 = some .eof ∧ remaining (read r n).2.2 = []
  read_of_ne_nil : ∀ r n, remaining r ≠ [] → 0 < n →
    ∃ k, 0 < k ∧ k ≤ n ∧ k ≤ (remaining r).length ∧ (read r n).1 = (remaining r).take k ∧
      (read r n).2.1 = none ∧ remaining (read r n).2.2 = (remaining r).drop k

export ByteReader (remaining)

/-! ### Readers -/

/-- A stream that arrives in portions, none of them empty. -/
structure Chunked where
  chunks : List (List UInt8)
  nonempty : ∀ chunk ∈ chunks, chunk ≠ []

def Chunked.whole (bytes : List UInt8) : Chunked :=
  if empty : bytes = [] then ⟨[], nofun⟩
  else ⟨[bytes], fun _ member => List.mem_singleton.mp member ▸ empty⟩

/-- A stream in the portions in which it is written. -/
def Chunked.ofPortions (portions : List (List UInt8)) : Chunked :=
  ⟨portions.filter (· ≠ []), fun _ member => by simpa using (List.mem_filter.mp member).2⟩

/-- A call gets what it asks for from the first portion. -/
def Chunked.read : Chunked → Nat → List UInt8 × Option ReadError × Chunked
  | ⟨[], nonempty⟩, _ => ([], some .eof, ⟨[], nonempty⟩)
  | ⟨chunk :: rest, nonempty⟩, n =>
      if taken : chunk.drop n = [] then
        (chunk, none, ⟨rest, fun c member => nonempty c (List.mem_cons_of_mem _ member)⟩)
      else
        (chunk.take n, none, ⟨chunk.drop n :: rest, by
          intro c member
          rcases List.mem_cons.mp member with rfl | member
          · exact taken
          · exact nonempty c (List.mem_cons_of_mem _ member)⟩)

instance : ByteReader Chunked where
  read := Chunked.read
  remaining r := r.chunks.flatten
  read_of_nil r n ended _ := by
    obtain ⟨chunks, nonempty⟩ := r
    cases chunks with
    | nil => exact ⟨rfl, rfl, rfl⟩
    | cons chunk rest =>
        exact absurd (List.append_eq_nil_iff.mp ended).1 (nonempty chunk List.mem_cons_self)
  read_of_ne_nil r n goesOn positive := by
    obtain ⟨chunks, nonempty⟩ := r
    cases chunks with
    | nil => exact absurd rfl goesOn
    | cons chunk rest =>
        have filled : 0 < chunk.length :=
          List.length_pos_iff.mpr (nonempty chunk List.mem_cons_self)
        have bound : chunk.length ≤ (chunk :: rest).flatten.length := by simp
        unfold Chunked.read
        by_cases taken : chunk.drop n = []
        · have short : chunk.length ≤ n := List.drop_eq_nil_iff.mp taken
          refine ⟨chunk.length, filled, short, bound, ?_⟩
          simp [taken]
        · have long : n ≤ chunk.length := by
            by_contra short
            exact taken (List.drop_eq_nil_iff.mpr (by omega))
          refine ⟨n, positive, le_rfl, long.trans bound, ?_⟩
          simp [taken, List.take_append_of_le_length long, List.drop_append_of_le_length long]

theorem Chunked.remaining_whole (bytes : List UInt8) : remaining (Chunked.whole bytes) = bytes := by
  show (Chunked.whole bytes).chunks.flatten = bytes
  unfold Chunked.whole
  split
  · rename_i empty
    exact empty.symm
  · simp

theorem Chunked.remaining_ofPortions (portions : List (List UInt8)) :
    remaining (Chunked.ofPortions portions) = portions.flatten := by
  show (portions.filter (· ≠ [])).flatten = portions.flatten
  induction portions with
  | nil => rfl
  | cons portion rest ih =>
    by_cases empty : portion = []
    · rw [List.filter_cons_of_neg (by simpa using empty), ih, empty, List.flatten_cons,
        List.nil_append]
    · rw [List.filter_cons_of_pos (by simpa using empty), List.flatten_cons, List.flatten_cons, ih]

/-- The first `limit` bytes of a reader. -/
structure Limited (ρ : Type) where
  reader : ρ
  limit : Nat

variable {ρ : Type} [ByteReader ρ]

/-- A call to a limited reader asks the reader for no more than the limit allows. -/
def Limited.read (l : Limited ρ) (n : Nat) : List UInt8 × Option ReadError × Limited ρ :=
  if l.limit = 0 then ([], some .eof, l)
  else
    let got := ByteReader.read l.reader (min n l.limit)
    (got.1, got.2.1, ⟨got.2.2, l.limit - got.1.length⟩)

instance : ByteReader (Limited ρ) where
  read := Limited.read
  remaining l := (remaining l.reader).take l.limit
  read_of_nil l n ended positive := by
    unfold Limited.read
    rcases List.take_eq_nil_iff.mp ended with zero | ended
    · simp [zero]
    · by_cases zero : l.limit = 0
      · simp [zero]
      · obtain ⟨nothing, eof, still⟩ :=
          ByteReader.read_of_nil l.reader (min n l.limit) ended (by omega)
        simp [zero, nothing, eof, still]
  read_of_ne_nil l n goesOn positive := by
    have zero : l.limit ≠ 0 := fun zero => goesOn (by simp [zero])
    have more : remaining l.reader ≠ [] := fun ended => goesOn (by simp [ended])
    obtain ⟨k, some, asked, there, got, fine, left⟩ :=
      ByteReader.read_of_ne_nil l.reader (min n l.limit) more (by omega)
    refine ⟨k, some, by omega, ?_, ?_⟩
    · rw [List.length_take]
      omega
    · unfold Limited.read
      rw [if_neg zero]
      refine ⟨?_, fine, ?_⟩
      · rw [got, List.take_take, min_eq_left (by omega)]
      · show (remaining _).take (l.limit - _) = _
        rw [got, left, List.length_take, min_eq_left there, List.drop_take]

/-! ### Loops -/

/-- Read until there are `n` bytes or a call fails; every call that does not fail gets a byte, so
`fuel = n` calls are enough. -/
def readLoop : Nat → ρ → Nat → List UInt8 → List UInt8 × Option ReadError × ρ
  | 0, r, _, got => (got, none, r)
  | fuel + 1, r, n, got =>
      if n ≤ got.length then (got, none, r)
      else
        let next := ByteReader.read r (n - got.length)
        match next.2.1 with
        | none => readLoop fuel next.2.2 n (got ++ next.1)
        | some err => (got ++ next.1, some err, next.2.2)

def readFull (r : ρ) (n : Nat) : List UInt8 × Option ReadError × ρ :=
  let got := readLoop n r n []
  let err :=
    if n ≤ got.1.length then none
    else if got.1 ≠ [] ∧ got.2.1 = some .eof then some .unexpectedEOF
    else got.2.1
  (got.1, err, got.2.2)

/-- Read until the stream ends, 512 bytes at a time. -/
def readAllLoop : Nat → ρ → List UInt8 → List UInt8 × Option ReadError × ρ
  | 0, r, got => (got, none, r)
  | fuel + 1, r, got =>
      let next := ByteReader.read r 512
      match next.2.1 with
      | none => readAllLoop fuel next.2.2 (got ++ next.1)
      | some .eof => (got ++ next.1, none, next.2.2)
      | some err => (got ++ next.1, some err, next.2.2)

def readAll (r : ρ) : List UInt8 × Option ReadError × ρ :=
  readAllLoop ((remaining r).length + 1) r []

theorem readLoop_spec (fuel : Nat) (r : ρ) (n : Nat) (got : List UInt8)
    (enough : n - got.length ≤ fuel) :
    (readLoop fuel r n got).1 = got ++ (remaining r).take (n - got.length) ∧
      (readLoop fuel r n got).2.1 =
        (if n - got.length ≤ (remaining r).length then none else some .eof) ∧
      remaining (readLoop fuel r n got).2.2 = (remaining r).drop (n - got.length) := by
  induction fuel generalizing r got with
  | zero =>
    have done : n - got.length = 0 := by omega
    simp [readLoop, done]
  | succ fuel ih =>
    unfold readLoop
    by_cases done : n ≤ got.length
    · simp [done, Nat.sub_eq_zero_of_le done]
    · rw [if_neg done]
      by_cases ended : remaining r = []
      · obtain ⟨nothing, eof, still⟩ :=
          ByteReader.read_of_nil r (n - got.length) ended (by omega)
        have short : ¬ n - got.length ≤ 0 := by omega
        simp [nothing, eof, still, ended, short]
      · obtain ⟨k, some, asked, there, bytes, fine, left⟩ :=
          ByteReader.read_of_ne_nil r (n - got.length) ended (by omega)
        have length : (got ++ (remaining r).take k).length = got.length + k := by
          simp [there]
        obtain ⟨first, second, third⟩ := ih (ByteReader.read r (n - got.length)).2.2
          (got ++ (remaining r).take k) (by omega)
        simp only [fine, bytes]
        rw [first, second, third, left, length, List.length_drop, List.drop_drop,
          List.append_assoc, ← List.take_add]
        have whole : k + (n - (got.length + k)) = n - got.length := by omega
        have same : n - (got.length + k) ≤ (remaining r).length - k ↔
            n - got.length ≤ (remaining r).length := by omega
        simp only [whole, same, and_self]

/-- **What `readFull` returns**: the next `n` bytes, or an error and all there is. -/
theorem readFull_spec (r : ρ) (n : Nat) :
    (readFull r n).1 = (remaining r).take n ∧
      (readFull r n).2.1 =
        (if n ≤ (remaining r).length then none
          else if remaining r = [] then some .eof else some .unexpectedEOF) ∧
      remaining (readFull r n).2.2 = (remaining r).drop n := by
  obtain ⟨bytes, err, left⟩ := readLoop_spec n r n [] le_rfl
  simp only [List.length_nil, Nat.sub_zero, List.nil_append] at bytes err left
  refine ⟨bytes, ?_, left⟩
  show (if n ≤ (readLoop n r n []).1.length then none
    else if (readLoop n r n []).1 ≠ [] ∧ (readLoop n r n []).2.1 = some .eof then
      some .unexpectedEOF
    else (readLoop n r n []).2.1) = _
  rw [bytes, err, List.length_take]
  by_cases enough : n ≤ (remaining r).length
  · simp [enough]
  · have all : (remaining r).take n = remaining r := List.take_of_length_le (by omega)
    by_cases ended : remaining r = []
    · simp [ended]
    · simp [enough, ended, all]

theorem readAllLoop_spec (fuel : Nat) (r : ρ) (got : List UInt8)
    (enough : (remaining r).length < fuel) :
    (readAllLoop fuel r got).1 = got ++ remaining r ∧ (readAllLoop fuel r got).2.1 = none ∧
      remaining (readAllLoop fuel r got).2.2 = [] := by
  induction fuel generalizing r got with
  | zero => cases enough
  | succ fuel ih =>
    unfold readAllLoop
    by_cases ended : remaining r = []
    · obtain ⟨nothing, eof, still⟩ := ByteReader.read_of_nil r 512 ended (by decide)
      simp [nothing, eof, still, ended]
    · obtain ⟨k, some, _, there, bytes, fine, left⟩ :=
        ByteReader.read_of_ne_nil r 512 ended (by decide)
      obtain ⟨first, second, third⟩ := ih (ByteReader.read r 512).2.2
        (got ++ (remaining r).take k) (by rw [left, List.length_drop]; omega)
      simp only [fine, bytes]
      rw [first, second, third, left, List.append_assoc, List.take_append_drop]
      exact ⟨rfl, rfl, rfl⟩

/-- **What `readAll` returns**: the whole stream. -/
theorem readAll_spec (r : ρ) :
    (readAll r).1 = remaining r ∧ (readAll r).2.1 = none ∧ remaining (readAll r).2.2 = [] :=
  readAllLoop_spec _ r [] (Nat.lt_succ_self _)

/-- Read up to `limit` bytes in portions of up to `buf` bytes; every call that does not fail gets a
byte, so more than `limit` turns are not needed. -/
def copyLoop (buf : Nat) : Nat → ρ → Nat → List (List UInt8) × Option ReadError × ρ
  | 0, r, _ => ([], none, r)
  | fuel + 1, r, limit =>
      if limit = 0 then ([], none, r)
      else
        let got := ByteReader.read r (min buf limit)
        match got.2.1 with
        | some err => (if got.1 = [] then [] else [got.1], some err, got.2.2)
        | none =>
            let rest := copyLoop buf fuel got.2.2 (limit - got.1.length)
            (got.1 :: rest.1, rest.2)

/-- **What `copyLoop` copies**: the next `limit` bytes, or all there is and the end of the stream. -/
theorem copyLoop_spec {buf : Nat} (positive : 0 < buf) (fuel : Nat) (r : ρ) (limit : Nat)
    (enough : limit < fuel) :
    (copyLoop buf fuel r limit).1.flatten = (remaining r).take limit ∧
      (∀ portion ∈ (copyLoop buf fuel r limit).1, portion ≠ []) ∧
      (copyLoop buf fuel r limit).2.1 =
        (if limit ≤ (remaining r).length then none else some .eof) ∧
      remaining (copyLoop buf fuel r limit).2.2 = (remaining r).drop limit := by
  induction fuel generalizing r limit with
  | zero => cases enough
  | succ fuel ih =>
    unfold copyLoop
    by_cases done : limit = 0
    · simp [done]
    rw [if_neg done]
    by_cases ended : remaining r = []
    · obtain ⟨nothing, eof, still⟩ := ByteReader.read_of_nil r (min buf limit) ended (by omega)
      simp [nothing, eof, still, ended, done]
    · obtain ⟨k, some, asked, there, bytes, fine, left⟩ :=
        ByteReader.read_of_ne_nil r (min buf limit) ended (by omega)
      have length : ((remaining r).take k).length = k := by
        rw [List.length_take]
        omega
      obtain ⟨first, second, third, fourth⟩ := ih (ByteReader.read r (min buf limit)).2.2
        (limit - k) (by omega)
      simp only [fine, bytes, length]
      have whole : k + (limit - k) = limit := by omega
      have same : limit - k ≤ (remaining r).length - k ↔ limit ≤ (remaining r).length := by omega
      refine ⟨?_, List.forall_mem_cons.mpr ⟨?_, second⟩, ?_, ?_⟩
      · rw [List.flatten_cons, first, left, ← List.take_add, whole]
      · rw [← List.length_pos_iff, length]
        exact some
      · rw [third, left, List.length_drop]
        simp only [same]
      · rw [fourth, left, List.drop_drop, whole]

theorem readLoop_keeps {P : ρ → Prop}
    (each : ∀ r n, 0 < n → P r → P (ByteReader.read r n).2.2) (fuel : Nat)
    {r : ρ} (holds : P r) (n : Nat) (got : List UInt8) : P (readLoop fuel r n got).2.2 := by
  induction fuel generalizing r got with
  | zero => exact holds
  | succ fuel ih =>
    unfold readLoop
    split
    · exact holds
    · have kept := each r (n - got.length) (by omega) holds
      dsimp only
      split
      · exact ih kept _
      · exact kept

theorem readFull_keeps {P : ρ → Prop}
    (each : ∀ r n, 0 < n → P r → P (ByteReader.read r n).2.2) {r : ρ}
    (holds : P r) (n : Nat) : P (readFull r n).2.2 :=
  readLoop_keeps each n holds n []

theorem readAllLoop_keeps {P : ρ → Prop} (each : ∀ r n, 0 < n → P r → P (ByteReader.read r n).2.2)
    (fuel : Nat) {r : ρ} (holds : P r) (got : List UInt8) : P (readAllLoop fuel r got).2.2 := by
  induction fuel generalizing r got with
  | zero => exact holds
  | succ fuel ih =>
    have kept := each r 512 (by decide) holds
    unfold readAllLoop
    dsimp only
    split
    · exact ih kept _
    · exact kept
    · exact kept

theorem readAll_keeps {P : ρ → Prop}
    (each : ∀ r n, 0 < n → P r → P (ByteReader.read r n).2.2) {r : ρ}
    (holds : P r) : P (readAll r).2.2 :=
  readAllLoop_keeps each _ holds []

/-! ### The frame of a limited reader -/

/-- The stream of the reader goes on with `rest` beyond the limit, and within the limit it is
`missing` bytes short. -/
structure Limited.Bounds (rest : List UInt8) (missing : Nat) (l : Limited ρ) : Prop where
  whole : remaining l.reader = remaining l ++ rest
  limit_eq : l.limit = (remaining l).length + missing

theorem Limited.bounds (l : Limited ρ) :
    Bounds ((remaining l.reader).drop l.limit) (l.limit - (remaining l).length) l := by
  refine ⟨(List.take_append_drop _ _).symm, ?_⟩
  have within : (remaining l).length ≤ l.limit := List.length_take_le _ _
  omega

theorem Limited.read_bounds {rest : List UInt8} {missing : Nat} (l : Limited ρ) (n : Nat)
    (positive : 0 < n) (bounds : Bounds rest missing l) :
    Bounds rest missing (ByteReader.read l n).2.2 := by
  show Bounds rest missing (Limited.read l n).2.2
  unfold Limited.read
  by_cases zero : l.limit = 0
  · rw [if_pos zero]
    exact bounds
  rw [if_neg zero]
  by_cases ended : remaining l.reader = []
  · obtain ⟨nothing, _, still⟩ :=
      ByteReader.read_of_nil l.reader (min n l.limit) ended (by omega)
    obtain ⟨front, rfl⟩ := List.append_eq_nil_iff.mp (bounds.whole ▸ ended)
    have same : remaining (⟨(ByteReader.read l.reader (min n l.limit)).2.2, l.limit -
        (ByteReader.read l.reader (min n l.limit)).1.length⟩ : Limited ρ) = [] := by
      show (remaining _).take _ = []
      rw [still, List.take_nil]
    refine ⟨?_, ?_⟩
    · rw [same]
      exact still
    · have limit := bounds.limit_eq
      rw [front] at limit
      rw [same]
      show l.limit - (ByteReader.read l.reader (min n l.limit)).1.length = _
      rw [nothing]
      exact limit
  · obtain ⟨k, _, asked, there, got, _, left⟩ :=
      ByteReader.read_of_ne_nil l.reader (min n l.limit) ended (by omega)
    have taken : (ByteReader.read l.reader (min n l.limit)).1.length = k := by
      rw [got, List.length_take, min_eq_left there]
    have within : k ≤ (remaining l).length := by
      show k ≤ ((remaining l.reader).take l.limit).length
      rw [List.length_take]
      omega
    have same : remaining (⟨(ByteReader.read l.reader (min n l.limit)).2.2, l.limit -
        (ByteReader.read l.reader (min n l.limit)).1.length⟩ : Limited ρ) =
        (remaining l).drop k := by
      show (remaining _).take _ = ((remaining l.reader).take l.limit).drop k
      rw [left, taken, List.drop_take]
    refine ⟨?_, ?_⟩
    · rw [same, left, bounds.whole, List.drop_append_of_le_length within]
    · rw [same, List.length_drop]
      show l.limit - (ByteReader.read l.reader (min n l.limit)).1.length = _
      have limit := bounds.limit_eq
      omega

/-- The limit is exactly what the limited reader has left, and `rest` lies beyond it. -/
structure Limited.Frames (rest : List UInt8) (l : Limited ρ) : Prop where
  whole : remaining l.reader = remaining l ++ rest
  exact_limit : l.limit = (remaining l).length

theorem Limited.frames_iff_bounds {rest : List UInt8} {l : Limited ρ} :
    Frames rest l ↔ Bounds rest 0 l :=
  ⟨fun frames => ⟨frames.whole, frames.exact_limit⟩, fun bounds => ⟨bounds.whole, bounds.limit_eq⟩⟩

theorem Limited.frames_of_append {r : ρ} {bytes rest : List UInt8}
    (whole : remaining r = bytes ++ rest) :
    Limited.Frames rest (⟨r, bytes.length⟩ : Limited ρ) ∧
      remaining (⟨r, bytes.length⟩ : Limited ρ) = bytes := by
  have front : remaining (⟨r, bytes.length⟩ : Limited ρ) = bytes := by
    show (remaining r).take bytes.length = bytes
    rw [whole, List.take_left']
    rfl
  exact ⟨⟨by rw [front]; exact whole, by rw [front]⟩, front⟩

theorem Limited.read_frames {rest : List UInt8} (l : Limited ρ) (n : Nat) (positive : 0 < n)
    (frames : Frames rest l) : Frames rest (ByteReader.read l n).2.2 :=
  frames_iff_bounds.mpr (read_bounds l n positive (frames_iff_bounds.mp frames))

/-! ### Programs that read -/

/-- The state of a program that fills in a value while it reads. -/
structure Parsing (τ ρ : Type) where
  value : τ
  input : ρ

namespace Parsing

variable {τ ε α β π : Type}

/-- A program that reads from the input and may fail; a failure leaves what was done so far. -/
abbrev Program (ε τ ρ α : Type) := EStateM ε (Parsing τ ρ) α

/-- Let `call` read from the input. -/
def readWith (wrap : ReadError → ε) (call : π → List UInt8 × Option ReadError × π) :
    Program ε τ π (List UInt8) := fun s =>
  let got := call s.input
  match got.2.1 with
  | none => .ok got.1 { s with input := got.2.2 }
  | some err => .error (wrap err) { s with input := got.2.2 }

def update (change : τ → τ) : Program ε τ π Unit := fun s =>
  .ok () { s with value := change s.value }

theorem bind_of_ok {p : Program ε τ π α} {next : α → Program ε τ π β} {s s' : Parsing τ π} {a : α}
    (ran : p s = .ok a s') : (p >>= next) s = next a s' := by
  show EStateM.bind p next s = _
  simp only [EStateM.bind, ran]

theorem bind_of_error {p : Program ε τ π α} {next : α → Program ε τ π β} {s s' : Parsing τ π}
    {err : ε} (failed : p s = .error err s') : (p >>= next) s = .error err s' := by
  show EStateM.bind p next s = _
  simp only [EStateM.bind, failed]

/-- In front of `more`, the program reads `bytes`, returns `a` and changes the value by `change`; an
invariant of the reads holds after it. -/
def Parses (Inv : ρ → Prop) (p : Program ε τ ρ α) (bytes more : List UInt8) (a : α)
    (change : τ → τ) : Prop :=
  ∀ t r, Inv r → remaining r = bytes ++ more →
    ∃ r', p ⟨t, r⟩ = .ok a ⟨change t, r'⟩ ∧ Inv r' ∧ remaining r' = more

variable {Inv : ρ → Prop} {more : List UInt8}

theorem Parses.pure (a : α) :
    Parses Inv (Pure.pure a : Program ε τ ρ α) [] more a id :=
  fun _ r inv left => ⟨r, rfl, inv, left⟩

theorem Parses.update (change : τ → τ) :
    Parses Inv (update change : Program ε τ ρ Unit) [] more () change :=
  fun _ r inv left => ⟨r, rfl, inv, left⟩

/-- **Sequencing**: the second program reads what the first leaves. -/
theorem Parses.bind {p : Program ε τ ρ α} {next : α → Program ε τ ρ β} {first second : List UInt8}
    {a : α} {b : β} {change change' : τ → τ} (before : Parses Inv p first (second ++ more) a change)
    (after : Parses Inv (next a) second more b change') :
    Parses Inv (p >>= next) (first ++ second) more b (change' ∘ change) := by
  intro t r inv left
  obtain ⟨r', ran, inv', left'⟩ := before t r inv (by rw [left, List.append_assoc])
  obtain ⟨r'', ran', inv'', left''⟩ := after (change t) r' inv' left'
  exact ⟨r'', (bind_of_ok ran).trans ran', inv'', left''⟩

theorem Parses.seq {p : Program ε τ ρ α} {q : Program ε τ ρ β} {first second : List UInt8} {a : α}
    {b : β} {change change' : τ → τ} (before : Parses Inv p first (second ++ more) a change)
    (after : Parses Inv q second more b change') :
    Parses Inv (do let _ ← p; q) (first ++ second) more b (change' ∘ change) :=
  Parses.bind before after

theorem Parses.bind_pure {p : Program ε τ ρ α} {bytes : List UInt8} {a : α} {change : τ → τ}
    (reads : Parses Inv p bytes more a change) (f : α → β) :
    Parses Inv (do let x ← p; Pure.pure (f x)) bytes more (f a) change := by
  have both : Parses Inv (p >>= fun x => Pure.pure (f x)) (bytes ++ []) more (f a) (id ∘ change) :=
    reads.bind (Parses.pure (f a))
  rwa [List.append_nil] at both

theorem Parses.bind_update {p : Program ε τ ρ α} {bytes : List UInt8} {a : α} {change : τ → τ}
    (reads : Parses Inv p bytes more a change) (f : α → τ → τ) :
    Parses Inv (do let x ← p; Parsing.update (f x)) bytes more () (f a ∘ change) := by
  have both : Parses Inv (p >>= fun x => Parsing.update (f x)) (bytes ++ []) more ()
      (f a ∘ change) := reads.bind (Parses.update (f a))
  rwa [List.append_nil] at both

theorem readWith_of_none {wrap : ReadError → ε} {call : π → List UInt8 × Option ReadError × π}
    {t : τ} {r : π} (fine : (call r).2.1 = none) :
    readWith wrap call ⟨t, r⟩ = .ok (call r).1 ⟨t, (call r).2.2⟩ := by
  simp only [readWith, fine]

theorem readWith_of_some {wrap : ReadError → ε} {call : π → List UInt8 × Option ReadError × π}
    {t : τ} {r : π} {err : ReadError} (failed : (call r).2.1 = some err) :
    readWith wrap call ⟨t, r⟩ = .error (wrap err) ⟨t, (call r).2.2⟩ := by
  simp only [readWith, failed]

section Reads

variable (keeps : ∀ r n, 0 < n → Inv r → Inv (ByteReader.read r n).2.2) (wrap : ReadError → ε)
include keeps

theorem Parses.readFull {bytes : List UInt8} {n : Nat} (length : bytes.length = n) :
    Parses Inv (readWith wrap (Lib.readFull · n) : Program ε τ ρ _) bytes more bytes id := by
  intro t r inv left
  obtain ⟨got, err, left'⟩ := readFull_spec r n
  rw [left, List.length_append, if_pos (by omega)] at err
  rw [left, List.take_left' length] at got
  rw [left, List.drop_left' length] at left'
  exact ⟨_, got ▸ readWith_of_none err, readFull_keeps keeps inv n, left'⟩

theorem Parses.readAll (bytes : List UInt8) :
    Parses Inv (readWith wrap Lib.readAll : Program ε τ ρ _) bytes [] bytes id := by
  intro t r inv left
  obtain ⟨got, err, left'⟩ := readAll_spec r
  rw [left, List.append_nil] at got
  exact ⟨_, got ▸ readWith_of_none err, readAll_keeps keeps inv, left'⟩

theorem Parses.readOne (byte : UInt8) :
    Parses Inv (readWith wrap (ByteReader.read · 1) : Program ε τ ρ _) [byte] more [byte] id := by
  intro t r inv left
  obtain ⟨k, some, asked, _, got, err, left'⟩ :=
    ByteReader.read_of_ne_nil r 1 (by rw [left]; nofun) Nat.one_pos
  obtain rfl : k = 1 := by omega
  rw [left] at got left'
  have one : (ByteReader.read r 1).1 = [byte] := got
  exact ⟨_, one ▸ readWith_of_none err, keeps r 1 Nat.one_pos inv, left'⟩

end Reads

end Parsing

end GoBt.Lib
