/-
**Programs that cannot tell two readers apart.**

Two readers may hand out the same stream in different portions. A program that reads it by whole
fields does the same on both.

* `Alike` — two readers, each under an invariant of its own, that have the same stream left.
* `Agree` — two results that differ in the readers they leave only, and these are still alike.
* `Lockstep` — two programs that agree on readers that are alike. The rules `Lockstep.pure`,
  `Lockstep.bind`, `Lockstep.readFull`, … compose it along the program.
-/

import GoBt.Lib.Stream

namespace GoBt.Lib.Parsing

variable {ρ σ ε τ α β : Type}

/-- Two results that differ in the readers only. -/
inductive Agree (R : ρ → σ → Prop) :
    EStateM.Result ε (Parsing τ ρ) α → EStateM.Result ε (Parsing τ σ) α → Prop
  | ok {r : ρ} {r' : σ} (a : α) (t : τ) (related : R r r') : Agree R (.ok a ⟨t, r⟩) (.ok a ⟨t, r'⟩)
  | error {r : ρ} {r' : σ} (err : ε) (t : τ) (related : R r r') :
      Agree R (.error err ⟨t, r⟩) (.error err ⟨t, r'⟩)

/-- From the same value and related readers, the two programs come to the same end. -/
def Lockstep (R : ρ → σ → Prop) (p : Program ε τ ρ α) (q : Program ε τ σ α) : Prop :=
  ∀ t r r', R r r' → Agree R (p ⟨t, r⟩) (q ⟨t, r'⟩)

/-! ### Programs that do not read -/

section Rules

variable {R : ρ → σ → Prop}

theorem Lockstep.pure (a : α) :
    Lockstep R (Pure.pure a : Program ε τ ρ α) (Pure.pure a : Program ε τ σ α) :=
  fun t _ _ related => .ok a t related

theorem Lockstep.update (change : τ → τ) :
    Lockstep R (Parsing.update change : Program ε τ ρ Unit) (Parsing.update change) :=
  fun t _ _ related => .ok () (change t) related

theorem Lockstep.bind {p : Program ε τ ρ α} {q : Program ε τ σ α} {next : α → Program ε τ ρ β}
    {next' : α → Program ε τ σ β} (first : Lockstep R p q)
    (second : ∀ a, Lockstep R (next a) (next' a)) : Lockstep R (p >>= next) (q >>= next') := by
  intro t r r' related
  have agree := first t r r' related
  rcases left : p ⟨t, r⟩ with ⟨a, s⟩ | ⟨err, s⟩ <;> rcases right : q ⟨t, r'⟩ with ⟨b, s'⟩ | ⟨err', s'⟩ <;>
    rw [left, right] at agree
  · cases agree with
    | ok a t related =>
      rw [bind_of_ok left, bind_of_ok right]
      exact second a t _ _ related
  · cases agree
  · cases agree
  · cases agree with
    | error err t related =>
      rw [bind_of_error left, bind_of_error right]
      exact .error err t related

theorem Lockstep.seq {p : Program ε τ ρ α} {q : Program ε τ σ α} {next : Program ε τ ρ β}
    {next' : Program ε τ σ β} (first : Lockstep R p q) (second : Lockstep R next next') :
    Lockstep R (do let _ ← p; next) (do let _ ← q; next') :=
  first.bind fun _ => second

theorem Lockstep.readWith {wrap : ReadError → ε} {call : ρ → List UInt8 × Option ReadError × ρ}
    {call' : σ → List UInt8 × Option ReadError × σ}
    (same : ∀ r r', R r r' → (call r).1 = (call' r').1 ∧ (call r).2.1 = (call' r').2.1 ∧
      R (call r).2.2 (call' r').2.2) :
    Lockstep R (Parsing.readWith wrap call : Program ε τ ρ _) (Parsing.readWith wrap call') := by
  intro t r r' related
  obtain ⟨bytes, err, after⟩ := same r r' related
  unfold Parsing.readWith
  dsimp only
  rw [bytes, err]
  rcases (call' r').2.1 with _ | failed
  · exact .ok _ t after
  · exact .error _ t after

end Rules

/-! ### Programs that read whole fields -/

/-- Two readers with the same stream left. -/
structure Alike [ByteReader ρ] [ByteReader σ] (Inv : ρ → Prop) (Inv' : σ → Prop) (r : ρ) (r' : σ) :
    Prop where
  left : Inv r
  right : Inv' r'
  same : remaining r = remaining r'

section Reads

variable [ByteReader ρ] [ByteReader σ] {Inv : ρ → Prop} {Inv' : σ → Prop}
  (keeps : ∀ r n, 0 < n → Inv r → Inv (ByteReader.read r n).2.2)
  (keeps' : ∀ r n, 0 < n → Inv' r → Inv' (ByteReader.read r n).2.2)
include keeps keeps'

theorem Alike.readFull {r : ρ} {r' : σ} (alike : Alike Inv Inv' r r') (n : Nat) :
    (Lib.readFull r n).1 = (Lib.readFull r' n).1 ∧
      (Lib.readFull r n).2.1 = (Lib.readFull r' n).2.1 ∧
      Alike Inv Inv' (Lib.readFull r n).2.2 (Lib.readFull r' n).2.2 := by
  obtain ⟨bytes, err, left⟩ := readFull_spec r n
  obtain ⟨bytes', err', left'⟩ := readFull_spec r' n
  refine ⟨?_, ?_, readFull_keeps keeps alike.left n, readFull_keeps keeps' alike.right n, ?_⟩
  · rw [bytes, bytes', alike.same]
  · rw [err, err', alike.same]
  · rw [left, left', alike.same]

theorem Alike.readAll {r : ρ} {r' : σ} (alike : Alike Inv Inv' r r') :
    (Lib.readAll r).1 = (Lib.readAll r').1 ∧ (Lib.readAll r).2.1 = (Lib.readAll r').2.1 ∧
      Alike Inv Inv' (Lib.readAll r).2.2 (Lib.readAll r').2.2 := by
  obtain ⟨bytes, err, left⟩ := readAll_spec r
  obtain ⟨bytes', err', left'⟩ := readAll_spec r'
  refine ⟨?_, ?_, readAll_keeps keeps alike.left, readAll_keeps keeps' alike.right, ?_⟩
  · rw [bytes, bytes', alike.same]
  · rw [err, err']
  · rw [left, left']

theorem Alike.readOne {r : ρ} {r' : σ} (alike : Alike Inv Inv' r r') :
    (ByteReader.read r 1).1 = (ByteReader.read r' 1).1 ∧
      (ByteReader.read r 1).2.1 = (ByteReader.read r' 1).2.1 ∧
      Alike Inv Inv' (ByteReader.read r 1).2.2 (ByteReader.read r' 1).2.2 := by
  have kept := keeps r 1 Nat.one_pos alike.left
  have kept' := keeps' r' 1 Nat.one_pos alike.right
  by_cases ended : remaining r = []
  · obtain ⟨bytes, err, left⟩ := ByteReader.read_of_nil r 1 ended Nat.one_pos
    obtain ⟨bytes', err', left'⟩ :=
      ByteReader.read_of_nil r' 1 (alike.same ▸ ended) Nat.one_pos
    exact ⟨bytes.trans bytes'.symm, err.trans err'.symm, kept, kept', left.trans left'.symm⟩
  · obtain ⟨k, some, asked, _, bytes, err, left⟩ :=
      ByteReader.read_of_ne_nil r 1 ended Nat.one_pos
    obtain ⟨k', some', asked', _, bytes', err', left'⟩ :=
      ByteReader.read_of_ne_nil r' 1 (alike.same ▸ ended) Nat.one_pos
    obtain rfl : k = 1 := by omega
    obtain rfl : k' = 1 := by omega
    rw [← alike.same] at bytes' left'
    exact ⟨bytes.trans bytes'.symm, err.trans err'.symm, kept, kept', left.trans left'.symm⟩

end Reads

end GoBt.Lib.Parsing
