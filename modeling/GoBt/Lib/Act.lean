/-
**Programs that read and write a state and emit effects.**

`Act σ ε α` is the type of such programs: a function from the state to a value, the new state and
the list of effects in the order they happen. It is a monad, so that a model of imperative code
reads like the code.

* `Act.forEach` — a loop over a list that calls a program for every element.
* `Act.Preserves P act` — every run of `act` from a state with `P` ends in a state with `P`; closed
  under sequencing (`Preserves.bind`), branching (`Preserves.ite`) and loops (`Preserves.forEach`).
* `Act.Keeps part act` — `act` leaves `part` of the state as it is: the frame rule, with the same
  closure properties.
* `Act.Emits part Q act` — `act` leaves `part` as it is, and all its effects have `Q` of it.
-/

import Mathlib.Data.List.Basic

namespace GoBt.Lib

/-- A program over the state `σ` that emits effects `ε` and returns an `α`. -/
def Act (σ ε α : Type) : Type := σ → α × σ × List ε

namespace Act

variable {σ ε α β γ : Type}

def value (act : Act σ ε α) (s : σ) : α := (act s).1

def state (act : Act σ ε α) (s : σ) : σ := (act s).2.1

def effects (act : Act σ ε α) (s : σ) : List ε := (act s).2.2

instance : Monad (Act σ ε) where
  pure a := fun s => (a, s, [])
  bind act next := fun s =>
    let (a, s', first) := act s
    let (b, s'', second) := next a s'
    (b, s'', first ++ second)

def get : Act σ ε σ := fun s => (s, s, [])

def modify (f : σ → σ) : Act σ ε Unit := fun s => ((), f s, [])

def emit (effect : ε) : Act σ ε Unit := fun s => ((), s, [effect])

/-- Call `body` for every element, in order. -/
def forEach (body : α → Act σ ε Unit) : List α → Act σ ε Unit
  | [] => pure ()
  | a :: rest => do
      body a
      forEach body rest

@[simp] theorem pure_value (a : α) (s : σ) : (pure a : Act σ ε α).value s = a := rfl

@[simp] theorem pure_state (a : α) (s : σ) : (pure a : Act σ ε α).state s = s := rfl

@[simp] theorem pure_effects (a : α) (s : σ) : (pure a : Act σ ε α).effects s = [] := rfl

@[simp] theorem bind_value (act : Act σ ε α) (next : α → Act σ ε β) (s : σ) :
    (act >>= next).value s = (next (act.value s)).value (act.state s) := rfl

@[simp] theorem bind_state (act : Act σ ε α) (next : α → Act σ ε β) (s : σ) :
    (act >>= next).state s = (next (act.value s)).state (act.state s) := rfl

@[simp] theorem bind_effects (act : Act σ ε α) (next : α → Act σ ε β) (s : σ) :
    (act >>= next).effects s =
      act.effects s ++ (next (act.value s)).effects (act.state s) := rfl

theorem bind_assoc (act : Act σ ε α) (next : α → Act σ ε β) (last : β → Act σ ε γ) :
    act >>= next >>= last = act >>= fun a => next a >>= last := by
  funext s
  show (_, _, (_ ++ _) ++ _) = (_, _, _ ++ (_ ++ _))
  rw [List.append_assoc]

theorem bind_congr_at {act : Act σ ε α} {next next' : α → Act σ ε β} {s : σ}
    (same : next (act.value s) (act.state s) = next' (act.value s) (act.state s)) :
    (act >>= next) s = (act >>= next') s := by
  show ((next (act.value s) (act.state s)).1, (next (act.value s) (act.state s)).2.1,
    act.effects s ++ (next (act.value s) (act.state s)).2.2) = _
  rw [same]
  rfl

theorem bind_of_quiet {act : Act σ ε α} {s : σ} (quiet : act.effects s = [])
    (next : α → Act σ ε β) : (act >>= next) s = next (act.value s) (act.state s) := by
  show (_, _, act.effects s ++ _) = _
  rw [quiet]
  rfl

theorem ite_bind {condition : Prop} [Decidable condition] (yes no : Act σ ε α)
    (next : α → Act σ ε β) :
    (if condition then yes else no) >>= next = if condition then yes >>= next else no >>= next :=
  apply_ite (· >>= next) condition yes no

@[simp] theorem get_state (s : σ) : (get : Act σ ε σ).state s = s := rfl

/-- Reading the state puts it into the rest of the program; as a rewriting step, this also reaches
the branches that depend on it. -/
theorem get_bind_state (next : σ → Act σ ε β) (s : σ) :
    (get >>= next).state s = (next s).state s := rfl

theorem get_bind_apply (next : σ → Act σ ε β) (s : σ) : (get >>= next) s = next s s := rfl

theorem get_bind_value (next : σ → Act σ ε β) (s : σ) :
    (get >>= next).value s = (next s).value s := rfl

theorem get_bind_effects (next : σ → Act σ ε β) (s : σ) :
    (get >>= next).effects s = (next s).effects s := rfl

@[simp] theorem modify_state (f : σ → σ) (s : σ) :
    (modify f : Act σ ε Unit).state s = f s := rfl

@[simp] theorem modify_effects (f : σ → σ) (s : σ) :
    (modify f : Act σ ε Unit).effects s = [] := rfl

@[simp] theorem emit_state (effect : ε) (s : σ) : (emit effect : Act σ ε Unit).state s = s := rfl

@[simp] theorem emit_effects (effect : ε) (s : σ) :
    (emit effect : Act σ ε Unit).effects s = [effect] := rfl

section Branches

variable {condition : Prop} [Decidable condition] (yes no : Act σ ε α) (s : σ)

@[simp] theorem ite_value : (if condition then yes else no).value s =
    if condition then yes.value s else no.value s :=
  apply_ite (fun act => act.value s) condition yes no

@[simp] theorem ite_state : (if condition then yes else no).state s =
    if condition then yes.state s else no.state s :=
  apply_ite (fun act => act.state s) condition yes no

@[simp] theorem ite_effects : (if condition then yes else no).effects s =
    if condition then yes.effects s else no.effects s :=
  apply_ite (fun act => act.effects s) condition yes no

end Branches

/-! ### Invariants of a program -/

/-- From every state with `P`, the program ends in a state with `P`. -/
def Preserves (P : σ → Prop) (act : Act σ ε α) : Prop :=
  ∀ s, P s → P (act.state s)

namespace Preserves

variable {P : σ → Prop}

theorem pure (a : α) : Preserves P (Pure.pure a : Act σ ε α) := fun _ holds => holds

theorem get : Preserves P (Act.get : Act σ ε σ) := fun _ holds => holds

theorem emit (effect : ε) : Preserves P (Act.emit effect : Act σ ε Unit) := fun _ holds => holds

theorem bind {act : Act σ ε α} {next : α → Act σ ε β} (first : Preserves P act)
    (second : ∀ a, Preserves P (next a)) : Preserves P (act >>= next) :=
  fun s holds => second (act.value s) (act.state s) (first s holds)

theorem ite {condition : Prop} [Decidable condition] {yes no : Act σ ε α}
    (first : Preserves P yes) (second : Preserves P no) :
    Preserves P (if condition then yes else no) := by
  split
  · exact first
  · exact second

theorem forEach {body : α → Act σ ε Unit} (each : ∀ a, Preserves P (body a)) (items : List α) :
    Preserves P (Act.forEach body items) := by
  induction items with
  | nil => exact pure ()
  | cons item rest ih => exact bind (each item) fun _ => ih

end Preserves

/-! ### The frame of a program -/

/-- The program leaves `part` of the state as it is. -/
def Keeps (part : σ → γ) (act : Act σ ε α) : Prop :=
  ∀ s, part (act.state s) = part s

namespace Keeps

variable {part : σ → γ}

theorem of_preserves {act : Act σ ε α}
    (same : ∀ value, Preserves (fun s => part s = value) act) : Keeps part act :=
  fun s => same (part s) s rfl

theorem preserves {act : Act σ ε α} (keeps : Keeps part act) (value : γ) :
    Preserves (fun s => part s = value) act :=
  fun s holds => (keeps s).trans holds

theorem pure (a : α) : Keeps part (Pure.pure a : Act σ ε α) := fun _ => rfl

theorem get : Keeps part (Act.get : Act σ ε σ) := fun _ => rfl

theorem emit (effect : ε) : Keeps part (Act.emit effect : Act σ ε Unit) := fun _ => rfl

theorem bind {act : Act σ ε α} {next : α → Act σ ε β} (first : Keeps part act)
    (second : ∀ a, Keeps part (next a)) : Keeps part (act >>= next) :=
  fun s => (second (act.value s) (act.state s)).trans (first s)

theorem ite {condition : Prop} [Decidable condition] {yes no : Act σ ε α}
    (first : Keeps part yes) (second : Keeps part no) :
    Keeps part (if condition then yes else no) := by
  split
  · exact first
  · exact second

theorem forEach {body : α → Act σ ε Unit} (each : ∀ a, Keeps part (body a)) (items : List α) :
    Keeps part (Act.forEach body items) :=
  of_preserves fun value => Preserves.forEach (fun a => (each a).preserves value) items

end Keeps

/-! ### The effects of a program -/

/-- The program leaves `part` of the state as it is, and what it emits has `Q` of this part. -/
def Emits (part : σ → γ) (Q : γ → ε → Prop) (act : Act σ ε α) : Prop :=
  Keeps part act ∧ ∀ s, ∀ effect ∈ act.effects s, Q (part s) effect

namespace Emits

variable {part : σ → γ} {Q : γ → ε → Prop}

theorem pure (a : α) : Emits part Q (Pure.pure a : Act σ ε α) := ⟨Keeps.pure a, fun _ => nofun⟩

theorem get : Emits part Q (Act.get : Act σ ε σ) := ⟨Keeps.get, fun _ => nofun⟩

theorem modify {f : σ → σ} (same : ∀ s, part (f s) = part s) :
    Emits part Q (Act.modify f : Act σ ε Unit) :=
  ⟨same, fun _ => nofun⟩

theorem bind {act : Act σ ε α} {next : α → Act σ ε β} (first : Emits part Q act)
    (second : ∀ a, Emits part Q (next a)) : Emits part Q (act >>= next) := by
  refine ⟨first.1.bind fun a => (second a).1, fun s effect member => ?_⟩
  rcases List.mem_append.mp member with early | late
  · exact first.2 s effect early
  · rw [← first.1 s]
    exact (second _).2 _ effect late

theorem ite {condition : Prop} [Decidable condition] {yes no : Act σ ε α}
    (first : Emits part Q yes) (second : Emits part Q no) :
    Emits part Q (if condition then yes else no) := by
  split
  · exact first
  · exact second

theorem forEach {body : α → Act σ ε Unit} (each : ∀ a, Emits part Q (body a)) (items : List α) :
    Emits part Q (Act.forEach body items) := by
  induction items with
  | nil => exact pure ()
  | cons item rest ih => exact bind (each item) fun _ => ih

end Emits

end Act

end GoBt.Lib
