/-
**Threads around one lock that is not reentrant.**

A thread has a stack of code still to run. The code takes the lock, gives it back, or performs an
operation on shared data, which may put more code on top of the stack: a call. A thread that wants
the lock while some thread holds it waits, even if it is the holder itself.

* `step` — a thread starts a job, or goes on by one piece of code.
* `SelfWait` — a thread waits for the lock that it holds.
* `Bracketed`, `Disciplined` — what runs under the lock is quiet: it calls only quiet operations.
* **`Disciplined.no_selfWait`** — in a disciplined system no thread ever waits for itself.
-/

import GoBt.Lib.Runs
import Mathlib.Logic.Function.Basic

namespace GoBt.Lib.Locks

/-- A piece of code. -/
inductive Code (Op : Type*)
  | lock
  | unlock
  | op (o : Op)

/-- Code that runs under the lock. -/
def guarded {Op : Type*} (body : List Op) : List (Code Op) :=
  .lock :: body.map .op ++ [.unlock]

/-- The code of a system: the program of a job, which threads take which jobs, and what an operation
does, given what the environment chooses. It changes the shared and the local data and puts code on
the stack; `none` if it panics. -/
structure Machine (Shared Local Op Choice Job : Type*) where
  program : Job → List (Code Op)
  takes : Nat → Job → Bool
  perform : Choice → Shared → Local → Op → Option (Shared × Local × List (Code Op))

structure Thread (Local Op : Type*) where
  code : List (Code Op)
  own : Local

/-- The state of a system; after a panic nothing runs any more. -/
structure State (Shared Local Op : Type*) where
  shared : Shared
  owner : Option Nat
  threads : Nat → Thread Local Op
  panicked : Bool

inductive Action (Choice Job : Type*)
  | start (id : Nat) (job : Job)
  | go (id : Nat) (choice : Choice)

section System

variable {Shared Local Op Choice Job : Type*}

def idle (shared : Shared) (own : Local) : State Shared Local Op :=
  ⟨shared, none, fun _ => ⟨[], own⟩, false⟩

/-- The state with other code for one thread. -/
def State.resume (s : State Shared Local Op) (id : Nat) (thread : Thread Local Op) :
    State Shared Local Op :=
  { s with threads := Function.update s.threads id thread }

/-- The next piece of code of a thread. -/
def advance (M : Machine Shared Local Op Choice Job) (s : State Shared Local Op) (id : Nat)
    (choice : Choice) : State Shared Local Op :=
  match (s.threads id).code with
  | [] => s
  | .lock :: rest =>
      if s.owner = none then { s.resume id { s.threads id with code := rest } with owner := some id }
      else s
  | .unlock :: rest => { s.resume id { s.threads id with code := rest } with owner := none }
  | .op o :: rest =>
      match M.perform choice s.shared (s.threads id).own o with
      | none => { s with panicked := true }
      | some (shared, own, called) =>
          { s.resume id ⟨called ++ rest, own⟩ with shared := shared }

def step (M : Machine Shared Local Op Choice Job) (s : State Shared Local Op) :
    Action Choice Job → State Shared Local Op
  | .start id job =>
      if s.panicked = false ∧ (s.threads id).code = [] ∧ M.takes id job = true then
        s.resume id { s.threads id with code := M.program job }
      else s
  | .go id choice => if s.panicked = true then s else advance M s id choice

/-- A thread waits for the lock that it holds. -/
def SelfWait (s : State Shared Local Op) : Prop :=
  ∃ id rest, s.owner = some id ∧ (s.threads id).code = .lock :: rest

/-- The thread holds the lock, and this is what is left for it to do. -/
structure Holds (s : State Shared Local Op) (id : Nat) (code : List (Code Op)) : Prop where
  running : s.panicked = false
  owner : s.owner = some id
  code : (s.threads id).code = code

theorem Holds.go {M : Machine Shared Local Op Choice Job} {s : State Shared Local Op} {id : Nat}
    {o : Op} {rest called : List (Code Op)} (holds : Holds s id (.op o :: rest)) (choice : Choice)
    {shared : Shared} {own : Local}
    (performed : M.perform choice s.shared (s.threads id).own o = some (shared, own, called)) :
    Holds (step M s (.go id choice)) id (called ++ rest) := by
  have goesOn : step M s (.go id choice) =
      { s.resume id ⟨called ++ rest, own⟩ with shared := shared } := by
    rw [step, if_neg (by rw [holds.running]; nofun), advance]
    simp only [holds.code, performed]
  rw [goesOn]
  exact ⟨holds.running, holds.owner, by simp only [State.resume, Function.update_self]⟩

theorem Holds.selfWait {s : State Shared Local Op} {id : Nat} {rest : List (Code Op)}
    (holds : Holds s id (.lock :: rest)) : SelfWait s :=
  ⟨id, rest, holds.owner, holds.code⟩

/-! ### Quiet code under the lock -/

variable (Quiet : Op → Prop)

/-- The code of a thread without the lock: operations, and guarded sections of quiet ones. -/
inductive Bracketed : List (Code Op) → Prop
  | nil : Bracketed []
  | op (o : Op) {rest : List (Code Op)} (behind : Bracketed rest) : Bracketed (.op o :: rest)
  | guarded {body : List Op} {rest : List (Code Op)} (quiet : ∀ o ∈ body, Quiet o)
      (behind : Bracketed rest) : Bracketed (guarded body ++ rest)

/-- The code of the thread with the lock: quiet operations up to the end of the section. -/
def Inside (code : List (Code Op)) : Prop :=
  ∃ (body : List Op) (rest : List (Code Op)), code = body.map .op ++ .unlock :: rest ∧
    (∀ o ∈ body, Quiet o) ∧ Bracketed Quiet rest

theorem Bracketed.append {code code' : List (Code Op)} (front : Bracketed Quiet code)
    (behind : Bracketed Quiet code') : Bracketed Quiet (code ++ code') := by
  induction front with
  | nil => exact behind
  | op o _ ih => exact .op o ih
  | guarded quiet _ ih =>
    rw [List.append_assoc]
    exact .guarded quiet ih

theorem bracketed_ops (ops : List Op) : Bracketed Quiet (ops.map .op) := by
  induction ops with
  | nil => exact .nil
  | cons o rest ih => exact .op o ih

section Inversion

variable {Quiet} {rest : List (Code Op)}

theorem Bracketed.of_lock (outside : Bracketed Quiet (.lock :: rest)) : Inside Quiet rest := by
  generalize whole : Code.lock :: rest = code at outside
  cases outside with
  | nil => cases whole
  | op _ _ => cases whole
  | guarded quiet behind =>
    rw [Locks.guarded, List.cons_append, List.cons_append, List.append_assoc] at whole
    exact ⟨_, _, (List.cons.inj whole).2, quiet, behind⟩

theorem Bracketed.of_op {o : Op} (outside : Bracketed Quiet (.op o :: rest)) :
    Bracketed Quiet rest := by
  generalize whole : Code.op o :: rest = code at outside
  cases outside with
  | nil => cases whole
  | op _ behind =>
    rw [(List.cons.inj whole).2]
    exact behind
  | guarded _ _ => cases whole

theorem Bracketed.not_unlock (outside : Bracketed Quiet (.unlock :: rest)) : False := by
  generalize whole : Code.unlock :: rest = code at outside
  cases outside with
  | nil => cases whole
  | op _ _ => cases whole
  | guarded _ _ => cases whole

theorem Inside.not_lock (inside : Inside Quiet (.lock :: rest)) : False := by
  obtain ⟨body, _, code, _, _⟩ := inside
  cases body with
  | nil => cases code
  | cons o others => cases code

theorem Inside.of_unlock (inside : Inside Quiet (.unlock :: rest)) : Bracketed Quiet rest := by
  obtain ⟨body, _, code, _, behind⟩ := inside
  cases body with
  | nil =>
    rw [(List.cons.inj code).2]
    exact behind
  | cons o others => cases code

theorem Inside.of_op {o : Op} (inside : Inside Quiet (.op o :: rest)) :
    Quiet o ∧ ∀ called : List Op, (∀ o ∈ called, Quiet o) →
      Inside Quiet (called.map .op ++ rest) := by
  obtain ⟨body, behind, code, quiet, outside⟩ := inside
  cases body with
  | nil => cases code
  | cons first others =>
    obtain ⟨same, rfl⟩ := List.cons.inj code
    obtain rfl := Code.op.inj same
    refine ⟨quiet o List.mem_cons_self, fun called more => ⟨called ++ others, behind, ?_, ?_, outside⟩⟩
    · rw [List.map_append, List.append_assoc]
      rfl
    · intro o member
      rcases List.mem_append.mp member with new | old
      · exact more o new
      · exact quiet o (List.mem_cons_of_mem _ old)

end Inversion

/-- A system whose code is bracketed, and in which quiet operations call only quiet ones. -/
structure Disciplined (M : Machine Shared Local Op Choice Job) : Prop where
  program : ∀ job, Bracketed Quiet (M.program job)
  called : ∀ {choice shared own o next}, M.perform choice shared own o = some next →
    Bracketed Quiet next.2.2
  quiet : ∀ {choice shared own o next}, Quiet o → M.perform choice shared own o = some next →
    ∃ body : List Op, next.2.2 = body.map .op ∧ ∀ o ∈ body, Quiet o

/-- The code of every thread is as its hold on the lock says. -/
def Orderly (s : State Shared Local Op) : Prop :=
  ∀ id, (s.owner = some id → Inside Quiet (s.threads id).code) ∧
    (s.owner ≠ some id → Bracketed Quiet (s.threads id).code)

variable {Quiet} {M : Machine Shared Local Op Choice Job} {s : State Shared Local Op}

theorem idle_orderly (shared : Shared) (own : Local) :
    Orderly Quiet (idle shared own : State Shared Local Op) := by
  intro id
  exact ⟨nofun, fun _ => .nil⟩

theorem Orderly.no_selfWait (orderly : Orderly Quiet s) : ¬ SelfWait s := by
  rintro ⟨id, rest, owner, waits⟩
  have inside := (orderly id).1 owner
  rw [waits] at inside
  exact inside.not_lock

theorem Orderly.resume (orderly : Orderly Quiet s) {id : Nat} {thread : Thread Local Op}
    (shared : Shared) (inside : s.owner = some id → Inside Quiet thread.code)
    (outside : s.owner ≠ some id → Bracketed Quiet thread.code) :
    Orderly Quiet { s.resume id thread with shared := shared } := by
  intro other
  by_cases same : other = id
  · subst same
    simp only [State.resume, Function.update_self]
    exact ⟨inside, outside⟩
  · simp only [State.resume, Function.update_of_ne same]
    exact orderly other

theorem Orderly.release (orderly : Orderly Quiet s) {id : Nat} {thread : Thread Local Op}
    (owner : s.owner = some id) (outside : Bracketed Quiet thread.code) :
    Orderly Quiet { s.resume id thread with owner := none } := by
  intro other
  refine ⟨nofun, fun _ => ?_⟩
  by_cases same : other = id
  · subst same
    simp only [State.resume, Function.update_self]
    exact outside
  · simp only [State.resume, Function.update_of_ne same]
    refine (orderly other).2 fun held => same ?_
    exact Option.some.inj (held.symm.trans owner)

theorem Orderly.acquire (orderly : Orderly Quiet s) {id : Nat} {thread : Thread Local Op}
    (free : s.owner = none) (inside : Inside Quiet thread.code) :
    Orderly Quiet { s.resume id thread with owner := some id } := by
  intro other
  by_cases same : other = id
  · subst same
    simp only [State.resume, Function.update_self]
    exact ⟨fun _ => inside, fun different => absurd rfl different⟩
  · simp only [State.resume, Function.update_of_ne same]
    refine ⟨fun held => absurd (Option.some.inj held).symm same, fun _ => (orderly other).2 ?_⟩
    rw [free]
    nofun

theorem Disciplined.advance (disciplined : Disciplined Quiet M) (orderly : Orderly Quiet s)
    (id : Nat) (choice : Choice) : Orderly Quiet (advance M s id choice) := by
  have mine := orderly id
  unfold Locks.advance
  split
  · exact orderly
  · rename_i rest code
    rw [code] at mine
    split
    · rename_i free
      refine orderly.acquire free (mine.2 ?_).of_lock
      rw [free]
      nofun
    · exact orderly
  · rename_i rest code
    rw [code] at mine
    by_cases owner : s.owner = some id
    · exact orderly.release owner (mine.1 owner).of_unlock
    · exact (mine.2 owner).not_unlock.elim
  · rename_i o rest code
    rw [code] at mine
    split
    · exact orderly
    · rename_i shared own called performed
      refine orderly.resume shared (fun owner => ?_) (fun other => ?_)
      · obtain ⟨quiet, goesOn⟩ := (mine.1 owner).of_op
        obtain ⟨body, rfl, more⟩ := disciplined.quiet quiet performed
        exact goesOn body more
      · exact (disciplined.called performed).append Quiet (mine.2 other).of_op

theorem Disciplined.step (disciplined : Disciplined Quiet M) (s : State Shared Local Op)
    (action : Action Choice Job) (orderly : Orderly Quiet s) :
    Orderly Quiet (step M s action) := by
  cases action with
  | start id job =>
    rw [Locks.step]
    split
    · rename_i starts
      refine orderly.resume s.shared (fun owner => ?_) (fun _ => disciplined.program job)
      -- an idle thread does not hold the lock
      have inside := (orderly id).1 owner
      rw [starts.2.1] at inside
      obtain ⟨body, rest, code, _, _⟩ := inside
      cases body <;> cases code
    · exact orderly
  | go id choice =>
    rw [Locks.step]
    split
    · exact orderly
    · exact disciplined.advance orderly id choice

/-- **No thread ever waits for itself.** -/
theorem Disciplined.no_selfWait (disciplined : Disciplined Quiet M) (shared : Shared) (own : Local)
    (actions : List (Action Choice Job)) :
    ¬ SelfWait (run (Locks.step M) (idle shared own) actions) :=
  (run_holds (Locks.step M) disciplined.step (idle_orderly shared own) actions).no_selfWait

end System

end GoBt.Lib.Locks
