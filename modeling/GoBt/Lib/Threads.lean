/-
**Programs that call their environment, and pools of them that interleave.**

* `Prog Op Ans α` — a program that calls operations of its environment, one after the other, and
  goes on with each answer; it returns an `α` or panics.
* `Plays p events q` — after calls with the given answers, `p` has become `q`.
* `Within P Q p` — whatever it is answered, `p` makes only calls in `P` and panics only within `Q`.
* `System` — what an operation answers in a shared state, unless it blocks, and what it changes.
* `exec` — a program alone; `Pool.step` — a pool of programs over one shared state, where a move
  starts a program, lets one program make its next call, or changes the state from outside. The log
  of a pool is the order in which things happened.
* `Pool.sound_run` — **the log explains every pool that moves lead to**: the shared state is what
  the log makes of the first one, every program is what its own calls make of its start, and every
  call was answered by the state that the log before it leads to.
-/

import GoBt.Lib.Runs
import GoBt.Lib.Window

namespace GoBt.Lib

/-! ### Programs -/

/-- A program that calls operations of its environment. -/
inductive Prog (Op : Type) (Ans : Op → Type) (α : Type) where
  | ret (a : α)
  | panic (p : Panic)
  | call (op : Op) (next : Ans op → Prog Op Ans α)

structure Event (Op : Type) (Ans : Op → Type) where
  op : Op
  answer : Ans op

namespace Prog

variable {Op : Type} {Ans : Op → Type} {α β : Type}

def bind : Prog Op Ans α → (α → Prog Op Ans β) → Prog Op Ans β
  | ret a, f => f a
  | panic p, _ => panic p
  | call op next, f => call op fun answer => (next answer).bind f

instance : Monad (Prog Op Ans) where
  pure := ret
  bind := bind

def perform (op : Op) : Prog Op Ans (Ans op) := call op ret

/-- Code that calls nothing. -/
def lift : Except Panic α → Prog Op Ans α
  | .ok a => ret a
  | .error p => panic p

@[simp] theorem ret_bind (a : α) (f : α → Prog Op Ans β) : (ret a >>= f) = f a := rfl

@[simp] theorem panic_bind (p : Panic) (f : α → Prog Op Ans β) :
    ((panic p : Prog Op Ans α) >>= f) = panic p := rfl

@[simp] theorem perform_bind (op : Op) (f : Ans op → Prog Op Ans β) :
    (perform op >>= f) = call op f := rfl

/-- After calls with the given answers, the first program has become the second. -/
inductive Plays : Prog Op Ans α → List (Event Op Ans) → Prog Op Ans α → Prop
  | nil (p : Prog Op Ans α) : Plays p [] p
  | cons {op : Op} {next : Ans op → Prog Op Ans α} {answer : Ans op} {rest : List (Event Op Ans)}
      {q : Prog Op Ans α} (later : Plays (next answer) rest q) :
      Plays (call op next) (⟨op, answer⟩ :: rest) q

namespace Plays

variable {events : List (Event Op Ans)} {q : Prog Op Ans α}

theorem call_iff {op : Op} {next : Ans op → Prog Op Ans α} :
    Plays (call op next) events q ↔ (events = [] ∧ q = call op next) ∨
      ∃ answer rest, events = ⟨op, answer⟩ :: rest ∧ Plays (next answer) rest q := by
  constructor
  · intro plays
    cases plays with
    | nil => exact Or.inl ⟨rfl, rfl⟩
    | cons later => exact Or.inr ⟨_, _, rfl, later⟩
  · rintro (⟨rfl, rfl⟩ | ⟨answer, rest, rfl, later⟩)
    · exact .nil _
    · exact .cons later

theorem ret_iff {a : α} : Plays (ret a) events q ↔ events = [] ∧ q = ret a := by
  constructor
  · intro plays
    cases plays
    exact ⟨rfl, rfl⟩
  · rintro ⟨rfl, rfl⟩
    exact .nil _

theorem panic_iff {p : Panic} : Plays (panic p) events q ↔ events = [] ∧ q = panic p := by
  constructor
  · intro plays
    cases plays
    exact ⟨rfl, rfl⟩
  · rintro ⟨rfl, rfl⟩
    exact .nil _

theorem concat {p : Prog Op Ans α} {op : Op} {next : Ans op → Prog Op Ans α}
    (plays : Plays p events (call op next)) (answer : Ans op) :
    Plays p (events ++ [⟨op, answer⟩]) (next answer) := by
  generalize target : call op next = r at plays
  induction plays with
  | nil p =>
    subst target
    exact .cons (.nil _)
  | cons later ih => exact .cons (ih target)

theorem of_bind {p : Prog Op Ans β} {next : β → Prog Op Ans α}
    (plays : Plays (p >>= next) events q) :
    (∃ p', (∀ b, p' ≠ ret b) ∧ Plays p events p' ∧ q = p' >>= next) ∨
      ∃ b before after, events = before ++ after ∧ Plays p before (ret b) ∧
        Plays (next b) after q := by
  induction p generalizing events with
  | ret b => exact Or.inr ⟨b, [], events, rfl, .nil _, plays⟩
  | panic reason =>
    obtain ⟨rfl, rfl⟩ := panic_iff.mp plays
    exact Or.inl ⟨panic reason, fun b same => (nomatch same), .nil _, rfl⟩
  | call op rest ih =>
    rcases call_iff.mp plays with ⟨rfl, rfl⟩ | ⟨answer, events, rfl, later⟩
    · exact Or.inl ⟨call op rest, fun b same => (nomatch same), .nil _, rfl⟩
    · rcases ih answer later with ⟨p', running, first, rfl⟩ | ⟨b, before, after, rfl, first, last⟩
      · exact Or.inl ⟨p', running, .cons first, rfl⟩
      · exact Or.inr ⟨b, _ :: before, after, rfl, .cons first, last⟩

theorem of_map {p : Prog Op Ans β} {f : β → α} (plays : Plays (p >>= fun b => ret (f b)) events q) :
    ∃ p', Plays p events p' ∧ q = p' >>= fun b => ret (f b) := by
  rcases of_bind plays with ⟨p', _, first, eq⟩ | ⟨b, before, after, rfl, first, last⟩
  · exact ⟨p', first, eq⟩
  · obtain ⟨rfl, rfl⟩ := ret_iff.mp last
    rw [List.append_nil]
    exact ⟨ret b, first, rfl⟩

theorem bind_ne_ret {p : Prog Op Ans β} {next : β → Prog Op Ans α} {a : α}
    (running : ∀ b, p ≠ ret b) : (p >>= next) ≠ ret a := by
  cases p with
  | ret b => exact absurd rfl (running b)
  | panic reason | call op rest => exact fun same => nomatch same

end Plays

/-- **Whatever it is answered**, the program makes only calls in `P` and panics only within `Q`. -/
inductive Within (P : Op → Prop) (Q : Panic → Prop) : Prog Op Ans α → Prop
  | ret (a : α) : Within P Q (.ret a)
  | panic {p : Panic} (allowed : Q p) : Within P Q (.panic p)
  | call {op : Op} {next : Ans op → Prog Op Ans α} (allowed : P op)
      (later : ∀ answer, Within P Q (next answer)) : Within P Q (.call op next)

theorem Within.of_plays {P : Op → Prop} {Q : Panic → Prop} {p : Prog Op Ans α}
    (within : Within P Q p) {events : List (Event Op Ans)} {op : Op}
    {next : Ans op → Prog Op Ans α} (plays : Plays p events (.call op next)) : P op := by
  generalize target : Prog.call op next = q at plays
  induction plays with
  | nil =>
    subst target
    cases within with
    | call allowed => exact allowed
  | cons _ ih =>
    cases within with
    | call _ later => exact ih (later _) target

theorem Within.ite {P : Op → Prop} {Q : Panic → Prop} {condition : Prop} [Decidable condition]
    {yes no : Prog Op Ans α} (first : Within P Q yes) (second : Within P Q no) :
    Within P Q (if condition then yes else no) := by
  split
  · exact first
  · exact second

end Prog

/-! ### Systems -/

/-- The environment of programs: `answer choice s op` is what `op` answers in the state `s`, where
`choice` is what neither the state nor the call decides; it is `none` when the call blocks. -/
structure System (Op : Type) (Ans : Op → Type) (σ Choice : Type) where
  answer : Choice → σ → (op : Op) → Option (Ans op)
  effect : (op : Op) → Ans op → σ → σ

/-- How a program ends. -/
inductive Ending (α : Type) where
  | returned (a : α)
  | panicked (p : Panic)
  | blocked
  deriving DecidableEq

section Exec

variable {Op : Type} {Ans : Op → Type} {σ Choice α : Type}

/-- A program alone: how it ends, the last state, and its calls. -/
def exec (sys : System Op Ans σ Choice) (choice : Choice) :
    Prog Op Ans α → σ → Ending α × σ × List (Event Op Ans)
  | .ret a, s => (.returned a, s, [])
  | .panic p, s => (.panicked p, s, [])
  | .call op next, s =>
      match sys.answer choice s op with
      | none => (.blocked, s, [])
      | some answer =>
          let (ending, last, events) := exec sys choice (next answer) (sys.effect op answer s)
          (ending, last, ⟨op, answer⟩ :: events)

theorem exec_call {sys : System Op Ans σ Choice} {choice : Choice} {op : Op}
    {next : Ans op → Prog Op Ans α} {s : σ} {answer : Ans op}
    (answers : sys.answer choice s op = some answer) :
    exec sys choice (.call op next) s =
      ((exec sys choice (next answer) (sys.effect op answer s)).1,
        (exec sys choice (next answer) (sys.effect op answer s)).2.1,
        ⟨op, answer⟩ :: (exec sys choice (next answer) (sys.effect op answer s)).2.2) := by
  rw [exec, answers]

theorem exec_within {sys : System Op Ans σ Choice} {choice : Choice}
    (answers : ∀ s op, ∃ answer, sys.answer choice s op = some answer) {P : Op → Prop}
    {Q : Panic → Prop} {p : Prog Op Ans α} (within : Prog.Within P Q p) (s : σ) :
    ((∃ a, (exec sys choice p s).1 = .returned a) ∨
      ∃ q, Q q ∧ (exec sys choice p s).1 = .panicked q) ∧
        ∀ event ∈ (exec sys choice p s).2.2, P event.op := by
  induction within generalizing s with
  | ret a => exact ⟨Or.inl ⟨a, rfl⟩, fun _ none' => nomatch none'⟩
  | panic allowed => exact ⟨Or.inr ⟨_, allowed, rfl⟩, fun _ none' => nomatch none'⟩
  | @call op next allowed later ih =>
    obtain ⟨answer, eq⟩ := answers s op
    obtain ⟨ends, calls⟩ := ih answer (sys.effect op answer s)
    rw [exec_call eq]
    exact ⟨ends, List.forall_mem_cons.mpr ⟨allowed, calls⟩⟩

end Exec

/-! ### Pools -/

/-- A move of a pool: a program starts, a program makes its next call, or the state changes from
outside. -/
inductive Move (Seed Choice Env : Type) where
  | spawn (seed : Seed)
  | advance (thread : Nat) (choice : Choice)
  | disturb (env : Env)

inductive Entry (Seed : Type) (Op : Type) (Ans : Op → Type) (Env : Type) where
  | spawned (seed : Seed)
  | did (thread : Nat) (op : Op) (answer : Ans op)
  | disturbed (env : Env)

/-- Programs over a shared state, and what has happened so far. -/
structure Pool (Seed : Type) (Op : Type) (Ans : Op → Type) (σ Env α : Type) where
  shared : σ
  threads : List (Prog Op Ans α)
  log : List (Entry Seed Op Ans Env)

namespace Pool

variable {Seed Op : Type} {Ans : Op → Type} {σ Choice Env α : Type}

def fresh (s : σ) : Pool Seed Op Ans σ Env α := ⟨s, [], []⟩

variable (sys : System Op Ans σ Choice) (start : Seed → Prog Op Ans α) (disturb : Env → σ → σ)

/-- One move. A program that has ended or whose call blocks does not move. -/
def step (pool : Pool Seed Op Ans σ Env α) : Move Seed Choice Env → Pool Seed Op Ans σ Env α
  | .spawn seed =>
      { pool with threads := pool.threads ++ [start seed], log := pool.log ++ [.spawned seed] }
  | .advance thread choice =>
      match pool.threads[thread]? with
      | some (.call op next) =>
          match sys.answer choice pool.shared op with
          | some answer =>
              { shared := sys.effect op answer pool.shared
                threads := pool.threads.set thread (next answer)
                log := pool.log ++ [.did thread op answer] }
          | none => pool
      | _ => pool
  | .disturb env =>
      { pool with shared := disturb env pool.shared, log := pool.log ++ [.disturbed env] }

/-- What an entry of the log does to the shared state. -/
def replay (s : σ) : Entry Seed Op Ans Env → σ
  | .spawned _ => s
  | .did _ op answer => sys.effect op answer s
  | .disturbed env => disturb env s

/-- The seeds of the programs, in the order of their numbers. -/
def seedsOf (log : List (Entry Seed Op Ans Env)) : List Seed :=
  log.filterMap fun entry => match entry with
    | .spawned seed => some seed
    | _ => none

/-- The operations called, by whichever program. -/
def opsOf (log : List (Entry Seed Op Ans Env)) : List Op :=
  log.filterMap fun entry => match entry with
    | .did _ op _ => some op
    | _ => none

def eventsOf (thread : Nat) (log : List (Entry Seed Op Ans Env)) : List (Event Op Ans) :=
  log.filterMap fun entry => match entry with
    | .did other op answer => if other = thread then some ⟨op, answer⟩ else none
    | _ => none

/-- A call is justified by the log before it: the state the log leads to gave the answer, and the
program had come to this call. -/
def Justified (first : σ) (before : List (Entry Seed Op Ans Env)) (thread : Nat) (op : Op)
    (answer : Ans op) : Prop :=
  (∃ choice, sys.answer choice (run (replay sys disturb) first before) op = some answer) ∧
    ∃ seed next, (seedsOf before)[thread]? = some seed ∧
      Prog.Plays (start seed) (eventsOf thread before) (.call op next)

/-- The log explains the pool. -/
structure Sound (first : σ) (pool : Pool Seed Op Ans σ Env α) : Prop where
  shared : pool.shared = run (replay sys disturb) first pool.log
  count : (seedsOf pool.log).length = pool.threads.length
  unborn : ∀ {thread : Nat}, pool.threads.length ≤ thread → eventsOf thread pool.log = []
  plays : ∀ {thread : Nat} {seed : Seed} {p : Prog Op Ans α},
    (seedsOf pool.log)[thread]? = some seed → pool.threads[thread]? = some p →
      Prog.Plays (start seed) (eventsOf thread pool.log) p
  justified : ∀ {before after : List (Entry Seed Op Ans Env)} {thread : Nat} {op : Op}
    {answer : Ans op}, pool.log = before ++ .did thread op answer :: after →
      Justified sys start disturb first before thread op answer

section Log

variable (log : List (Entry Seed Op Ans Env))

@[simp] theorem seedsOf_spawned (seed : Seed) :
    seedsOf (log ++ [.spawned seed]) = seedsOf log ++ [seed] := by
  simp [seedsOf]

@[simp] theorem seedsOf_did (thread : Nat) (op : Op) (answer : Ans op) :
    seedsOf (log ++ [.did thread op answer]) = seedsOf log := by
  simp [seedsOf]

@[simp] theorem seedsOf_disturbed (env : Env) :
    seedsOf (log ++ [.disturbed env]) = seedsOf log := by
  simp [seedsOf]

@[simp] theorem eventsOf_spawned (thread : Nat) (seed : Seed) :
    eventsOf thread (log ++ [.spawned seed]) = eventsOf thread log := by
  simp [eventsOf]

@[simp] theorem eventsOf_did_self (thread : Nat) (op : Op) (answer : Ans op) :
    eventsOf thread (log ++ [.did thread op answer]) = eventsOf thread log ++ [⟨op, answer⟩] := by
  simp [eventsOf]

theorem eventsOf_did_other {thread other : Nat} (different : other ≠ thread) (op : Op)
    (answer : Ans op) : eventsOf thread (log ++ [.did other op answer]) = eventsOf thread log := by
  simp [eventsOf, different]

@[simp] theorem eventsOf_disturbed (thread : Nat) (env : Env) :
    eventsOf thread (log ++ [.disturbed env]) = eventsOf thread log := by
  simp [eventsOf]

theorem seedsOf_front {before after : List (Entry Seed Op Ans Env)} {thread : Nat} {seed : Seed}
    (seeded : (seedsOf before)[thread]? = some seed) :
    (seedsOf (before ++ after))[thread]? = some seed := by
  have inside : thread < (seedsOf before).length := (List.getElem?_eq_some_iff.mp seeded).1
  rw [seedsOf, List.filterMap_append]
  exact (List.getElem?_append_left inside).trans seeded

theorem countP_seedsOf_front (test : Seed → Bool) (before after : List (Entry Seed Op Ans Env)) :
    (seedsOf before).countP test ≤ (seedsOf (before ++ after)).countP test := by
  rw [seedsOf, seedsOf, List.filterMap_append, List.countP_append]
  exact Nat.le_add_right _ _

theorem mem_eventsOf {thread : Nat} {op : Op} {answer : Ans op} :
    ⟨op, answer⟩ ∈ eventsOf thread log ↔ .did thread op answer ∈ log := by
  unfold eventsOf
  rw [List.mem_filterMap]
  constructor
  · rintro ⟨entry, member, found⟩
    cases entry with
    | spawned seed => cases found
    | disturbed env => cases found
    | did other op' answer' =>
      by_cases same : other = thread
      · simp only [same, if_true, Option.some.injEq, Event.mk.injEq] at found
        obtain ⟨rfl, sameAnswer⟩ := found
        rw [← same, ← eq_of_heq sameAnswer]
        exact member
      · simp only [same, if_false] at found
        cases found
  · intro member
    exact ⟨_, member, by simp⟩

variable {log} in
theorem did_of_events {thread : Nat} {events : List (Event Op Ans)}
    (eq : eventsOf thread log = events) {op : Op} {answer : Ans op}
    (member : ⟨op, answer⟩ ∈ events) : .did thread op answer ∈ log :=
  (mem_eventsOf log).mp (eq ▸ member)

theorem concat_split {last entry : Entry Seed Op Ans Env}
    {before after : List (Entry Seed Op Ans Env)}
    (split : log ++ [last] = before ++ entry :: after) :
    (log = before ∧ last = entry) ∨ ∃ between, log = before ++ entry :: between := by
  rcases List.eq_nil_or_concat after with rfl | ⟨between, final, rfl⟩
  · obtain ⟨rfl, same⟩ := List.append_inj' split rfl
    exact Or.inl ⟨rfl, (List.cons.inj same).1⟩
  · rw [List.concat_eq_append, ← List.cons_append, ← List.append_assoc] at split
    exact Or.inr ⟨between, (List.append_inj' split rfl).1⟩

end Log

variable {sys start disturb} {first : σ} {pool : Pool Seed Op Ans σ Env α}

theorem Sound.justified_concat (sound : Sound sys start disturb first pool)
    {last : Entry Seed Op Ans Env}
    (noCall : ∀ (thread : Nat) (op : Op) (answer : Ans op), last ≠ .did thread op answer)
    {before after : List (Entry Seed Op Ans Env)} {thread : Nat} {op : Op} {answer : Ans op}
    (split : pool.log ++ [last] = before ++ .did thread op answer :: after) :
    Justified sys start disturb first before thread op answer := by
  rcases concat_split pool.log split with ⟨_, same⟩ | ⟨between, earlier⟩
  · exact absurd same (noCall thread op answer)
  · exact sound.justified earlier

theorem sound_spawn (sound : Sound sys start disturb first pool) (seed : Seed) :
    Sound sys start disturb first (step sys start disturb pool (.spawn seed)) where
  shared := by
    show pool.shared = run (replay sys disturb) first (pool.log ++ [.spawned seed])
    rw [run_append, ← sound.shared]
    rfl
  count := by
    show (seedsOf (pool.log ++ [.spawned seed])).length = (pool.threads ++ [start seed]).length
    rw [seedsOf_spawned, List.length_append, List.length_append, sound.count]
    rfl
  unborn := by
    intro thread late
    show eventsOf thread (pool.log ++ [.spawned seed]) = []
    have later : pool.threads.length ≤ thread := by
      have longer : (pool.threads ++ [start seed]).length ≤ thread := late
      rw [List.length_append] at longer
      omega
    rw [eventsOf_spawned, sound.unborn later]
  plays := by
    intro thread seed' p seeded runs
    change (seedsOf (pool.log ++ [.spawned seed]))[thread]? = some seed' at seeded
    change (pool.threads ++ [start seed])[thread]? = some p at runs
    show Prog.Plays (start seed') (eventsOf thread (pool.log ++ [.spawned seed])) p
    rw [seedsOf_spawned] at seeded
    rw [eventsOf_spawned]
    by_cases old : thread < pool.threads.length
    · rw [List.getElem?_append_left (by rwa [sound.count])] at seeded
      rw [List.getElem?_append_left old] at runs
      exact sound.plays seeded runs
    · rw [List.getElem?_append_right (by rw [sound.count]; omega), sound.count] at seeded
      rw [List.getElem?_append_right (by omega)] at runs
      have new : thread - pool.threads.length = 0 := by
        by_contra other
        rw [List.getElem?_eq_none (by simp only [List.length_singleton]; omega)] at runs
        cases runs
      rw [new] at seeded runs
      cases seeded
      cases runs
      rw [sound.unborn (by omega)]
      exact .nil _
  justified := by
    intro before after thread op answer split
    change pool.log ++ [.spawned seed] = _ at split
    refine sound.justified_concat ?_ split
    intro _ _ _ same
    cases same

theorem sound_disturb (sound : Sound sys start disturb first pool) (env : Env) :
    Sound sys start disturb first (step sys start disturb pool (.disturb env)) where
  shared := by
    show disturb env pool.shared = run (replay sys disturb) first (pool.log ++ [.disturbed env])
    rw [run_append, ← sound.shared]
    rfl
  count := by
    show (seedsOf (pool.log ++ [.disturbed env])).length = pool.threads.length
    rw [seedsOf_disturbed, sound.count]
  unborn := by
    intro thread late
    show eventsOf thread (pool.log ++ [.disturbed env]) = []
    rw [eventsOf_disturbed, sound.unborn late]
  plays := by
    intro thread seed p seeded runs
    change (seedsOf (pool.log ++ [.disturbed env]))[thread]? = some seed at seeded
    show Prog.Plays (start seed) (eventsOf thread (pool.log ++ [.disturbed env])) p
    rw [seedsOf_disturbed] at seeded
    rw [eventsOf_disturbed]
    exact sound.plays seeded runs
  justified := by
    intro before after thread op answer split
    change pool.log ++ [.disturbed env] = _ at split
    refine sound.justified_concat ?_ split
    intro _ _ _ same
    cases same

theorem sound_call (sound : Sound sys start disturb first pool) {thread : Nat} {op : Op}
    {next : Ans op → Prog Op Ans α} (runs : pool.threads[thread]? = some (.call op next))
    {choice : Choice} {answer : Ans op} (answers : sys.answer choice pool.shared op = some answer) :
    Sound sys start disturb first
      { shared := sys.effect op answer pool.shared
        threads := pool.threads.set thread (next answer)
        log := pool.log ++ [.did thread op answer] } := by
  have inside : thread < pool.threads.length := (List.getElem?_eq_some_iff.mp runs).1
  obtain ⟨seed, seeded⟩ : ∃ seed, (seedsOf pool.log)[thread]? = some seed :=
    ⟨_, List.getElem?_eq_getElem (by rwa [sound.count])⟩
  have plays := sound.plays seeded runs
  constructor
  case shared =>
    show _ = run (replay sys disturb) first (pool.log ++ [.did thread op answer])
    rw [run_append, ← sound.shared]
    rfl
  case count =>
    show (seedsOf (pool.log ++ [.did thread op answer])).length = _
    rw [seedsOf_did, sound.count, List.length_set]
  case unborn =>
    intro other late
    show eventsOf other (pool.log ++ [.did thread op answer]) = []
    rw [List.length_set] at late
    rw [eventsOf_did_other _ (by omega), sound.unborn late]
  case plays =>
    intro other seed' p seeded' runs'
    change (seedsOf (pool.log ++ [.did thread op answer]))[other]? = some seed' at seeded'
    change (pool.threads.set thread (next answer))[other]? = some p at runs'
    show Prog.Plays (start seed') (eventsOf other (pool.log ++ [.did thread op answer])) p
    rw [seedsOf_did] at seeded'
    by_cases same : thread = other
    · subst same
      rw [List.getElem?_set_self inside] at runs'
      rw [seeded] at seeded'
      cases runs'
      cases seeded'
      rw [eventsOf_did_self]
      exact plays.concat answer
    · rw [List.getElem?_set_ne same] at runs'
      rw [eventsOf_did_other _ same]
      exact sound.plays seeded' runs'
  case justified =>
    intro before after other op' answer' split
    rcases concat_split pool.log split with ⟨rfl, same⟩ | ⟨between, earlier⟩
    · cases same
      exact ⟨⟨choice, sound.shared ▸ answers⟩, seed, next, seeded, plays⟩
    · exact sound.justified earlier

theorem sound_step (sound : Sound sys start disturb first pool) (move : Move Seed Choice Env) :
    Sound sys start disturb first (step sys start disturb pool move) := by
  cases move with
  | spawn seed => exact sound_spawn sound seed
  | disturb env => exact sound_disturb sound env
  | advance thread choice =>
    rw [step]
    split
    · rename_i op next runs
      split
      · rename_i answer answers
        exact sound_call sound runs answers
      · exact sound
    · exact sound

variable (sys start disturb)

theorem sound_fresh (first : σ) : Sound sys start disturb first (fresh first) where
  shared := rfl
  count := rfl
  unborn := fun _ => rfl
  plays := fun _ runs => nomatch runs
  justified := fun split => absurd split (by simp [fresh])

/-- **The log explains every pool that moves lead to.** -/
theorem sound_run (first : σ) (moves : List (Move Seed Choice Env)) :
    Sound sys start disturb first (run (step sys start disturb) (fresh first) moves) :=
  run_holds (P := Sound sys start disturb first) _ (fun _ move sound => sound_step sound move)
    (sound_fresh sys start disturb first) moves

end Pool

end GoBt.Lib
