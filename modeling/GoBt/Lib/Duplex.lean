/-
**Two programs joined by a stream in each direction.**

* `StreamOp` — the calls: `write b` answers how much was written, `read max` what was read, each
  with an error or none.
* `Duplex` — two ends, what is on the way in each direction, and the calls that each end has made.
  A move lets one end make its next call; the network decides how much of it is done and whether it
  fails. A read that gets nothing and does not fail blocks.
* `Duplex.explained_run` — **the stream is reliable**: what one end has read, followed by what is on
  the way, is what the other end has written.
* `writeAll`, `fill` — the loops that write several parts and that read a number of elements, with
  what they have written or read when they return.
-/

import GoBt.Lib.Threads

namespace GoBt.Lib

variable {τ ε α : Type}

/-- A call to a stream. -/
inductive StreamOp (τ : Type)
  | write (b : List τ)
  | read (max : Nat)

/-- What a call answers: how much was written or what was read, and an error. -/
abbrev StreamOp.Ans (ε : Type) : StreamOp τ → Type
  | .write _ => Nat × Option ε
  | .read _ => List τ × Option ε

abbrev StreamProg (τ ε α : Type) := Prog (StreamOp τ) (StreamOp.Ans ε) α

abbrev StreamEvent (τ ε : Type) := Event (StreamOp τ) (StreamOp.Ans ε)

/-! ### What went over the stream -/

def written : StreamEvent τ ε → List τ
  | ⟨.write b, answer⟩ => b.take answer.1
  | ⟨.read _, _⟩ => []

def obtained : StreamEvent τ ε → List τ
  | ⟨.write _, _⟩ => []
  | ⟨.read _, answer⟩ => answer.1

def sent (calls : List (StreamEvent τ ε)) : List τ := (calls.map written).flatten

def received (calls : List (StreamEvent τ ε)) : List τ := (calls.map obtained).flatten

@[simp] theorem sent_nil : sent ([] : List (StreamEvent τ ε)) = [] := rfl

@[simp] theorem received_nil : received ([] : List (StreamEvent τ ε)) = [] := rfl

@[simp] theorem sent_cons (call : StreamEvent τ ε) (rest : List (StreamEvent τ ε)) :
    sent (call :: rest) = written call ++ sent rest := rfl

@[simp] theorem received_cons (call : StreamEvent τ ε) (rest : List (StreamEvent τ ε)) :
    received (call :: rest) = obtained call ++ received rest := rfl

@[simp] theorem sent_append (first second : List (StreamEvent τ ε)) :
    sent (first ++ second) = sent first ++ sent second := by
  simp [sent]

@[simp] theorem received_append (first second : List (StreamEvent τ ε)) :
    received (first ++ second) = received first ++ received second := by
  simp [received]

/-- **What a stream promises for one call**: a write without an error writes everything, and a read
gets no more than it asks for and, without an error, at least one element. -/
def Faithful : StreamEvent τ ε → Prop
  | ⟨.write b, answer⟩ => answer.2 = none → answer.1 = b.length
  | ⟨.read max, answer⟩ => answer.1.length ≤ max ∧ (answer.2 = none → answer.1 ≠ [])

/-! ### Two ends -/

/-- What the network decides about a call. -/
structure Transfer (ε : Type) where
  count : Nat
  err : Option ε := none

/-- Two ends, the elements that one end has written and the other has not read, and the calls. -/
structure Duplex (τ ε α : Type) where
  ends : Bool → StreamProg τ ε α
  inFlight : Bool → List τ
  calls : Bool → List (StreamEvent τ ε)

namespace Duplex

/-- Two ends that have made no call. -/
def fresh (start : Bool → StreamProg τ ε α) : Duplex τ ε α := ⟨start, fun _ => [], fun _ => []⟩

def writes (transfer : Transfer ε) (b : List τ) : Nat × Option ε :=
  match transfer.err with
  | none => (b.length, none)
  | some err => (min transfer.count b.length, some err)

def step (d : Duplex τ ε α) (move : Bool × Transfer ε) : Duplex τ ε α :=
  let (side, transfer) := move
  match d.ends side with
  | .call (.write b) next =>
      let answer := writes transfer b
      { ends := Function.update d.ends side (next answer)
        inFlight := Function.update d.inFlight side (d.inFlight side ++ b.take answer.1)
        calls := Function.update d.calls side (d.calls side ++ [⟨.write b, answer⟩]) }
  | .call (.read max) next =>
      let chunk := (d.inFlight !side).take (min transfer.count max)
      if chunk = [] ∧ transfer.err = none then d
      else
        { ends := Function.update d.ends side (next (chunk, transfer.err))
          inFlight := Function.update d.inFlight (!side) ((d.inFlight !side).drop chunk.length)
          calls := Function.update d.calls side (d.calls side ++
            [⟨.read max, (chunk, transfer.err)⟩]) }
  | _ => d

/-- **The calls explain the ends.** -/
structure Explained (start : Bool → StreamProg τ ε α) (d : Duplex τ ε α) : Prop where
  plays : ∀ side, Prog.Plays (start side) (d.calls side) (d.ends side)
  carried : ∀ side, sent (d.calls side) = received (d.calls !side) ++ d.inFlight side
  faithful : ∀ side, ∀ call ∈ d.calls side, Faithful call

variable {start : Bool → StreamProg τ ε α} {d : Duplex τ ε α}

theorem Explained.call (explained : Explained start d) {side : Bool} {op : StreamOp τ}
    {next : op.Ans ε → StreamProg τ ε α} (here : d.ends side = .call op next) (answer : op.Ans ε)
    {inFlight : Bool → List τ} (fair : Faithful (⟨op, answer⟩ : StreamEvent τ ε))
    (forth : sent (d.calls side) ++ written (⟨op, answer⟩ : StreamEvent τ ε) =
      received (d.calls !side) ++ inFlight side)
    (back : sent (d.calls !side) =
      received (d.calls side) ++ obtained (⟨op, answer⟩ : StreamEvent τ ε) ++ inFlight !side) :
    Explained start
      { ends := Function.update d.ends side (next answer)
        inFlight := inFlight
        calls := Function.update d.calls side (d.calls side ++ [⟨op, answer⟩]) } := by
  have other : (!side) ≠ side := by cases side <;> decide
  constructor
  case plays =>
    intro end'
    by_cases same : end' = side
    · subst same
      simp only [Function.update_self]
      exact (here ▸ explained.plays end').concat answer
    · simp only [Function.update_of_ne same]
      exact explained.plays end'
  case carried =>
    intro end'
    by_cases same : end' = side
    · subst same
      simp only [Function.update_self, Function.update_of_ne other, sent_append, sent_cons,
        sent_nil, List.append_nil]
      exact forth
    · obtain rfl : end' = !side := by cases end' <;> cases side <;> simp_all
      simp only [Function.update_of_ne other, Bool.not_not, Function.update_self, received_append,
        received_cons, received_nil, List.append_nil]
      exact back
  case faithful =>
    intro end' event member
    by_cases same : end' = side
    · subst same
      simp only [Function.update_self, List.mem_append, List.mem_singleton] at member
      rcases member with old | rfl
      · exact explained.faithful end' event old
      · exact fair
    · simp only [Function.update_of_ne same] at member
      exact explained.faithful end' event member

theorem explained_step (explained : Explained start d) (move : Bool × Transfer ε) :
    Explained start (d.step move) := by
  obtain ⟨side, transfer⟩ := move
  have other : (!side) ≠ side := by cases side <;> decide
  unfold step
  dsimp only
  split
  · rename_i b next here
    refine explained.call here _ ?_ ?_ ?_
    · unfold writes
      cases transfer.err with
      | none => exact fun _ => rfl
      | some err => exact fun impossible => nomatch impossible
    · simp only [Function.update_self, explained.carried, written, List.append_assoc]
    · simp only [Function.update_of_ne other, explained.carried, Bool.not_not, obtained,
        List.append_nil]
  · rename_i max next here
    split
    · exact explained
    · rename_i goesOn
      refine explained.call here _ ?_ ?_ ?_
      · refine ⟨?_, fun none' empty => goesOn ⟨empty, none'⟩⟩
        rw [List.length_take]
        omega
      · simp only [Function.update_of_ne other.symm, explained.carried, written, List.append_nil]
      · simp only [Function.update_self, explained.carried, Bool.not_not, obtained,
          List.append_assoc]
        rw [List.prefix_iff_eq_append.mp (List.take_prefix _ _)]
  · exact explained

/-- **The stream is reliable**, over every run. -/
theorem explained_run (start : Bool → StreamProg τ ε α) (moves : List (Bool × Transfer ε)) :
    Explained start (run step (fresh start) moves) :=
  run_holds (P := Explained start) step (fun _ move explained => explained_step explained move)
    ⟨fun _ => .nil _, fun _ => rfl, fun _ _ none' => absurd none' List.not_mem_nil⟩ moves

end Duplex

/-! ### Loops -/

open Prog (Plays)

/-- Write the parts, until a write fails. -/
def writeAll : List (List τ) → StreamProg τ ε (Option ε)
  | [] => .ret none
  | part :: rest => .call (.write part) fun answer =>
      match answer.2 with
      | some err => .ret (some err)
      | none => writeAll rest

/-- Read until there are `n` elements or a call fails; every call that does not fail gets an element,
so `fuel = n` calls are enough. -/
def fill (n : Nat) : Nat → List τ → StreamProg τ ε (List τ × Option ε)
  | 0, got => .ret (got, none)
  | fuel + 1, got =>
      if n ≤ got.length then .ret (got, none)
      else .call (.read (n - got.length)) fun answer =>
        match answer.2 with
        | some err => .ret (got ++ answer.1, some err)
        | none => fill n fuel (got ++ answer.1)

variable {calls : List (StreamEvent τ ε)}

/-- **A writer that returns no error has written every part**, and it reads nothing on the way. -/
theorem writeAll_plays {parts : List (List τ)} {q : StreamProg τ ε (Option ε)}
    (plays : Plays (writeAll parts) calls q) (faithful : ∀ call ∈ calls, Faithful call) :
    received calls = [] ∧ (q = .ret none → sent calls = parts.flatten) := by
  induction parts generalizing calls with
  | nil =>
    obtain ⟨rfl, rfl⟩ := Plays.ret_iff.mp plays
    exact ⟨rfl, fun _ => rfl⟩
  | cons part rest ih =>
    rcases Plays.call_iff.mp plays with ⟨rfl, rfl⟩ | ⟨⟨count, err⟩, later, rfl, plays'⟩
    · exact ⟨rfl, fun impossible => nomatch impossible⟩
    obtain ⟨fair, faithful'⟩ := List.forall_mem_cons.mp faithful
    cases err with
    | some err =>
      obtain ⟨rfl, rfl⟩ := Plays.ret_iff.mp plays'
      exact ⟨rfl, fun impossible => nomatch impossible⟩
    | none =>
      obtain ⟨nothing, everything⟩ := ih plays' faithful'
      refine ⟨nothing, fun returns => ?_⟩
      have whole : count = part.length := fair rfl
      rw [sent_cons, everything returns, written, whole, List.take_length, List.flatten_cons]

/-- **A reader that has returned without an error has what it asked for**; one that has not returned
has less, and it writes nothing on the way. -/
theorem fill_plays {n fuel : Nat} {got : List τ} {q : StreamProg τ ε (List τ × Option ε)}
    (plays : Plays (fill n fuel got) calls q) (faithful : ∀ call ∈ calls, Faithful call)
    (short : got.length ≤ n) (enough : n ≤ got.length + fuel) :
    sent calls = [] ∧
      ((∃ op next, q = .call op next ∧ (got ++ received calls).length < n) ∨
        ∃ err, q = .ret (got ++ received calls, err) ∧ (got ++ received calls).length ≤ n ∧
          ((got ++ received calls).length < n → err ≠ none)) := by
  induction fuel generalizing got calls with
  | zero =>
    obtain ⟨rfl, rfl⟩ := Plays.ret_iff.mp plays
    refine ⟨rfl, Or.inr ⟨none, ?_⟩⟩
    rw [received_nil, List.append_nil]
    exact ⟨rfl, short, fun less => by omega⟩
  | succ fuel ih =>
    rw [fill] at plays
    by_cases full : n ≤ got.length
    · rw [if_pos full] at plays
      obtain ⟨rfl, rfl⟩ := Plays.ret_iff.mp plays
      refine ⟨rfl, Or.inr ⟨none, ?_⟩⟩
      rw [received_nil, List.append_nil]
      exact ⟨rfl, short, fun less => by omega⟩
    rw [if_neg full] at plays
    rcases Plays.call_iff.mp plays with ⟨rfl, rfl⟩ | ⟨⟨chunk, err⟩, later, rfl, plays'⟩
    · refine ⟨rfl, Or.inl ⟨_, _, rfl, ?_⟩⟩
      rw [received_nil, List.append_nil]
      omega
    obtain ⟨⟨bound, some'⟩, faithful'⟩ := List.forall_mem_cons.mp faithful
    change chunk.length ≤ n - got.length at bound
    have fits : (got ++ chunk).length ≤ n := by
      rw [List.length_append]
      omega
    cases err with
    | some err =>
      obtain ⟨rfl, rfl⟩ := Plays.ret_iff.mp plays'
      refine ⟨rfl, Or.inr ⟨some err, ?_⟩⟩
      rw [received_cons, received_nil, List.append_nil]
      exact ⟨rfl, fits, fun _ impossible => nomatch impossible⟩
    | none =>
      have progress : 0 < chunk.length := List.length_pos_iff.mpr (some' rfl)
      have enough' : n ≤ (got ++ chunk).length + fuel := by
        rw [List.length_append]
        omega
      obtain ⟨nothing, rest⟩ := ih plays' faithful' fits enough'
      rw [List.append_assoc] at rest
      exact ⟨nothing, rest⟩

end GoBt.Lib
