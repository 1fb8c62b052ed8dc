/-
**Runs of a step function.**

A system is a step function `step : State → Action → State`, and a run is a list of actions.

* `run step start actions` — the state a run ends in.
* `trace step start actions` — every action of the run with the state it is taken in.
* `run_simulates` — **the simulation rule**, for a relation to the states of an abstract system.
* `prefix_holds_iff_trace_meets` — **the exact-guard rule.** If a guarded step keeps `P` and an
  unguarded one breaks it, then `P` holds in every state a run reaches exactly when every step of
  the run meets the guard. `prefix_agrees_iff_trace_meets` — **the exact-simulation rule**, the same
  for what can be seen of the relation to an abstract system.
* `last_write_iff` — **the last-write rule.** An entry that some steps write, that others erase and
  that the rest spare is, after a run, what the last write left, spared since.
* `component_run` — a component that every step changes by a list of operations of its own ends as
  its operations along the run, one after the other, leave it.
-/

import Mathlib.Data.List.Infix

namespace GoBt.Lib

section Runs

variable {State Action : Type*} (step : State → Action → State)

def run (start : State) (actions : List Action) : State :=
  actions.foldl step start

@[simp] theorem run_nil (start : State) : run step start [] = start := rfl

@[simp] theorem run_cons (start : State) (action : Action) (rest : List Action) :
    run step start (action :: rest) = run step (step start action) rest := rfl

theorem run_append (start : State) (first second : List Action) :
    run step start (first ++ second) = run step (run step start first) second :=
  List.foldl_append

/-- The actions of a run, each with the state it is taken in. -/
def trace : State → List Action → List (State × Action)
  | _, [] => []
  | start, action :: rest => (start, action) :: trace (step start action) rest

theorem mem_trace_iff {start : State} {actions : List Action} {point : State × Action} :
    point ∈ trace step start actions ↔
      ∃ before after, actions = before ++ point.2 :: after ∧ run step start before = point.1 := by
  induction actions generalizing start with
  | nil => simp [trace]
  | cons action rest ih =>
    simp only [trace, List.mem_cons, ih]
    constructor
    · rintro (rfl | ⟨before, after, rfl, reached⟩)
      · exact ⟨[], rest, rfl, rfl⟩
      · exact ⟨action :: before, after, rfl, reached⟩
    · rintro ⟨before, after, split, reached⟩
      cases before with
      | nil =>
        obtain ⟨rfl, rfl⟩ := List.cons.inj split
        exact Or.inl (Prod.ext reached.symm rfl)
      | cons head before =>
        obtain ⟨rfl, rfl⟩ := List.cons.inj split
        exact Or.inr ⟨before, after, rfl, reached⟩

theorem first_split_unique {first second first' second' : List Action} {a : Action}
    (same : first ++ a :: second = first' ++ a :: second') (notBefore : a ∉ first)
    (notBefore' : a ∉ first') : first = first' ∧ second = second' := by
  induction first generalizing first' with
  | nil =>
    cases first' with
    | nil => exact ⟨rfl, (List.cons.inj same).2⟩
    | cons b rest' =>
      exact absurd (List.cons.inj same).1 fun eq => notBefore' (eq ▸ List.mem_cons_self)
  | cons b rest ih =>
    cases first' with
    | nil => exact absurd (List.cons.inj same).1 fun eq => notBefore (eq ▸ List.mem_cons_self)
    | cons b' rest' =>
      obtain ⟨rfl, sameRest⟩ := List.cons.inj same
      obtain ⟨rfl, rfl⟩ := ih sameRest (fun later => notBefore (List.mem_cons_of_mem _ later))
        fun later => notBefore' (List.mem_cons_of_mem _ later)
      exact ⟨rfl, rfl⟩

theorem split_cases {first second first' second' : List Action} {a b : Action}
    (same : first ++ a :: second = first' ++ b :: second') :
    (first = first' ∧ a = b) ∨ (∃ between, first' = first ++ a :: between) ∨
      ∃ between, first = first' ++ b :: between := by
  rcases List.append_eq_append_iff.mp same with ⟨gap, rfl, eq⟩ | ⟨gap, rfl, eq⟩
  · cases gap with
    | nil => exact Or.inl ⟨(List.append_nil _).symm, (List.cons.inj eq).1⟩
    | cons c gap =>
      obtain ⟨rfl, _⟩ := List.cons.inj eq
      exact Or.inr (Or.inl ⟨gap, rfl⟩)
  · cases gap with
    | nil => exact Or.inl ⟨List.append_nil _, (List.cons.inj eq).1.symm⟩
    | cons c gap =>
      obtain ⟨rfl, _⟩ := List.cons.inj eq
      exact Or.inr (Or.inr ⟨gap, rfl⟩)

/-! ### Invariants -/

theorem run_holds_of_mem {P : State → Prop} {G : Action → Prop}
    (keeps : ∀ s a, P s → G a → P (step s a)) {start : State} (initial : P start)
    {actions : List Action} (guarded : ∀ a ∈ actions, G a) : P (run step start actions) := by
  induction actions generalizing start with
  | nil => exact initial
  | cons action rest ih =>
    obtain ⟨here, later⟩ := List.forall_mem_cons.mp guarded
    exact ih (keeps start action initial here) later

theorem run_holds {P : State → Prop} (keeps : ∀ s a, P s → P (step s a)) {start : State}
    (initial : P start) (actions : List Action) : P (run step start actions) :=
  run_holds_of_mem step (G := fun _ => True) (fun s a holds _ => keeps s a holds) initial
    fun _ _ => trivial

/-- **The simulation rule.** If a guarded step keeps the relation of a state to an abstract one,
then so does a run of guarded steps. -/
theorem run_simulates {Abstract : Type*} (abstractStep : Abstract → Action → Abstract)
    {R : State → Abstract → Prop} {G : Action → Prop}
    (keeps : ∀ s x a, R s x → G a → R (step s a) (abstractStep x a)) {start : State} {x : Abstract}
    (initial : R start x) {actions : List Action} (guarded : ∀ a ∈ actions, G a) :
    R (run step start actions) (run abstractStep x actions) := by
  induction actions generalizing start x with
  | nil => exact initial
  | cons action rest ih =>
    obtain ⟨here, later⟩ := List.forall_mem_cons.mp guarded
    exact ih (keeps start x action initial here) later

/-- **The exact-simulation rule.** `R` relates a state to an abstract one, `A` is what can be seen of
that. -/
theorem prefix_agrees_iff_trace_meets {Abstract : Type*} (abstractStep : Abstract → Action → Abstract)
    {R A : State → Abstract → Prop} {G : State → Action → Prop} (agrees : ∀ s x, R s x → A s x)
    (keeps : ∀ s x a, R s x → G s a → R (step s a) (abstractStep x a))
    (breaks : ∀ s x a, R s x → ¬ G s a → ¬ A (step s a) (abstractStep x a))
    {start : State} {x : Abstract} (initial : R start x) (actions : List Action) :
    (∀ before, before <+: actions → A (run step start before) (run abstractStep x before)) ↔
      ∀ point ∈ trace step start actions, G point.1 point.2 := by
  induction actions generalizing start x with
  | nil =>
    constructor
    · intro _ point member
      cases member
    · intro _ before short
      rw [List.prefix_nil.mp short]
      exact agrees start x initial
  | cons action rest ih =>
    constructor
    · intro holds
      have guarded : G start action := by
        by_contra unguarded
        exact breaks start x action initial unguarded (holds [action] ⟨rest, rfl⟩)
      have later := (ih (keeps start x action initial guarded)).mp fun before short =>
        holds (action :: before) ((List.cons_prefix_cons).mpr ⟨rfl, short⟩)
      intro point member
      rcases List.mem_cons.mp member with rfl | member
      · exact guarded
      · exact later point member
    · intro meets before short
      have guarded : G start action := meets (start, action) List.mem_cons_self
      have later := (ih (keeps start x action initial guarded)).mpr fun point member =>
        meets point (List.mem_cons_of_mem _ member)
      cases before with
      | nil => exact agrees start x initial
      | cons head before =>
        obtain ⟨rfl, shorter⟩ := List.cons_prefix_cons.mp short
        exact later before shorter

/-- **The exact-guard rule.** -/
theorem prefix_holds_iff_trace_meets {P : State → Prop} {G : State → Action → Prop}
    (keeps : ∀ s a, P s → G s a → P (step s a)) (breaks : ∀ s a, P s → ¬ G s a → ¬ P (step s a))
    {start : State} (initial : P start) (actions : List Action) :
    (∀ before, before <+: actions → P (run step start before)) ↔
      ∀ point ∈ trace step start actions, G point.1 point.2 :=
  prefix_agrees_iff_trace_meets step (fun _ _ => ()) (R := fun s _ => P s) (A := fun s _ => P s)
    (fun _ _ holds => holds) (fun s _ a => keeps s a) (fun s _ a => breaks s a) (x := ()) initial
    actions

/-! ### Entries -/

/-- **The last-write rule.** `entry` is what the state holds at some place, `Writes` says that an
action writes a value there, `Spares` that it leaves the value alone. -/
theorem last_write_iff {Entry : Type*} (entry : State → Option Entry)
    {Writes Spares : Action → Entry → Prop}
    (stepEntry : ∀ s a e, entry (step s a) = some e ↔ Writes a e ∨ (entry s = some e ∧ Spares a e))
    {start : State} {actions : List Action} {e : Entry} :
    entry (run step start actions) = some e ↔
      (∃ before a after, actions = before ++ a :: after ∧ Writes a e ∧ ∀ b ∈ after, Spares b e) ∨
        (entry start = some e ∧ ∀ b ∈ actions, Spares b e) := by
  induction actions generalizing start with
  | nil => simp
  | cons action rest ih =>
    rw [run_cons, ih, stepEntry, List.forall_mem_cons]
    constructor
    · rintro (⟨before, a, after, rfl, writes, spared⟩ | ⟨writes | ⟨old, here⟩, spared⟩)
      · exact Or.inl ⟨action :: before, a, after, rfl, writes, spared⟩
      · exact Or.inl ⟨[], action, rest, rfl, writes, spared⟩
      · exact Or.inr ⟨old, here, spared⟩
    · rintro (⟨before, a, after, split, writes, spared⟩ | ⟨old, here, spared⟩)
      · cases before with
        | nil =>
          obtain ⟨rfl, rfl⟩ := List.cons.inj split
          exact Or.inr ⟨Or.inl writes, spared⟩
        | cons head before =>
          obtain ⟨rfl, rfl⟩ := List.cons.inj split
          exact Or.inl ⟨before, a, after, rfl, writes, spared⟩
      · exact Or.inr ⟨Or.inr ⟨old, here⟩, spared⟩

theorem last_write_of_none {Entry : Type*} (entry : State → Option Entry)
    {Writes Spares : Action → Entry → Prop}
    (stepEntry : ∀ s a e, entry (step s a) = some e ↔ Writes a e ∨ (entry s = some e ∧ Spares a e))
    {start : State} (initial : entry start = none) {actions : List Action} {e : Entry} :
    entry (run step start actions) = some e ↔
      ∃ before a after, actions = before ++ a :: after ∧ Writes a e ∧ ∀ b ∈ after, Spares b e := by
  rw [last_write_iff step entry stepEntry, initial]
  exact or_iff_left fun nothing => nomatch nothing.1

/-! ### Components -/

/-- **The operations of a component along a run**: if in every state with the invariant a step
changes the component by the list `ops` of its operations, a run changes it by the operations of its
steps in order. -/
theorem component_run {Part Op : Type*} (part : State → Part) (apply : Part → Op → Part)
    (ops : State → Action → List Op) {Inv : State → Prop} (keeps : ∀ s a, Inv s → Inv (step s a))
    (stepPart : ∀ s a, Inv s → part (step s a) = run apply (part s) (ops s a)) {start : State}
    (initial : Inv start) (actions : List Action) :
    part (run step start actions) = run apply (part start)
      ((trace step start actions).flatMap fun point => ops point.1 point.2) := by
  induction actions generalizing start with
  | nil => rfl
  | cons action rest ih =>
    rw [run_cons, ih (keeps start action initial), trace, List.flatMap_cons, run_append,
      stepPart start action initial]

end Runs

end GoBt.Lib
