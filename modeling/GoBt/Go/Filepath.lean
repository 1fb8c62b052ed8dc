/-
**Slash-separated paths** (`path/filepath` on Unix).

* `clean` — the shortest name of a path by lexical processing.
* `join` — path elements joined into one clean path; `dir`, `base` — all but the last element of a
  path, and the last one.
* `Canonical rooted stack` — the elements that a clean path can have, the last one first;
  `clean_eq_render`, `stackOf_render` — a clean path and its elements determine each other.
* `join_names` — file names are put behind the elements of a clean path; `join_dir_base` — **a clean
  path is its last element in the directory of the others**.
* `Below` — a path strictly below a directory; **`below_join_iff`**: when elements joined to a clean
  directory lead below it (`LeadsBelow`).
-/

import GoBt.Go.Basic
import Mathlib.Data.List.DropRight

namespace GoBt.Filepath

def separator : UInt8 := 47

/-- One element of a path: an empty element and `.` vanish, `..` takes the element before it
away. -/
def cleanElement (rooted : Bool) (stack : List GoString) (element : GoString) : List GoString :=
  if element = [] ∨ element = str "." then stack
  else if element = str ".." then
    match stack with
    | [] => if rooted then [] else [element]
    | last :: rest => if last = str ".." then element :: stack else rest
  else element :: stack

def clean (path : GoString) : GoString :=
  let rooted := path.head? == some separator
  let stack := (path.splitOn separator).foldl (cleanElement rooted) []
  let body := [separator].intercalate stack.reverse
  if rooted then separator :: body else if body = [] then str "." else body

def join (elements : List GoString) : GoString :=
  match elements.dropWhile fun element => element = [] with
  | [] => []
  | rest => clean ([separator].intercalate rest)

def base (path : GoString) : GoString :=
  if path = [] then str "."
  else
    let last := (path.rdropWhile (· == separator)).rtakeWhile (· != separator)
    if last = [] then [separator] else last

def dir (path : GoString) : GoString := clean (path.rdropWhile (· != separator))

/-! ### The elements of a path -/

def isRooted (path : GoString) : Bool := path.head? == some separator

/-- The elements of the parts of a path, the last one first. -/
def stackOf (rooted : Bool) (parts : List GoString) : List GoString :=
  parts.foldl (cleanElement rooted) []

/-- The clean path with the given elements. -/
def render (rooted : Bool) (stack : List GoString) : GoString :=
  let body := [separator].intercalate stack.reverse
  if rooted then separator :: body else if body = [] then str "." else body

theorem clean_eq_render (path : GoString) :
    clean path = render (isRooted path) (stackOf (isRooted path) (path.splitOn separator)) := rfl

/-- The name of a file or a directory in its directory. -/
def IsName (name : GoString) : Prop :=
  name ≠ [] ∧ name ≠ str "." ∧ name ≠ str ".." ∧ separator ∉ name

instance (name : GoString) : Decidable (IsName name) := by unfold IsName; infer_instance

/-- The elements of a clean path: names, below which only `..` may stand, and only if the path does
not start at the root. -/
inductive Canonical (rooted : Bool) : List GoString → Prop
  | root : Canonical rooted []
  | up {stack : List GoString} (relative : rooted = false)
      (ups : ∀ element ∈ stack, element = str "..") : Canonical rooted (str ".." :: stack)
  | name {stack : List GoString} {element : GoString} (isName : IsName element)
      (below : Canonical rooted stack) : Canonical rooted (element :: stack)

variable {rooted : Bool} {stack : List GoString}

theorem canonical_ups (relative : rooted = false) (ups : ∀ element ∈ stack, element = str "..") :
    Canonical rooted stack := by
  cases stack with
  | nil => exact .root
  | cons element rest =>
    obtain ⟨rfl, below⟩ := List.forall_mem_cons.mp ups
    exact .up relative below

theorem Canonical.tail {element : GoString} (canonical : Canonical rooted (element :: stack)) :
    Canonical rooted stack := by
  cases canonical with
  | up relative ups => exact canonical_ups relative ups
  | name _ below => exact below

theorem cleanElement_name {element : GoString} (isName : IsName element) (rooted : Bool)
    (stack : List GoString) : cleanElement rooted stack element = element :: stack := by
  obtain ⟨some', dot, dots, _⟩ := isName
  unfold cleanElement
  rw [if_neg (fun either => either.elim some' dot), if_neg dots]

theorem Canonical.push {element : GoString} (canonical : Canonical rooted (element :: stack)) :
    cleanElement rooted stack element = element :: stack := by
  cases canonical with
  | up relative ups =>
    unfold cleanElement
    rw [if_neg (by decide), if_pos rfl]
    cases stack with
    | nil => rw [relative]; rfl
    | cons last rest =>
      dsimp only
      rw [if_pos (ups last List.mem_cons_self)]
  | name isName _ => exact cleanElement_name isName rooted stack

theorem Canonical.drop {front : List GoString} (canonical : Canonical rooted (front ++ stack)) :
    Canonical rooted stack := by
  induction front with
  | nil => exact canonical
  | cons element rest ih => exact ih canonical.tail

theorem Canonical.foldl {parts : List GoString}
    (canonical : Canonical rooted (parts.reverse ++ stack)) :
    parts.foldl (cleanElement rooted) stack = parts.reverse ++ stack := by
  induction parts generalizing stack with
  | nil => rfl
  | cons part rest ih =>
    rw [List.reverse_cons, List.append_assoc] at canonical ⊢
    have pushed : Canonical rooted (part :: stack) := canonical.drop
    rw [List.foldl_cons, pushed.push]
    exact ih canonical

theorem canonical_names {names : List GoString} (areNames : ∀ name ∈ names, IsName name)
    (below : Canonical rooted stack) : Canonical rooted (names.reverse ++ stack) := by
  induction names generalizing stack with
  | nil => exact below
  | cons name rest ih =>
    obtain ⟨here, later⟩ := List.forall_mem_cons.mp areNames
    rw [List.reverse_cons, List.append_assoc]
    exact ih later (.name here below)

theorem Canonical.cleanElement (canonical : Canonical rooted stack) {element : GoString}
    (noSeparator : separator ∉ element) : Canonical rooted (cleanElement rooted stack element) := by
  unfold Filepath.cleanElement
  by_cases vanishes : element = [] ∨ element = str "."
  · rw [if_pos vanishes]
    exact canonical
  rw [if_neg vanishes]
  by_cases up : element = str ".."
  · rw [if_pos up, up]
    cases canonical with
    | root =>
      dsimp only
      split
      · exact .root
      · rename_i relative
        exact .up (by simpa using relative) (by simp)
    | up relative ups =>
      dsimp only
      rw [if_pos rfl]
      exact .up relative (List.forall_mem_cons.mpr ⟨rfl, ups⟩)
    | name isName below =>
      dsimp only
      rw [if_neg isName.2.2.1]
      exact below
  · rw [if_neg up]
    push Not at vanishes
    exact .name ⟨vanishes.1, vanishes.2, up, noSeparator⟩ canonical

theorem not_mem_of_splitOn (path : GoString) :
    ∀ part ∈ path.splitOn separator, separator ∉ part := by
  unfold List.splitOn
  induction path with
  | nil => simp
  | cons byte rest ih =>
    intro part member
    rw [List.splitOnP_cons_eq_if_modifyHead] at member
    split at member
    · rcases List.mem_cons.mp member with rfl | later
      · simp
      · exact ih part later
    · rename_i other
      cases parts : rest.splitOnP (· == separator) with
      | nil => exact absurd parts (List.splitOnP_ne_nil _ _)
      | cons first more =>
        rw [parts] at member ih
        rcases List.mem_cons.mp member with rfl | later
        · have apart : separator ≠ byte := fun same => other (by simp [same])
          exact List.not_mem_cons_of_ne_of_not_mem apart (ih first List.mem_cons_self)
        · exact ih part (List.mem_cons_of_mem _ later)

theorem canonical_stackOf {parts : List GoString} (noSeparator : ∀ part ∈ parts, separator ∉ part) :
    Canonical rooted (stackOf rooted parts) := by
  unfold stackOf
  induction parts using List.reverseRecOn with
  | nil => exact .root
  | append_singleton rest part ih =>
    rw [List.foldl_append]
    have before := ih fun other member => noSeparator other (by simp [member])
    exact before.cleanElement (noSeparator part (by simp))

theorem Canonical.element (canonical : Canonical rooted stack) :
    ∀ element ∈ stack, element ≠ [] ∧ separator ∉ element := by
  induction canonical with
  | root => simp
  | up relative ups =>
    rintro element member
    have same : element = str ".." := by
      rcases List.mem_cons.mp member with here | below
      · exact here
      · exact ups element below
    rw [same]
    decide
  | name isName _ ih => exact List.forall_mem_cons.mpr ⟨⟨isName.1, isName.2.2.2⟩, ih⟩

/-! ### Clean paths -/

theorem splitOn_append (before after : GoString) :
    (before ++ separator :: after).splitOn separator =
      before.splitOn separator ++ after.splitOn separator :=
  List.splitOnP_append_cons _ _ (beq_self_eq_true separator)

theorem splitOn_body (canonical : Canonical rooted stack) (some' : stack ≠ []) :
    ([separator].intercalate stack.reverse).splitOn separator = stack.reverse :=
  List.splitOn_intercalate _
    (fun element member => (canonical.element element (List.mem_reverse.mp member)).2)
    (List.reverse_ne_nil_iff.mpr some')

theorem head_body (canonical : Canonical rooted stack) (some' : stack ≠ []) :
    ∃ byte, byte ≠ separator ∧ ([separator].intercalate stack.reverse).head? = some byte := by
  obtain ⟨first, rest, eq⟩ := List.exists_cons_of_ne_nil (List.reverse_ne_nil_iff.mpr some')
  obtain ⟨nonempty, apart⟩ := canonical.element first
    (List.mem_reverse.mp (by rw [eq]; exact List.mem_cons_self))
  obtain ⟨byte, more, rfl⟩ := List.exists_cons_of_ne_nil nonempty
  refine ⟨byte, fun same => apart (by simp [same]), ?_⟩
  rw [eq]
  cases rest with
  | nil => simp [List.intercalate]
  | cons second others => rw [List.intercalate_cons_cons]; rfl

theorem isRooted_render (canonical : Canonical rooted stack) :
    isRooted (render rooted stack) = rooted := by
  unfold render isRooted
  cases rooted with
  | true => rfl
  | false =>
    dsimp only
    by_cases empty : stack = []
    · rw [empty]
      decide
    · obtain ⟨byte, other, head⟩ := head_body canonical empty
      have nonempty : [separator].intercalate stack.reverse ≠ [] := by
        intro nothing
        rw [nothing] at head
        cases head
      rw [if_neg (by decide), if_neg nonempty, head]
      simpa using other

/-- **The elements of a clean path are the ones it was made of.** -/
theorem stackOf_render (canonical : Canonical rooted stack) :
    stackOf rooted ((render rooted stack).splitOn separator) = stack := by
  by_cases empty : stack = []
  · rw [empty]
    cases rooted <;> decide
  have pushed : stackOf rooted stack.reverse = stack := by
    have all : stack.reverse.foldl (cleanElement rooted) [] = stack.reverse.reverse ++ [] :=
      Canonical.foldl (by simpa using canonical)
    rwa [List.reverse_reverse, List.append_nil] at all
  have parts := splitOn_body canonical empty
  unfold render
  cases rooted with
  | true =>
    have split := splitOn_append [] ([separator].intercalate stack.reverse)
    rw [parts] at split
    rw [if_pos rfl]
    exact (congrArg (stackOf true) split).trans pushed
  | false =>
    obtain ⟨byte, _, head⟩ := head_body canonical empty
    have nonempty : [separator].intercalate stack.reverse ≠ [] := by
      intro nothing
      rw [nothing] at head
      cases head
    rw [if_neg (by decide), if_neg nonempty, parts]
    exact pushed

theorem render_ne_nil (canonical : Canonical rooted stack) : render rooted stack ≠ [] := by
  intro nothing
  have rootedIs := isRooted_render canonical
  rw [nothing] at rootedIs
  unfold render at nothing
  cases rooted with
  | true => cases nothing
  | false =>
    dsimp only at nothing
    rw [if_neg (by decide)] at nothing
    split at nothing
    · cases nothing
    · rename_i nonempty
      exact nonempty nothing

theorem clean_canonical (path : GoString) :
    ∃ rooted stack, Canonical rooted stack ∧ clean path = render rooted stack :=
  ⟨_, _, canonical_stackOf (not_mem_of_splitOn path), clean_eq_render path⟩

/-! ### Joining -/

theorem splitOn_intercalate_flatten {first : GoString} {rest : List GoString} :
    ([separator].intercalate (first :: rest)).splitOn separator =
      ((first :: rest).map (List.splitOn separator)).flatten := by
  induction rest generalizing first with
  | nil => simp [List.intercalate]
  | cons second others ih =>
    rw [List.intercalate_cons_cons, List.append_assoc, List.singleton_append, splitOn_append, ih]
    rfl

/-- **What `Join` does**, in terms of elements. -/
theorem join_eq {first : GoString} (some' : first ≠ []) (rest : List GoString) :
    join (first :: rest) = render (isRooted first)
      (stackOf (isRooted first) ((first :: rest).map (List.splitOn separator)).flatten) := by
  have kept : (first :: rest).dropWhile (fun element => decide (element = [])) = first :: rest := by
    rw [List.dropWhile_cons_of_neg (by simpa using some')]
  have rootedIs : isRooted ([separator].intercalate (first :: rest)) = isRooted first := by
    obtain ⟨byte, more, rfl⟩ := List.exists_cons_of_ne_nil some'
    cases rest with
    | nil => simp [List.intercalate]
    | cons second others => rw [List.intercalate_cons_cons]; rfl
  unfold join
  rw [kept]
  dsimp only
  rw [clean_eq_render, rootedIs, splitOn_intercalate_flatten]

/-- **Elements joined to a clean path** are put behind its own. -/
theorem join_elements {elements : List GoString} (below : Canonical rooted stack)
    (canonical : Canonical rooted (elements.reverse ++ stack)) :
    join (render rooted stack :: elements) = render rooted (elements.reverse ++ stack) := by
  have single : elements.flatMap (List.splitOn separator) = elements := by
    refine (List.flatMap_congr fun element member => ?_).trans (List.flatMap_singleton' elements)
    have apart := (canonical.element element (by simp [member])).2
    refine List.splitOnP_eq_singleton fun byte inside => ?_
    rw [beq_eq_false_iff_ne]
    exact fun same => apart (same ▸ inside)
  rw [join_eq (render_ne_nil below), isRooted_render below, List.map_cons, List.flatten_cons,
    ← List.flatMap_def, single, stackOf, List.foldl_append]
  have first := stackOf_render below
  unfold stackOf at first
  rw [first, canonical.foldl]

theorem join_names {names : List GoString} (below : Canonical rooted stack)
    (areNames : ∀ name ∈ names, IsName name) :
    join (render rooted stack :: names) = render rooted (names.reverse ++ stack) :=
  join_elements below (canonical_names areNames below)

theorem join_injective {names names' : List GoString} (below : Canonical rooted stack)
    (areNames : ∀ name ∈ names, IsName name) (areNames' : ∀ name ∈ names', IsName name)
    (same : join (render rooted stack :: names) = join (render rooted stack :: names')) :
    names = names' := by
  rw [join_names below areNames, join_names below areNames'] at same
  have elements := congrArg (fun path => stackOf rooted (path.splitOn separator)) same
  rw [stackOf_render (canonical_names areNames below),
    stackOf_render (canonical_names areNames' below)] at elements
  exact List.reverse_injective (List.append_cancel_right elements)

/-! ### The last element -/

/-- What stands in front of the last element of a clean path. -/
def front (rooted : Bool) (rest : List GoString) : GoString :=
  if rest = [] then (if rooted then [separator] else []) else render rooted rest ++ [separator]

theorem intercalate_concat {elements : List GoString} (some' : elements ≠ []) (last : GoString) :
    [separator].intercalate (elements ++ [last]) =
      [separator].intercalate elements ++ separator :: last := by
  induction elements with
  | nil => exact absurd rfl some'
  | cons first rest ih =>
    cases rest with
    | nil => simp [List.intercalate]
    | cons second others =>
      rw [List.cons_append, List.cons_append, List.intercalate_cons_cons, ← List.cons_append,
        ih (by simp), List.intercalate_cons_cons]
      simp only [List.append_assoc]

theorem render_cons {last : GoString} {rest : List GoString}
    (canonical : Canonical rooted (last :: rest)) :
    render rooted (last :: rest) = front rooted rest ++ last := by
  obtain ⟨nonempty, _⟩ := canonical.element last List.mem_cons_self
  unfold front
  by_cases single : rest = []
  · rw [if_pos single, single]
    unfold render
    cases rooted with
    | true => simp [List.intercalate]
    | false => simp [List.intercalate, nonempty]
  · obtain ⟨byte, _, head⟩ := head_body canonical.tail single
    have body : [separator].intercalate rest.reverse ≠ [] := by
      intro nothing
      rw [nothing] at head
      cases head
    rw [if_neg single]
    unfold render
    rw [List.reverse_cons, intercalate_concat (List.reverse_ne_nil_iff.mpr single)]
    cases rooted with
    | true => simp
    | false => simp [body]

theorem front_cases (rooted : Bool) (rest : List GoString) :
    front rooted rest = [] ∨ ∃ before, front rooted rest = before ++ [separator] := by
  unfold front
  split
  · cases rooted with
    | true => exact Or.inr ⟨[], rfl⟩
    | false => exact Or.inl rfl
  · exact Or.inr ⟨_, rfl⟩

theorem clean_front (canonical : Canonical rooted stack) :
    clean (front rooted stack) = render rooted stack := by
  unfold front
  by_cases empty : stack = []
  · rw [if_pos empty, empty]
    cases rooted <;> decide
  · have start : isRooted (render rooted stack ++ [separator]) = rooted := by
      obtain ⟨byte, more, eq⟩ := List.exists_cons_of_ne_nil (render_ne_nil canonical)
      have rootedIs := isRooted_render canonical
      rw [eq] at rootedIs ⊢
      exact rootedIs
    rw [if_neg empty, clean_eq_render, start, splitOn_append, stackOf, List.foldl_append]
    have first := stackOf_render canonical
    unfold stackOf at first
    rw [first]
    rfl

theorem dir_render {last : GoString} {rest : List GoString}
    (canonical : Canonical rooted (last :: rest)) :
    dir (render rooted (last :: rest)) = render rooted rest := by
  have apart := (canonical.element last List.mem_cons_self).2
  have dropped : (front rooted rest ++ last).rdropWhile (· != separator) = front rooted rest := by
    have name : ∀ byte ∈ last.reverse, (byte != separator) = true := by
      intro byte inside
      rw [bne_iff_ne]
      exact fun same => apart (same ▸ List.mem_reverse.mp inside)
    rw [List.rdropWhile, List.reverse_append, List.dropWhile_append_of_pos name]
    rcases front_cases rooted rest with eq | ⟨before, eq⟩
    · rw [eq]
      rfl
    · rw [eq, List.reverse_append, List.reverse_singleton, List.singleton_append,
        List.dropWhile_cons_of_neg (by simp), List.reverse_cons, List.reverse_reverse]
  rw [dir, render_cons canonical, dropped, clean_front canonical.tail]

theorem base_render {last : GoString} {rest : List GoString}
    (canonical : Canonical rooted (last :: rest)) :
    base (render rooted (last :: rest)) = last := by
  obtain ⟨nonempty, apart⟩ := canonical.element last List.mem_cons_self
  have name : ∀ byte ∈ last.reverse, (byte != separator) = true := by
    intro byte inside
    rw [bne_iff_ne]
    exact fun same => apart (same ▸ List.mem_reverse.mp inside)
  have kept : (front rooted rest ++ last).rdropWhile (· == separator) = front rooted rest ++ last := by
    obtain ⟨byte, more, eq⟩ := List.exists_cons_of_ne_nil (List.reverse_ne_nil_iff.mpr nonempty)
    have other : byte ≠ separator := by
      have first := name byte (by rw [eq]; exact List.mem_cons_self)
      rwa [bne_iff_ne] at first
    rw [List.rdropWhile, List.reverse_append, eq, List.cons_append,
      List.dropWhile_cons_of_neg (by simpa using other), ← List.cons_append, ← eq,
      ← List.reverse_append, List.reverse_reverse]
  have taken : (front rooted rest ++ last).rtakeWhile (· != separator) = last := by
    rw [List.rtakeWhile, List.reverse_append, List.takeWhile_append_of_pos name]
    rcases front_cases rooted rest with eq | ⟨before, eq⟩
    · simp [eq]
    · simp [eq]
  unfold base
  rw [if_neg (render_ne_nil canonical), render_cons canonical, kept, taken, if_neg nonempty]

/-- **A clean path is its last element in the directory of the others**, also with names behind
it. -/
theorem join_dir_base {names : List GoString} (path : GoString)
    (areNames : ∀ name ∈ names, IsName name) :
    join (dir (clean path) :: base (clean path) :: names) = join (clean path :: names) := by
  obtain ⟨rooted, stack, canonical, eq⟩ := clean_canonical path
  rw [eq, join_names canonical areNames]
  cases stack with
  | nil =>
    have same : dir (render rooted []) = render rooted [] := by cases rooted <;> decide
    have first : stackOf rooted ((render rooted []).splitOn separator) = [] :=
      stackOf_render .root
    have vanishes : ((base (render rooted [])).splitOn separator).foldl (cleanElement rooted) [] =
        [] := by cases rooted <;> decide
    unfold stackOf at first
    rw [same, join_eq (render_ne_nil .root), isRooted_render .root, ← join_names .root areNames,
      join_eq (render_ne_nil .root), isRooted_render .root]
    simp only [stackOf, List.map_cons, List.flatten_cons, List.foldl_append, first, vanishes]
  | cons last rest =>
    have whole : Canonical rooted ((last :: names).reverse ++ rest) := by
      simpa using canonical_names areNames canonical
    rw [dir_render canonical, base_render canonical, join_elements canonical.tail whole]
    simp

/-! ### Below a directory -/

/-- The path leads strictly below the directory: names stand behind it. -/
def Below (directory path : GoString) : Prop :=
  ∃ names, names ≠ [] ∧ (∀ name ∈ names, IsName name) ∧ path = join (directory :: names)

/-- How many directories up the parts of a path lead. -/
def climbs (parts : List GoString) : Nat := (stackOf false parts).count (str "..")

/-- The names that the parts of a path lead through from there, the last one first. -/
def descends (parts : List GoString) : List GoString := (stackOf false parts).filter (· ≠ str "..")

/-- The elements lead strictly below the directory: they enter again the directories that they leave
by going up, and then one more. -/
def LeadsBelow (directory : GoString) (elements : List GoString) : Prop :=
  let parts := elements.flatMap (List.splitOn separator)
  let left := (stackOf (isRooted directory) (directory.splitOn separator)).take (climbs parts)
  left <:+ descends parts ∧ left ≠ descends parts

instance (directory : GoString) (elements : List GoString) :
    Decidable (LeadsBelow directory elements) :=
  inferInstanceAs (Decidable (_ ∧ _))

theorem Canonical.isName (canonical : Canonical true stack) : ∀ element ∈ stack, IsName element := by
  induction canonical with
  | root => exact List.forall_mem_nil _
  | up relative _ => cases relative
  | name isName _ ih => exact List.forall_mem_cons.mpr ⟨isName, ih⟩

theorem cleanElement_vanishes {element : GoString} (vanishes : element = [] ∨ element = str ".")
    (rooted : Bool) (stack : List GoString) : cleanElement rooted stack element = stack :=
  if_pos vanishes

theorem cleanElement_up {names : List GoString} (areNames : ∀ name ∈ names, IsName name) :
    cleanElement true names (str "..") = names.tail := by
  unfold cleanElement
  rw [if_neg (by decide), if_pos rfl]
  cases names with
  | nil => rfl
  | cons last rest =>
    dsimp only
    rw [if_neg (areNames last List.mem_cons_self).2.2.1]
    rfl

theorem cleanElement_ups (ups : Nat) :
    cleanElement false (List.replicate ups (str "..")) (str "..") =
      List.replicate (ups + 1) (str "..") := by
  unfold cleanElement
  rw [if_neg (by decide), if_pos rfl]
  cases ups with
  | zero => rfl
  | succ ups =>
    rw [List.replicate_succ]
    dsimp only
    rw [if_pos rfl]
    rfl

theorem cleanElement_up_cons {name : GoString} (isName : IsName name) (rooted : Bool)
    (rest : List GoString) : cleanElement rooted (name :: rest) (str "..") = rest := by
  unfold cleanElement
  rw [if_neg (by decide), if_pos rfl]
  dsimp only
  rw [if_neg isName.2.2.1]

/-- **What the parts of a path do to a directory** at or below the root: they take away as many of its
elements as they lead up, and put their names in the place. -/
theorem foldl_cleanElement {parts : List GoString} (noSeparator : ∀ part ∈ parts, separator ∉ part)
    (canonical : Canonical true stack) :
    ∃ names ups, (∀ name ∈ names, IsName name) ∧
      stackOf false parts = names ++ List.replicate ups (str "..") ∧
      parts.foldl (cleanElement true) stack = names ++ stack.drop ups := by
  unfold stackOf
  induction parts using List.reverseRecOn with
  | nil => exact ⟨[], 0, List.forall_mem_nil _, rfl, rfl⟩
  | append_singleton rest part ih =>
    obtain ⟨names, ups, areNames, relative, absolute⟩ :=
      ih fun other member => noSeparator other (by simp [member])
    rw [List.foldl_append, List.foldl_append, relative, absolute]
    show ∃ names' ups', _ ∧ cleanElement false _ part = _ ∧ cleanElement true _ part = _
    by_cases vanishes : part = [] ∨ part = str "."
    · exact ⟨names, ups, areNames, cleanElement_vanishes vanishes _ _,
        cleanElement_vanishes vanishes _ _⟩
    by_cases up : part = str ".."
    · subst up
      cases names with
      | nil =>
        have below : ∀ name ∈ stack.drop ups, IsName name :=
          fun name member => canonical.isName name (List.mem_of_mem_drop member)
        refine ⟨[], ups + 1, areNames, cleanElement_ups ups, ?_⟩
        rw [List.nil_append, cleanElement_up below, List.tail_drop]
        rfl
      | cons name names =>
        obtain ⟨here, later⟩ := List.forall_mem_cons.mp areNames
        exact ⟨names, ups, later, cleanElement_up_cons here _ _, cleanElement_up_cons here _ _⟩
    · have isName : IsName part := by
        push Not at vanishes
        exact ⟨vanishes.1, vanishes.2, up, noSeparator part (by simp)⟩
      exact ⟨part :: names, ups, List.forall_mem_cons.mpr ⟨isName, areNames⟩,
        cleanElement_name isName _ _, cleanElement_name isName _ _⟩

theorem foldl_climbs {parts : List GoString} (noSeparator : ∀ part ∈ parts, separator ∉ part)
    (canonical : Canonical true stack) :
    (∀ name ∈ descends parts, IsName name) ∧
      parts.foldl (cleanElement true) stack = descends parts ++ stack.drop (climbs parts) := by
  obtain ⟨names, ups, areNames, relative, absolute⟩ := foldl_cleanElement noSeparator canonical
  have apart : str ".." ∉ names := fun member => (areNames _ member).2.2.1 rfl
  have up : climbs parts = ups := by
    rw [climbs, relative, List.count_append, List.count_eq_zero.mpr apart, List.count_replicate_self,
      Nat.zero_add]
  have down : descends parts = names := by
    have kept : names.filter (· ≠ str "..") = names :=
      List.filter_eq_self.mpr fun name member => by simpa using (areNames name member).2.2.1
    have dropped : (List.replicate ups (str "..")).filter (· ≠ str "..") = [] :=
      List.filter_eq_nil_iff.mpr fun name member => by simp [List.eq_of_mem_replicate member]
    rw [descends, relative, List.filter_append, kept, dropped, List.append_nil]
  rw [up, down]
  exact ⟨areNames, absolute⟩

theorem not_mem_of_flatMap (elements : List GoString) :
    ∀ part ∈ elements.flatMap (List.splitOn separator), separator ∉ part := by
  intro part member
  obtain ⟨element, _, inside⟩ := List.mem_flatMap.mp member
  exact not_mem_of_splitOn element part inside

/-- **What `Join` does to a clean path from the root**, for any elements. -/
theorem join_climbs (canonical : Canonical true stack) (elements : List GoString) :
    let parts := elements.flatMap (List.splitOn separator)
    join (render true stack :: elements) =
      render true (descends parts ++ stack.drop (climbs parts)) := by
  intro parts
  have first := stackOf_render canonical
  unfold stackOf at first
  rw [join_eq (render_ne_nil canonical), isRooted_render canonical, List.map_cons,
    List.flatten_cons, ← List.flatMap_def, stackOf, List.foldl_append, first,
    (foldl_climbs (not_mem_of_flatMap elements) canonical).2]

theorem below_render_iff {other : List GoString} (canonical : Canonical true stack)
    (canonical' : Canonical true other) :
    Below (render true stack) (render true other) ↔ stack <:+ other ∧ stack ≠ other := by
  constructor
  · rintro ⟨names, some', areNames, path⟩
    rw [join_names canonical areNames] at path
    have elements := congrArg (fun path => stackOf true (path.splitOn separator)) path
    rw [stackOf_render canonical', stackOf_render (canonical_names areNames canonical)] at elements
    subst elements
    refine ⟨List.suffix_append _ _, fun same => some' ?_⟩
    exact List.reverse_eq_nil_iff.mp (List.self_eq_append_left.mp same)
  · rintro ⟨⟨front, rfl⟩, different⟩
    have areNames : ∀ name ∈ front.reverse, IsName name := fun name member =>
      canonical'.isName name (List.mem_append_left _ (List.mem_reverse.mp member))
    refine ⟨front.reverse, fun empty => different ?_, areNames, ?_⟩
    · rw [List.reverse_eq_nil_iff.mp empty]
      rfl
    · rw [join_names canonical areNames, List.reverse_reverse]

/-- **When `Join` stays below a directory.** -/
theorem below_join_iff {directory : GoString} (isClean : clean directory = directory)
    (absolute : isRooted directory = true) (elements : List GoString) :
    Below directory (join (directory :: elements)) ↔ LeadsBelow directory elements := by
  have canonical : Canonical true (stackOf true (directory.splitOn separator)) :=
    canonical_stackOf (not_mem_of_splitOn directory)
  have same : directory = render true (stackOf true (directory.splitOn separator)) := by
    have rendered := clean_eq_render directory
    rwa [isClean, absolute] at rendered
  unfold LeadsBelow
  rw [absolute]
  generalize stackOf true (directory.splitOn separator) = stack at canonical same
  rw [same, join_climbs canonical]
  dsimp only
  obtain ⟨areNames, _⟩ := foldl_climbs (not_mem_of_flatMap elements) canonical
  generalize elements.flatMap (List.splitOn separator) = parts at areNames
  have below : Canonical true (stack.drop (climbs parts)) := by
    rw [← List.take_append_drop (climbs parts) stack] at canonical
    exact canonical.drop
  have whole : Canonical true (descends parts ++ stack.drop (climbs parts)) := by
    rw [← List.reverse_reverse (descends parts)]
    exact canonical_names (fun name member => areNames name (List.mem_reverse.mp member)) below
  rw [below_render_iff canonical whole]
  nth_rewrite 1 3 [← List.take_append_drop (climbs parts) stack]
  rw [List.suffix_append_self_iff, ne_eq, ne_eq, List.append_left_inj]

end GoBt.Filepath
