/-
**Ranges laid end to end.**

An item has a place and a size: it takes the positions from the place on, as many as the size.

* `Tiles place size items start stop` — the items lie one behind the other from `start` to `stop`.
* `tiles_append` — a tiling is cut where the list is cut; `tiles_range`: tiles of one size.
* `Tiles.covers` — the positions of the items are those from `start` to `stop`; `Tiles.stop_eq`.
-/

import GoBt.Lib.Segments

namespace GoBt.Lib

section Tiling

variable {α : Type*} {place : α → Int} {size : α → Nat}

/-- The items lie end to end from `start` to `stop`. -/
def Tiles (place : α → Int) (size : α → Nat) : List α → Int → Int → Prop
  | [], start, stop => start = stop
  | a :: rest, start, stop => place a = start ∧ Tiles place size rest (start + size a) stop

theorem tiles_append {first second : List α} {start stop : Int} :
    Tiles place size (first ++ second) start stop ↔
      ∃ middle, Tiles place size first start middle ∧ Tiles place size second middle stop := by
  induction first generalizing start with
  | nil =>
    constructor
    · intro tiles
      exact ⟨start, rfl, tiles⟩
    · rintro ⟨_, rfl, tiles⟩
      exact tiles
  | cons a rest ih =>
    rw [List.cons_append, Tiles, ih]
    constructor
    · rintro ⟨here, middle, before, after⟩
      exact ⟨middle, ⟨here, before⟩, after⟩
    · rintro ⟨middle, ⟨here, before⟩, after⟩
      exact ⟨here, middle, before, after⟩

theorem tiles_singleton {a : α} {start stop : Int} :
    Tiles place size [a] start stop ↔ place a = start ∧ start + size a = stop :=
  Iff.rfl

theorem Tiles.stop_eq {items : List α} {start stop : Int}
    (tiles : Tiles place size items start stop) : stop = start + span size items := by
  induction items generalizing start with
  | nil =>
    cases tiles
    simp
  | cons a rest ih =>
    rw [ih tiles.2, span_cons, Nat.cast_add, add_assoc]

/-- **The items of a tiling cover it.** -/
theorem Tiles.covers {items : List α} {start stop : Int}
    (tiles : Tiles place size items start stop) (x : Int) :
    (∃ a ∈ items, place a ≤ x ∧ x < place a + size a) ↔ start ≤ x ∧ x < stop := by
  induction items generalizing start with
  | nil =>
    cases tiles
    refine iff_of_false nofun ?_
    omega
  | cons a rest ih =>
    obtain ⟨here, behind⟩ := tiles
    have total := behind.stop_eq
    simp only [List.mem_cons, exists_eq_or_imp]
    rw [ih behind, here]
    omega

theorem tiles_range {item : Nat → α} {start : Int} {width n : Nat}
    (fits : ∀ k < n, place (item k) = start + k * width ∧ size (item k) = width) :
    Tiles place size ((List.range n).map item) start (start + n * width) := by
  induction n with
  | zero => simp [Tiles]
  | succ n ih =>
    obtain ⟨here, wide⟩ := fits n (Nat.lt_succ_self n)
    rw [List.range_succ, List.map_append, tiles_append]
    refine ⟨_, ih fun k inside => fits k (Nat.lt_succ_of_lt inside), here, ?_⟩
    show start + n * width + size (item n) = _
    rw [wide]
    push_cast
    ring

end Tiling

end GoBt.Lib
