import Mathlib.Data.List.Basic
import Mathlib.Tactic.Common

/-! # Walking through a tree of directories

A place is the list of the names on the way to it from the root, and a path is a list
of steps: stay, go up, go down. Above the root there is nothing, so that going up from
it stays there.

* `relative`: what a path does without a place to start from: climb so many levels, and
  then go down these names;
* `walk_eq`: where a path leads from a place;
* `prefix_walk_iff`: when it leads to a place below the one where it starts.
-/

namespace Paths

variable {α : Type}

/-- A step. -/
inductive Step (α : Type) where
  | stay
  | up
  | down (name : α)
deriving DecidableEq, Repr

/-- The place behind a step. -/
def Step.move (place : List α) : Step α → List α
  | .stay => place
  | .up => place.dropLast
  | .down name => place ++ [name]

/-- The place behind a path. -/
def walk (place : List α) (path : List (Step α)) : List α := path.foldl Step.move place

/-- One step more: it goes up from a name that was gone down to, or climbs. -/
def Step.climb (r : ℕ × List α) : Step α → ℕ × List α
  | .stay => r
  | .up => if r.2 = [] then (r.1 + 1, []) else (r.1, r.2.dropLast)
  | .down name => (r.1, r.2 ++ [name])

/-- The levels that a path climbs, and the names that it then goes down. -/
def relative (path : List (Step α)) : ℕ × List α := path.foldl Step.climb (0, [])

/-- Climb and go down. -/
def land (place : List α) (r : ℕ × List α) : List α := place.take (place.length - r.1) ++ r.2

theorem walk_append (place : List α) (path path' : List (Step α)) :
    walk place (path ++ path') = walk (walk place path) path' :=
  List.foldl_append

theorem land_climb (place : List α) (r : ℕ × List α) (step : Step α) :
    land place (step.climb r) = Step.move (land place r) step := by
  cases step with
  | stay => rfl
  | up =>
    rcases r with ⟨levels, names⟩
    by_cases hnames : names = []
    · subst hnames
      simp only [Step.climb, Step.move, land, if_true, List.append_nil, List.dropLast_eq_take,
        List.take_take, List.length_take]
      congr 1
      omega
    · simp only [Step.climb, Step.move, land, if_neg hnames]
      rw [List.dropLast_append_of_ne_nil hnames]
  | down name =>
    simp only [Step.climb, Step.move, land]
    rw [List.append_assoc]

/-- Where a path leads from a place. -/
theorem walk_eq (place : List α) (path : List (Step α)) :
    walk place path = land place (relative path) := by
  have hfrom : ∀ (path : List (Step α)) (r : ℕ × List α),
      path.foldl Step.move (land place r) = land place (path.foldl Step.climb r) := by
    intro path
    induction path with
    | nil =>
      intro r
      rfl
    | cons step path ih =>
      intro r
      rw [List.foldl_cons, List.foldl_cons, ← land_climb, ih]
  have hstart : land place (0, []) = place := by
    rw [land, Nat.sub_zero, List.take_length, List.append_nil]
  rw [walk, ← hstart, hfrom path (0, []), hstart]
  rfl

/-- A path stays below its start exactly if it goes down again what it has climbed. -/
theorem prefix_walk_iff (place : List α) (path : List (Step α)) :
    place <+: walk place path ↔
      place.drop (place.length - (relative path).1) <+: (relative path).2 := by
  rw [walk_eq, land]
  conv_lhs =>
    lhs
    rw [← List.take_append_drop (place.length - (relative path).1) place]
  exact List.prefix_append_right_inj _

end Paths
