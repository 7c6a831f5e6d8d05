/-!
# Boxes of whole units

A box is a range of whole units per coordinate. Its points are gone through like the readings of
a counter: the first coordinate moves fastest, and one that has reached its end starts again and
carries to the next. `walk` takes the first points, as many as a cap allows, and folds them into
a result; `pointsFrom` lists the same points.
-/

namespace Allotment.WholeUnits
set_option autoImplicit false

/-- The range of one coordinate, both ends included. -/
structure Side where
  low : Int64
  high : Int64
  deriving DecidableEq, Repr

/-- A range per coordinate. -/
abbrev Box := List Side

namespace Box

/-- The point where every coordinate is at its low end. -/
def corner (box : Box) : List Int64 := box.map (·.low)

/-- **The point after a point**, if there is one. -/
def next? : Box → List Int64 → Option (List Int64)
  | side :: sides, x :: xs =>
    if x < side.high then some ((x + 1) :: xs) else (next? sides xs).map (side.low :: ·)
  | _, _ => none

/-- The first points from a point on, at most as many as the cap. -/
def pointsFrom (box : Box) : (cap : Nat) → List Int64 → List (List Int64)
  | 0, _ => []
  | cap + 1, x =>
    x :: match next? box x with
      | none => []
      | some y => pointsFrom box cap y

/-- What a walk leaves behind: the result, how many points were visited, and whether the cap
ended the walk before the box did. -/
structure Walk (σ : Type) where
  result : σ
  visited : Nat
  truncated : Bool
  deriving DecidableEq, Repr

/-- The walk from a point on. -/
def walkFrom {σ : Type} (box : Box) (visit : σ → List Int64 → σ) :
    (cap visited : Nat) → σ → List Int64 → Walk σ
  | 0, visited, result, _ => { result, visited, truncated := true }
  | cap + 1, visited, result, x =>
    let result := visit result x
    match next? box x with
    | none => { result, visited := visited + 1, truncated := false }
    | some y => walkFrom box visit cap (visited + 1) result y

/-- **The walk through a box** from its low corner, under a cap on the points visited. -/
def walk {σ : Type} (box : Box) (cap : Nat) (visit : σ → List Int64 → σ) (start : σ) : Walk σ :=
  walkFrom box visit cap 0 start box.corner

theorem walkFrom_result {σ : Type} (box : Box) (visit : σ → List Int64 → σ) (cap visited : Nat)
    (start : σ) (x : List Int64) :
    (walkFrom box visit cap visited start x).result =
      (pointsFrom box cap x).foldl visit start := by
  induction cap generalizing visited start x with
  | zero => rfl
  | succ cap ih =>
    unfold walkFrom pointsFrom
    cases h : next? box x with
    | none => simp
    | some y => simp [ih]

theorem walkFrom_visited {σ : Type} (box : Box) (visit : σ → List Int64 → σ)
    (cap visited : Nat) (start : σ) (x : List Int64) :
    (walkFrom box visit cap visited start x).visited =
      visited + (pointsFrom box cap x).length := by
  induction cap generalizing visited start x with
  | zero => rfl
  | succ cap ih =>
    unfold walkFrom pointsFrom
    cases h : next? box x with
    | none => simp
    | some y => simp [ih]; omega

end Box

end Allotment.WholeUnits
