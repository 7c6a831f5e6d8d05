import Allotment.Settings
import Allotment.Solution
import Allotment.WholeUnits.Box

/-!
# Whole-unit allocations

From a continuous optimum to whole units. Each quantity is rounded to the nearest whole number
within its bounds; if that point is feasible it is taken. Otherwise every whole-unit point
around it is examined, up to a cap, and the best feasible one is taken: the one with the better
objective, or, where the objectives agree up to a small tolerance, the one that is nearer to the
continuous optimum. Where there is none the result says so, and says whether the cap is why.
-/

namespace Allotment.WholeUnits
set_option autoImplicit false

/-- How the search for whole units ended. -/
inductive Ending where
  /-- The rounded point was feasible. -/
  | rounded
  /-- The rounded point was not feasible, and a neighbour was. -/
  | searched
  /-- No whole-unit point that was examined is feasible. -/
  | exhausted
  /-- There is no continuous optimum to round. -/
  | noOptimum
  deriving DecidableEq, Repr

/-- **An allocation in whole units**, or the account of why there is none. -/
structure Allocation (α : Type) where
  ending : Ending
  feasible : Bool
  names : List String
  /-- The units of each variable; empty unless feasible. -/
  units : List Int64
  objective : Option α
  continuousObjective : Option α
  /-- How much of the continuous objective is lost. -/
  gap : Option α
  /-- The gap as a part of the continuous objective, where that is not zero. -/
  relativeGap : Option α
  examined : Nat
  truncated : Bool
  deriving DecidableEq, Repr

/-- Who rounds: how far to search, how many points to examine, and the tolerance up to which a
point has to be feasible. -/
structure Rounder (α : Type) where
  radius : UInt32
  cap : Nat
  tolerance : α
  deriving DecidableEq, Repr

/-- The whole numbers within the bounds of a variable. -/
structure UnitRange where
  least : Int64
  greatest : Option Int64
  deriving DecidableEq, Repr

/-- The best feasible point so far, with its objective and its distance from the continuous
optimum. -/
structure Best (α : Type) where
  units : List Int64
  objective : α
  distance : α
  deriving DecidableEq, Repr

variable {α : Type} [Scalar α]

namespace UnitRange

/-- The whole numbers within the bounds of a variable. -/
def ofVariable (v : Variable α) : UnitRange where
  least := Scalar.ceil v.lower
  greatest := v.upper.map Scalar.floor

/-- Whether there is none. -/
def isEmpty (r : UnitRange) : Bool :=
  match r.greatest with
  | none => false
  | some greatest => decide (greatest < r.least)

/-- The nearest number of the range. -/
def clamp (r : UnitRange) (n : Int64) : Int64 :=
  let n := max n r.least
  match r.greatest with
  | none => n
  | some greatest => min n greatest

/-- The part of the range within a radius of one of its numbers. -/
def around (r : UnitRange) (n radius : Int64) : Side where
  low := max (n - radius) r.least
  high :=
    match r.greatest with
    | none => n + radius
    | some greatest => min (n + radius) greatest

end UnitRange

namespace Allocation

/-- The allocation of a program for which no whole units were found. -/
def absent (p : Program α) (ending : Ending) (continuous : Option α) (examined : Nat)
    (truncated : Bool) : Allocation α where
  ending
  feasible := false
  names := p.names
  units := []
  objective := none
  continuousObjective := continuous
  gap := none
  relativeGap := none
  examined
  truncated

/-- The allocation of a program in these units. -/
def found (p : Program α) (ending : Ending) (units : List Int64) (objective continuous : α)
    (examined : Nat) (truncated : Bool) : Allocation α :=
  let gap := p.objective.sense.improvement continuous objective
  { ending
    feasible := true
    names := p.names
    units
    objective := some objective
    continuousObjective := some continuous
    gap := some gap
    relativeGap :=
      if machineEpsilon < Scalar.abs continuous then some (gap / Scalar.abs continuous) else none
    examined
    truncated }

/-- The units of the variable of a name. -/
def units? (a : Allocation α) (name : String) : Option Int64 :=
  (a.names.findIdx? (· == name)).bind (a.units[·]?)

end Allocation

/-- The objective at a whole-unit point, if that point is feasible. -/
def objectiveAt? (p : Program α) (tolerance : α) (units : List Int64) : Option α :=
  let point := units.map Scalar.ofUnits
  if p.feasible point tolerance then some (p.valueAt point) else none

/-- How far a whole-unit point is from a continuous one, coordinate by coordinate. -/
def distance (units : List Int64) (point : List α) : α :=
  sum (List.zipWith (fun n x => Scalar.abs (Scalar.ofUnits n - x)) units point)

namespace Best

/-- Two objectives that differ by no more than this, relative to the better one so far, are the
same. -/
def tieWidth : α := 1e-9

/-- Whether a point is to replace the best one so far. -/
def beats (sense : Sense) (c best : Best α) : Bool :=
  let gain := sense.improvement c.objective best.objective
  let width := tieWidth * (1 + Scalar.abs best.objective)
  decide (width < gain) ||
    (decide (Scalar.abs gain ≤ width) && decide (c.distance < best.distance))

/-- The best point so far after one more has been examined. -/
def examine (p : Program α) (tolerance : α) (continuous : List α) (best : Option (Best α))
    (units : List Int64) : Option (Best α) :=
  match objectiveAt? p tolerance units with
  | none => best
  | some objective =>
    let c : Best α := { units, objective, distance := WholeUnits.distance units continuous }
    match best with
    | none => some c
    | some b => if c.beats p.objective.sense b then some c else some b

end Best

namespace Rounder

/-- A rounder with the settings given. -/
def ofSettings (s : RoundingSettings) (tolerance : α) : Rounder α where
  radius := s.searchRadius
  cap := s.maxCandidates
  tolerance

/-- The ranges of whole numbers that the variables of a program allow. -/
def ranges (p : Program α) : List UnitRange := p.vars.map .ofVariable

/-- **The rounded point**: each quantity rounded, then moved into its range. -/
def roundedPoint (p : Program α) (values : List α) : List Int64 :=
  List.zipWith (fun x (r : UnitRange) => r.clamp (Scalar.round x)) values (ranges p)

/-- **The neighbourhood** of a whole-unit point within the ranges of the program. -/
def neighbourhood (r : Rounder α) (p : Program α) (units : List Int64) : Box :=
  List.zipWith (fun n (range : UnitRange) => range.around n (Int64.ofNat r.radius.toNat)) units
    (ranges p)

/-- The search through the neighbourhood of a whole-unit point. -/
def search (r : Rounder α) (p : Program α) (values : List α) (units : List Int64) :
    Box.Walk (Option (Best α)) :=
  (r.neighbourhood p units).walk r.cap (Best.examine p r.tolerance values) none

/-- **The whole-unit allocation** for a continuous solution of a program. -/
def allocate (r : Rounder α) (p : Program α) (s : Solution α) : Allocation α :=
  match s.optimum? p.vars.length with
  | none => .absent p .noOptimum s.objective 0 false
  | some continuous =>
    if (ranges p).any (·.isEmpty) then .absent p .exhausted (some continuous) 0 false
    else
      let units := roundedPoint p s.values
      match objectiveAt? p r.tolerance units with
      | some objective => .found p .rounded units objective continuous 1 false
      | none =>
        let walk := r.search p s.values units
        match walk.result with
        | some best =>
          .found p .searched best.units best.objective continuous (walk.visited + 1)
            walk.truncated
        | none => .absent p .exhausted (some continuous) (walk.visited + 1) walk.truncated

end Rounder

end Allotment.WholeUnits
