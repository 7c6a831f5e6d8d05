import Allotment.Program.Usage

/-!
# Solutions

What solving a program yields: how it ended, and, at an optimum, the point with all that the
final tableau says about it. A program without an optimum has a solution too, which carries no
point; when nothing satisfies the constraints it lists those violated at the nearest attempt.
-/

namespace Allotment
set_option autoImplicit false

/-- How solving a program ended. -/
inductive Status where
  /-- An optimal point was found. -/
  | optimal
  /-- No point satisfies every constraint. -/
  | infeasible
  /-- The objective improves without limit. -/
  | unbounded
  /-- The pivots allowed were spent before either was established. -/
  | pivotLimit
  deriving DecidableEq, Repr

/-- **The outcome of solving a program.** The lists are empty where there is no point. -/
structure Solution (α : Type) where
  status : Status
  /-- The names of the variables, in order. -/
  names : List String
  /-- The quantity chosen for each variable. -/
  values : List α
  objective : Option α
  usage : List (Usage α)
  /-- The constraints violated at the nearest attempt, when nothing satisfies them all. -/
  violations : List (Violation α)
  pivots : Nat
  /-- Change of the objective per unit that each constraint is relaxed by. -/
  duals : List α
  /-- Change of the objective per unit that each variable is raised by. -/
  reducedCosts : List α
  /-- Whether each variable ended in the basis. -/
  basic : List Bool
  deriving DecidableEq, Repr

variable {α : Type} [Scalar α]

namespace Solution

/-- A solution that carries no point. -/
def withoutPoint (p : Program α) (status : Status) (violations : List (Violation α))
    (pivots : Nat) : Solution α where
  status
  names := p.names
  values := []
  objective := none
  usage := []
  violations
  pivots
  duals := []
  reducedCosts := []
  basic := []

/-- No point satisfies every constraint; the nearest attempt has these violations. -/
def infeasible (p : Program α) (violations : List (Violation α)) (pivots : Nat) : Solution α :=
  withoutPoint p .infeasible violations pivots

/-- The objective improves without limit. -/
def unbounded (p : Program α) (pivots : Nat) : Solution α := withoutPoint p .unbounded [] pivots

/-- The pivots allowed were spent. -/
def pivotLimit (p : Program α) (pivots : Nat) : Solution α := withoutPoint p .pivotLimit [] pivots

/-- Whether an optimum was found. -/
def isOptimal (s : Solution α) : Bool := s.status == .optimal

/-- Whether some point is known to satisfy every constraint. -/
def isFeasible (s : Solution α) : Bool :=
  match s.status with
  | .optimal | .unbounded => true
  | .infeasible | .pivotLimit => false

/-- The quantity chosen for the variable of a name. -/
def value? (s : Solution α) (name : String) : Option α :=
  (s.names.findIdx? (· == name)).bind (s.values[·]?)

/-- The usage of the constraint of a label. -/
def usage? (s : Solution α) (label : String) : Option (Usage α) :=
  s.usage.find? (·.label == label)

/-- The variables with their quantities, in order. -/
def namedValues (s : Solution α) : List (String × α) := s.names.zip s.values

/-- The labels of the constraints that have no slack left. -/
def bindingLabels (s : Solution α) : List String := (s.usage.filter (·.binding)).map (·.label)

/-- **The objective of a solution that is an optimum of a program of this many variables.** It
is absent when the solution is none, or does not choose one quantity per variable. -/
def optimum? (s : Solution α) (count : Nat) : Option α :=
  if s.isOptimal && s.values.length == count then s.objective else none

end Solution

end Allotment
