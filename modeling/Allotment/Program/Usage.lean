import Allotment.Program

/-!
# Constraints at a point

How a point uses the constraints of a program, and which of them it violates. Usage is listed
in the order of the program, violations by amount, the worst first and equal amounts in the
order of the program.
-/

namespace Allotment
set_option autoImplicit false

/-- How much of one constraint a point uses. -/
structure Usage (α : Type) where
  label : String
  consumed : α
  slack : α
  binding : Bool
  deriving DecidableEq, Repr

/-- One constraint that a point violates, and by how much. -/
structure Violation (α : Type) where
  label : String
  relation : Relation
  required : α
  actual : α
  amount : α
  deriving DecidableEq, Repr

variable {α : Type} [Scalar α]

/-- A constraint is binding when its slack is zero up to the tolerance, the boundary included. -/
def isBinding (slack tolerance : α) : Bool := decide (Scalar.abs slack ≤ tolerance)

namespace Constraint

/-- How much of the constraint a point uses. -/
def usage (c : Constraint α) (point : List α) (tolerance : α) : Usage α :=
  let consumed := c.consumed point
  let slack := c.slack consumed
  { label := c.label, consumed, slack, binding := isBinding slack tolerance }

/-- The account of a constraint that a point is taken to violate. -/
def violation (c : Constraint α) (point : List α) : Violation α :=
  let consumed := c.consumed point
  { label := c.label
    relation := c.relation
    required := c.limit
    actual := consumed
    amount := Scalar.abs (c.slack consumed) }

end Constraint

namespace Violation

/-- Whether a violation may stand before another: its amount is no smaller. -/
def precedes (v w : Violation α) : Bool := Scalar.totalLe w.amount v.amount

/-- A violation put in front of the first one that it may stand before. -/
def insert (v : Violation α) : List (Violation α) → List (Violation α)
  | [] => [v]
  | w :: rest => if v.precedes w then v :: w :: rest else w :: insert v rest

/-- Violations by amount, the greatest first; equal amounts keep their order. -/
def sort (vs : List (Violation α)) : List (Violation α) := vs.foldr insert []

end Violation

namespace Program

/-- The usage of every constraint at a point. -/
def usage (p : Program α) (point : List α) (tolerance : α) : List (Usage α) :=
  p.constraints.map (·.usage point tolerance)

/-- **The constraints that a point violates**, the greatest amount first. -/
def violations (p : Program α) (point : List α) (tolerance : α) : List (Violation α) :=
  Violation.sort
    ((p.constraints.filter fun c => !c.satisfied point tolerance).map (·.violation point))

end Program

end Allotment
