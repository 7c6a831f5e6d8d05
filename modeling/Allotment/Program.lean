import Allotment.Scalar

/-!
# Linear programs

A program chooses quantities, one per variable, within their bounds and within labelled
constraints, so that a linear objective is greatest or least. This module holds the data and
what can be read off it at a point: the value of the objective, what a constraint consumes and
the slack it has left, and whether the point is feasible up to a tolerance.

A `Program` is plain data. Which programs are well formed is the subject of
`Allotment.Program.Flaw`.
-/

namespace Allotment
set_option autoImplicit false

/-- A quantity to be chosen: its name and the bounds it is held to. -/
structure Variable (α : Type) where
  name : String
  lower : α
  upper : Option α
  deriving DecidableEq, Repr

/-- Whether the objective is to be as great or as small as possible. -/
inductive Sense where
  | maximize
  | minimize
  deriving DecidableEq, Repr

/-- What a program strives for: a sense and one coefficient per variable. -/
structure Objective (α : Type) where
  sense : Sense
  coefficients : List α
  deriving DecidableEq, Repr

/-- How the consumption of a constraint has to relate to its limit. -/
inductive Relation where
  | atMost
  | atLeast
  | equal
  deriving DecidableEq, Repr

/-- A labelled constraint: what the coefficients consume is held against the limit. -/
structure Constraint (α : Type) where
  label : String
  coefficients : List α
  relation : Relation
  limit : α
  deriving DecidableEq, Repr

/-- **A linear program.** -/
structure Program (α : Type) where
  vars : List (Variable α)
  objective : Objective α
  constraints : List (Constraint α)
  deriving DecidableEq, Repr

variable {α : Type} [Scalar α]

namespace Sense

/-- Plus one to maximize, minus one to minimize. -/
def sign : Sense → α
  | maximize => 1
  | minimize => -1

/-- How much better `a` is than `b`; positive means better. -/
def improvement (s : Sense) (a b : α) : α := s.sign * (a - b)

end Sense

namespace Relation

/-- The relation between the negated sides. -/
def flip : Relation → Relation
  | atMost => atLeast
  | atLeast => atMost
  | equal => equal

/-- How the relation is written. -/
def symbol : Relation → String
  | atMost => "<="
  | atLeast => ">="
  | equal => "="

/-- The direction in which a limit moves when it is relaxed: down for a minimum, up otherwise. -/
def relaxationSign : Relation → α
  | atMost => 1
  | atLeast => -1
  | equal => 1

end Relation

namespace Objective

/-- The value of the objective at a point. -/
def valueAt (o : Objective α) (point : List α) : α := dot o.coefficients point

end Objective

namespace Constraint

/-- What a point consumes of the constraint. -/
def consumed (c : Constraint α) (point : List α) : α := dot c.coefficients point

/-- The room between a consumption and the limit; negative when the limit is passed. An
equality counts as a maximum here. -/
def slack (c : Constraint α) (consumed : α) : α :=
  match c.relation with
  | .atMost => c.limit - consumed
  | .atLeast => consumed - c.limit
  | .equal => c.limit - consumed

/-- Whether a point satisfies the constraint up to a tolerance, the boundary included. -/
def satisfied (c : Constraint α) (point : List α) (tolerance : α) : Bool :=
  let slack := c.slack (c.consumed point)
  match c.relation with
  | .atMost => decide (-tolerance ≤ slack)
  | .atLeast => decide (-tolerance ≤ slack)
  | .equal => decide (Scalar.abs slack ≤ tolerance)

/-- The constraint with its limit moved by `delta` in the relaxing direction; a negative
`delta` tightens it. -/
def relaxed (c : Constraint α) (delta : α) : Constraint α :=
  { c with limit := c.limit + c.relation.relaxationSign * delta }

end Constraint

namespace Variable

/-- Whether a quantity is within the bounds of the variable, up to a tolerance. -/
def admits (v : Variable α) (x tolerance : α) : Bool :=
  decide (v.lower - tolerance ≤ x) &&
    match v.upper with
    | none => true
    | some upper => decide (x ≤ upper + tolerance)

end Variable

namespace Program

/-- The names of the variables, in order. -/
def names (p : Program α) : List String := p.vars.map (·.name)

/-- The labels of the constraints, in order. -/
def labels (p : Program α) : List String := p.constraints.map (·.label)

/-- The relations of the constraints, in order. -/
def relations (p : Program α) : List Relation := p.constraints.map (·.relation)

/-- Where a variable stands. -/
def variableIndex? (p : Program α) (name : String) : Option Nat :=
  p.vars.findIdx? (·.name == name)

/-- Where a constraint stands. -/
def constraintIndex? (p : Program α) (label : String) : Option Nat :=
  p.constraints.findIdx? (·.label == label)

/-- The value of the objective at a point. -/
def valueAt (p : Program α) (point : List α) : α := p.objective.valueAt point

/-- **Feasibility up to a tolerance**: one quantity per variable, each within its bounds, and
every constraint satisfied. -/
def feasible (p : Program α) (point : List α) (tolerance : α) : Bool :=
  point.length == p.vars.length &&
    (List.zipWith (fun v x => v.admits x tolerance) p.vars point).all id &&
    p.constraints.all (·.satisfied point tolerance)

/-- The program with the limit of one constraint moved in its relaxing direction; the program
itself where there is no such constraint. -/
def relaxed (p : Program α) (index : Nat) (delta : α) : Program α :=
  { p with constraints := p.constraints.modify index (·.relaxed delta) }

/-- The relaxed program, where there is a constraint of that index. -/
def relaxed? (p : Program α) (index : Nat) (delta : α) : Option (Program α) :=
  if index < p.constraints.length then some (p.relaxed index delta) else none

end Program

end Allotment
