import Allotment.NameMap
import Allotment.Program.Flaw

/-!
# Drafts

A draft describes a program by names: the coefficients of the objective and of each constraint
are given for the variables they are about, and a variable that is not named has the coefficient
zero. `Draft.program` resolves the names. It refuses a repeated variable first, then the first
name, in the order of the names, that no variable has, in the objective and then constraint by
constraint, and last what makes the program ill-formed.

A draft can also be built up step by step from `Draft.empty`.
-/

namespace Allotment
set_option autoImplicit false

/-- The objective of a draft. -/
structure DraftObjective (α : Type) where
  sense : Sense
  coefficients : NameMap α
  deriving DecidableEq, Repr

/-- A constraint of a draft. -/
structure DraftConstraint (α : Type) where
  label : String
  coefficients : NameMap α
  relation : Relation
  limit : α
  deriving DecidableEq, Repr

/-- **A program described by names.** -/
structure Draft (α : Type) where
  vars : List (Variable α)
  objective : DraftObjective α
  constraints : List (DraftConstraint α)
  deriving DecidableEq, Repr

variable {α : Type} [Scalar α]

/-- The first name that an earlier one repeats, after those in `seen`. -/
def firstRepeated? (seen : List String) : List String → Option String
  | [] => none
  | name :: rest => if name ∈ seen then some name else firstRepeated? (name :: seen) rest

/-- **One coefficient per variable**, in the order of the variables: the entry of its name, or
zero. A name that no variable has is refused, the first one in the order of the names. -/
def resolve (names : List String) (place : Place) (coefficients : NameMap α) :
    Except (Flaw α) (List α) :=
  match coefficients.names.find? (· ∉ names) with
  | some name => .error (.unknownVariable place name)
  | none => .ok (names.map fun name => (coefficients.find? name).getD 0)

namespace DraftConstraint

/-- The constraint over variables of these names. -/
def resolve (names : List String) (c : DraftConstraint α) : Except (Flaw α) (Constraint α) := do
  let coefficients ← Allotment.resolve names (.constraint c.label) c.coefficients
  return { label := c.label, coefficients, relation := c.relation, limit := c.limit }

end DraftConstraint

namespace Draft

/-- The draft with nothing in it, which maximizes nothing. -/
def empty : Draft α where
  vars := []
  objective := { sense := .maximize, coefficients := .empty }
  constraints := []

/-- The draft with one more variable and its bounds. -/
def withBounded (d : Draft α) (name : String) (lower : α) (upper : Option α) : Draft α :=
  { d with vars := d.vars ++ [{ name, lower, upper }] }

/-- The draft with one more variable, at least zero and unbounded above. -/
def withVariable (d : Draft α) (name : String) : Draft α := d.withBounded name 0 none

/-- The draft with this objective in place of its own. -/
def withObjective (d : Draft α) (sense : Sense) (coefficients : List (String × α)) : Draft α :=
  { d with objective := { sense, coefficients := .ofList coefficients } }

/-- The draft with one more constraint. -/
def withConstraint (d : Draft α) (label : String) (coefficients : List (String × α))
    (relation : Relation) (limit : α) : Draft α :=
  { d with
    constraints :=
      d.constraints ++ [{ label, coefficients := .ofList coefficients, relation, limit }] }

/-- The names of the variables, in order. -/
def names (d : Draft α) : List String := d.vars.map (·.name)

/-- **The program that a draft describes**, if every name is known and it is well formed. -/
def program (d : Draft α) : Except (Flaw α) (Program α) :=
  match firstRepeated? [] d.names with
  | some name => .error (.duplicateVariable name)
  | none => do
    let coefficients ← resolve d.names .objective d.objective.coefficients
    let constraints ← d.constraints.mapM (·.resolve d.names)
    let p : Program α :=
      { vars := d.vars
        objective := { sense := d.objective.sense, coefficients }
        constraints }
    p.checked

end Draft

end Allotment
