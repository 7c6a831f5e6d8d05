import Allotment.Program

/-!
# Well-formed programs

A program is refused for one cause, a `Flaw`, found by `Program.flaw?` in a fixed order: no
variables at all; then, variable by variable, a repeated name and the bounds; then the
coefficients of the objective; then, constraint by constraint, a repeated label, the
coefficients and the limit. `Program.checked` lets through exactly the programs without a flaw.

The flaws that only a named description, a change of a parameter or a comparison can have are
causes of the same type, so that one wording serves all.
-/

namespace Allotment
set_option autoImplicit false

/-- What refers to variables by name, or carries one coefficient per variable. -/
inductive Place where
  | objective
  | constraint (label : String)
  | change
  deriving DecidableEq, Repr

/-- A number of a program. -/
inductive Entry where
  | lowerBound (name : String)
  | upperBound (name : String)
  | coefficient (place : Place) (name : String)
  | limit (label : String)
  deriving DecidableEq, Repr

/-- The three lists in which two programs of one shape agree. -/
inductive Aspect where
  | names
  | labels
  | relations
  deriving DecidableEq, Repr

/-- **Why a program is refused**, or cannot be built, changed or compared. -/
inductive Flaw (α : Type) where
  | noVariables
  | duplicateVariable (name : String)
  | duplicateConstraint (label : String)
  | unknownVariable (place : Place) (name : String)
  | unknownConstraint (label : String)
  | coefficientCount (place : Place) (expected found : Nat)
  | negativeLowerBound (name : String) (lower : α)
  | invertedBounds (name : String) (lower upper : α)
  | nonFinite (entry : Entry)
  | shapeMismatch (aspect : Aspect) (base other : List String)
  deriving DecidableEq, Repr

variable {α : Type} [Scalar α]

/-- What is wrong with the bounds of one variable. -/
def Variable.boundsFlaw? (v : Variable α) : Option (Flaw α) :=
  if !Scalar.isFinite v.lower then some (.nonFinite (.lowerBound v.name))
  else if v.lower < 0 then some (.negativeLowerBound v.name v.lower)
  else match v.upper with
    | none => none
    | some upper =>
      if !Scalar.isFinite upper then some (.nonFinite (.upperBound v.name))
      else if upper < v.lower then some (.invertedBounds v.name v.lower upper)
      else none

/-- The first flaw of a list of variables after those named in `seen`. -/
def variablesFlaw? (seen : List String) : List (Variable α) → Option (Flaw α)
  | [] => none
  | v :: rest =>
    if v.name ∈ seen then some (.duplicateVariable v.name)
    else v.boundsFlaw? <|> variablesFlaw? (v.name :: seen) rest

/-- The first flaw of a row of coefficients: their number, then the first that is not finite. -/
def coefficientsFlaw? (place : Place) (names : List String) (coefficients : List α) :
    Option (Flaw α) :=
  if coefficients.length ≠ names.length then
    some (.coefficientCount place names.length coefficients.length)
  else
    ((names.zip coefficients).find? (!Scalar.isFinite ·.2)).map fun named =>
      .nonFinite (.coefficient place named.1)

/-- The first flaw of a list of constraints after those labelled in `seen`. -/
def constraintsFlaw? (names : List String) (seen : List String) :
    List (Constraint α) → Option (Flaw α)
  | [] => none
  | c :: rest =>
    if c.label ∈ seen then some (.duplicateConstraint c.label)
    else
      coefficientsFlaw? (.constraint c.label) names c.coefficients <|>
      (if Scalar.isFinite c.limit then none else some (.nonFinite (.limit c.label))) <|>
      constraintsFlaw? names (c.label :: seen) rest

namespace Program

/-- **The first flaw of a program**, if it has one. -/
def flaw? (p : Program α) : Option (Flaw α) :=
  if p.vars.isEmpty then some .noVariables
  else
    variablesFlaw? [] p.vars <|>
    coefficientsFlaw? .objective p.names p.objective.coefficients <|>
    constraintsFlaw? p.names [] p.constraints

/-- The program if it is well formed, its first flaw otherwise. -/
def checked (p : Program α) : Except (Flaw α) (Program α) :=
  match p.flaw? with
  | none => .ok p
  | some flaw => .error flaw

/-- Where two programs first differ in shape: in the names of their variables, in the labels
of their constraints, or in the relations of these. -/
def mismatch? (p q : Program α) : Option (Flaw α) :=
  if p.names ≠ q.names then some (.shapeMismatch .names p.names q.names)
  else if p.labels ≠ q.labels then some (.shapeMismatch .labels p.labels q.labels)
  else if p.relations ≠ q.relations then
    some (.shapeMismatch .relations (p.relations.map (·.symbol)) (q.relations.map (·.symbol)))
  else none

end Program

end Allotment
