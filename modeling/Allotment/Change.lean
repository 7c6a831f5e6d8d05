import Allotment.Program.Flaw

/-!
# Changes of a program

A change replaces, scales or shifts one kind of number of a program: a coefficient of the
objective or of a constraint, a limit, an upper bound. `Program.changed` applies a list of
changes in order. A name that the program does not know is found at once; whether the numbers
still make a well-formed program is asked once, of the result.
-/

namespace Allotment
set_option autoImplicit false

/-- **One change of a program.** -/
inductive Change (α : Type) where
  | objectiveCoefficient (name : String) (value : α)
  | scaleObjectiveCoefficient (name : String) (factor : α)
  | coefficient (label name : String) (value : α)
  | scaleConstraint (label : String) (factor : α)
  | limit (label : String) (value : α)
  | scaleLimit (label : String) (factor : α)
  | shiftLimit (label : String) (delta : α)
  | upperBound (name : String) (value : Option α)
  deriving DecidableEq, Repr

variable {α : Type} [Scalar α]

namespace Program

/-- The place of a variable that a change names. -/
def variableAt (p : Program α) (name : String) : Except (Flaw α) Nat :=
  match p.variableIndex? name with
  | some j => .ok j
  | none => .error (.unknownVariable .change name)

/-- The place of a constraint that a change names. -/
def constraintAt (p : Program α) (label : String) : Except (Flaw α) Nat :=
  match p.constraintIndex? label with
  | some i => .ok i
  | none => .error (.unknownConstraint label)

/-- The program with one coefficient of the objective changed. -/
def modifyGain (p : Program α) (j : Nat) (f : α → α) : Program α :=
  { p with
    objective := { p.objective with coefficients := p.objective.coefficients.modify j f } }

/-- The program with one constraint changed. -/
def modifyConstraint (p : Program α) (i : Nat) (f : Constraint α → Constraint α) : Program α :=
  { p with constraints := p.constraints.modify i f }

/-- The program with one limit changed. -/
def modifyLimit (p : Program α) (i : Nat) (f : α → α) : Program α :=
  p.modifyConstraint i fun c => { c with limit := f c.limit }

/-- The program with one variable changed. -/
def modifyVariable (p : Program α) (j : Nat) (f : Variable α → Variable α) : Program α :=
  { p with vars := p.vars.modify j f }

end Program

namespace Change

/-- **The effect of one change**, or the name that it does not find; of a variable and a
constraint the variable is looked for first. -/
def apply (p : Program α) : Change α → Except (Flaw α) (Program α)
  | objectiveCoefficient name value => do
    let j ← p.variableAt name
    return p.modifyGain j fun _ => value
  | scaleObjectiveCoefficient name factor => do
    let j ← p.variableAt name
    return p.modifyGain j (· * factor)
  | coefficient label name value => do
    let j ← p.variableAt name
    let i ← p.constraintAt label
    return p.modifyConstraint i fun c =>
      { c with coefficients := c.coefficients.modify j fun _ => value }
  | scaleConstraint label factor => do
    let i ← p.constraintAt label
    return p.modifyConstraint i fun c =>
      { c with coefficients := c.coefficients.map (· * factor) }
  | limit label value => do
    let i ← p.constraintAt label
    return p.modifyLimit i fun _ => value
  | scaleLimit label factor => do
    let i ← p.constraintAt label
    return p.modifyLimit i (· * factor)
  | shiftLimit label delta => do
    let i ← p.constraintAt label
    return p.modifyLimit i (· + delta)
  | upperBound name value => do
    let j ← p.variableAt name
    return p.modifyVariable j fun v => { v with upper := value }

end Change

namespace Program

/-- The changes applied in order, without asking whether the result is well formed. -/
def applyAll (p : Program α) (changes : List (Change α)) : Except (Flaw α) (Program α) :=
  changes.foldlM Change.apply p

/-- **The changed program**, if every name is known and the result is well formed. -/
def changed (p : Program α) (changes : List (Change α)) : Except (Flaw α) (Program α) := do
  let q ← p.applyAll changes
  q.checked

end Program

end Allotment
