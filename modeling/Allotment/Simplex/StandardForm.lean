import Allotment.Program
import Allotment.Simplex.Tableau

/-!
# Standard form

A program becomes a tableau in three steps. Every quantity is counted from its lower bound, so
that it starts at zero. Every constraint, and every upper bound as one constraint more, becomes
a `StandardRow` whose right-hand side is not negative; a row that would be negative is negated.
Each row then gets columns of its own after those of the variables: a slack for a maximum, a
surplus and an artificial for a minimum, an artificial for an equality. Slacks and surpluses
come first, artificials last, each kind in the order of the rows.

`StandardForm.point` goes back from a tableau to quantities.
-/

namespace Allotment.Simplex
set_option autoImplicit false

/-- A constraint on the shifted quantities with a right-hand side that is not negative. -/
structure StandardRow (α : Type) where
  coefficients : List α
  relation : Relation
  rhs : α
  /-- Whether the row was negated to make its right-hand side so. -/
  negated : Bool
  deriving DecidableEq, Repr

/-- The columns that a row has to itself. -/
inductive Slot where
  | slack (column : Nat)
  | surplus (column artificial : Nat)
  | artificial (column : Nat)
  deriving DecidableEq, Repr

/-- A program over quantities that start at zero: the lower bounds they were shifted by, the
rows, and what a unit of each quantity gains when the objective is maximized. -/
structure StandardForm (α : Type) where
  lower : List α
  rows : List (StandardRow α)
  gains : List α
  deriving DecidableEq, Repr

variable {α : Type} [Scalar α]

namespace StandardRow

/-- The row with a right-hand side that is not negative. -/
def normalize (coefficients : List α) (relation : Relation) (rhs : α) : StandardRow α :=
  if rhs < 0 then
    { coefficients := coefficients.map (-·), relation := relation.flip, rhs := -rhs
      negated := true }
  else { coefficients, relation, rhs, negated := false }

/-- Whether the row has a slack or surplus column. -/
def hasSlack (r : StandardRow α) : Bool := r.relation != .equal

/-- Whether the row has an artificial column. -/
def hasArtificial (r : StandardRow α) : Bool := r.relation != .atMost

end StandardRow

namespace Slot

/-- The column that holds one in this row alone and starts in the basis. -/
def unit : Slot → Nat
  | slack s => s
  | surplus _ a => a
  | artificial a => a

/-- The entry of the row in one of the columns after those of the variables. -/
def entry (slot : Slot) (column : Nat) : α :=
  match slot with
  | slack s => if column = s then 1 else 0
  | surplus s a => if column = s then -1 else if column = a then 1 else 0
  | artificial a => if column = a then 1 else 0

/-- The columns of the rows, given the next free slack and the next free artificial column. -/
def assign (slack artificial : Nat) : List Relation → List Slot
  | [] => []
  | .atMost :: rest => .slack slack :: assign (slack + 1) artificial rest
  | .atLeast :: rest => .surplus slack artificial :: assign (slack + 1) (artificial + 1) rest
  | .equal :: rest => .artificial artificial :: assign slack (artificial + 1) rest

end Slot

namespace StandardForm

/-- The row that holds one quantity to at most its range. -/
def boundRow (count index : Nat) (range : α) : StandardRow α :=
  .normalize ((List.range count).map fun j => if j = index then 1 else 0) .atMost range

/-- **The standard form of a program**: its constraints in order, then its upper bounds. -/
def ofProgram (p : Program α) : StandardForm α :=
  let lower := p.vars.map (·.lower)
  let constraints := p.constraints.map fun c =>
    StandardRow.normalize c.coefficients c.relation (c.limit - dot c.coefficients lower)
  let bounds := p.vars.zipIdx.filterMap fun (v, j) =>
    v.upper.map fun upper => boundRow p.vars.length j (upper - v.lower)
  { lower
    rows := constraints ++ bounds
    gains := p.objective.coefficients.map (p.objective.sense.sign * ·) }

/-- How many columns belong to variables. -/
def variableCount (f : StandardForm α) : Nat := f.lower.length

/-- How many columns are slacks or surpluses. -/
def slackCount (f : StandardForm α) : Nat := f.rows.countP (·.hasSlack)

/-- How many columns are artificial. -/
def artificialCount (f : StandardForm α) : Nat := f.rows.countP (·.hasArtificial)

/-- The first artificial column. -/
def artificialStart (f : StandardForm α) : Nat := f.variableCount + f.slackCount

/-- How many columns there are. -/
def columnCount (f : StandardForm α) : Nat := f.artificialStart + f.artificialCount

/-- The columns of each row. -/
def slots (f : StandardForm α) : List Slot :=
  Slot.assign f.variableCount f.artificialStart (f.rows.map (·.relation))

/-- The columns after those of the variables. -/
def auxiliaryColumns (f : StandardForm α) : List Nat :=
  List.range' f.variableCount (f.slackCount + f.artificialCount)

/-- The first equation of a row, solved for its own unit column. -/
def equation (f : StandardForm α) (r : StandardRow α) (slot : Slot) : Row α where
  entries := r.coefficients ++ f.auxiliaryColumns.map slot.entry
  rhs := r.rhs
  basic := slot.unit

/-- The objective line before any pivot. -/
def goal (f : StandardForm α) : Line α where
  entries := f.gains ++ f.auxiliaryColumns.map fun _ => 0
  rhs := 0

/-- **The first tableau.** -/
def tableau (f : StandardForm α) : Tableau α where
  rows := List.zipWith f.equation f.rows f.slots
  goal := f.goal

/-- Shifted quantities smaller than this are taken to be zero. -/
def snapWidth : α := 1e-12

/-- A shifted quantity, with dust from rounding removed. -/
def snap (x : α) : α := if Scalar.abs x < snapWidth then 0 else x

/-- **The current point of a tableau**, in the quantities of the program: a basic variable
stands at the right-hand side of its row above its lower bound, any other at its lower bound. -/
def point (f : StandardForm α) (t : Tableau α) : List α :=
  t.rows.foldl
    (fun values r =>
      if r.basic < f.variableCount then values.modify r.basic (· + snap r.rhs) else values)
    f.lower

end StandardForm

end Allotment.Simplex
