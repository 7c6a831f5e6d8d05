import Allotment.Settings
import Allotment.Simplex.Pivoting
import Allotment.Simplex.StandardForm
import Allotment.Solution

/-!
# The two phases

The first phase looks for a tableau whose point satisfies the constraints: it maximizes the
negated sum of the artificial columns. When what is left of that sum is no more than the
binding tolerance, artificials that are still basic are pivoted out where a row allows it, and
the objective of the program comes back. The second phase maximizes that objective and never
lets an artificial enter again. A program whose rows are all maxima needs no first phase.

`solve` runs both and reads the solution off the last tableau.
-/

namespace Allotment.Simplex
set_option autoImplicit false

/-- How the first phase ended, and after how many pivots. -/
inductive Start (α : Type) where
  | feasible (tableau : Tableau α) (pivots : Nat)
  | infeasible (tableau : Tableau α) (pivots : Nat)
  | limit (pivots : Nat)
  deriving DecidableEq, Repr

variable {α : Type} [Scalar α]

namespace StandardForm

/-- The objective line of the first phase: minus one in every artificial column, with the rows
of basic artificials added so that it is zero in the basic columns. -/
def auxiliaryGoal (f : StandardForm α) (t : Tableau α) : Line α :=
  let line : Line α :=
    { entries := (List.range f.columnCount).map fun j => if j < f.artificialStart then 0 else -1
      rhs := 0 }
  (t.rows.filter fun r => decide (f.artificialStart ≤ r.basic)).foldl
    (fun goal r => goal.add r.toLine) line

/-- What the basic artificials of a tableau add up to. -/
def residual (f : StandardForm α) (t : Tableau α) : α :=
  sum ((t.rows.filter fun r => decide (f.artificialStart ≤ r.basic)).map (·.rhs))

/-- A row whose basic column is artificial is solved for the first other column in which it has
an entry beyond the tolerance; a row without one is redundant and stays. -/
def driveOutRow (f : StandardForm α) (tolerance : α) (t : Tableau α) (row : Nat) : Tableau α :=
  match t.rows[row]? with
  | none => t
  | some r =>
    if r.basic < f.artificialStart then t
    else
      match (r.entries.take f.artificialStart).findIdx?
          fun a => decide (tolerance < Scalar.abs a) with
      | none => t
      | some column => t.pivot row column

/-- The artificials pivoted out of the basis, row by row. -/
def driveOut (f : StandardForm α) (tolerance : α) (t : Tableau α) : Tableau α :=
  (List.range t.rows.length).foldl (f.driveOutRow tolerance) t

/-- The tableau with the objective of the program in place, written in the columns that are
not basic. -/
def restoreGoal (f : StandardForm α) (t : Tableau α) : Tableau α :=
  { t with goal := Tableau.priceOut t.rows f.goal }

/-- **The first phase**, from the first tableau. -/
def firstPhase (f : StandardForm α) (s : SolverSettings α) : Start α :=
  let t := f.tableau
  let start := { t with goal := f.auxiliaryGoal t }
  let run := start.run s.pivotTolerance f.columnCount s.maxPivots 0
  match run.stop with
  | .limit => .limit run.pivots
  | .unbounded => .infeasible run.tableau run.pivots
  | .optimal =>
    if s.bindingTolerance < f.residual run.tableau then .infeasible run.tableau run.pivots
    else
      .feasible (f.restoreGoal (f.driveOut s.pivotTolerance run.tableau)) run.pivots

/-- Where the second phase starts: after the first one if there are artificials, and at the
first tableau if there are none. -/
def start (f : StandardForm α) (s : SolverSettings α) : Start α :=
  if 0 < f.artificialCount then f.firstPhase s else .feasible f.tableau 0

/-- **The second phase**: the objective of the program maximized without artificials. -/
def secondPhase (f : StandardForm α) (s : SolverSettings α) (t : Tableau α) (pivots : Nat) :
    Run α :=
  t.run s.pivotTolerance f.artificialStart s.maxPivots pivots

/-- The dual values at a last tableau, one per constraint. That of a row is the entry of the
objective line in its unit column, negated; negating the row negates it again, and the sense
and the relation turn it into the gain per unit of relaxation. -/
def duals (f : StandardForm α) (p : Program α) (t : Tableau α) : List α :=
  List.zipWith
    (fun c (row, slot) =>
      let gain := -(t.goal.entry (Slot.unit slot))
      let gain := if row.negated then -gain else gain
      p.objective.sense.sign * gain * c.relation.relaxationSign)
    p.constraints (f.rows.zip f.slots)

/-- Which variables are basic in a tableau. -/
def basicFlags (f : StandardForm α) (t : Tableau α) : List Bool :=
  (List.range f.variableCount).map fun j => t.rows.any (·.basic == j)

/-- The reduced cost of each variable at a last tableau; zero for a basic one. -/
def reducedCosts (f : StandardForm α) (p : Program α) (t : Tableau α) : List α :=
  (f.basicFlags t).zipIdx.map fun (basic, j) =>
    if basic then 0 else p.objective.sense.sign * t.goal.entry j

/-- The optimal solution that a last tableau stands for. -/
def solution (f : StandardForm α) (p : Program α) (s : SolverSettings α) (t : Tableau α)
    (pivots : Nat) : Solution α :=
  let values := f.point t
  { status := .optimal
    names := p.names
    values
    objective := some (p.valueAt values)
    usage := p.usage values s.bindingTolerance
    violations := []
    pivots
    duals := f.duals p t
    reducedCosts := f.reducedCosts p t
    basic := f.basicFlags t }

end StandardForm

/-- **Solving a program.** -/
def solve (s : SolverSettings α) (p : Program α) : Solution α :=
  let f := StandardForm.ofProgram p
  match f.start s with
  | .limit pivots => .pivotLimit p pivots
  | .infeasible t pivots => .infeasible p (p.violations (f.point t) s.bindingTolerance) pivots
  | .feasible t pivots =>
    let run := f.secondPhase s t pivots
    match run.stop with
    | .limit => .pivotLimit p run.pivots
    | .unbounded => .unbounded p run.pivots
    | .optimal => f.solution p s run.tableau run.pivots

end Allotment.Simplex
