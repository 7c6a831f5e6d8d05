import Mathlib
import Allotment.Simplex.TwoPhase

/-!
# Solving with every index checked

The lists of the simplex method are read and changed at columns and rows that are found while it runs.
Here the method is written once more in such a way that it cannot pass over a wrong one: reading or
writing past the end of a list, joining lists of different lengths, and arriving at a tableau that is not
`Rectangular` each end the computation with nothing. What comes out in the end is therefore what
`Simplex.solve` computes on lists that are long enough throughout.

Nothing here is meant to be run. `Allotment.Proofs.Simplex.InRange` says when the outcome is not nothing.
-/

namespace Allotment.Simplex
set_option autoImplicit false

variable {α : Type} [Scalar α]

/-- **Rectangular tableaus**: every row and the objective line have one entry per column, and every row
is solved for one of the columns. -/
def Tableau.Rectangular (width : ℕ) (t : Tableau α) : Prop :=
  (∀ r ∈ t.rows, r.entries.length = width) ∧ t.goal.entries.length = width ∧
    ∀ r ∈ t.rows, r.basic < width

instance (width : ℕ) (t : Tableau α) : Decidable (t.Rectangular width) :=
  inferInstanceAs (Decidable (_ ∧ _ ∧ _))

namespace Strict

/-- A list with the entry at an index replaced, where there is one. -/
def set {β : Type} (xs : List β) (index : ℕ) (x : β) : Option (List β) :=
  if index < xs.length then some (xs.set index x) else none

/-- A list, where it is as long as it has to be. -/
def ofLength {β : Type} (length : ℕ) (xs : List β) : Option (List β) :=
  if xs.length = length then some xs else none

/-- A tableau, where it is rectangular. -/
def rectangular (width : ℕ) (t : Tableau α) : Option (Tableau α) :=
  if t.Rectangular width then some t else none

/-! ## Lines and pivots -/

/-- The sum of two lines. -/
def add (l m : Line α) : Option (Line α) := do
  let _ ← ofLength l.entries.length m.entries
  return l.add m

/-- The line with a column cleared by a line whose entry there is one. -/
def clear (l : Line α) (column : ℕ) (unit : Line α) : Option (Line α) := do
  let factor ← l.entries[column]?
  if factor == 0 then return l
  let _ ← ofLength l.entries.length unit.entries
  return l.subtract factor unit

/-- A row after a pivot on another one. -/
def clearRow (other : Row α) (column : ℕ) (unit : Line α) : Option (Row α) := do
  let line ← clear other.toLine column unit
  return { line with basic := other.basic }

/-- The pivot. -/
def pivot (width : ℕ) (t : Tableau α) (row column : ℕ) : Option (Tableau α) := do
  let r ← t.rows[row]?
  let divisor ← r.entries[column]?
  let unit := r.toLine.divide divisor
  let rows ← t.rows.zipIdx.mapM fun (other, i) =>
    if i = row then some { unit with basic := column } else clearRow other column unit
  let goal ← clear t.goal column unit
  rectangular width { rows, goal }

/-! ## Runs of pivots -/

/-- The entering column. -/
def entering (t : Tableau α) (tolerance : α) (columns : ℕ) (cautious : Bool) :
    Option (Option ℕ) := do
  let gains ← (List.range columns).mapM (t.goal.entries[·]?)
  return if cautious then first? tolerance gains else steepest? tolerance gains

/-- The candidate that a row is, where it limits the column. -/
def candidate (tolerance : α) (column : ℕ) (r : Row α) (i : ℕ) :
    Option (Option (Candidate α)) := do
  let entry ← r.entries[column]?
  return if entry ≤ tolerance then none
    else some { ratio := positivePart r.rhs / entry, row := i, basic := r.basic }

/-- The leaving row. -/
def leaving (t : Tableau α) (tolerance : α) (column : ℕ) : Option (Option ℕ) := do
  let candidates ← t.rows.zipIdx.mapM fun (r, i) => candidate tolerance column r i
  return ((candidates.filterMap id).foldl (Candidate.choose tolerance) none).map (·.row)

/-- What is due at a tableau. -/
def step (t : Tableau α) (tolerance : α) (columns : ℕ) (cautious : Bool) : Option Step := do
  match ← entering t tolerance columns cautious with
  | none => return .optimal
  | some column =>
    match ← leaving t tolerance column with
    | none => return .unbounded
    | some row => return .pivot row column

/-- The run of pivots from a tableau. -/
def runFrom (tolerance : α) (columns width : ℕ) :
    (budget streak pivots : ℕ) → Tableau α → Option (Run α)
  | budget, streak, pivots, t => do
    match ← step t tolerance columns (decide (degenerateStreakLimit ≤ streak)) with
    | .optimal => return { stop := .optimal, tableau := t, pivots }
    | .unbounded => return { stop := .unbounded, tableau := t, pivots }
    | .pivot row column =>
      match budget with
      | 0 => return { stop := .limit, tableau := t, pivots }
      | budget + 1 => do
        let r ← t.rows[row]?
        let next ← pivot width t row column
        runFrom tolerance columns width budget (if r.rhs ≤ tolerance then streak + 1 else 0)
          (pivots + 1) next

/-! ## From a program to a tableau and back -/

variable (f : StandardForm α)

/-- The first equation of a row: its coefficients, and the entries of its slot put into zeros. -/
def equation (r : StandardRow α) (slot : Slot) : Option (Row α) := do
  let coefficients ← ofLength f.variableCount r.coefficients
  let blank := coefficients ++ List.replicate (f.slackCount + f.artificialCount) 0
  let entries ← match slot with
    | .slack s => set blank s 1
    | .surplus s a => do
      let entries ← set blank s (-1)
      set entries a 1
    | .artificial a => set blank a 1
  return { entries, rhs := r.rhs, basic := slot.unit }

/-- The first tableau. -/
def tableau : Option (Tableau α) := do
  let slots ← ofLength f.rows.length f.slots
  let rows ← (f.rows.zip slots).mapM fun (r, slot) => equation f r slot
  let _ ← ofLength f.variableCount f.gains
  rectangular f.columnCount { rows, goal := f.goal }

/-- The current point of a tableau. -/
def point (t : Tableau α) : Option (List α) :=
  t.rows.foldlM
    (fun values r =>
      if r.basic < f.variableCount then do
        let value ← values[r.basic]?
        set values r.basic (value + StandardForm.snap r.rhs)
      else some values)
    f.lower

/-! ## The two phases -/

/-- The objective line of the first phase. -/
def auxiliaryGoal (t : Tableau α) : Option (Line α) :=
  let line : Line α :=
    { entries := (List.range f.columnCount).map fun j => if j < f.artificialStart then 0 else -1
      rhs := 0 }
  (t.rows.filter fun r => decide (f.artificialStart ≤ r.basic)).foldlM
    (fun goal r => add goal r.toLine) line

/-- A row solved for a column that is not artificial, where it has an entry in one. -/
def driveOutRow (tolerance : α) (t : Tableau α) (row : ℕ) : Option (Tableau α) := do
  let r ← t.rows[row]?
  if r.basic < f.artificialStart then return t
  let entries ← (List.range f.artificialStart).mapM (r.entries[·]?)
  match entries.findIdx? fun a => decide (tolerance < Scalar.abs a) with
  | none => return t
  | some column => pivot f.columnCount t row column

/-- The artificials pivoted out of the basis, row by row. -/
def driveOut (tolerance : α) (t : Tableau α) : Option (Tableau α) :=
  (List.range t.rows.length).foldlM (driveOutRow f tolerance) t

/-- The tableau with the objective of the program in place. -/
def restoreGoal (t : Tableau α) : Option (Tableau α) := do
  let goal ← t.rows.foldlM (fun goal r => clear goal r.basic r.toLine) f.goal
  rectangular f.columnCount { t with goal }

/-- The first phase. -/
def firstPhase (s : SolverSettings α) : Option (Start α) := do
  let t ← tableau f
  let goal ← auxiliaryGoal f t
  let start ← rectangular f.columnCount { t with goal }
  let run ← runFrom s.pivotTolerance f.columnCount f.columnCount s.maxPivots 0 0 start
  match run.stop with
  | .limit => return .limit run.pivots
  | .unbounded => return .infeasible run.tableau run.pivots
  | .optimal =>
    if s.bindingTolerance < f.residual run.tableau then
      return .infeasible run.tableau run.pivots
    let driven ← driveOut f s.pivotTolerance run.tableau
    let restored ← restoreGoal f driven
    return .feasible restored run.pivots

/-- Where the second phase starts. -/
def start (s : SolverSettings α) : Option (Start α) :=
  if 0 < f.artificialCount then firstPhase f s else do
    let t ← tableau f
    return .feasible t 0

/-- The dual values at a last tableau. -/
def duals (p : Program α) (t : Tableau α) : Option (List α) :=
  p.constraints.zipIdx.mapM fun (c, k) => do
    let row ← f.rows[k]?
    let slot ← f.slots[k]?
    let entry ← t.goal.entries[slot.unit]?
    let gain := if row.negated then - -entry else -entry
    return p.objective.sense.sign * gain * c.relation.relaxationSign

/-- The reduced costs at a last tableau. -/
def reducedCosts (p : Program α) (t : Tableau α) : Option (List α) :=
  (f.basicFlags t).zipIdx.mapM fun (basic, j) =>
    if basic then some 0 else do
      let entry ← t.goal.entries[j]?
      return p.objective.sense.sign * entry

/-- The optimal solution that a last tableau stands for. -/
def solution (p : Program α) (s : SolverSettings α) (t : Tableau α) (pivots : ℕ) :
    Option (Solution α) := do
  let values ← point f t
  let duals ← duals f p t
  let reducedCosts ← reducedCosts f p t
  return { f.solution p s t pivots with
    values
    objective := some (p.valueAt values)
    usage := p.usage values s.bindingTolerance
    duals
    reducedCosts }

end Strict

open Strict in
/-- **Solving a program with every index checked.** -/
def solveStrictly (s : SolverSettings α) (p : Program α) : Option (Solution α) := do
  let f := StandardForm.ofProgram p
  match ← start f s with
  | .limit pivots => return .pivotLimit p pivots
  | .infeasible t pivots => do
    let values ← point f t
    return .infeasible p (p.violations values s.bindingTolerance) pivots
  | .feasible t pivots =>
    let run ← runFrom s.pivotTolerance f.artificialStart f.columnCount (s.maxPivots - pivots) 0
      pivots t
    match run.stop with
    | .limit => return .pivotLimit p run.pivots
    | .unbounded => return .unbounded p run.pivots
    | .optimal => solution f p s run.tableau run.pivots

end Allotment.Simplex
