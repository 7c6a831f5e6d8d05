import Allotment.Simplex.Tableau

/-!
# Pivoting towards an optimum

Which column enters the basis, which row it is solved for, and the run that repeats the two.
The column with the greatest gain enters, but after fifty pivots on end that did not move the
point the first column with a gain does, until the point moves again. The row is that of the
least ratio of right-hand side to entry, ties going to the row with the lowest basic column.

A run ends with no column that gains, with a column that no row limits, or with no pivots left;
the first two are noticed before the third.
-/

namespace Allotment.Simplex
set_option autoImplicit false

/-- How a run of pivots ended. -/
inductive Stop where
  /-- No column gains. -/
  | optimal
  /-- Some column gains and no row limits it. -/
  | unbounded
  /-- A pivot was due and none was left. -/
  | limit
  deriving DecidableEq, Repr

/-- A run that has ended: why, where, and after how many pivots in all. -/
structure Run (α : Type) where
  stop : Stop
  tableau : Tableau α
  pivots : Nat
  deriving DecidableEq, Repr

/-- A row that may leave the basis: its ratio, its place and its basic column. -/
structure Candidate (α : Type) where
  ratio : α
  row : Nat
  basic : Nat
  deriving DecidableEq, Repr

/-- What is due at a tableau. -/
inductive Step where
  | optimal
  | unbounded
  | pivot (row column : Nat)
  deriving DecidableEq, Repr

/-- How many pivots on end may leave the point where it is before the cautious rule holds. -/
def degenerateStreakLimit : Nat := 50

variable {α : Type} [Scalar α]

/-- The first column with the greatest gain above the tolerance. -/
def steepest? (tolerance : α) (gains : List α) : Option Nat :=
  (gains.zipIdx.foldl
    (fun best (gain, column) => if best.1 < gain then (gain, some column) else best)
    (tolerance, none)).2

/-- The first column with a gain above the tolerance. -/
def first? (tolerance : α) (gains : List α) : Option Nat :=
  gains.findIdx? fun gain => decide (tolerance < gain)

namespace Candidate

/-- Whether a row is preferred to the best one so far: by a lesser ratio, or, within the
tolerance of it, by a lower basic column. -/
def beats (tolerance : α) (c best : Candidate α) : Bool :=
  decide (c.ratio < best.ratio - tolerance) ||
    (decide (Scalar.abs (c.ratio - best.ratio) ≤ tolerance) && decide (c.basic < best.basic))

/-- The better of the best candidate so far and a new one. -/
def choose (tolerance : α) (best : Option (Candidate α)) (c : Candidate α) :
    Option (Candidate α) :=
  match best with
  | none => some c
  | some b => if c.beats tolerance b then some c else some b

end Candidate

namespace Tableau

/-- **The entering column** among the first `columns`, by the greatest gain or, when `cautious`,
by the least index. -/
def entering? (t : Tableau α) (tolerance : α) (columns : Nat) (cautious : Bool) : Option Nat :=
  let gains := t.goal.entries.take columns
  if cautious then first? tolerance gains else steepest? tolerance gains

/-- The rows that limit a column: those with an entry above the tolerance, with their ratios. -/
def candidates (t : Tableau α) (tolerance : α) (column : Nat) : List (Candidate α) :=
  t.rows.zipIdx.filterMap fun (r, i) =>
    let entry := r.entry column
    if entry ≤ tolerance then none
    else some { ratio := positivePart r.rhs / entry, row := i, basic := r.basic }

/-- **The leaving row**: of the candidates in order, the one that no later one beats. -/
def leaving? (t : Tableau α) (tolerance : α) (column : Nat) : Option Nat :=
  ((t.candidates tolerance column).foldl (Candidate.choose tolerance) none).map (·.row)

/-- What is due at a tableau. -/
def step (t : Tableau α) (tolerance : α) (columns : Nat) (cautious : Bool) : Step :=
  match t.entering? tolerance columns cautious with
  | none => .optimal
  | some column =>
    match t.leaving? tolerance column with
    | none => .unbounded
    | some row => .pivot row column

/-- Whether a pivot on a row leaves the point where it is. -/
def degenerate (t : Tableau α) (tolerance : α) (row : Nat) : Bool :=
  match t.rows[row]? with
  | none => true
  | some r => decide (r.rhs ≤ tolerance)

/-- The run of pivots from a tableau with `budget` pivots left, after `streak` degenerate ones
on end and `pivots` in all. -/
def runFrom (tolerance : α) (columns : Nat) :
    (budget streak pivots : Nat) → Tableau α → Run α
  | budget, streak, pivots, t =>
    match t.step tolerance columns (decide (degenerateStreakLimit ≤ streak)) with
    | .optimal => { stop := .optimal, tableau := t, pivots }
    | .unbounded => { stop := .unbounded, tableau := t, pivots }
    | .pivot row column =>
      match budget with
      | 0 => { stop := .limit, tableau := t, pivots }
      | budget + 1 =>
        runFrom tolerance columns budget (if t.degenerate tolerance row then streak + 1 else 0)
          (pivots + 1) (t.pivot row column)

/-- **The run of pivots** on the first `columns` columns under a cap on all pivots, `pivots` of
which are spent. -/
def run (t : Tableau α) (tolerance : α) (columns cap pivots : Nat) : Run α :=
  runFrom tolerance columns (cap - pivots) 0 pivots t

end Tableau

end Allotment.Simplex
