import Allotment.Scalar

/-!
# Tableaus

A tableau is a system of linear equations, one `Row` per equation, in which each row is solved
for one basic column, and beside it one further `Line`: the objective, written in the columns
that are not basic. A pivot changes which column a row is solved for and leaves the solutions
of the system as they are.

Nothing here knows how a program becomes a tableau; that is `Allotment.Simplex.StandardForm`.
-/

namespace Allotment.Simplex
set_option autoImplicit false

/-- One linear expression with the value it is to have. -/
structure Line (α : Type) where
  entries : List α
  rhs : α
  deriving DecidableEq, Repr

/-- An equation solved for its basic column. -/
structure Row (α : Type) extends Line α where
  basic : Nat
  deriving DecidableEq, Repr

/-- **A system of equations, each solved for a basic column, and the objective line.** The
entry of the objective line in a column is what a unit of that column gains; its right-hand
side is the objective of the current point, negated. -/
structure Tableau (α : Type) where
  rows : List (Row α)
  goal : Line α
  deriving DecidableEq, Repr

variable {α : Type} [Scalar α]

namespace Line

/-- The entry in a column. -/
def entry (l : Line α) (column : Nat) : α := l.entries.getD column 0

/-- The line divided by a number. -/
def divide (l : Line α) (divisor : α) : Line α where
  entries := l.entries.map (· / divisor)
  rhs := l.rhs / divisor

/-- The sum of two lines. -/
def add (l m : Line α) : Line α where
  entries := List.zipWith (· + ·) l.entries m.entries
  rhs := l.rhs + m.rhs

/-- The line less a multiple of another. -/
def subtract (l : Line α) (factor : α) (m : Line α) : Line α where
  entries := List.zipWith (fun a b => a - factor * b) l.entries m.entries
  rhs := l.rhs - factor * m.rhs

/-- The line with a column cleared by a line whose entry there is one. A line that is clear
already stays as it is. -/
def clear (l : Line α) (column : Nat) (unit : Line α) : Line α :=
  let factor := l.entry column
  if factor == 0 then l else l.subtract factor unit

end Line

namespace Tableau

/-- **The pivot**: the row is divided by its entry in the column, and the column cleared in
every other line. -/
def pivot (t : Tableau α) (row column : Nat) : Tableau α :=
  match t.rows[row]? with
  | none => t
  | some r =>
    let unit := r.toLine.divide (r.entry column)
    { rows := t.rows.mapIdx fun i other =>
        if i = row then { unit with basic := column }
        else { other.toLine.clear column unit with basic := other.basic }
      goal := t.goal.clear column unit }

/-- The objective line with the basic column of every row cleared, row by row. -/
def priceOut (rows : List (Row α)) (goal : Line α) : Line α :=
  rows.foldl (fun g r => g.clear r.basic r.toLine) goal

end Tableau

end Allotment.Simplex
