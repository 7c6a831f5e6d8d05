/-!
# Fields of a line

A text set into a field of at least some width. Widths count code points, and what does not
fill its field is padded with blanks; in the middle, the odd blank goes to the right.
-/

namespace Allotment.Text
set_option autoImplicit false

/-- Where a text stands in its field. -/
inductive Alignment where
  | left
  | center
  | right
  deriving DecidableEq, Repr

/-- This many blanks. -/
def blanks (n : Nat) : String := String.ofList (List.replicate n ' ')

/-- **A text in a field of at least a width.** -/
def field (alignment : Alignment) (width : Nat) (text : String) : String :=
  let free := width - text.length
  match alignment with
  | .left => text ++ blanks free
  | .center => blanks (free / 2) ++ text ++ blanks (free - free / 2)
  | .right => blanks free ++ text

/-- The first characters of a text. -/
def cut (length : Nat) (text : String) : String := String.ofList (text.toList.take length)

end Allotment.Text
