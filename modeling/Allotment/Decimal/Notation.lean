import Allotment.Decimal.Shortest

/-!
# How numbers are written

The text of a number in its fewest digits. A `Notation` holds the decisions that the digits
leave open: where positional writing ends and exponents begin, whether a whole number carries a
fraction, and how a tie between two shortest decimals is resolved.
-/

namespace Allotment.Decimal
set_option autoImplicit false

/-- **The decisions of a way to write numbers.** -/
structure Notation where
  tie : Tie
  /-- The powers of ten of the first digit that are written positionally; all if absent. -/
  positional : Option (Int × Int)
  /-- What follows a number that is written without a fraction. -/
  wholeSuffix : String
  deriving DecidableEq, Repr

namespace Notation

/-- Digits with a point after the first `point` of them, zeros filled in on either side. -/
def positionalText (n : Notation) (digits : List Char) (point : Int) : String :=
  let count : Int := digits.length
  if point ≤ 0 then
    "0." ++ String.ofList (List.replicate (-point).toNat '0') ++ String.ofList digits
  else if count ≤ point then
    String.ofList digits ++ String.ofList (List.replicate (point - count).toNat '0') ++
      n.wholeSuffix
  else
    String.ofList (digits.take point.toNat) ++ "." ++ String.ofList (digits.drop point.toNat)

/-- Digits with a point after the first, if there are more, and a signed exponent. -/
def exponentText (digits : List Char) (exponent : Int) : String :=
  let mantissa :=
    match digits with
    | [] => ""
    | [d] => String.singleton d
    | d :: rest => String.singleton d ++ "." ++ String.ofList rest
  let sign := if exponent < 0 then "-" else "+"
  mantissa ++ "e" ++ sign ++ toString exponent.natAbs

/-- The text of a decimal. -/
def decimalText (n : Notation) (d : Digits) : String :=
  if d.significand = 0 then "0" ++ n.wholeSuffix
  else
    let exponent := d.leadingExponent
    let positional :=
      match n.positional with
      | none => true
      | some (low, high) => decide (low ≤ exponent) && decide (exponent ≤ high)
    if positional then n.positionalText d.digits (exponent + 1)
    else exponentText d.digits exponent

/-- **The text of a binary64 value.** -/
def text (n : Notation) (x : Float) : String :=
  let exact := Exact.ofFloat x
  let sign := if exact.negative then "-" else ""
  match exact.magnitude with
  | .undefined => "NaN"
  | .infinite => sign ++ "inf"
  | .finite b => sign ++ n.decimalText (shortest n.tie b)

end Notation

/-- Numbers in a sentence are written positionally, whole ones without a point. -/
def sentence : Notation where
  tie := .up
  positional := none
  wholeSuffix := ""

end Allotment.Decimal
