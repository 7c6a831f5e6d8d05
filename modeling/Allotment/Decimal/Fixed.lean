import Allotment.Decimal.Binary

/-!
# A fixed number of places

The text of a number with a set number of places after the point. The exact binary value is
rounded, a half to the even neighbour. The sign of a negative number stays when it rounds to
zero, and that of negative zero stays too.
-/

namespace Allotment.Decimal
set_option autoImplicit false

/-- The whole number nearest to a quotient, a half to the even neighbour. -/
def roundQuotient (numerator denominator : Nat) : Nat :=
  let below := numerator / denominator
  let twice := 2 * (numerator % denominator)
  if denominator < twice then below + 1
  else if twice = denominator then below + below % 2
  else below

/-- How many units of the last place the value comes to. -/
def Binary.unitsAt (b : Binary) (places : Nat) : Nat :=
  roundQuotient (b.significand * Nat.pow 10 places * Nat.pow 2 b.exponent.toNat)
    (Nat.pow 2 (-b.exponent).toNat)

/-- A count of units of the last place, with the point put in. -/
def pointText (places units : Nat) : String :=
  let whole := toString (units / Nat.pow 10 places)
  if places = 0 then whole
  else
    let part := Nat.toDigits 10 (units % Nat.pow 10 places)
    whole ++ "." ++ String.ofList (List.replicate (places - part.length) '0' ++ part)

/-- **A number with a set number of places.** Where `signed`, a number that is not negative gets
a plus sign; what is undefined has no sign. -/
def fixed (places : Nat) (x : Float) (signed : Bool) : String :=
  let exact := Exact.ofFloat x
  let sign := if exact.negative then "-" else if signed then "+" else ""
  match exact.magnitude with
  | .undefined => "NaN"
  | .infinite => sign ++ "inf"
  | .finite b => sign ++ pointText places (b.unitsAt places)

end Allotment.Decimal
