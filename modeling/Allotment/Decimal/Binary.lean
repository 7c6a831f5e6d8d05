/-!
# Binary64 values as exact numbers

A finite binary64 value is a whole number times a power of two. `Exact.ofFloat` takes a value
apart into its sign and that product, which is all that the decimal texts of
`Allotment.Decimal.Shortest` and `Allotment.Decimal.Fixed` are computed from.
-/

namespace Allotment.Decimal
set_option autoImplicit false

/-- **The number `significand * 2 ^ exponent`** as a binary64 value. `narrow` says that the gap
to the next smaller value is half of the gap to the next greater one. -/
structure Binary where
  significand : Nat
  exponent : Int
  narrow : Bool
  deriving DecidableEq, Repr

/-- What a binary64 value is, apart from its sign. -/
inductive Magnitude where
  | undefined
  | infinite
  | finite (value : Binary)
  deriving DecidableEq, Repr

/-- A binary64 value taken apart. -/
structure Exact where
  negative : Bool
  magnitude : Magnitude
  deriving DecidableEq, Repr

/-- **A binary64 value taken apart** by its bit pattern: one bit of sign, eleven of exponent,
fifty-two of significand. -/
def Exact.ofFloat (x : Float) : Exact :=
  let bits : Nat := x.toBits.toNat
  let fraction : Nat := bits % Nat.pow 2 52
  let exponent : Nat := bits / Nat.pow 2 52 % Nat.pow 2 11
  let magnitude : Magnitude :=
    if exponent = 2047 then (if fraction = 0 then .infinite else .undefined)
    else if exponent = 0 then
      .finite { significand := fraction, exponent := -1074, narrow := false }
    else
      .finite
        { significand := Nat.pow 2 52 + fraction
          exponent := (exponent : Int) - 1075
          narrow := fraction = 0 && exponent > 1 }
  { negative := Nat.pow 2 63 ≤ bits, magnitude }

namespace Binary

/-- What one unit of the last decimal place `10 ^ place`, and what a quarter of a unit of the
last binary place, come to on a common scale. -/
def units (b : Binary) (place : Int) : Nat × Nat :=
  let binary := b.exponent - 2
  (Nat.pow 10 place.toNat * Nat.pow 2 (-binary).toNat,
    Nat.pow 2 binary.toNat * Nat.pow 10 (-place).toNat)

/-- Whether the value is below `10 ^ place`. -/
def isBelow (b : Binary) (place : Int) : Bool :=
  let (decimal, quarter) := b.units place
  4 * b.significand * quarter < decimal

/-- The least place with the value below `10 ^ place`; it is looked for near the place that the
binary logarithm suggests. -/
def scale (b : Binary) : Int :=
  let guess := (b.exponent + b.significand.log2) * 30103 / 100000
  (((List.range 5).map fun (i : Nat) => guess - 2 + (i : Int)).find? b.isBelow).getD (guess + 3)

end Binary

end Allotment.Decimal
