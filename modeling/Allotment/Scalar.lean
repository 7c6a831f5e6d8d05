/-!
# Scalars

The numbers that a program is stated and solved in. Everything from the statement of a
program to its optimum, its prices and its whole-unit allocations is written over `Scalar`,
so the same definitions run on binary64 (`Float`) and can be reasoned about over the exact
rationals (`Rat`). A scalar has the four operations, negation, an order and an equality that
can be tested, and the few conversions that rounding to whole units needs.

`sum` and `dot` fix the order in which a row is added up: from the left, starting at negative
zero, which is the neutral start on signed zeros as well.
-/

namespace Allotment
set_option autoImplicit false

/-- **A number system** in which programs are stated. No laws are asked for here: binary64
has few, and each theorem names the system or the laws that it needs. -/
class Scalar (α : Type) extends Zero α, One α, Add α, Sub α, Mul α, Div α, Neg α, LT α, LE α,
    BEq α, OfScientific α where
  /-- The strict order can be tested. -/
  decideLt : DecidableLT α
  /-- The order can be tested. -/
  decideLe : DecidableLE α
  /-- The magnitude. -/
  abs : α → α
  /-- Neither infinite nor undefined. -/
  isFinite : α → Bool
  /-- The scalar nearest to an integer. -/
  ofInt : Int → α
  /-- The scalar nearest to a count of whole units. -/
  ofUnits : Int64 → α
  /-- The greatest whole number below, held to the range of 64 bits. -/
  floor : α → Int64
  /-- The least whole number above, held to the range of 64 bits. -/
  ceil : α → Int64
  /-- The nearest whole number, halves away from zero, held to the range of 64 bits. -/
  round : α → Int64
  /-- A total order that refines `≤` to the values that `≤` does not compare. -/
  totalLe : α → α → Bool

namespace Scalar

open Float.Model (UnpackedFloat)

instance {α : Type} [Scalar α] : DecidableLT α := decideLt

instance {α : Type} [Scalar α] : DecidableLE α := decideLe

/-- The place of a binary64 value in the total order of bit patterns: the magnitude bits,
counted upwards from zero for a clear sign and downwards from minus one for a set sign. -/
def floatRank (x : Float) : Int :=
  let bits := x.toBits.toNat
  if bits < Nat.pow 2 63 then bits else -1 - (bits - Nat.pow 2 63 : Nat)

/-- The nearest integer to a rational, halves away from zero. -/
def nearestInt (x : Rat) : Int :=
  if 0 ≤ x then (x + 1 / 2).floor else (x - 1 / 2).ceil

/-- A mantissa times a power of two. -/
def magnitude (mantissa : Nat) (exponent : Int) : Rat :=
  mkRat (mantissa * Nat.pow 2 exponent.toNat) (Nat.pow 2 (-exponent).toNat)

/-- The sign, mantissa and exponent of a binary64 value. -/
def unpackFloat (x : Float) : UnpackedFloat := .unpack .binary64 x.toBits.toBitVec

/-- **The exact value of a binary64 value** that is finite; zero for the others. -/
def floatValue (x : Float) : Rat :=
  match unpackFloat x with
  | .finite .positive mantissa exponent _ => magnitude mantissa exponent
  | .finite .negative mantissa exponent _ => -magnitude mantissa exponent
  | _ => 0

/-- A whole number that a binary64 value is taken to, held to the range of 64 bits: one of the
ends of the range for an infinite value, and zero for an undefined one. -/
def floatUnits (whole : Rat → Int) (x : Float) : Int64 :=
  match unpackFloat x with
  | .infinity .positive => Int64.maxValue
  | .infinity .negative => Int64.minValue
  | .notANumber => 0
  | _ => Int64.ofIntClamp (whole (floatValue x))

/-- Binary64, in which programs are run. -/
instance : Scalar Float where
  zero := 0.0
  one := 1.0
  decideLt := inferInstance
  decideLe := inferInstance
  abs := Float.abs
  isFinite := Float.isFinite
  ofInt := Float.ofInt
  ofUnits n := Float.ofInt n.toInt
  floor := floatUnits Rat.floor
  ceil := floatUnits Rat.ceil
  round := floatUnits nearestInt
  totalLe a b := decide (floatRank a ≤ floatRank b)

/-- The exact rationals, over which programs are reasoned about. -/
instance : Scalar Rat where
  zero := 0
  one := 1
  decideLt := inferInstance
  decideLe := inferInstance
  abs x := if x < 0 then -x else x
  isFinite _ := true
  ofInt n := n
  ofUnits n := n.toInt
  floor x := Int64.ofIntClamp x.floor
  ceil x := Int64.ofIntClamp x.ceil
  round x := Int64.ofIntClamp (nearestInt x)
  totalLe a b := decide (a ≤ b)

end Scalar

section
variable {α : Type} [Scalar α]

/-- The greater of a value and zero; zero where the two do not compare. -/
def positivePart (x : α) : α := if 0 < x then x else 0

/-- The distance from one to the next binary64 value: a magnitude at or below it counts as
zero where something is to be divided by it. -/
def machineEpsilon : α := 1 / Scalar.ofInt (Nat.pow 2 52)

/-- A list added up from the left, starting at negative zero. -/
def sum (xs : List α) : α := xs.foldl (· + ·) (-0)

/-- **The inner product** of a row and a point; what the longer one has in excess is left out. -/
def dot (row point : List α) : α := sum (List.zipWith (· * ·) row point)

end

end Allotment
