import Allotment.Decimal.Binary

/-!
# Shortest decimals

The decimal with the fewest digits that reads back as a given binary64 value, and of several
such the one nearest to it. The numbers that read back as a value form an interval around it:
half of the way to its neighbours, the ends included exactly when the significand is even.
Decimals with one, two, three digits and so on are tried in turn; with each number of digits
only the two neighbours of the value can be nearest.
-/

namespace Allotment.Decimal
set_option autoImplicit false

/-- The number `significand * 10 ^ exponent`. -/
structure Digits where
  significand : Nat
  exponent : Int
  deriving DecidableEq, Repr

/-- Which of two equally near decimals is taken. -/
inductive Tie where
  | even
  | up
  deriving DecidableEq, Repr

namespace Binary

/-- Whether `digits * 10 ^ place` reads back as the value. -/
def readsBack (b : Binary) (place : Int) (digits : Nat) : Bool :=
  let (decimal, quarter) := b.units place
  let low := (4 * b.significand - if b.narrow then 1 else 2) * quarter
  let high := (4 * b.significand + 2) * quarter
  let candidate := digits * decimal
  if b.significand % 2 = 0 then low ≤ candidate && candidate ≤ high
  else low < candidate && candidate < high

/-- The nearest decimal with its last digit at a place that reads back as the value. -/
def nearestAt? (b : Binary) (tie : Tie) (place : Int) : Option Digits :=
  let (decimal, quarter) := b.units place
  let exact := 4 * b.significand * quarter
  let below := exact / decimal
  let twice := 2 * (exact % decimal)
  let upFirst :=
    decimal < twice || (twice = decimal && (tie == .up || below % 2 = 1))
  let order := if upFirst then [below + 1, below] else [below, below + 1]
  (order.find? (b.readsBack place)).map fun digits => { significand := digits, exponent := place }

/-- All decimal digits of the value. -/
def allDigits (b : Binary) : Digits :=
  if 0 ≤ b.exponent then { significand := b.significand * Nat.pow 2 b.exponent.toNat, exponent := 0 }
  else { significand := b.significand * Nat.pow 5 (-b.exponent).toNat, exponent := b.exponent }

end Binary

namespace Digits

/-- The decimal without zeros at its end, of which at most `fuel` are removed. -/
def trimFrom : (fuel : Nat) → Digits → Digits
  | 0, d => d
  | fuel + 1, d =>
    if d.significand % 10 = 0 then
      trimFrom fuel { significand := d.significand / 10, exponent := d.exponent + 1 }
    else d

/-- The digits, most significant first. -/
def digits (d : Digits) : List Char := Nat.toDigits 10 d.significand

/-- The decimal without zeros at its end; zero stays as it is. -/
def trim (d : Digits) : Digits :=
  if d.significand = 0 then d else trimFrom d.digits.length d

/-- The power of ten of the first digit. -/
def leadingExponent (d : Digits) : Int := d.exponent + d.digits.length - 1

end Digits

/-- **The shortest decimal that reads back as a value**, the nearest one if there are several.
No value needs more than seventeen digits. -/
def shortest (tie : Tie) (b : Binary) : Digits :=
  if b.significand = 0 then { significand := 0, exponent := 0 }
  else
    let scale := b.scale
    let tried := (List.range 17).findSome? fun (n : Nat) => b.nearestAt? tie (scale - 1 - (n : Int))
    (tried.getD b.allDigits).trim

end Allotment.Decimal
