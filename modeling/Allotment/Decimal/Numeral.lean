/-!
# Reading numerals

A numeral without a sign is a run of digits, a point with more digits, and an exponent, of which
some may be missing; `Numeral.scan` takes the longest one off a text. Which parts have to be
there is for each grammar that uses numerals to say. `Numeral.value` is the nearest binary64
value.
-/

namespace Allotment.Decimal
set_option autoImplicit false

/-- **A numeral without a sign**: its digits before and after the point, and its exponent. -/
structure Numeral where
  whole : List Char
  fraction : Option (List Char)
  exponent : Option Int
  deriving DecidableEq, Repr

/-- The number that decimal digits stand for. -/
def digitsValue (digits : List Char) : Nat :=
  digits.foldl (fun n d => 10 * n + (d.toNat - '0'.toNat)) 0

namespace Numeral

/-- A point and the digits after it, if the text starts with a point. -/
def scanFraction : List Char → Option (List Char) × List Char
  | '.' :: rest => let (digits, rest) := rest.span Char.isDigit; (some digits, rest)
  | text => (none, text)

/-- An exponent, if the text starts with one; a mark without digits is refused. -/
def scanExponent (text : List Char) : Option (Option Int × List Char) :=
  match text with
  | mark :: rest =>
    if mark = 'e' || mark = 'E' then
      let (negative, rest) :=
        match rest with
        | '-' :: rest => (true, rest)
        | '+' :: rest => (false, rest)
        | rest => (false, rest)
      let (digits, rest) := rest.span Char.isDigit
      if digits.isEmpty then none
      else
        let n : Int := digitsValue digits
        some (some (if negative then -n else n), rest)
    else some (none, text)
  | [] => some (none, [])

/-- **The longest numeral that a text starts with**, and the rest of the text. -/
def scan (text : List Char) : Option (Numeral × List Char) :=
  let (whole, rest) := text.span Char.isDigit
  let (fraction, rest) := scanFraction rest
  (scanExponent rest).map fun (exponent, rest) => ({ whole, fraction, exponent }, rest)

/-- Whether it is written like a whole number. -/
def isWhole (n : Numeral) : Bool := n.fraction.isNone && n.exponent.isNone

/-- Whether it has digits around its point. -/
def hasDigits (n : Numeral) : Bool := !n.whole.isEmpty || !(n.fraction.getD []).isEmpty

/-- Whether it has digits before its point, no zero in front of others, and digits after the
point if there is one. -/
def isStrict (n : Numeral) : Bool :=
  !n.whole.isEmpty && (n.whole.length == 1 || n.whole.head? != some '0') &&
    n.fraction.all (!·.isEmpty)

/-- **The binary64 value nearest to the numeral.** A numeral far outside the range of binary64
is not expanded: it is infinite or zero by the place of its first digit. -/
def value (n : Numeral) : Float :=
  let fraction := n.fraction.getD []
  let digits := digitsValue (n.whole ++ fraction)
  let exponent := n.exponent.getD 0 - fraction.length
  let leading := exponent + (Nat.toDigits 10 digits).length
  if digits = 0 then 0.0
  else if 400 < leading then 1.0 / 0.0
  else if leading < -400 then 0.0
  else Float.ofScientific digits (exponent < 0) exponent.natAbs

/-- A number that a person writes: a sign, then a numeral with digits on some side of its
point, or the name of infinity or of the undefined value. -/
def parse? (text : String) : Option Float :=
  let (negative, rest) :=
    match text.toList with
    | '-' :: rest => (true, rest)
    | '+' :: rest => (false, rest)
    | rest => (false, rest)
  let magnitude : Option Float :=
    match String.ofList (rest.map Char.toLower) with
    | "inf" | "infinity" => some (1.0 / 0.0)
    | "nan" => some (0.0 / 0.0)
    | _ =>
      match scan rest with
      | some (n, []) => if n.hasDigits then some n.value else none
      | _ => none
  magnitude.map fun x => if negative then -x else x

end Numeral

end Allotment.Decimal
