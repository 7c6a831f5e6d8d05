import Allotment.Decimal.Numeral
import Allotment.Json

/-!
# Reading JSON texts

The grammar is that of JSON, without leniency: no trailing commas, no comments, no control
characters in strings, no lone surrogates, and nothing but blanks after the value. Containers
may be nested 127 deep. A number without fraction and exponent that fits 64 bits is whole, except
for minus zero; any other number is real, and one beyond the range of binary64 is infinite,
which no field admits.
-/

namespace Allotment.Json.Reader
set_option autoImplicit false

open Allotment.Decimal

/-- How deep containers may be nested. -/
def nestingLimit : Nat := 127

/-- The blanks of JSON. -/
def isBlank (c : Char) : Bool := c = ' ' || c = '\n' || c = '\t' || c = '\r'

/-- The text without the blanks it starts with. -/
def skipBlanks (text : List Char) : List Char := text.dropWhile isBlank

/-- The text after a word it starts with. -/
def word? : (word text : List Char) → Option (List Char)
  | [], text => some text
  | _ :: _, [] => none
  | w :: word, c :: text => if w = c then word? word text else none

/-- The value of a hexadecimal digit. -/
def hexDigit? (c : Char) : Option Nat :=
  if '0' ≤ c && c ≤ '9' then some (c.toNat - '0'.toNat)
  else if 'a' ≤ c && c ≤ 'f' then some (c.toNat - 'a'.toNat + 10)
  else if 'A' ≤ c && c ≤ 'F' then some (c.toNat - 'A'.toNat + 10)
  else none

/-- The value of four hexadecimal digits. -/
def hex4? (a b c d : Char) : Option Nat := do
  let a ← hexDigit? a
  let b ← hexDigit? b
  let c ← hexDigit? c
  let d ← hexDigit? d
  return ((a * 16 + b) * 16 + c) * 16 + d

/-- What stands after a backslash, for the escapes of one character. -/
def shortEscape? : Char → Option Char
  | '"' => some '"'
  | '\\' => some '\\'
  | '/' => some '/'
  | 'b' => some '\x08'
  | 'f' => some '\x0c'
  | 'n' => some '\n'
  | 'r' => some '\r'
  | 't' => some '\t'
  | _ => none

/-- Whether a unit is the first half of a surrogate pair. -/
def isHighSurrogate (unit : Nat) : Bool := 0xD800 ≤ unit && unit < 0xDC00

/-- Whether a unit is the second half of a surrogate pair. -/
def isLowSurrogate (unit : Nat) : Bool := 0xDC00 ≤ unit && unit < 0xE000

/-- The character that two surrogates stand for together. -/
def surrogatePair (high low : Nat) : Char :=
  Char.ofNat (0x10000 + (high - 0xD800) * 0x400 + (low - 0xDC00))

/-- The characters up to the closing quote, put in front of those in `taken`, last first; `high`
is the first half of a surrogate pair when its second half is due. -/
def stringFrom (taken : List Char) (high : Option Nat) :
    List Char → Option (String × List Char)
  | [] => none
  | '\\' :: 'u' :: a :: b :: c :: d :: rest => do
    let unit ← hex4? a b c d
    match high with
    | some high =>
      if isLowSurrogate unit then stringFrom (surrogatePair high unit :: taken) none rest
      else none
    | none =>
      if isHighSurrogate unit then stringFrom taken (some unit) rest
      else if isLowSurrogate unit then none
      else stringFrom (Char.ofNat unit :: taken) none rest
  | '\\' :: c :: rest => do
    if high.isSome then none
    let c ← shortEscape? c
    stringFrom (c :: taken) none rest
  | c :: rest =>
    if high.isSome then none
    else if c = '"' then some (String.ofList taken.reverse, rest)
    else if c.toNat < 0x20 || c = '\\' then none
    else stringFrom (c :: taken) none rest

/-- A number, whose sign has been taken. -/
def number? (negative : Bool) (text : List Char) : Option (Json Float × List Char) := do
  let (numeral, rest) ← Numeral.scan text
  if !numeral.isStrict then none
  let magnitude : Int := digitsValue numeral.whole
  let n := if negative then -magnitude else magnitude
  let isInt :=
    numeral.isWhole && !(negative && magnitude = 0) && -(Nat.pow 2 63 : Int) ≤ n &&
      n < (Nat.pow 2 64 : Int)
  let x := numeral.value
  return (if isInt then .int n else .real (if negative then -x else x), rest)

/-- A list of things between commas up to a closing character, not empty. -/
def listFrom {β : Type} (item? : List Char → Option (β × List Char)) (close : Char) :
    (fuel : Nat) → List Char → Option (List β × List Char)
  | 0, _ => none
  | fuel + 1, text => do
    let (x, rest) ← item? text
    match skipBlanks rest with
    | ',' :: rest =>
      let (xs, rest) ← listFrom item? close fuel rest
      return (x :: xs, rest)
    | c :: rest => if c = close then return ([x], rest) else none
    | [] => none

/-- A list of things between commas up to a closing character, which may be empty. -/
def list? {β : Type} (item? : List Char → Option (β × List Char)) (close : Char) (fuel : Nat)
    (text : List Char) : Option (List β × List Char) :=
  match skipBlanks text with
  | [] => none
  | c :: rest => if c = close then some ([], rest) else listFrom item? close fuel (c :: rest)

/-- A member of an object. -/
def member? (value? : List Char → Option (Json Float × List Char)) (text : List Char) :
    Option ((String × Json Float) × List Char) :=
  match skipBlanks text with
  | '"' :: rest => do
    let (name, rest) ← stringFrom [] none rest
    match skipBlanks rest with
    | ':' :: rest =>
      let (j, rest) ← value? rest
      return ((name, j), rest)
    | _ => none
  | _ => none

/-- **A value**, with containers nested at most `depth` deep in it; `fuel` bounds the length of
its lists. -/
def value? (fuel : Nat) : (depth : Nat) → List Char → Option (Json Float × List Char)
  | depth, text =>
    match skipBlanks text with
    | 'n' :: rest => (word? "ull".toList rest).map fun rest => (.null, rest)
    | 't' :: rest => (word? "rue".toList rest).map fun rest => (.bool true, rest)
    | 'f' :: rest => (word? "alse".toList rest).map fun rest => (.bool false, rest)
    | '"' :: rest => (stringFrom [] none rest).map fun (s, rest) => (.str s, rest)
    | '[' :: rest =>
      match depth with
      | 0 => none
      | depth + 1 =>
        (list? (value? fuel depth) ']' fuel rest).map fun (items, rest) => (.arr items, rest)
    | '{' :: rest =>
      match depth with
      | 0 => none
      | depth + 1 =>
        (list? (member? (value? fuel depth)) '}' fuel rest).map fun (members, rest) =>
          (.obj members, rest)
    | '-' :: rest => number? true rest
    | text => number? false text

end Reader

/-- **The value that a text holds**, if it is JSON. -/
def parse? (text : String) : Option (Json Float) :=
  let chars := text.toList
  match Reader.value? chars.length Reader.nestingLimit chars with
  | some (j, rest) => if (Reader.skipBlanks rest).isEmpty then some j else none
  | none => none

end Allotment.Json
