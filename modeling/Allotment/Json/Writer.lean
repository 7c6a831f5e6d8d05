import Allotment.Decimal.Notation
import Allotment.Json

/-!
# Writing JSON texts

A value is written on one line without blanks, or spread over lines that are indented by two
blanks per level. Only quotes, backslashes and control characters are escaped. A real that is
not finite has no number and is written as null.
-/

namespace Allotment.Json
set_option autoImplicit false

open Allotment.Decimal

/-- Reals are written with a fraction even when they are whole, and with an exponent outside of
the powers of ten from minus five to fifteen. -/
def realNotation : Notation where
  tie := .even
  positional := some (-5, 15)
  wholeSuffix := ".0"

/-- The text of a real. -/
def realText (x : Float) : String := if x.isFinite then realNotation.text x else "null"

/-- A character as it stands in a string. -/
def escapeChar (c : Char) : String :=
  if c = '"' then "\\\""
  else if c = '\\' then "\\\\"
  else if c = '\n' then "\\n"
  else if c = '\t' then "\\t"
  else if c = '\r' then "\\r"
  else if c = '\x08' then "\\b"
  else if c = '\x0c' then "\\f"
  else if c.toNat < 0x20 then
    let digits := Nat.toDigits 16 c.toNat
    "\\u" ++ String.ofList (List.replicate (4 - digits.length) '0' ++ digits)
  else String.singleton c

/-- A string between quotes. -/
def quote (s : String) : String :=
  s.foldl (fun text c => text ++ escapeChar c) "\"" ++ "\""

mutual

/-- **A value on one line.** -/
def compact : Json Float → String
  | null => "null"
  | bool b => if b then "true" else "false"
  | int n => toString n
  | real x => realText x
  | str s => quote s
  | arr items => "[" ++ ",".intercalate (compactItems items) ++ "]"
  | obj members => "\x7b" ++ ",".intercalate (compactMembers members) ++ "\x7d"

/-- The items of a list, each on one line. -/
def compactItems : List (Json Float) → List String
  | [] => []
  | j :: rest => compact j :: compactItems rest

/-- The members of an object, each on one line. -/
def compactMembers : List (String × Json Float) → List String
  | [] => []
  | (name, j) :: rest => (quote name ++ ":" ++ compact j) :: compactMembers rest

end

/-- The start of a line at a level. -/
def newline (level : Nat) : String := "\n" ++ String.ofList (List.replicate (2 * level) ' ')

/-- Parts between brackets, each on a line of its own one level further in. -/
def block (level : Nat) (opening closing : String) (parts : List String) : String :=
  if parts.isEmpty then opening ++ closing
  else
    opening ++ newline (level + 1) ++ ("," ++ newline (level + 1)).intercalate parts ++
      newline level ++ closing

mutual

/-- **A value over several lines**, at a level. -/
def pretty (level : Nat) : Json Float → String
  | null => "null"
  | bool b => if b then "true" else "false"
  | int n => toString n
  | real x => realText x
  | str s => quote s
  | arr items => block level "[" "]" (prettyItems (level + 1) items)
  | obj members => block level "\x7b" "\x7d" (prettyMembers (level + 1) members)

/-- The items of a list, each over several lines. -/
def prettyItems (level : Nat) : List (Json Float) → List String
  | [] => []
  | j :: rest => pretty level j :: prettyItems level rest

/-- The members of an object, each over several lines. -/
def prettyMembers (level : Nat) : List (String × Json Float) → List String
  | [] => []
  | (name, j) :: rest => (quote name ++ ": " ++ pretty level j) :: prettyMembers level rest

end

end Allotment.Json
