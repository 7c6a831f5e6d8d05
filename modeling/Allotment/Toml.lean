import Allotment.Json.Reader

/-!
# Reading TOML texts

The part of TOML that settings are written in: tables with keys, and values that are strings on
one line, truth values, integers of 64 bits, or floats. A text is read line by line into nested
objects of the JSON type. A key or a table that is given twice is refused, and so is a name that
is a value in one place and a table in another.
-/

namespace Allotment.Toml
set_option autoImplicit false

open Allotment.Decimal

/-- A table under construction. -/
abbrev Table := List (String × Json Float)

/-! ## Tables -/

/-- A table with one more value, at the end of a path of names. -/
def insert? : (path : List String) → Json Float → Table → Option Table
  | [], _, _ => none
  | [name], value, table =>
    if (table.lookup name).isSome then none else some (table ++ [(name, value)])
  | name :: path, value, table =>
    match table.lookup name with
    | none => (insert? path value []).map fun inner => table ++ [(name, .obj inner)]
    | some (.obj inner) =>
      (insert? path value inner).map fun inner =>
        table.map fun entry => if entry.1 == name then (name, .obj inner) else entry
    | some _ => none

/-- A table with a table at the end of a path of names. -/
def openTable? : (path : List String) → Table → Option Table
  | [], table => some table
  | name :: path, table =>
    match table.lookup name with
    | none => (openTable? path []).map fun inner => table ++ [(name, .obj inner)]
    | some (.obj inner) =>
      (openTable? path inner).map fun inner =>
        table.map fun entry => if entry.1 == name then (name, .obj inner) else entry
    | some _ => none

/-! ## Values -/

/-- The blanks within a line. -/
def isBlank (c : Char) : Bool := c = ' ' || c = '\t'

/-- The text without the blanks it starts with. -/
def skipBlanks (text : List Char) : List Char := text.dropWhile isBlank

/-- Whether nothing more than a comment is left of a line. -/
def isDone (text : List Char) : Bool :=
  match skipBlanks text with
  | [] => true
  | '#' :: comment => comment.all fun c => 0x20 ≤ c.toNat && c.toNat ≠ 0x7f || c = '\t'
  | _ => false

/-- What stands after a backslash, for the escapes of one character. -/
def shortEscape? : Char → Option Char
  | '"' => some '"'
  | '\\' => some '\\'
  | 'b' => some '\x08'
  | 'f' => some '\x0c'
  | 'n' => some '\n'
  | 'r' => some '\r'
  | 't' => some '\t'
  | _ => none

/-- The character of a code, unless it is half of a surrogate pair or out of range. -/
def scalar? (code : Nat) : Option Char :=
  if code < 0xD800 || (0xE000 ≤ code && code < 0x110000) then some (Char.ofNat code) else none

/-- Whether a character may stand in a string as it is. -/
def isPlain (c : Char) : Bool := (0x20 ≤ c.toNat && c.toNat ≠ 0x7f) || c = '\t'

/-- The characters up to the closing quote of a string with escapes, put in front of those in
`taken`, last first. -/
def basicFrom (taken : List Char) : List Char → Option (String × List Char)
  | [] => none
  | '"' :: rest => some (String.ofList taken.reverse, rest)
  | '\\' :: 'u' :: a :: b :: c :: d :: rest => do
    let c ← scalar? (← Json.Reader.hex4? a b c d)
    basicFrom (c :: taken) rest
  | '\\' :: 'U' :: a :: b :: c :: d :: e :: f :: g :: h :: rest => do
    let high ← Json.Reader.hex4? a b c d
    let low ← Json.Reader.hex4? e f g h
    let c ← scalar? (high * 0x10000 + low)
    basicFrom (c :: taken) rest
  | '\\' :: c :: rest => do
    let c ← shortEscape? c
    basicFrom (c :: taken) rest
  | c :: rest => if isPlain c && c ≠ '\\' then basicFrom (c :: taken) rest else none

/-- The characters up to the closing quote of a string without escapes. -/
def literal? (text : List Char) : Option (String × List Char) :=
  let (inside, rest) := text.span fun c => isPlain c && c ≠ '\''
  match rest with
  | '\'' :: rest => some (String.ofList inside, rest)
  | _ => none

/-- The digits without the underscores between them; an underscore elsewhere is refused. -/
def dropUnderscores? : List Char → Option (List Char)
  | [] => some []
  | [c] => if c = '_' then none else some [c]
  | c :: '_' :: d :: rest =>
    if c.isDigit && d.isDigit then (dropUnderscores? (d :: rest)).map (c :: ·) else none
  | c :: rest => if c = '_' then none else (dropUnderscores? rest).map (c :: ·)

/-- The value of digits in a base, of which there has to be one. -/
def based? (base : Nat) (digits : List Char) : Option Int :=
  if digits.isEmpty then none
  else
    digits.foldlM
      (fun (n : Int) c => do
        let d ← Json.Reader.hexDigit? c
        if d < base then some (n * base + d) else none)
      0

/-- An integer, if it fits 64 bits with a sign. -/
def integer? (n : Int) : Option (Json Float) :=
  if -(Nat.pow 2 63 : Int) ≤ n && n < (Nat.pow 2 63 : Int) then some (.int n) else none

/-- An unsigned number in decimal notation, or the name of a float that has no digits. -/
def magnitude? (negative : Bool) (text : List Char) : Option (Json Float) :=
  let signed := fun (x : Float) => Json.real (if negative then -x else x)
  match text with
  | ['i', 'n', 'f'] => some (signed (1.0 / 0.0))
  | ['n', 'a', 'n'] => some (signed (0.0 / 0.0))
  | _ =>
    match Numeral.scan text with
    | some (n, []) =>
      if !n.isStrict then none
      else if n.isWhole then
        let value : Int := digitsValue n.whole
        integer? (if negative then -value else value)
      else if n.value.isFinite then some (signed n.value)
      else none
    | _ => none

/-- A number. -/
def number? (text : List Char) : Option (Json Float) := do
  let text ← dropUnderscores? text
  match text with
  | '0' :: 'x' :: digits => (← based? 16 digits) |> integer?
  | '0' :: 'o' :: digits => (← based? 8 digits) |> integer?
  | '0' :: 'b' :: digits => (← based? 2 digits) |> integer?
  | '+' :: rest => magnitude? false rest
  | '-' :: rest => magnitude? true rest
  | _ => magnitude? false text

/-- A value, and the rest of its line. -/
def value? (text : List Char) : Option (Json Float × List Char) :=
  match text with
  | '"' :: rest => (basicFrom [] rest).map fun (s, rest) => (.str s, rest)
  | '\'' :: rest => (literal? rest).map fun (s, rest) => (.str s, rest)
  | _ =>
    let (word, rest) := text.span fun c => c.isAlphanum || c ∈ ['+', '-', '.', '_']
    match String.ofList word with
    | "true" => some (.bool true, rest)
    | "false" => some (.bool false, rest)
    | _ => (number? word).map fun j => (j, rest)

/-! ## Lines -/

/-- Whether a character may stand in a name without quotes. -/
def isNameChar (c : Char) : Bool := c.isAlphanum || c = '_' || c = '-'

/-- A name, with or without quotes. -/
def name? (text : List Char) : Option (String × List Char) :=
  match text with
  | '"' :: rest => basicFrom [] rest
  | '\'' :: rest => literal? rest
  | _ =>
    let (name, rest) := text.span isNameChar
    if name.isEmpty then none else some (String.ofList name, rest)

/-- Names with dots between them, of which there are at most `fuel`. -/
def pathFrom : (fuel : Nat) → List Char → Option (List String × List Char)
  | 0, _ => none
  | fuel + 1, text => do
    let (name, rest) ← name? (skipBlanks text)
    match skipBlanks rest with
    | '.' :: rest =>
      let (path, rest) ← pathFrom fuel rest
      return (name :: path, rest)
    | rest => return ([name], rest)

/-- What has been read so far: the tables, the path of the table that the next key belongs to,
and the paths of the tables that were opened. -/
structure Document where
  root : Table
  current : List String
  opened : List (List String)

/-- The document after one more line. -/
def line? (d : Document) (text : List Char) : Option Document :=
  let text := skipBlanks text
  if isDone text then some d
  else
    match text with
    | '[' :: rest => do
      let (path, rest) ← pathFrom rest.length rest
      match rest with
      | ']' :: rest =>
        if !isDone rest || path ∈ d.opened then none
        else
          let root ← openTable? path d.root
          return { root, current := path, opened := path :: d.opened }
      | _ => none
    | _ => do
      let (path, rest) ← pathFrom text.length text
      match rest with
      | '=' :: rest =>
        let (value, rest) ← value? (skipBlanks rest)
        if !isDone rest then none
        let root ← insert? (d.current ++ path) value d.root
        return { d with root }
      | _ => none

/-- A line without the carriage return it may end with. -/
def dropReturn (line : List Char) : List Char :=
  if line.getLast? = some '\r' then line.dropLast else line

/-- **The tables of a text**, as an object of objects. -/
def parse? (text : String) : Option (Json Float) :=
  let lines := (text.splitOn "\n").map fun line => dropReturn line.toList
  (lines.foldlM line? { root := [], current := [], opened := [] }).map fun d => .obj d.root

end Allotment.Toml
