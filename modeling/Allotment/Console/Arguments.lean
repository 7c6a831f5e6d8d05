import Allotment.Decimal.Numeral
import Allotment.Ready.Production

/-!
# Arguments

What the words of a command line ask for. Options have two dashes and a name; one that takes a
value has it after an equals sign or as the next word. The general options may stand before or
after the command, and where one stands in both places the later one counts; otherwise an option
may be given once. After two dashes alone every word is taken as it is.
-/

namespace Allotment.Console
set_option autoImplicit false

/-- How a result is shown. -/
inductive PageFormat where
  | text
  | json
  deriving DecidableEq, Repr

/-- A ready program. -/
inductive Scenario where
  | production
  | portfolio
  deriving DecidableEq, Repr

/-- **What is to be done.** -/
inductive Command where
  | solve (file : String) (wholeUnits finiteDifference : Bool) (format : PageFormat)
  | compare (base other : String) (format : PageFormat)
  | check (file : String)
  | demo (scenario : Scenario) (question : Ready.WhatIf Float) (wholeUnits : Bool)
      (format : PageFormat)

/-- A command with the configuration file it is to use. -/
structure Invocation where
  configuration : Option String
  command : Command

/-- Why a command line is refused. -/
inductive Refusal where
  /-- There are no words at all, and the help is shown. -/
  | empty
  /-- The words do not make a command. -/
  | malformed
  deriving DecidableEq, Repr

/-- How an option takes its value. -/
inductive Arity where
  /-- It has none. -/
  | flag
  /-- It has one, which does not look like an option unless it follows an equals sign. -/
  | value
  /-- It has one, which may also look like a negative number. -/
  | number
  deriving DecidableEq, Repr

/-- An option that a command knows. -/
structure OptionRule where
  name : String
  letter : Option Char
  arity : Arity
  deriving DecidableEq, Repr

/-- The words of a command line sorted into options, with their values, and other words. -/
structure Words where
  options : List (String × String)
  operands : List String
  deriving Repr

/-! ## Sorting words -/

/-- Whether a text without its minus sign looks like a number: digits, a point that is not at
the start, and an exponent mark that is neither at the start nor at the end. -/
def looksNumeric (text : List Char) : Bool :=
  let (mantissa, exponent) := text.span (· ≠ 'e')
  let points := mantissa.countP (· = '.')
  mantissa.all (fun c => c.isDigit || c = '.') && points ≤ 1 && mantissa.head? ≠ some '.' &&
    match exponent with
    | [] => true
    | _ :: digits => !mantissa.isEmpty && !digits.isEmpty && digits.all Char.isDigit

/-- Whether a word can be the value of the option before it. -/
def isValue (arity : Arity) (word : String) : Bool :=
  match word.toList with
  | ['-'] => true
  | '-' :: '-' :: _ => false
  | '-' :: rest => arity == .number && looksNumeric rest
  | _ => true

/-- The value of an option: what is attached to it, or else the next word. -/
def takeValue? (rule : OptionRule) (attached : Option String) (rest : List String) :
    Option ((String × String) × List String) :=
  match rule.arity, attached, rest with
  | .flag, none, _ => some ((rule.name, ""), rest)
  | .flag, some _, _ => none
  | _, some value, _ => some ((rule.name, value), rest)
  | arity, none, word :: rest =>
    if isValue arity word then some ((rule.name, word), rest) else none
  | _, none, [] => none

/-- An option at the start of the words, if the first word is one; refused if it is unknown or
lacks its value. -/
def option? (rules : List OptionRule) (word : String) (rest : List String) :
    Option (Option ((String × String) × List String)) :=
  match word.toList with
  | '-' :: '-' :: text => do
    let (name, tail) := text.span (· ≠ '=')
    let rule ← rules.find? (·.name == String.ofList name)
    let attached := if tail.isEmpty then none else some (String.ofList (tail.drop 1))
    (takeValue? rule attached rest).map some
  | '-' :: letter :: text => do
    let rule ← rules.find? (·.letter == some letter)
    let attached :=
      match text with
      | [] => none
      | '=' :: value => some (String.ofList value)
      | value => some (String.ofList value)
    (takeValue? rule attached rest).map some
  | _ => some none

/-- The options that the words start with, of which there are at most `fuel`, and the words
after them. -/
def leadingOptions? (rules : List OptionRule) :
    (fuel : Nat) → List String → Option (List (String × String) × List String)
  | 0, words => some ([], words)
  | _, [] => some ([], [])
  | fuel + 1, word :: rest => do
    match ← option? rules word rest with
    | none => return ([], word :: rest)
    | some (given, rest) =>
      let (options, rest) ← leadingOptions? rules fuel rest
      return (given :: options, rest)

/-- The words sorted, of which there are at most `fuel`. -/
def sortWords? (rules : List OptionRule) : (fuel : Nat) → List String → Option Words
  | 0, _ => some { options := [], operands := [] }
  | _, [] => some { options := [], operands := [] }
  | fuel + 1, word :: rest =>
    if word = "--" then some { options := [], operands := rest }
    else do
      match ← option? rules word rest with
      | none =>
        let words ← sortWords? rules fuel rest
        return { words with operands := word :: words.operands }
      | some (given, rest) =>
        let words ← sortWords? rules fuel rest
        return { words with options := given :: words.options }

/-- Whether no option is given twice. -/
def noneTwice : List (String × String) → Bool
  | [] => true
  | given :: rest => !rest.any (·.1 == given.1) && noneTwice rest

/-! ## Options and commands -/

/-- An option with a value. -/
def valued (name : String) : OptionRule := { name, letter := none, arity := .value }

/-- An option without a value. -/
def plain (name : String) : OptionRule := { name, letter := none, arity := .flag }

/-- An option whose value is a number. -/
def numeric (name : String) : OptionRule := { name, letter := none, arity := .number }

/-- The option for the way a result is shown. -/
def formatRule : OptionRule := { name := "format", letter := some 'f', arity := .value }

/-- The options that every command knows. Those about logs are checked and change nothing. -/
def generalRules : List OptionRule := [valued "config", valued "log-level", valued "log-format"]

/-- The options of each command; none, if there is no such command. -/
def commandRules? : String → Option (List OptionRule)
  | "solve" => some [plain "integer", plain "finite-difference", formatRule]
  | "compare" => some [formatRule]
  | "check" => some []
  | "demo" =>
    some
      [numeric "material-change", numeric "worker-change", numeric "phone-profit-change",
        numeric "tablet-profit-change", plain "integer", formatRule]
  | _ => none

/-- A text that is not empty. -/
def nonEmpty? (text : String) : Option String := if text.isEmpty then none else some text

/-- The format that a word names. -/
def pageFormat? : String → Option PageFormat
  | "text" => some .text
  | "json" => some .json
  | _ => none

/-- The ready program that a word names. -/
def scenario? : String → Option Scenario
  | "production" => some .production
  | "portfolio" => some .portfolio
  | _ => none

/-- Whether options that every command knows have values they can have. -/
def generalFine (options : List (String × String)) : Bool :=
  options.all fun (name, value) =>
    match name with
    | "config" => !value.isEmpty
    | "log-format" => value == "pretty" || value == "json"
    | _ => true

namespace Words

/-- Whether an option is given. -/
def has (w : Words) (name : String) : Bool := (w.options.lookup name).isSome

/-- The format that is asked for, text if none is. -/
def format? (w : Words) : Option PageFormat :=
  match w.options.lookup "format" with
  | none => some .text
  | some word => pageFormat? word

/-- The number that an option gives, zero if it is not given. -/
def number? (w : Words) (name : String) : Option Float :=
  match w.options.lookup name with
  | none => some 0.0
  | some word => Decimal.Numeral.parse? word

/-- The command of a name with these words. -/
def command? (w : Words) (name : String) : Option Command :=
  match name, w.operands with
  | "solve", [file] => do
    return .solve (← nonEmpty? file) (w.has "integer") (w.has "finite-difference")
      (← w.format?)
  | "compare", [base, other] => do
    return .compare (← nonEmpty? base) (← nonEmpty? other) (← w.format?)
  | "check", [file] => do return .check (← nonEmpty? file)
  | "demo", [scenario] => do
    let scenario ← scenario? scenario
    let materialCostChange ← w.number? "material-change"
    let workerChange ← w.number? "worker-change"
    let phoneProfitChange ← w.number? "phone-profit-change"
    let tabletProfitChange ← w.number? "tablet-profit-change"
    return .demo scenario
      { materialCostChange, workerChange, phoneProfitChange, tabletProfitChange }
      (w.has "integer") (← w.format?)
  | _, _ => none

end Words

/-- The command that some words ask for. -/
def invocation? (args : List String) : Option Invocation := do
  let (general, rest) ← leadingOptions? generalRules args.length args
  match rest with
  | [] => none
  | name :: rest =>
    let rules ← commandRules? name
    let words ← sortWords? (generalRules ++ rules) rest.length rest
    if !(noneTwice general && noneTwice words.options) then none
    if !(generalFine general && generalFine words.options) then none
    let command ← words.command? name
    let configuration := (words.options.lookup "config").or (general.lookup "config")
    return { configuration, command }

/-- **What a command line asks for**, or why it is refused. -/
def parseArguments (args : List String) : Except Refusal Invocation :=
  if args.isEmpty then .error .empty
  else
    match invocation? args with
    | some invocation => .ok invocation
    | none => .error .malformed

end Allotment.Console
