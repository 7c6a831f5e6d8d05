import Allotment.Console.Arguments
import Allotment.Console.Configuration
import Allotment.Console.Page
import Allotment.Exchange.Result
import Allotment.Json.Writer
import Allotment.Ready.Portfolio

/-!
# Runs of the program

What a command line prints and with which status it exits, given the files there are. The status
is zero when what was asked for was found, two when it was not or when a checked file has errors,
and one when the command could not be carried out. A command line that makes no command exits
with two as well.
-/

namespace Allotment.Console
set_option autoImplicit false

/-- What a run leaves behind. -/
structure Response where
  exit : UInt8
  output : String
  errors : String
  deriving DecidableEq, Repr

/-- Why a command cannot be carried out. -/
inductive Trouble where
  | unreadable (file : String)
  | notADefinition (file : String)
  | ill (file : String) (flaw : Flaw Float)
  | incomparable (base other : String) (flaw : Flaw Float)
  | flawed (flaw : Flaw Float)
  | unreadableConfiguration (file : String)
  | badConfiguration (file : String)

/-- The files there are: the text of each name. -/
abbrev Files := String → Option String

/-- The two summaries of a demonstration. -/
structure DemoSummary where
  solve : SolveSummary Float
  whatIf : Option (ComparisonSummary Float)

namespace Trouble

/-- The sentence that reports what is wrong. -/
def message : Trouble → String
  | unreadable file => "failed to read " ++ file
  | notADefinition file => file ++ " is not a valid problem definition"
  | ill file flaw => file ++ " describes an invalid problem: " ++ flaw.message
  | incomparable base other flaw =>
    "cannot compare " ++ base ++ " with " ++ other ++ ": " ++ flaw.message
  | flawed flaw => flaw.message
  | unreadableConfiguration file => "failed to read config " ++ file
  | badConfiguration file => "invalid config " ++ file ++ ": malformed configuration"

end Trouble

/-- Lines with a line end each. -/
def linesText (lines : List String) : String := String.join (lines.map (· ++ "\n"))

/-- A JSON value as a page. -/
def jsonPage (j : Json Float) : String := j.pretty 0 ++ "\n"

/-- **The program that a file describes.** -/
def loadProgram (files : Files) (file : String) : Except Trouble (Program Float) := do
  match files file with
  | none => throw (.unreadable file)
  | some text =>
    match (Json.parse? text).bind Draft.ofJson? with
    | none => throw (.notADefinition file)
    | some draft => draft.program.mapError (.ill file)

/-- The settings of a run: those of its configuration file, if it has one. -/
def loadConfiguration (files : Files) : Option String → Except Trouble Configuration
  | none => .ok .default
  | some file =>
    match files file with
    | none => .error (.unreadableConfiguration file)
    | some text =>
      match Configuration.parse? text with
      | none => .error (.badConfiguration file)
      | some c => .ok c

/-- A program solved and summarized, with prices and, where asked for, whole units. -/
def summarize (c : Configuration) (p : Program Float) (wholeUnits finiteDifference : Bool) :
    SolveSummary Float :=
  let solution := Simplex.solve c.solver p
  let pricing :=
    { c.pricing with finiteDifference := c.pricing.finiteDifference || finiteDifference }
  let prices := (Pricer.ofSettings c.solver pricing).table p solution
  let rounder := WholeUnits.Rounder.ofSettings c.rounding c.solver.bindingTolerance
  let units := if wholeUnits then some (rounder.allocate p solution) else none
  solution.summary prices units

/-- The demonstration of a ready program. A question is asked of the production plan only. -/
def demonstrate (c : Configuration) (question : Ready.WhatIf Float) (wholeUnits : Bool) :
    Scenario → Except Trouble DemoSummary
  | .production => do
    let plan : Ready.Production Float := .default
    let p ← plan.program.mapError .flawed
    let solve := summarize c p wholeUnits false
    if question.isEmpty then return { solve, whatIf := none }
    else
      let comparison ← (whatIf c.solver p (question.changes plan)).mapError .flawed
      return { solve, whatIf := some comparison.summary }
  | .portfolio => do
    let portfolio : Ready.Portfolio Float := .default
    let p ← portfolio.program.mapError .flawed
    return { solve := summarize c p wholeUnits false, whatIf := none }

namespace DemoSummary

/-- The JSON form. -/
def toJson (d : DemoSummary) : Json Float :=
  .obj
    (("solve", d.solve.toJson) :: Json.present "what_if" ComparisonSummary.toJson d.whatIf)

/-- The page of a demonstration. -/
def lines (d : DemoSummary) : List String :=
  solveLines d.solve ++
    match d.whatIf with
    | none => []
    | some comparison => "" :: "What if:" :: comparisonLines comparison

end DemoSummary

/-- **What a command reports.** -/
inductive Report where
  | solved (summary : SolveSummary Float) (format : PageFormat)
  | compared (summary : ComparisonSummary Float) (format : PageFormat)
  | checked (file : String) (program : Program Float)
  | demonstrated (summary : DemoSummary) (format : PageFormat)

namespace Report

/-- A page in one of the formats. -/
def page (format : PageFormat) (j : Json Float) (lines : List String) : String :=
  match format with
  | .json => jsonPage j
  | .text => linesText lines

/-- The text of a report. -/
def text : Report → String
  | solved s format => page format s.toJson (solveLines s)
  | compared s format => page format s.toJson (comparisonLines s)
  | checked file p => linesText (("✓ " ++ file ++ " is valid") :: programLines p)
  | demonstrated d format => page format d.toJson d.lines

/-- Whether what was asked for was found: an optimum, a comparison of two optima, or a program
without flaws. Of a demonstration the plan itself counts. -/
def settled : Report → Bool
  | solved s _ => s.status == .optimal
  | compared s _ => s.outcome == .compared
  | checked .. => true
  | demonstrated d _ => d.solve.status == .optimal

/-- The exit status of a report. -/
def exit (r : Report) : UInt8 := if r.settled then 0 else 2

end Report

/-- **What a command reports**, or why it cannot be carried out. -/
def execute (files : Files) (c : Configuration) : Command → Except Trouble Report
  | .solve file wholeUnits finiteDifference format => do
    let p ← loadProgram files file
    return .solved (summarize c p wholeUnits finiteDifference) format
  | .compare base other format => do
    let p ← loadProgram files base
    let q ← loadProgram files other
    let comparison ← (Allotment.compare c.solver p q).mapError (.incomparable base other)
    return .compared comparison.summary format
  | .check file => do
    let p ← loadProgram files file
    return .checked file p
  | .demo scenario question wholeUnits format => do
    let d ← demonstrate c question wholeUnits scenario
    return .demonstrated d format

/-- The response to a trouble: a check reports it as what it found, any other command as an
error of its own. -/
def troubleResponse (command : Command) (t : Trouble) : Response :=
  match command with
  | .check file =>
    { exit := 2, output := ""
      errors := linesText ["✗ " ++ file ++ " has errors:", "  " ++ t.message] }
  | _ => { exit := 1, output := "", errors := linesText ["Error: " ++ t.message] }

/-- The response of a command under a configuration. -/
def respond (files : Files) (c : Configuration) (command : Command) : Response :=
  match execute files c command with
  | .ok report => { exit := report.exit, output := report.text, errors := "" }
  | .error t => troubleResponse command t

/-- The lines that say how the program is called. -/
def usageLines : List String :=
  ["Usage: allotment [--config FILE] [--log-level LEVEL] [--log-format pretty|json] COMMAND",
    "",
    "Commands:",
    "  solve FILE [--integer] [--finite-difference] [-f text|json]",
    "  compare BASE OTHER [-f text|json]",
    "  check FILE",
    "  demo production|portfolio [--material-change X] [--worker-change X]",
    "      [--phone-profit-change X] [--tablet-profit-change X] [--integer] [-f text|json]"]

/-- **What a command line comes to.** -/
def run (files : Files) (args : List String) : Except Refusal Response :=
  match parseArguments args with
  | .error refusal => .error refusal
  | .ok invocation =>
    match loadConfiguration files invocation.configuration with
    | .error t => .ok { exit := 1, output := "", errors := linesText ["Error: " ++ t.message] }
    | .ok c => .ok (respond files c invocation.command)

/-- The response to a command line that is refused. -/
def refusalResponse : Refusal → Response
  | .empty => { exit := 2, output := "", errors := linesText usageLines }
  | .malformed =>
    { exit := 2, output := ""
      errors := linesText ("error: these arguments make no command" :: "" :: usageLines) }

end Allotment.Console
