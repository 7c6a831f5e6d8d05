import Allotment.Exchange.Settings
import Allotment.Toml

/-!
# Configurations

The settings of a run of the program, read from the text of a configuration file. Each table of
the file is for one kind of settings, and what a file leaves out has its default. A table about
logs is checked for its form; this program keeps none.
-/

namespace Allotment.Console
set_option autoImplicit false

/-- **The settings of a run.** -/
structure Configuration where
  solver : SolverSettings Float
  rounding : RoundingSettings
  pricing : PricingSettings Float

namespace Configuration

/-- The settings when there is no file. -/
def default : Configuration where
  solver := .default
  rounding := .default
  pricing := .default

/-- A number of a configuration file, which may also be infinite or undefined. -/
def number? : Json Float → Option Float
  | .int n => some (Scalar.ofInt n)
  | .real x => some x
  | _ => none

/-- The formats that logs can have. -/
def logFormats : List String := ["pretty", "json"]

/-- Whether a table about logs has the right form. -/
def checkLogging? (j : Json Float) : Option Unit := do
  let fields ← j.record? [["level"], ["format"]]
  let _ ← fields.optional? "level" "warn" Json.string?
  let _ ← fields.optional? "format" "pretty"
    (Json.choice? (logFormats.map fun name => (name, name)))
  return ()

/-- The settings that a text gives. -/
def parse? (text : String) : Option Configuration := do
  let tables ← Toml.parse? text
  let fields ← tables.record? [["solver"], ["integer"], ["analysis"], ["logging"]]
  let solver ← fields.optional? "solver" .default (SolverSettings.read? number?)
  let rounding ← fields.optional? "integer" .default RoundingSettings.ofJson?
  let pricing ← fields.optional? "analysis" .default (PricingSettings.read? number?)
  let _ ← fields.optional? "logging" () checkLogging?
  return { solver, rounding, pricing }

end Configuration

end Allotment.Console
