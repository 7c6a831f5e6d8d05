import Allotment.Console.Run

/-!
# The program

Reads the files that the command line names, and prints what the run comes to.
-/

namespace Allotment
set_option autoImplicit false

/-- The text of a file, if it can be read. -/
def readFile? (file : String) : IO (Option String) := do
  try
    return some (← IO.FS.readFile file)
  catch _ =>
    return none

/-- The files that an invocation names. -/
def Console.Invocation.fileNames (i : Console.Invocation) : List String :=
  i.configuration.toList ++
    match i.command with
    | .solve file .. => [file]
    | .compare base other _ => [base, other]
    | .check file => [file]
    | .demo .. => []

/-- The texts of the files that a command line names. -/
def readFiles (args : List String) : IO (List (String × Option String)) :=
  match Console.parseArguments args with
  | .error _ => return []
  | .ok invocation =>
    invocation.fileNames.mapM fun file => return (file, ← readFile? file)

end Allotment

/-- Runs a command line. -/
def main (args : List String) : IO UInt32 := do
  let texts ← Allotment.readFiles args
  let files : Allotment.Console.Files := fun file => (texts.lookup file).join
  let response :=
    match Allotment.Console.run files args with
    | .ok response => response
    | .error refusal => Allotment.Console.refusalResponse refusal
  (← IO.getStdout).putStr response.output
  (← IO.getStderr).putStr response.errors
  return response.exit.toUInt32
