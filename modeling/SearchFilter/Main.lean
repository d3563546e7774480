import SearchFilter.Command

/-!
# The command line
-/

namespace SearchFilter

/-- The text of a file, if it can be read. -/
def readText? (path : String) : IO (Option String) := do
  try
    return some (← IO.FS.readFile path)
  catch _ =>
    return none

/-- How the program ends when it is given some arguments. -/
def outcome (args : List String) : IO Outcome := do
  match Command.ofArgs? args with
  | none => return .misused
  | some command =>
    let file ← match command.file? with
      | some path => readText? path
      | none => pure none
    return .ofResult (command.run file)

end SearchFilter

open SearchFilter

/-- Runs the command that the arguments make. -/
def main (args : List String) : IO UInt32 := do
  let ended ← outcome args
  IO.print ended.output
  match ended with
  | .failed error => IO.eprintln ("Error: " ++ error.message)
  | .misused => IO.eprintln "usage: sift render|ast|schema [options]"
  | .printed _ => pure ()
  return UInt32.ofNat ended.exitCode
