import CrateScope.Command.Line
import CrateScope.Command.Run

/-!
# The program

Reads the command line and the file that it names, and prints what the command shows.  Diagnostics,
the log and errors go to standard error.

The exit status is zero after success, one after an error, and two when the command line is not well
formed.
-/

open CrateScope

/-- What is printed about the command line. -/
def usageText : String :=
  "Usage: crate-scope [-v | -q]... dump GRAPH [--crate NAME] [--edition YEAR]\n" ++
  "       crate-scope [-v | -q]... resolve GRAPH --crate NAME [--module MODULE] [--import]\n" ++
  "                   [--edition YEAR] PATH\n"

/-- The text of a file, if it can be read. -/
def readText (file : String) : IO (Option String) := do
  try
    return some (← IO.FS.readFile file)
  catch _ =>
    return none

/-- Prints a report to standard error. -/
def printReport (kind : String) (report : Report) : IO Unit := do
  IO.eprintln (kind ++ ": " ++ report.message ++ " (" ++ report.code ++ ")")
  if let some help := report.help then
    IO.eprintln ("  help: " ++ help)

/-- Carries a command out, and prints what comes of it. -/
def execute (line : CommandLine) : IO UInt32 := do
  let (result, log) := line.command.run (← readText line.command.file)
  for entry in log do
    if (entry.level.rank : Int) ≤ line.verbosity then
      IO.eprintln entry.line
  match result with
  | .ok answer =>
    IO.print answer.text
    for diagnostic in answer.diagnostics do
      printReport (if diagnostic.isWarning then "warning" else "error") diagnostic.report
    return 0
  | .error error =>
    printReport "error" error.report
    return 1

/-- Runs the program. -/
def main (args : List String) : IO UInt32 := do
  match CommandLine.parse args with
  | .ok line => execute line
  | .error .help =>
    IO.print usageText
    return 0
  | .error .usage =>
    IO.eprint usageText
    return 2
