import SketchPrep.CommandLine.Report
import Std.Time

/-!
The program: it reads the files that the command line names, prints the report, and exits.
-/

namespace SketchPrep.CommandLine

def readText (path : String) : IO (Option Text) := do
  try
    return some (← IO.FS.readFile path).toList
  catch _ => return none

def readTexts (paths : List String) : IO Files := do
  let texts ← paths.mapM fun path => do return (path, ← readText path)
  return fun path => (texts.lookup path).join

def writeText (path : String) (text : Text) : IO Bool := do
  try
    IO.FS.writeFile path (String.ofList text)
    return true
  catch _ => return false

/-- Today as year, month and day. -/
def today : IO String := do
  return toString (← Std.Time.PlainDate.now)

def perform (answer : Answer) : IO Report := do
  match answer with
  | .report r => return r
  | .write path text _ => return answer.finish (← writeText path text)

def execute (args : List String) : IO Report := do
  match Invocation.ofWords args with
  | .error e => return .ofUsageError e
  | .ok invocation =>
    let files ← readTexts invocation.paths
    perform (invocation.run files (← today))

end SketchPrep.CommandLine

def main (args : List String) : IO UInt32 := do
  let report ← SketchPrep.CommandLine.execute args
  IO.print report.output
  IO.eprint report.errors
  return report.exitCode.toUInt32
