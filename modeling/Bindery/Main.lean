import Bindery.CommandLine
/-!
# The program

Runs the command line on the files of the system.
-/
namespace Bindery

/-- Reads a file of the system. -/
def readSystemFile (path : String) : IO FileText := do
  try
    return .text (← IO.FS.readFile path)
  catch error =>
    match error with
    | .noFileOrDirectory .. => return .missing
    | _ => return .unreadable

end Bindery

def main (words : List String) : IO UInt32 := do
  let outcome ← Bindery.CommandLine.run Bindery.readSystemFile words
  outcome.output.forM IO.println
  outcome.complaints.forM IO.eprintln
  if let some found := outcome.found then
    IO.eprintln ("\n" ++ found)
  return outcome.exitCode
