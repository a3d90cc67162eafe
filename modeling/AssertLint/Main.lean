import AssertLint.Command.Line

/-!
# The program

Reads the command line and the file it names, and prints the result.
-/

namespace AssertLint

/-- The contents of a file, if it can be read. -/
def readFile? (path : String) : IO (Option String) :=
  try
    some <$> IO.FS.readFile path
  catch _ =>
    return none

end AssertLint

/-- Runs the command line and ends with its exit code. -/
def main (arguments : List String) : IO UInt32 := do
  let result ← AssertLint.Command.run AssertLint.readFile? arguments
  IO.print result.output
  return result.exitCode.toUInt32
