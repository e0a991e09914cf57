/-
# Dvi.Main — the dump as a program.

The program understands its arguments, reads the file that they name, prints the report and ends
with its exit code. Arguments that start no dump have a report of their own, and no file is read.
All decisions are made in `Dvi.Dump`.
-/
import Dvi.Dump.Report

namespace Dvi.Dump

/-- A failure of the system in its own words. -/
def describeFailure : IO.Error → IoError
  | .noFileOrDirectory .. => .notFound
  | e => ⟨toString e⟩

/-- The bytes of a file. -/
def readFile (path : String) : IO (Except IoError Bytes) := do
  try
    return .ok (← IO.FS.readBinFile path).toList
  catch e =>
    return .error (describeFailure e)

end Dvi.Dump

/-- Prints the command stream of a DVI file. -/
def main (arguments : List String) : IO UInt32 := do
  let report ←
    match Dvi.Dump.Options.ofArguments arguments with
    | .error ending => pure ending.report
    | .ok options => options.report <$> Dvi.Dump.readFile options.path
  (← IO.getStdout).write report.stdout.toByteArray
  IO.eprint report.stderr
  return report.exitCode
