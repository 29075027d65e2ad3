import RegisterFlow.Trace.Report

/-!
# The tracing program

Reads a listing from a file and prints the report on it.
-/

namespace RegisterFlow

/-- How the tracing program is called. -/
def usage : String :=
  "usage: registerflow FILE [--func NAME] [--resolve REG@BLOCK]... " ++
    "[--all-preds] [--disasm] [--stats]"

/-- The run on a file. -/
def traceFile (options : TraceOptions) (file : String) : IO Trace := do
  try
    return Trace.ofText options file (← IO.FS.readFile file)
  catch
    | .noFileOrDirectory .. => return Trace.unreadable file Trace.missingFile
    | failure => return Trace.unreadable file (toString failure)

end RegisterFlow

open RegisterFlow in
def main (arguments : List String) : IO UInt32 := do
  match CommandLine.ofArguments? arguments with
  | none =>
    IO.eprintln usage
    return 2
  | some (file, options) =>
    let trace ← traceFile options file
    IO.print (Trace.join trace.output)
    IO.eprint (Trace.join trace.errors)
    return if trace.succeeds then 0 else 1
