/-!
# Command line

The arguments of the tracing program: the file with the listing, and options.
-/

namespace RegisterFlow

/-- What to trace and what to show. -/
structure TraceOptions where
  /-- The only routine to trace, by name; otherwise all are traced. -/
  routine : Option String := none
  /-- Reads to answer, each as a register or flag, an at sign and a block. -/
  queries : List String := []
  allPaths : Bool := false
  disassemble : Bool := false
  statistics : Bool := false
  deriving DecidableEq, Repr

/-- The arguments of the tracing program. -/
structure CommandLine where
  file : Option String := none
  options : TraceOptions := {}
  deriving DecidableEq, Repr

namespace CommandLine

/-- Arguments that are taken as options: those that start with a dash, except for a lone dash. -/
def isOption (argument : String) : Bool :=
  argument.startsWith "-" && argument ≠ "-"

/-- Takes an argument as the file. There can be only one. -/
def addFile? (line : CommandLine) (argument : String) : Option CommandLine :=
  if line.file.isNone then some { line with file := some argument } else none

/-- Takes an argument as the name of the only routine to trace. It can be given only once. -/
def addRoutine? (line : CommandLine) (argument : String) : Option CommandLine :=
  if line.options.routine.isNone ∧ !isOption argument then
    some { line with options := { line.options with routine := some argument } }
  else
    none

/-- Takes an argument as one more read to answer. -/
def addQuery? (line : CommandLine) (argument : String) : Option CommandLine :=
  if isOption argument then none
  else some { line with options := { line.options with
    queries := line.options.queries ++ [argument] } }

/-- Takes an option without a value, which can be given only once. -/
def addSwitch? (line : CommandLine) (argument : String) : Option CommandLine :=
  let options := line.options
  match argument with
  | "--all-preds" =>
    if options.allPaths then none
    else some { line with options := { options with allPaths := true } }
  | "--disasm" =>
    if options.disassemble then none
    else some { line with options := { options with disassemble := true } }
  | "--stats" =>
    if options.statistics then none
    else some { line with options := { options with statistics := true } }
  | _ => none

/--
Reads arguments from left to right. After two dashes, every argument is a file. There is no answer
if an argument is not understood.
-/
def extend? : CommandLine → List String → Option CommandLine
  | line, [] => some line
  | line, "--" :: files => files.foldlM addFile? line
  | line, "--func" :: routine :: rest => (line.addRoutine? routine).bind (extend? · rest)
  | line, "--resolve" :: query :: rest => (line.addQuery? query).bind (extend? · rest)
  | line, argument :: rest =>
    if isOption argument then (line.addSwitch? argument).bind (extend? · rest)
    else (line.addFile? argument).bind (extend? · rest)

/-- The file and options that arguments name; the file has to be there. -/
def ofArguments? (arguments : List String) : Option (String × TraceOptions) :=
  (extend? {} arguments).bind fun line => line.file.map fun file => (file, line.options)

end CommandLine

end RegisterFlow
