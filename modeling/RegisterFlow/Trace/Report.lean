import RegisterFlow.Code.Render
import RegisterFlow.Listing.Parse
import RegisterFlow.Trace.CommandLine
import RegisterFlow.Tracking.Flags

/-!
# Trace reports

What the tracing program prints: the definitions that tracking starts with, and answers to reads in
the functions of a listing whose instructions are not raised. A function that fails is reported as
far as it went, and the next one follows.
-/

namespace RegisterFlow

/-- Pads a text with blanks up to a width. -/
def padded (width : Nat) (text : String) : String :=
  text.pushn ' ' (width - text.length)

/-- Why a read was not answered. -/
inductive QueryError where
  | malformed (query : String)
  | unknownBlock (name : String)
  | unknownRegister (name : String)
  | failed (failure : TrackingError)
  deriving DecidableEq, Repr

/-- The message for a read that was not answered. -/
def QueryError.message : QueryError → String
  | malformed query => "malformed query '" ++ query ++ "', expected REG@BLOCK"
  | unknownBlock name => "unknown block '" ++ name ++ "'"
  | unknownRegister name => "unknown register '" ++ name ++ "'"
  | failed failure => failure.message

/-- What a read is about. -/
inductive Subject where
  | register (held : Register)
  | flag (bit : Flag)
  deriving DecidableEq, Repr

/-- The parts of a text before and after its first at sign. -/
def splitAtSign? (text : String) : Option (String × String) :=
  match text.toList.span (· ≠ '@') with
  | (subject, _ :: block) => some (String.ofList subject, String.ofList block)
  | (_, []) => none

namespace FlowGraph

/-- The subject and the block that a read is about. -/
def query (graph : FlowGraph) (text : String) : Except QueryError (Subject × BlockId) := do
  let some (name, blockName) := splitAtSign? text | throw (.malformed text)
  let some block := graph.blockNamed? blockName | throw (.unknownBlock blockName)
  match Flag.ofName? name, Register.generalOfName? name with
  | some flag, _ => return (.flag flag, block)
  | none, some register => return (.register register, block)
  | none, none => throw (.unknownRegister name)

/-- Answers a read with a line of text. -/
def answer (graph : FlowGraph) (allPaths : Bool) (text : String) :
    EStateM QueryError Raising String := do
  let (subject, block) ← match graph.query text with
    | .ok query => pure query
    | .error failure => throw failure
  let value ← EStateM.adaptExcept .failed <| match subject with
    | .flag flag => Raise.readFlag graph flag block
    | .register register => Raise.readRegister graph register block allPaths true
  match value with
  | some value => return "  " ++ text ++ " = " ++ (← get).func.reference value
  | none => return "  " ++ text ++ " has no reaching definition"

/-- Answers reads up to the first failure. -/
def answers (graph : FlowGraph) (allPaths : Bool) :
    List String → Raising → List String × Option QueryError × Raising
  | [], raising => ([], none, raising)
  | text :: rest, raising =>
    match graph.answer allPaths text raising with
    | .error failure raising => ([], some failure, raising)
    | .ok line raising =>
      let (lines, outcome) := graph.answers allPaths rest raising
      (line :: lines, outcome)

/-- The line that shows a definition. -/
def definitionLine (graph : FlowGraph) (func : Function) (definition : Definition) : String :=
  "    " ++ padded 6 definition.location.name ++ " " ++
    padded 12 (graph.blockName definition.block) ++ " i" ++
    padded 3 (toString definition.width) ++ " " ++
    match definition.content with
    | .known value => func.reference value
    | .pending => "pending"

/-- The lines that show merges and deferred stores; if there are merges, the function follows. -/
def outcomeLines (graph : FlowGraph) (raising : Raising) : List String :=
  let slotName (slot : SlotId) := (raising.func.slot slot).name
  let tracker := raising.tracker
  (tracker.merges.map fun merge =>
    "  merge of " ++ merge.location.name ++ " at " ++ graph.blockName merge.block ++ " through " ++
      slotName merge.slot) ++
  (tracker.deferred.map fun store =>
    "  deferred store of " ++ store.location.name ++ " from " ++ graph.blockName store.block ++
      " into " ++ slotName store.slot) ++
  if tracker.merges.isEmpty then [] else raising.func.lines

end FlowGraph

namespace Routine

/-- The lines that show the instructions of a block, with their families. -/
def disassembly (block : RoutineBlock) : List String :=
  ("  " ++ block.name ++ ":") :: block.instructions.map fun instruction =>
    "    " ++ padded 28 instruction.text ++ " ; " ++ instruction.encoding.family.name

/-- The report on a routine: its lines, the message if it failed, and the counts after it. -/
def report (options : TraceOptions) (statistics : Statistics) (routine : Routine) :
    List String × Option String × Statistics :=
  let graph := routine.flowGraph
  let func := routine.skeleton
  match Tracker.start graph func with
  | .error failure => ([], some failure.message, statistics)
  | .ok tracker =>
    let opening :=
      ("function " ++ routine.name ++ ":") ::
        (if options.disassemble then routine.blocks.flatMap disassembly else []) ++
        "  definitions:" :: tracker.table.definitions.map (graph.definitionLine func)
    match graph.answers options.allPaths options.queries { func, tracker, statistics } with
    | (lines, some failure, raising) =>
      (opening ++ lines, some failure.message, raising.statistics)
    | (lines, none, raising) =>
      (opening ++ lines ++ graph.outcomeLines raising, none, raising.statistics)

/-- The reports on routines, with one line for each failure, and the counts after them. -/
def reports (options : TraceOptions) :
    Statistics → List Routine → List String × List String × Statistics
  | statistics, [] => ([], [], statistics)
  | statistics, routine :: rest =>
    let (lines, failure, statistics) := routine.report options statistics
    let (others, failures, statistics) := reports options statistics rest
    (lines ++ others,
      (failure.map fun message => "error: " ++ routine.name ++ ": " ++ message).toList ++ failures,
      statistics)

end Routine

/-- What a run of the tracing program prints, and whether it succeeds. -/
structure Trace where
  output : List String
  errors : List String
  deriving DecidableEq, Repr

namespace Trace

/-- Runs succeed if they report no errors. -/
def succeeds (trace : Trace) : Bool :=
  trace.errors.isEmpty

/-- A run on a file that cannot be read. -/
def unreadable (file reason : String) : Trace where
  output := []
  errors := ["error: cannot read " ++ file ++ ": " ++ reason]

/-- The reason given for a file that does not exist. -/
def missingFile : String :=
  "No such file or directory (os error 2)"

/-- A run on a file with a text. -/
def ofText (options : TraceOptions) (file text : String) : Trace :=
  match Routine.parse text with
  | .error failure => { output := [], errors := ["error: " ++ file ++ ": " ++ failure.message] }
  | .ok routines =>
    let chosen := routines.filter fun routine => options.routine.all (· == routine.name)
    let (lines, failures, statistics) := Routine.reports options {} chosen
    { output := lines ++ (if options.statistics then statistics.lines else []), errors := failures }

/-- Lines as one text; every line ends with a line feed. -/
def join (lines : List String) : String :=
  String.join (lines.map (· ++ "\n"))

end Trace

end RegisterFlow
