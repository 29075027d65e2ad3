import RegisterFlow.Code.Function
import RegisterFlow.FlowGraph
import RegisterFlow.Tracking.Table

/-!
# Trackers

A tracker holds what is known about the registers and flags of one function while it is raised: the
definition table, the arguments that registers carry at the entry, the merges made so far, and the
stores that wait for values which are not known yet.
-/

namespace RegisterFlow

/-- The argument that a register carries at the entry, and its width. -/
structure Binding where
  value : ValueId
  width : Nat
  deriving DecidableEq, Repr

/-- A point where several definitions meet in a slot, with the value read from the slot there. -/
structure Merge where
  location : Location
  block : BlockId
  slot : SlotId
  value : ValueId
  deriving DecidableEq, Repr

/-- A store into a merge slot that waits for the value that its block defines. -/
structure DeferredStore where
  location : Location
  block : BlockId
  slot : SlotId
  deriving DecidableEq, Repr

/-- What is known about the locations of a function. -/
structure Tracker where
  table : Table := {}
  /-- The registers that carry arguments; of two entries for a register, the first one counts. -/
  bindings : List (Register × Binding) := []
  deferred : List DeferredStore := []
  drained : Nat := 0
  merges : List Merge := []
  deriving DecidableEq, Repr

/-- The location of a register, which is that of the register it is a part of. -/
def Convention.locationOf (convention : Convention) (register : Register) :
    Except TrackingError Location :=
  if register = .null then .error .nullRegister
  else .ok (.register (convention.canonical register))

/-- The width of all of a location. -/
def Convention.fullWidth (convention : Convention) : Location → Nat
  | .register register => convention.width register
  | .flag _ => 1

namespace Tracker

/-- Adds a store that waits for its value. -/
def defer (tracker : Tracker) (store : DeferredStore) : Tracker :=
  { tracker with deferred := tracker.deferred ++ [store] }

/-- Adds a merge. -/
def addMerge (tracker : Tracker) (merge : Merge) : Tracker :=
  { tracker with merges := tracker.merges ++ [merge] }

/-- The argument that a register carries at the entry. -/
def binding? (tracker : Tracker) (register : Register) : Option Binding :=
  tracker.bindings.lookup register

/-- The argument that a location carries at the entry. -/
def bindingAt? (tracker : Tracker) : Location → Option Binding
  | .register register => tracker.binding? register
  | .flag _ => none

/--
The definition of a location in a block, without regard to other blocks. In the entry block an
argument takes the place of a definition whose value is not known.
-/
def definitionIn? (graph : FlowGraph) (tracker : Tracker) (location : Location)
    (block : BlockId) : Option Definition :=
  let filed := tracker.table.get? location block
  if block = graph.entry ∧ (filed.bind Definition.value?).isNone then
    match tracker.bindingAt? location with
    | some binding =>
      some { location, block, width := binding.width, content := .known binding.value }
    | none => filed
  else
    filed

/-- The width of the definition of a location in a block, or 0. -/
def widthIn (graph : FlowGraph) (tracker : Tracker) (location : Location) (block : BlockId) : Nat :=
  ((tracker.definitionIn? graph location block).map Definition.width).getD 0

/-- The arguments of a function that travel in general purpose registers. -/
def integerArguments (func : Function) : List ValueId :=
  func.arguments.filter fun argument => (func.ty argument).IsIntegerClass

/-- The argument that an argument register carries. -/
def argumentOf? (graph : FlowGraph) (func : Function) (register : Register) : Option ValueId :=
  (graph.convention.argumentIndex? register).bind fun index => (integerArguments func)[index]?

/-- Binds an argument register to its argument, if it has one. -/
def bindArgument (graph : FlowGraph) (func : Function) (tracker : Tracker) (register : Register) :
    Except TrackingError Tracker :=
  match argumentOf? graph func register with
  | none => .ok tracker
  | some value => do
    let width := (func.ty value).bits
    let full := graph.convention.canonical register
    let table ← tracker.table.record (.register full) graph.entry width value
    return { tracker with table, bindings := (full, { value, width }) :: tracker.bindings }

/-- Notes that a block writes a register. -/
def seedWrite (graph : FlowGraph) (tracker : Tracker) (block : BlockId) (register : Register) :
    Except TrackingError Tracker := do
  let table ← tracker.table.markPending (.register (graph.convention.canonical register)) block
    (graph.convention.width register)
  return { tracker with table }

/-- The tracker with which the raising of a function starts. -/
def start (graph : FlowGraph) (func : Function) : Except TrackingError Tracker := do
  let bound ← graph.convention.argumentRegisters.foldlM (bindArgument graph func) {}
  graph.writes.foldlM (fun tracker (block, register) => seedWrite graph tracker block register)
    bound

end Tracker

end RegisterFlow
