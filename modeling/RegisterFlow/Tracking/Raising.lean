import RegisterFlow.Code.Frame
import RegisterFlow.Statistics
import RegisterFlow.Tracking.Tracker

/-!
# Raising

Raising a machine function builds a function of raised code and tracks definitions at the same time.
What was built and tracked before a failure stays.
-/

namespace RegisterFlow

/-- The state of raising a function. -/
structure Raising where
  func : Function
  tracker : Tracker
  statistics : Statistics := {}
  deriving DecidableEq, Repr

/-- A step of raising, which may fail. -/
abbrev Raise :=
  EStateM TrackingError Raising

namespace Raise

/-- Extends the function. -/
def build {α : Type} (builder : Builder α) : Raise α :=
  fun { func, tracker, statistics } =>
    match builder.run func with
    | (result, func) => .ok result { func, tracker, statistics }

/-- Counts what happened. -/
def count (tally : Statistics → Statistics) : Raise Unit :=
  modify fun raising => { raising with statistics := tally raising.statistics }

/-- Changes the tracker. -/
def update (change : Tracker → Tracker) : Raise Unit :=
  modify fun raising => { raising with tracker := change raising.tracker }

/-- Succeeds or fails as a result does. -/
def ofExcept {α : Type} (result : Except TrackingError α) : Raise α :=
  match result with
  | .ok value => pure value
  | .error failure => throw failure

/-- Files the value of a location in a block. -/
def define (location : Location) (block : BlockId) (width : Nat) (value : ValueId) :
    Raise Unit := do
  let table ← ofExcept ((← get).tracker.table.record location block width value)
  update ({ · with table })

/-- The definition of a location in a block, without regard to other blocks. -/
def definitionIn? (graph : FlowGraph) (location : Location) (block : BlockId) :
    Raise (Option Definition) :=
  return (← get).tracker.definitionIn? graph location block

/--
Records that a register holds a value from now on in a block. The width is that of the register that
is written, the location that of the widest register around it.
-/
def writeRegister (graph : FlowGraph) (register : Register) (block : BlockId) (value : ValueId) :
    Raise Unit := do
  let location ← ofExcept (graph.convention.locationOf register)
  define location block (graph.convention.width register) value
  count Statistics.countDefinition

/--
Notes that a block is raised to its end. What is still pending there was never defined and is
dropped. The answer is the number of definitions dropped.
-/
def endBlock (block : BlockId) : Raise Nat := do
  let dropped := ((← get).tracker.table.pendingIn block).length
  update fun tracker => { tracker with table := tracker.table.withoutPending block }
  count (Statistics.countPendingDropped dropped)
  return dropped

end Raise

end RegisterFlow
