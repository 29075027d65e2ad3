import RegisterFlow.Tracking.Raising
import RegisterFlow.Tracking.Reaching

/-!
# Reading locations

A read is answered by the definition of its own block, or by the one known value that reaches the
block. Where several definitions meet, they meet in a frame slot: each block that defines the
location stores its value at its end, now or once it is known, and the reading block loads the slot.
What was loaded is the definition of the reading block from then on.
-/

namespace RegisterFlow

/-- The conversion between two different types, if there is one. -/
def Conversion.between? : Ty → Ty → Option Conversion
  | .int source, .int target => some (if source < target then .zext else .trunc)
  | .ptr, .int _ => some .ptrToInt
  | .int 64, .ptr => some .intToPtr
  | .f64, .int 64 | .f32, .int 32 | .int 64, .f64 | .int 32, .f32 => some .bitcast
  | _, _ => none

/-- The width of a reaching definition whose value is a known integer. -/
def ReachingDefinition.integerWidth? (func : Function) (definition : ReachingDefinition) :
    Option Nat :=
  definition.content.value?.bind fun value => (func.ty value).intBits?

/--
The type of the slot in which definitions meet: the widest of them if all are known integers, or an
integer of the full width of the location.
-/
def meetingTy (func : Function) (fullWidth : Nat) (hits : List ReachingDefinition) : Ty :=
  match hits.mapM (·.integerWidth? func) with
  | some widths => .int (widths.foldl max 0)
  | none => .int fullWidth

namespace Raise

/-- Converts a value to a type at the end of a block, if it has another type. -/
def convert (location : Location) (block : BlockId) (value : ValueId) (target : Ty) :
    Raise ValueId := do
  let source := (← get).func.ty value
  if source = target then
    return value
  match Conversion.between? source target with
  | some kind => build (Builder.cast block kind value target)
  | none => throw (.inconsistentWidth location (.conversion source target))

/-- Stores a value, converted to the type of the slot, at the end of a block. -/
def storeConverted (location : Location) (block : BlockId) (slot : SlotId) (value : ValueId) :
    Raise Unit := do
  let converted ← convert location block value ((← get).func.slot slot).ty
  discard <| build (Builder.store block slot converted)

/-- Lets a definition reach a slot: a known value is stored now, a pending one later. -/
def supply (location : Location) (slot : SlotId) (hit : ReachingDefinition) : Raise Unit := do
  match hit.content with
  | .known value => storeConverted location hit.block slot value
  | .pending =>
    update (·.defer { location, block := hit.block, slot })
    count Statistics.countDeferred

/--
Lets definitions meet in a new slot and loads it in a block. With `asNative`, the loaded value is
converted to the type at which the location is read.
-/
def merge (graph : FlowGraph) (location : Location) (native : Ty) (block : BlockId)
    (hits : List ReachingDefinition) (asNative : Bool) : Raise ValueId := do
  let ty := meetingTy (← get).func (graph.convention.fullWidth location) hits
  let slot ← build (Builder.allocate ty (location.name ++ "-merge"))
  count Statistics.countPromotion
  hits.forM (supply location slot)
  let loaded ← build (Builder.load block slot)
  let value ← if asNative then convert location block loaded native else pure loaded
  build (Builder.rename value location.name)
  define location block ((← get).func.ty value).bits value
  update (·.addMerge { location, block, slot, value })
  return value

/-- Reads a location in a block. There is no answer if no definition reaches the block. -/
def readLocation (graph : FlowGraph) (location : Location) (native : Ty) (block : BlockId)
    (allPaths asNative : Bool) : Raise (Option ValueId) := do
  match (← definitionIn? graph location block).bind Definition.value? with
  | some value =>
    count Statistics.countLocalHit
    return some value
  | none =>
    count Statistics.countPredecessorWalk
    match (← get).tracker.reaching graph location block allPaths with
    | [] => return none
    | [{ content := .known value, .. }] => return some value
    | hits => return some (← merge graph location native block hits asNative)

/--
Reads a register in a block, at the width of the register. With `allPaths`, definitions have to
reach the block over all of its predecessors.
-/
def readRegister (graph : FlowGraph) (register : Register) (block : BlockId)
    (allPaths asNative : Bool) : Raise (Option ValueId) := do
  let location ← ofExcept (graph.convention.locationOf register)
  readLocation graph location (.int (graph.convention.width register)) block allPaths asNative

/-- The different definitions of a register that reach a block from its predecessors. -/
def reachingDefinitions (graph : FlowGraph) (register : Register) (block : BlockId)
    (allPaths : Bool) : Raise (List ReachingDefinition) := do
  let location ← ofExcept (graph.convention.locationOf register)
  return (← get).tracker.reaching graph location block allPaths

end Raise

end RegisterFlow
