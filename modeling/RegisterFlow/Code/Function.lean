import RegisterFlow.Code.Operation

/-!
# Functions

A function in static single assignment form: its values, its blocks and the slots of its frame. A
value is defined once and keeps its number. Arguments, constants and slot addresses belong to no
block; every other value is an instruction or the terminator of one.
-/

namespace RegisterFlow

/-- A value: its type, how it is computed, its printable name and the block that it belongs to. -/
structure Value where
  ty : Ty
  operation : Operation
  name : Option String := none
  block : Option BlockId := none
  deriving DecidableEq, Inhabited, Repr

/-- A block: its instructions in order, and its terminator once it has one. -/
structure Block where
  name : String
  instructions : Array ValueId := #[]
  terminator : Option ValueId := none
  deriving DecidableEq, Inhabited, Repr

/-- A frame slot. Its offset from the base of the frame is zero or negative. -/
structure Slot where
  name : String
  ty : Ty
  address : ValueId
  offset : Int
  align : Nat
  deriving DecidableEq, Inhabited, Repr

/-- A function of raised code. -/
structure Function where
  name : String
  arguments : List ValueId
  values : Array Value
  blocks : Array Block
  slots : Array Slot := #[]
  frameSize : Nat := 0
  deriving DecidableEq, Inhabited, Repr

namespace Function

/-- A function with arguments of the given types and empty blocks of the given names. -/
def empty (name : String) (argumentTypes : List Ty) (blockNames : List String) : Function where
  name
  arguments := List.range argumentTypes.length
  values := (argumentTypes.mapIdx fun index ty => { ty, operation := .argument index }).toArray
  blocks := (blockNames.map fun name => { name }).toArray

/-- The value with a number. Numbers that the function does not use read as a void return. -/
def value (func : Function) (id : ValueId) : Value :=
  func.values[id]?.getD default

/-- The type of a value. -/
def ty (func : Function) (id : ValueId) : Ty :=
  (func.value id).ty

/-- How a value is computed. -/
def operation (func : Function) (id : ValueId) : Operation :=
  (func.value id).operation

/-- The block with a number. Numbers that the function does not use read as an empty block. -/
def block (func : Function) (id : BlockId) : Block :=
  func.blocks[id]?.getD default

/-- The slot with a number. Numbers that the function does not use read as an empty slot. -/
def slot (func : Function) (id : SlotId) : Slot :=
  func.slots[id]?.getD default

/-- The number of the first block with a name. -/
def blockNamed? (func : Function) (name : String) : Option BlockId :=
  func.blocks.findIdx? (·.name == name)

/-- The payload of a constant. -/
def constant? (func : Function) (id : ValueId) : Option UInt64 :=
  match func.operation id with
  | .constant payload => some payload
  | _ => none

/-- The instructions of all blocks in layout order, each with its block. -/
def instructions (func : Function) : List (BlockId × ValueId) :=
  (List.range func.blocks.size).flatMap fun block =>
    (func.block block).instructions.toList.map (block, ·)

/-- The stores into a slot in layout order: the block of each and the value that it stores. -/
def slotStores (func : Function) (slot : SlotId) : List (BlockId × ValueId) :=
  func.instructions.filterMap fun (block, instruction) =>
    match func.operation instruction with
    | .store target operand => if target = slot then some (block, operand) else none
    | _ => none

/-- The loads from a slot in layout order, each with its block. -/
def slotLoads (func : Function) (slot : SlotId) : List (BlockId × ValueId) :=
  func.instructions.filter fun (_, instruction) => func.operation instruction = .load slot

/-- The value behind at most `depth` conversions that adjust the width. -/
def behindCastsWithin (func : Function) (depth : Nat) (id : ValueId) : ValueId :=
  match depth, func.operation id with
  | depth + 1, .cast kind operand =>
    if kind.adjustsWidth then func.behindCastsWithin depth operand else id
  | _, _ => id

/--
The value behind all conversions that adjust the width. An operand has a smaller number than the
value that reads it, so the number of the value bounds the length of the chain.
-/
def behindCasts (func : Function) (id : ValueId) : ValueId :=
  func.behindCastsWithin id id

end Function

end RegisterFlow
