import RegisterFlow.Code.Function
import RegisterFlow.FlowGraph
import RegisterFlow.Instruction.Decode

/-!
# Routines

A routine is a machine function: the types of its arguments and its blocks of instructions, each
with the blocks that may follow it.
-/

namespace RegisterFlow

/-- A block of instructions and its successors, in the order in which they are written. -/
structure RoutineBlock where
  name : String
  instructions : List Instruction
  successors : List BlockId
  deriving DecidableEq, Repr

/-- A machine function. -/
structure Routine where
  name : String
  argumentTypes : List Ty
  blocks : List RoutineBlock
  deriving DecidableEq, Repr

/-- What an instruction does, as far as tracking needs to know. -/
def Instruction.effect (instruction : Instruction) : Effect where
  writes := instruction.encoding.writes
  family := instruction.encoding.family

/-- What is known about an instruction of a routine. -/
structure InstructionEntry where
  block : BlockId
  instruction : Instruction
  effect : Effect

/--
The instructions of a routine, numbered in layout order, and the range of numbers that each block
has: the first one, and the one past the last. Numbers have 32 bits.
-/
structure InstructionTable where
  entries : Array InstructionEntry := #[]
  ranges : Array (UInt32 × UInt32) := #[]

namespace InstructionTable

/-- Enters the instructions of the next block. -/
def addBlock (table : InstructionTable) (block : BlockId) (instructions : List Instruction) :
    InstructionTable :=
  let entries := instructions.foldl
    (fun entries instruction => entries.push { block, instruction, effect := instruction.effect })
    table.entries
  { entries, ranges := table.ranges.push (.ofNat table.entries.size, .ofNat entries.size) }

/--
The number of an instruction of a block. The index is cut to 32 bits before it is compared, and a sum
that does not fit 32 bits is no number of the block.
-/
def instructionAt? (table : InstructionTable) (block : BlockId) (index : UInt64) : Option UInt32 :=
  match table.ranges[block]? with
  | some (first, past) =>
    let number := first + index.toUInt32
    if first ≤ number ∧ number < past then some number else none
  | none => none

/-- The numbers of the instructions of a block. -/
def instructionsOf (table : InstructionTable) (block : BlockId) : List UInt32 :=
  match table.ranges[block]? with
  | some (first, past) => (List.range' first.toNat (past.toNat - first.toNat)).map .ofNat
  | none => []

/-- The block to which an instruction belongs. -/
def blockOf? (table : InstructionTable) (number : UInt32) : Option BlockId :=
  table.entries[number.toNat]?.map InstructionEntry.block

/-- What the instructions of a block do. -/
def effectsOf (table : InstructionTable) (block : BlockId) : List Effect :=
  (table.instructionsOf block).filterMap fun number =>
    table.entries[number.toNat]?.map InstructionEntry.effect

end InstructionTable

namespace Routine

/-- The number of instructions. -/
def instructionCount (routine : Routine) : Nat :=
  (routine.blocks.flatMap RoutineBlock.instructions).length

/-- The names of the blocks. -/
def blockNames (routine : Routine) : List String :=
  routine.blocks.map RoutineBlock.name

/-- Lists a block with its successors as their predecessor. -/
def addPredecessor (source : BlockId) (successors : List BlockId)
    (table : Array (List BlockId)) : Array (List BlockId) :=
  successors.foldl (fun table target => table.modify target (· ++ [source])) table

/-- The predecessors of all blocks, derived from their successors. -/
def predecessorTable (routine : Routine) : Array (List BlockId) :=
  routine.blocks.zipIdx.foldl
    (fun table (block, source) => addPredecessor source block.successors table)
    (Array.replicate routine.blocks.length [])

/-- The instructions of a routine, block by block. -/
def instructionTable (routine : Routine) : InstructionTable :=
  routine.blocks.zipIdx.foldl (fun table (block, id) => table.addBlock id block.instructions) {}

/-- The flow graph of a routine. -/
def flowGraph (routine : Routine) : FlowGraph where
  blocks :=
    let predecessors := routine.predecessorTable
    let instructions := routine.instructionTable
    (routine.blocks.mapIdx fun id block =>
      { name := block.name
        predecessors := predecessors[id]?.getD []
        effects := instructions.effectsOf id }).toArray

/-- A function of raised code with the same arguments and blocks, but without instructions. -/
def skeleton (routine : Routine) : Function :=
  Function.empty routine.name routine.argumentTypes routine.blockNames

end Routine

end RegisterFlow
