import RegisterFlow.Code.Operation
import RegisterFlow.Instruction.Family
import RegisterFlow.Register.Convention

/-!
# Flow graphs

What tracking needs to know about a machine function: its blocks with their predecessors, the
registers that its instructions write and the families that they belong to, and the register
conventions of its target.
-/

namespace RegisterFlow

/-- What an instruction does, as far as tracking needs to know. -/
structure Effect where
  /-- The registers that are written, at the width at which they are. -/
  writes : List Register
  family : Family
  deriving DecidableEq, Repr

/-- A block of a machine function. A predecessor may be listed more than once. -/
structure FlowBlock where
  name : String
  predecessors : List BlockId
  effects : List Effect
  deriving DecidableEq, Repr

instance : Inhabited FlowBlock :=
  ⟨{ name := "", predecessors := [], effects := [] }⟩

/-- The flow graph of a machine function. -/
structure FlowGraph where
  entry : BlockId := BlockId.entry
  blocks : Array FlowBlock
  convention : Convention := Convention.systemV

namespace FlowGraph

/-- The block with a number. Numbers that the graph does not use read as an empty block. -/
def block (graph : FlowGraph) (id : BlockId) : FlowBlock :=
  graph.blocks[id]?.getD default

/-- The predecessors of a block. -/
def predecessors (graph : FlowGraph) (id : BlockId) : List BlockId :=
  (graph.block id).predecessors

/-- The name of a block. -/
def blockName (graph : FlowGraph) (id : BlockId) : String :=
  (graph.block id).name

/-- The number of the first block with a name. -/
def blockNamed? (graph : FlowGraph) (name : String) : Option BlockId :=
  graph.blocks.findIdx? (·.name == name)

/-- What an instruction of a block does. -/
def effect? (graph : FlowGraph) (id : BlockId) (index : Nat) : Option Effect :=
  (graph.block id).effects[index]?

/-- The registers that a block writes, in order. The null register is not a write. -/
def writesOf (graph : FlowGraph) (id : BlockId) : List Register :=
  ((graph.block id).effects.flatMap Effect.writes).filter (· ≠ .null)

/-- All writes in layout order, each with its block. -/
def writes (graph : FlowGraph) : List (BlockId × Register) :=
  (List.range graph.blocks.size).flatMap fun id => (graph.writesOf id).map (id, ·)

end FlowGraph

end RegisterFlow
