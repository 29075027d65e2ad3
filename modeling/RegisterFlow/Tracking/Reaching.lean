import RegisterFlow.Tracking.Tracker

/-!
# Reaching definitions

The definitions of a location that reach a block over its predecessors. From each predecessor the
flow graph is searched backwards, nearest blocks first; every path ends at the first block that
defines the location.
-/

namespace RegisterFlow

/-- A definition that reaches a block: where it was made and what is known about its value. -/
structure ReachingDefinition where
  block : BlockId
  content : Content
  deriving DecidableEq, Repr

/--
Whether two reaching definitions are the same: they have the same value, or they are pending in the
same block.
-/
def ReachingDefinition.isSame (first second : ReachingDefinition) : Bool :=
  match first.content, second.content with
  | .known first, .known second => first = second
  | .pending, .pending => first.block = second.block
  | _, _ => false

namespace Tracker

/--
Searches backwards from the blocks in `queue`, which is served in order. Each block of `unseen` is
searched once, and no other block is.
-/
def search (graph : FlowGraph) (tracker : Tracker) (location : Location) :
    (unseen queue : List BlockId) → List ReachingDefinition
  | _, [] => []
  | unseen, block :: queue =>
    if block ∈ unseen then
      match tracker.definitionIn? graph location block with
      | some definition =>
        { block, content := definition.content } ::
          tracker.search graph location (unseen.erase block) queue
      | none =>
        tracker.search graph location (unseen.erase block) (queue ++ graph.predecessors block)
    else
      tracker.search graph location unseen queue
termination_by unseen queue => (unseen.length, queue.length)
decreasing_by
  · have positive := List.length_pos_of_mem ‹block ∈ unseen›
    have shorter := List.length_erase_of_mem ‹block ∈ unseen›
    exact Prod.Lex.left _ _ (by omega)
  · have positive := List.length_pos_of_mem ‹block ∈ unseen›
    have shorter := List.length_erase_of_mem ‹block ∈ unseen›
    exact Prod.Lex.left _ _ (by omega)
  · exact Prod.Lex.right _ (by simp)

/-- The definitions that reach the end of a block. -/
def reachingEnd (graph : FlowGraph) (tracker : Tracker) (location : Location) (block : BlockId) :
    List ReachingDefinition :=
  tracker.search graph location (List.range graph.blocks.size) [block]

/--
The different definitions that reach a block from its predecessors. With `allPaths`, there are none
unless some definition reaches the end of every predecessor.
-/
def reaching (graph : FlowGraph) (tracker : Tracker) (location : Location) (block : BlockId)
    (allPaths : Bool) : List ReachingDefinition :=
  let found := (graph.predecessors block).eraseDups.map (tracker.reachingEnd graph location)
  if allPaths && found.any List.isEmpty then []
  else found.flatten.eraseDupsBy ReachingDefinition.isSame

end Tracker

end RegisterFlow
