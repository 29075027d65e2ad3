import Mathlib.Tactic.Common
import RegisterFlow.FlowGraph

/-!
# Routes through a flow graph

The paths of a flow graph from one block to another, and the ways that lead from the entry to a
block, each as the list of blocks that it visits. A block that is on all of them has been visited
when the other block is entered.
-/

namespace RegisterFlow

namespace FlowGraph

/--
A path of the graph from one block to another. The blocks in between are listed from the latest to
the first.
-/
def Path (graph : FlowGraph) (source : BlockId) : List BlockId → BlockId → Prop
  | [], block => source ∈ graph.predecessors block
  | nearest :: between, block =>
    nearest ∈ graph.predecessors block ∧ graph.Path source between nearest

/-- Visited blocks lead from the entry to a block. They are listed from the latest to the first. -/
def Arrives (graph : FlowGraph) : List BlockId → BlockId → Prop
  | [], block => block = graph.entry
  | nearest :: visited, block =>
    nearest ∈ graph.predecessors block ∧ graph.Arrives visited nearest

/-- A block has been visited or is being visited whenever another one is. -/
def Precedes (graph : FlowGraph) (first block : BlockId) : Prop :=
  first = block ∨ ∀ visited, graph.Arrives visited block → first ∈ visited

variable {graph : FlowGraph} {source middle block : BlockId} {later between visited : List BlockId}

theorem path_append :
    graph.Path source (later ++ middle :: between) block ↔
      graph.Path middle later block ∧ graph.Path source between middle := by
  induction later generalizing block with
  | nil => rfl
  | cons nearest later ih => rw [List.cons_append, Path, ih, Path, and_assoc]

theorem arrives_append :
    graph.Arrives (between ++ source :: visited) block ↔
      graph.Path source between block ∧ graph.Arrives visited source := by
  induction between generalizing block with
  | nil => rfl
  | cons nearest between ih => rw [List.cons_append, Arrives, ih, Path, and_assoc]

theorem lt_size_of_mem_predecessors {predecessor : BlockId}
    (edge : predecessor ∈ graph.predecessors block) : block < graph.blocks.size := by
  by_contra outside
  have nothing : graph.predecessors block = [] := by
    simp [predecessors, FlowGraph.block, Nat.not_lt.mp outside, default]
  rw [nothing] at edge
  cases edge

theorem Arrives.lt_size (entry_lt : graph.entry < graph.blocks.size)
    (arrives : graph.Arrives visited block) : block < graph.blocks.size := by
  cases visited with
  | nil => exact arrives ▸ entry_lt
  | cons nearest visited => exact lt_size_of_mem_predecessors arrives.1

/-- A block can be reached without a visit to it before. -/
theorem Arrives.exists_first (arrives : graph.Arrives visited block) :
    ∃ shorter, graph.Arrives shorter block ∧ block ∉ shorter := by
  induction length_eq : visited.length using Nat.strongRecOn generalizing visited with
  | ind length ih =>
      by_cases again : block ∈ visited
      · rcases List.append_of_mem again with ⟨between, earlier, rfl⟩
        apply ih earlier.length _ (arrives_append.mp arrives).2 rfl
        rw [← length_eq, List.length_append, List.length_cons]
        omega
      · exact ⟨visited, arrives, again⟩

end FlowGraph

/-- The latest block of a list with a property, and those in front of it without. -/
theorem exists_latest {holds : BlockId → Prop} {visited : List BlockId}
    (some_holds : ∃ block ∈ visited, holds block) :
    ∃ passed source earlier, visited = passed ++ source :: earlier ∧ holds source ∧
      ∀ block ∈ passed, ¬ holds block := by
  induction visited with
  | nil =>
      rcases some_holds with ⟨_, mem, _⟩
      cases mem
  | cons nearest visited ih =>
      by_cases here : holds nearest
      · exact ⟨[], nearest, visited, rfl, here, fun _ mem => absurd mem List.not_mem_nil⟩
      · have later : ∃ block ∈ visited, holds block := by
          rcases some_holds with ⟨block, mem, held⟩
          rcases List.mem_cons.mp mem with rfl | mem
          · exact absurd held here
          · exact ⟨block, mem, held⟩
        rcases ih later with ⟨passed, source, earlier, rfl, held, passes⟩
        refine ⟨nearest :: passed, source, earlier, rfl, held, ?_⟩
        intro block mem
        rcases List.mem_cons.mp mem with rfl | mem
        · exact here
        · exact passes block mem

end RegisterFlow
