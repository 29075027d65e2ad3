import RegisterFlow.Proofs.Code.Building
import RegisterFlow.Proofs.Tracking.Supply

/-!
# Definitions on every way

If every way from the entry to a block visits a definition of a location, then the latest definition
on each way reaches the block. If only one value reaches it, that value was computed before the
latest definition was made, and nowhere after it: so it can be read in the block, and it is still
what it was.
-/

namespace RegisterFlow

namespace Tracker

/-- Every way to a block visits a block that holds a definition of a location. -/
def OnEveryWay (graph : FlowGraph) (tracker : Tracker) (location : Location) (block : BlockId) :
    Prop :=
  ∀ visited, graph.Arrives visited block →
    ∃ source ∈ visited, (tracker.content? graph location source).isSome

variable {graph : FlowGraph} {tracker : Tracker} {location : Location} {block : BlockId}
  {visited : List BlockId}

/-- The latest definition on a way reaches the block. -/
theorem exists_latest_definition (arrives : graph.Arrives visited block)
    (held : ∃ source ∈ visited, (tracker.content? graph location source).isSome) :
    ∃ passed source earlier, visited = passed ++ source :: earlier ∧
      Reaches graph tracker location source block ∧
      ∀ other ∈ passed, tracker.content? graph location other = none := by
  rcases exists_latest held with ⟨passed, source, earlier, rfl, held, unheld⟩
  have transparent : ∀ other ∈ passed, tracker.content? graph location other = none :=
    fun other mem => Option.not_isSome_iff_eq_none.mp (unheld other mem)
  refine ⟨passed, source, earlier, rfl, ?_, transparent⟩
  exact reaches_of_path (FlowGraph.arrives_append.mp arrives).1 held transparent

theorem OnEveryWay.reaching_ne_nil (everywhere : tracker.OnEveryWay graph location block)
    (closed : graph.Closed) (arrives : graph.Arrives visited block) :
    tracker.reaching graph location block false ≠ [] := by
  rcases exists_latest_definition arrives (everywhere visited arrives) with
    ⟨_, _, _, _, reaches, _⟩
  exact Tracker.reaching_ne_nil closed reaches

section Single

variable {func : Function} {value : ValueId} {source : BlockId}

/-- Every known definition can be read in the block that holds it. -/
def Readable (graph : FlowGraph) (func : Function) (tracker : Tracker) : Prop :=
  ∀ location source value, tracker.content? graph location source = some (.known value) →
    func.Usable graph source value

variable {found : BlockId} (everywhere : tracker.OnEveryWay graph location block)
  (closed : graph.Closed) (readable : tracker.Readable graph func)
  (reached : tracker.reaching graph location block false =
    [{ block := found, content := .known value }])
include everywhere closed readable reached

/-- A single value that reaches a block can be read there. -/
theorem OnEveryWay.usable_of_single (arrives : graph.Arrives visited block) :
    func.Usable graph block value := by
  have latest : ∀ {visited}, graph.Arrives visited block →
      ∃ passed source earlier, visited = passed ++ source :: earlier ∧
        func.Usable graph source value := by
    intro visited arrives
    rcases exists_latest_definition arrives (everywhere visited arrives) with
      ⟨passed, source, earlier, split, reaches, _⟩
    exact ⟨passed, source, earlier, split,
      readable location source value (reaches.known_of_single closed reached)⟩
  rcases latest arrives with ⟨_, _, _, _, usable⟩
  refine ⟨usable.word, fun inner => ?_⟩
  rcases usable.computed inner with ⟨result, owner, owned, _⟩
  refine ⟨result, owner, owned, Or.inr fun visited arrives => ?_⟩
  rcases latest arrives with ⟨passed, source, earlier, rfl, usable⟩
  rcases usable.computed inner with ⟨_, same, same_owned, precedes⟩
  obtain rfl : same = owner := by
    rw [owned] at same_owned
    exact (Option.some.inj same_owned).symm
  rcases precedes with rfl | precedes
  · simp
  · have before := precedes earlier (FlowGraph.arrives_append.mp arrives).2
    simp [before]

/--
A single value that reaches a block is computed neither there nor on the way to it from the latest
definition. Otherwise consider the first visit to the block that computes the value: the latest
definition before it has the value as well, although it has not been computed yet.
-/
theorem OnEveryWay.not_computed_of_single {owner : BlockId} {passed earlier : List BlockId}
    (inner : (func.operation value).isLeaf = false)
    (owned : (func.value value).block = some owner)
    (arrives : graph.Arrives (passed ++ source :: earlier) block)
    (passes : ∀ other ∈ passed, tracker.content? graph location other = none) :
    owner ∉ block :: passed := by
  intro computed
  -- From the first visit to the owner on, no definition is visited until the block is entered.
  have exists_first : ∃ later first, graph.Arrives first owner ∧ owner ∉ first ∧
      graph.Arrives (later ++ first) block ∧
      ∀ other ∈ later, tracker.content? graph location other = none := by
    rcases List.mem_cons.mp computed with rfl | mem
    · rcases arrives.exists_first with ⟨first, arrives, fresh⟩
      exact ⟨[], first, arrives, fresh, arrives, by simp⟩
    · rcases List.append_of_mem mem with ⟨later, rest, passed_eq⟩
      rw [passed_eq, List.append_assoc, List.cons_append, FlowGraph.arrives_append] at arrives
      rcases arrives.2.exists_first with ⟨first, first_arrives, fresh⟩
      refine ⟨later ++ [owner], first, first_arrives, fresh, ?_, ?_⟩
      · rw [List.append_assoc, List.singleton_append, FlowGraph.arrives_append]
        exact ⟨arrives.1, first_arrives⟩
      · intro other other_mem
        apply passes
        rw [passed_eq]
        rcases List.mem_append.mp other_mem with front | last
        · exact List.mem_append_left _ front
        · rw [List.mem_singleton.mp last]
          simp
  rcases exists_first with ⟨later, first, first_arrives, fresh, arrives, unheld⟩
  have held : ∃ origin ∈ first, (tracker.content? graph location origin).isSome := by
    rcases everywhere _ arrives with ⟨origin, mem, held⟩
    rcases List.mem_append.mp mem with front | behind
    · rw [unheld origin front] at held
      cases held
    · exact ⟨origin, behind, held⟩
  rcases exists_latest held with ⟨between, origin, before, rfl, held, transparent⟩
  have reaches : Reaches graph tracker location origin block := by
    rw [← List.append_assoc, FlowGraph.arrives_append] at arrives
    refine reaches_of_path arrives.1 held fun other mem => ?_
    rcases List.mem_append.mp mem with front | behind
    · exact unheld other front
    · exact Option.not_isSome_iff_eq_none.mp (transparent other behind)
  have usable := readable location origin value (reaches.known_of_single closed reached)
  rcases usable.computed inner with ⟨_, same, same_owned, precedes⟩
  obtain rfl : same = owner := by
    rw [owned] at same_owned
    exact (Option.some.inj same_owned).symm
  rcases precedes with rfl | precedes
  · simp at fresh
  · have seen := precedes before (FlowGraph.arrives_append.mp first_arrives).2
    simp [seen] at fresh

end Single

end Tracker

end RegisterFlow
