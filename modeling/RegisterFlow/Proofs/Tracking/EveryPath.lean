import Mathlib
import RegisterFlow.Proofs.Tracking.Reading
import RegisterFlow.Proofs.Tracking.Session
import RegisterFlow.Proofs.Tracking.Sources
import RegisterFlow.Proofs.Tracking.Supply

/-!
# Definitions on every path

A read that requires all paths asks of each predecessor of its block that some path to it carries a
definition. Where paths join further up, this says less than that every path from the entry does:
that holds exactly if the same can be asked of each block that the search passes on its way.
-/

namespace RegisterFlow

namespace Tracker

variable {graph : FlowGraph} {tracker : Tracker} {location : Location} {block passed : BlockId}

/-- On every path from the entry to a block, some block holds a definition of the location. -/
def CoversPaths (graph : FlowGraph) (tracker : Tracker) (location : Location)
    (block : BlockId) : Prop :=
  ∀ visited, graph.Arrives visited block →
    ∃ holder ∈ visited, (tracker.content? graph location holder).isSome

/-- The search backwards from a block passes another one, as no definition stops it there. -/
def Passes (graph : FlowGraph) (tracker : Tracker) (location : Location)
    (passed block : BlockId) : Prop :=
  ∃ between, graph.Path passed between block ∧
    ∀ other ∈ passed :: between, tracker.content? graph location other = none

/-- Each predecessor of a block that can be reached from the entry has a source. -/
def SuppliedOver (graph : FlowGraph) (tracker : Tracker) (location : Location)
    (block : BlockId) : Prop :=
  ∀ predecessor ∈ graph.predecessors block, (∃ visited, graph.Arrives visited predecessor) →
    ∃ source, tracker.IsSource graph location source predecessor

/-- The latest definition on the way to the end of a block is one of its sources. -/
theorem exists_isSource_of_arrives {visited : List BlockId}
    (arrives : graph.Arrives visited block)
    (held : ∃ holder ∈ block :: visited, (tracker.content? graph location holder).isSome) :
    ∃ source, tracker.IsSource graph location source block := by
  rcases exists_latest held with ⟨later, source, earlier, split, holds, transparent⟩
  refine ⟨source, holds, ?_⟩
  cases later with
  | nil =>
      left
      simp only [List.nil_append, List.cons.injEq] at split
      exact split.1.symm
  | cons first between =>
      right
      simp only [List.cons_append, List.cons.injEq] at split
      rcases split with ⟨rfl, rfl⟩
      refine ⟨between, (FlowGraph.arrives_append.mp arrives).1, ?_⟩
      intro other mem _
      simpa using transparent other mem

/-- If every path to a block is covered, then so is the way over each predecessor passed. -/
theorem CoversPaths.suppliedOver (covers : tracker.CoversPaths graph location block)
    (passes : tracker.Passes graph location passed block) :
    tracker.SuppliedOver graph location passed := by
  rintro predecessor edge ⟨visited, arrives⟩
  rcases passes with ⟨between, path, transparent⟩
  apply exists_isSource_of_arrives arrives
  have whole : graph.Arrives (between ++ passed :: predecessor :: visited) block :=
    FlowGraph.arrives_append.mpr ⟨path, edge, arrives⟩
  rcases covers _ whole with ⟨holder, mem, holds⟩
  refine ⟨holder, ?_, holds⟩
  simp only [List.mem_append, List.mem_cons] at mem ⊢
  rcases mem with mem | rfl | mem
  · simp [transparent holder (List.mem_cons_of_mem _ mem)] at holds
  · simp [transparent holder List.mem_cons_self] at holds
  · exact mem

/-- Without predecessors and without a definition of its own, the entry has no source. -/
theorem not_isSource_entry {source : BlockId} (unentered : graph.predecessors graph.entry = [])
    (unheld : tracker.content? graph location graph.entry = none) :
    ¬ tracker.IsSource graph location source graph.entry := by
  rw [isSource_iff]
  intro reaches
  cases reaches with
  | here holds => simp [unheld] at holds
  | through _ edge _ => simp [unentered] at edge

/-- Every path is covered if the predecessors of a block and of all blocks passed are supplied. -/
theorem coversPaths_of_suppliedOver (unentered : graph.predecessors graph.entry = [])
    (block_ne : block ≠ graph.entry) (supplied : tracker.SuppliedOver graph location block)
    (supplied_passed : ∀ passed, tracker.Passes graph location passed block →
      tracker.SuppliedOver graph location passed) :
    tracker.CoversPaths graph location block := by
  intro visited arrives
  by_contra uncovered
  have transparent : ∀ other ∈ visited, tracker.content? graph location other = none := by
    intro other mem
    rw [← Option.not_isSome_iff_eq_none]
    exact fun holds => uncovered ⟨other, mem, holds⟩
  -- The block that the path enters first after the entry has the entry as a predecessor.
  rcases visited.eq_nil_or_concat' with rfl | ⟨between, first, rfl⟩
  · exact block_ne arrives
  · rcases FlowGraph.arrives_append.mp arrives with ⟨path, rfl⟩
    have unheld := transparent graph.entry (by simp)
    have unsourced : ∀ next, graph.entry ∈ graph.predecessors next →
        ¬ tracker.SuppliedOver graph location next := by
      intro next edge supplied_next
      rcases supplied_next graph.entry edge ⟨[], rfl⟩ with ⟨source, isSource⟩
      exact not_isSource_entry unentered unheld isSource
    rcases between.eq_nil_or_concat' with rfl | ⟨later, next, rfl⟩
    · exact unsourced block path supplied
    · rcases FlowGraph.path_append.mp path with ⟨upper, edge⟩
      apply unsourced next edge
      apply supplied_passed
      refine ⟨later, upper, fun other mem => transparent other ?_⟩
      simp only [List.mem_cons] at mem
      simp only [List.mem_append, List.mem_singleton]
      tauto

theorem reaching_entry {allPaths : Bool} (unentered : graph.predecessors graph.entry = []) :
    tracker.reaching graph location graph.entry allPaths = [] := by
  simp only [reaching_eq, reachingAll, unentered, List.eraseDups_nil, List.map_nil, List.flatten_nil]
  cases allPaths <;> rfl

/-- What is found with all paths required has sources over all predecessors. -/
theorem suppliedOver_of_reaching (closed : graph.Closed)
    (found : tracker.reaching graph location block true ≠ []) :
    tracker.SuppliedOver graph location block := by
  intro predecessor edge _
  by_contra unsourced
  apply found
  apply (reaching_allPaths closed).1
  exact ⟨predecessor, edge, not_exists.mp unsourced⟩

end Tracker

variable {graph : FlowGraph} {register : Register} {block : BlockId} {before : Raising}

/-- A register can be read in a block that holds no value only if a definition reaches it. -/
theorem Raise.reaching_ne_nil_of_readRegister {allPaths asNative : Bool} {value : ValueId}
    {after : Raising}
    (unknown : before.tracker.valueIn? graph (.register (graph.convention.canonical register))
      block = none)
    (read : (Raise.readRegister graph register block allPaths asNative).run before =
      .ok (some value) after) :
    before.tracker.reaching graph (.register (graph.convention.canonical register)) block
      allPaths ≠ [] := by
  intro nothing
  rw [Raise.readRegister, Convention.locationOf] at read
  split at read
  · cases read
  · rw [run_bind_of_ok (run_ofExcept_ok ..), run_readLocation_of_unknown unknown, nothing] at read
    cases read

/--
Where a read that requires all paths has an answer, every path from the entry holds a definition if
and only if each block that the search passes is supplied over all its predecessors.
-/
theorem covers_paths_iff_supplied (closed : graph.Closed)
    (unentered : graph.predecessors graph.entry = [])
    (unknown : before.tracker.valueIn? graph (.register (graph.convention.canonical register))
      block = none)
    (answered :
      (∃ found, (Raise.reachingDefinitions graph register block true).run before =
        .ok found before ∧ found ≠ []) ∨
      ∃ asNative value after, (Raise.readRegister graph register block true asNative).run before =
        .ok (some value) after) :
    before.tracker.CoversPaths graph (.register (graph.convention.canonical register)) block ↔
      ∀ passed,
        before.tracker.Passes graph (.register (graph.convention.canonical register)) passed
          block →
        before.tracker.SuppliedOver graph (.register (graph.convention.canonical register))
          passed := by
  have found : before.tracker.reaching graph (.register (graph.convention.canonical register))
      block true ≠ [] := by
    rcases answered with ⟨found, lists, nonempty⟩ | ⟨asNative, value, after, read⟩
    · rw [Raise.run_reachingDefinitions] at lists
      split at lists
      · cases lists
      · simp only [EStateM.Result.ok.injEq, and_true] at lists
        exact lists ▸ nonempty
    · exact Raise.reaching_ne_nil_of_readRegister unknown read
  constructor
  · exact fun covers passed passes => covers.suppliedOver passes
  · intro supplied_passed
    apply Tracker.coversPaths_of_suppliedOver unentered _
      (Tracker.suppliedOver_of_reaching closed found) supplied_passed
    rintro rfl
    exact found (Tracker.reaching_entry unentered)

/-- Two ways join in front of the block in front of the last one. -/
def upstreamGraph : FlowGraph where
  blocks := #[
    { name := "entry", predecessors := [], effects := [] },
    { name := "left", predecessors := [0],
      effects := [{ writes := [.rax], family := .other "mov" }] },
    { name := "right", predecessors := [0], effects := [] },
    { name := "meet", predecessors := [1, 2], effects := [] },
    { name := "last", predecessors := [3], effects := [] }]

/-- Only one of the ways writes the register. -/
def upstreamSession : Session :=
  (Session.starting upstreamGraph "upstream" [.int 64, .int 64]
    ["entry", "left", "right", "meet", "last"]).after upstreamGraph [.writeRegister .rax 1 0]

/-- Where both ways write the register, every path is covered. -/
theorem covers_paths_iff_supplied_upstream :
    let before := (upstreamSession.after upstreamGraph [.writeRegister .rax 2 1]).raising
    upstreamGraph.Closed ∧ upstreamGraph.predecessors upstreamGraph.entry = [] ∧
      before.tracker.valueIn? upstreamGraph (.register .rax) 4 = none ∧
      (Raise.reachingDefinitions upstreamGraph (.general .doubleword 0) 4 true).run before =
        .ok [⟨1, .known 0⟩, ⟨2, .known 1⟩] before ∧
      before.tracker.CoversPaths upstreamGraph (.register .rax) 4 := by
  intro before
  have closed : upstreamGraph.Closed := by decide +kernel
  have unknown : before.tracker.valueIn? upstreamGraph (.register .rax) 4 = none := by
    decide +kernel
  have lists : (Raise.reachingDefinitions upstreamGraph (.general .doubleword 0) 4 true).run
      before = .ok [⟨1, .known 0⟩, ⟨2, .known 1⟩] before := by
    cbv
  refine ⟨closed, rfl, unknown, lists, ?_⟩
  refine (covers_paths_iff_supplied closed rfl unknown (Or.inl ⟨_, lists, by simp⟩)).mpr ?_
  have holds : ∀ arm ∈ upstreamGraph.predecessors 3,
      (before.tracker.content? upstreamGraph (.register .rax) arm).isSome := by
    decide +kernel
  have stops : ∀ arm ∈ upstreamGraph.predecessors 3,
      before.tracker.content? upstreamGraph (.register .rax) arm ≠ none := by
    intro arm edge unheld
    simpa [unheld] using holds arm edge
  rintro passed ⟨between, path, transparent⟩ predecessor edge -
  have passed_eq : passed = 3 := by
    rcases between with _ | ⟨nearest, _ | ⟨arm, between⟩⟩
    · exact List.mem_singleton.mp path
    · rcases path with ⟨near, path⟩
      cases List.mem_singleton.mp near
      exact absurd (transparent passed (by simp)) (stops passed path)
    · rcases path with ⟨near, path, -⟩
      cases List.mem_singleton.mp near
      exact absurd (transparent arm (by simp)) (stops arm path)
  subst passed_eq
  exact ⟨predecessor, holds predecessor edge, Or.inl rfl⟩

/-- The read of the last block has an answer, but a path to it visits no definition. -/
theorem not_covers_paths_upstream :
    Session.Reachable upstreamGraph upstreamSession ∧
      upstreamGraph.predecessors upstreamGraph.entry = [] ∧
      upstreamSession.raising.tracker.valueIn? upstreamGraph (.register .rax) 4 = none ∧
      (Raise.reachingDefinitions upstreamGraph .rax 4 true).run upstreamSession.raising =
        .ok [⟨1, .known 0⟩] upstreamSession.raising ∧
      (∃ after, (Raise.readRegister upstreamGraph .rax 4 true true).run upstreamSession.raising =
        .ok (some 0) after) ∧
      upstreamGraph.Arrives [3, 2, 0] 4 ∧
      ¬ upstreamSession.raising.tracker.CoversPaths upstreamGraph (.register .rax) 4 := by
  have reachable : Session.Reachable upstreamGraph upstreamSession := by
    refine (Session.Reachable.start (Session.starts_starting rfl ?_)).after ⟨Nat.two_pos, trivial⟩
    decide +kernel
  have arrives : upstreamGraph.Arrives [3, 2, 0] 4 := by
    refine ⟨?_, ?_, ?_, rfl⟩ <;> decide
  refine ⟨reachable, rfl, by decide +kernel, by cbv, ⟨_, by cbv⟩, arrives, ?_⟩
  intro covers
  rcases covers _ arrives with ⟨holder, mem, holds⟩
  have unheld : ∀ other ∈ [3, 2, 0],
      upstreamSession.raising.tracker.content? upstreamGraph (.register .rax) other = none := by
    decide +kernel
  simp [unheld holder mem] at holds

end RegisterFlow
