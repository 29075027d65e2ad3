import Mathlib
import RegisterFlow.Proofs.Graph.Routes
import RegisterFlow.Proofs.Tracking.Steps
import RegisterFlow.Proofs.Tracking.Walk

/-!
# Sources of a location

A block is a source of another one if it holds a definition and a path of the flow graph leads from
it to the end of the other block on which no further block holds one. The different definitions
that reach a block are those of the sources of its predecessors, each found once. How often a
predecessor is listed plays no part.
-/

namespace RegisterFlow

/-- Two graphs are the same up to how often a block lists a predecessor after its first mention. -/
structure FlowGraph.SameUpToRepeats (graph other : FlowGraph) : Prop where
  entry_eq : other.entry = graph.entry
  convention_eq : other.convention = graph.convention
  size_eq : other.blocks.size = graph.blocks.size
  predecessors_eq : ∀ block,
    (other.predecessors block).eraseDups = (graph.predecessors block).eraseDups

/-- The graph in which the chosen blocks list each predecessor only where they first mention it. -/
def FlowGraph.withoutRepeats (graph : FlowGraph) (chosen : BlockId → Bool) : FlowGraph :=
  { graph with
    blocks := graph.blocks.mapIdx fun block here =>
      if chosen block then { here with predecessors := here.predecessors.eraseDups } else here }

theorem eraseDups_of_nodup {blocks : List BlockId} (distinct : blocks.Nodup) :
    blocks.eraseDups = blocks := by
  induction blocks with
  | nil => rfl
  | cons first rest ih =>
      rw [List.nodup_cons] at distinct
      have kept : rest.filter (fun later => !later == first) = rest := by
        simp only [List.filter_eq_self]
        intro later mem
        simpa using ne_of_mem_of_not_mem mem distinct.1
      rw [List.eraseDups_cons, kept, ih distinct.2]

theorem nodup_eraseDups (blocks : List BlockId) : blocks.eraseDups.Nodup := by
  apply (pairwise_eraseDupsBy blocks).imp
  intro earlier later different
  exact fun same => by simp [same] at different

theorem FlowGraph.sameUpToRepeats_withoutRepeats (graph : FlowGraph) (chosen : BlockId → Bool) :
    graph.SameUpToRepeats (graph.withoutRepeats chosen) where
  entry_eq := rfl
  convention_eq := rfl
  size_eq := by simp [withoutRepeats]
  predecessors_eq block := by
    simp only [predecessors, FlowGraph.block, withoutRepeats, Array.getElem?_mapIdx]
    cases graph.blocks[block]? with
    | none => rfl
    | some here =>
        cases chosen block
        · rfl
        · exact eraseDups_of_nodup (nodup_eraseDups _)

namespace Tracker

variable {graph : FlowGraph} {tracker : Tracker} {location : Location}

/--
A block is a source of the end of another one: it holds a definition of the location, and it is the
other block or a path leads from it to there on which no other block holds one.
-/
def IsSource (graph : FlowGraph) (tracker : Tracker) (location : Location)
    (source block : BlockId) : Prop :=
  (tracker.content? graph location source).isSome ∧
    (source = block ∨
      ∃ between, graph.Path source between block ∧
        ∀ later ∈ block :: between, later ≠ source →
          tracker.content? graph location later = none)

theorem reachesEnd_of_path {source block : BlockId} {between : List BlockId}
    (holds : (tracker.content? graph location source).isSome)
    (path : graph.Path source between block)
    (transparent : ∀ later ∈ block :: between, later ≠ source →
      tracker.content? graph location later = none) :
    ReachesEnd graph tracker location source block := by
  induction between generalizing block with
  | nil =>
      by_cases same : block = source
      · subst same
        exact .here holds
      · exact .through (transparent block List.mem_cons_self same) path (.here holds)
  | cons nearest between ih =>
      by_cases same : block = source
      · subst same
        exact .here holds
      · apply ReachesEnd.through (transparent block List.mem_cons_self same) path.1
        exact ih path.2 fun later mem => transparent later (List.mem_cons_of_mem _ mem)

/-- The sources of a block are those whose definition reaches its end. -/
theorem isSource_iff {source block : BlockId} :
    tracker.IsSource graph location source block ↔
      ReachesEnd graph tracker location source block := by
  constructor
  · rintro ⟨holds, rfl | ⟨between, path, transparent⟩⟩
    · exact .here holds
    · exact reachesEnd_of_path holds path transparent
  · intro reaches
    refine ⟨reaches.holds, ?_⟩
    induction reaches with
    | here holds => exact Or.inl rfl
    | @through block predecessor transparent edge reaches ih =>
        rcases ih with rfl | ⟨between, path, passes⟩
        · exact Or.inr ⟨[], edge, by simp [transparent]⟩
        · refine Or.inr ⟨predecessor :: between, ⟨edge, path⟩, ?_⟩
          intro later mem different
          rcases List.mem_cons.mp mem with rfl | mem
          · exact transparent
          · exact passes later mem different

/-- A block has no source if and only if the search from it finds nothing. -/
theorem reachingEnd_eq_nil_iff {block : BlockId} (closed : graph.Closed)
    (block_lt : block < graph.blocks.size) :
    tracker.reachingEnd graph location block = [] ↔
      ∀ source, ¬ tracker.IsSource graph location source block := by
  constructor
  · intro nothing source isSource
    rw [isSource_iff] at isSource
    obtain ⟨content, held⟩ := Option.isSome_iff_exists.mp isSource.holds
    have found : { block := source, content } ∈ tracker.reachingEnd graph location block :=
      (mem_reachingEnd_iff closed block_lt).mpr ⟨isSource, held⟩
    rw [nothing] at found
    cases found
  · intro unsourced
    rw [List.eq_nil_iff_forall_not_mem]
    intro found mem
    exact unsourced found.block
      (isSource_iff.mpr ((mem_reachingEnd_iff closed block_lt).mp mem).1)

/--
With all paths required, nothing is found if some predecessor has no source, and else what is found
without.
-/
theorem reaching_allPaths {block : BlockId} (closed : graph.Closed) :
    ((∃ predecessor ∈ graph.predecessors block,
        ∀ source, ¬ tracker.IsSource graph location source predecessor) →
      tracker.reaching graph location block true = []) ∧
    ((∀ predecessor ∈ graph.predecessors block,
        ∃ source, tracker.IsSource graph location source predecessor) →
      tracker.reaching graph location block true =
        tracker.reaching graph location block false) := by
  have unsourced : (((graph.predecessors block).eraseDups.map
      (tracker.reachingEnd graph location)).any List.isEmpty = true) ↔
        ∃ predecessor ∈ graph.predecessors block,
          ∀ source, ¬ tracker.IsSource graph location source predecessor := by
    simp only [List.any_map, List.any_eq_true, List.mem_eraseDups, Function.comp_apply,
      List.isEmpty_iff]
    apply exists_congr
    intro predecessor
    apply and_congr_right
    intro edge
    exact reachingEnd_eq_nil_iff closed (closed _ _ edge)
  constructor
  · intro missing
    simp [reaching_eq, unsourced.mpr missing]
  · intro sourced
    have complete := mt unsourced.mp (by push Not; exact sourced)
    simp [reaching_eq, complete]

section Repeats

variable {unseen front rest : List BlockId} {block : BlockId}

theorem idle_erase {here : BlockId} (distinct : unseen.Nodup)
    (idle : block ∉ unseen ∨ block ∈ here :: front) :
    block ∉ unseen.erase here ∨ block ∈ front := by
  rcases idle with seen | queued
  · exact Or.inl fun later => seen (List.mem_of_mem_erase later)
  · rcases List.mem_cons.mp queued with rfl | queued
    · exact Or.inl distinct.not_mem_erase
    · exact Or.inr queued

/-- A block that is queued again, or has been searched already, does not change the search. -/
theorem search_append_cons (distinct : unseen.Nodup) (idle : block ∉ unseen ∨ block ∈ front) :
    tracker.search graph location unseen (front ++ block :: rest) =
      tracker.search graph location unseen (front ++ rest) := by
  generalize queue_eq : front ++ rest = queue
  induction unseen, queue using search.induct graph tracker location generalizing front rest with
  | case1 unseen =>
      rw [List.append_eq_nil_iff] at queue_eq
      rcases queue_eq with ⟨rfl, rfl⟩
      have seen : block ∉ unseen := by simpa using idle
      simp [search, seen]
  | case2 unseen first queue mem definition defined ih =>
      cases front with
      | nil =>
          have seen : block ∉ unseen := by simpa using idle
          subst queue_eq
          rw [List.nil_append, search, if_neg seen]
      | cons here front =>
          rw [List.cons_append, List.cons.injEq] at queue_eq
          rcases queue_eq with ⟨rfl, queue_eq⟩
          rw [List.cons_append, search, search, if_pos mem, if_pos mem, defined]
          dsimp only
          rw [ih (distinct.erase here) (idle_erase distinct idle) queue_eq]
  | case3 unseen first queue mem undefined ih =>
      cases front with
      | nil =>
          have seen : block ∉ unseen := by simpa using idle
          subst queue_eq
          rw [List.nil_append, search, if_neg seen]
      | cons here front =>
          rw [List.cons_append, List.cons.injEq] at queue_eq
          rcases queue_eq with ⟨rfl, queue_eq⟩
          rw [List.cons_append, search, search, if_pos mem, if_pos mem, undefined]
          dsimp only
          rw [List.append_assoc, List.cons_append]
          apply ih (distinct.erase here) (idle_erase distinct idle)
          rw [← queue_eq, List.append_assoc]
  | case4 unseen first queue seen ih =>
      cases front with
      | nil =>
          have idle : block ∉ unseen := by simpa using idle
          subst queue_eq
          rw [List.nil_append, search, if_neg idle]
      | cons here front =>
          rw [List.cons_append, List.cons.injEq] at queue_eq
          rcases queue_eq with ⟨rfl, queue_eq⟩
          rw [List.cons_append, search, search, if_neg seen, if_neg seen]
          apply ih distinct _ queue_eq
          rcases idle with seen | queued
          · exact Or.inl seen
          · rcases List.mem_cons.mp queued with rfl | queued
            · exact Or.inl seen
            · exact Or.inr queued

/-- All later mentions of a queued block can be left out of the queue. -/
theorem search_append_filter (distinct : unseen.Nodup) (queued : block ∈ front) :
    tracker.search graph location unseen (front ++ rest.filter fun later => !later == block) =
      tracker.search graph location unseen (front ++ rest) := by
  induction rest generalizing front with
  | nil => rfl
  | cons first rest ih =>
      by_cases same : first = block
      · subst same
        rw [search_append_cons distinct (Or.inr queued), ← ih queued]
        simp
      · have step : tracker.search graph location unseen
            (front ++ [first] ++ rest.filter fun later => !later == block) =
              tracker.search graph location unseen (front ++ [first] ++ rest) :=
          ih (List.mem_append_left _ queued)
        simpa [same] using step

/-- A part of the queue can be replaced by its different blocks. -/
theorem search_append_eraseDups (distinct : unseen.Nodup) :
    tracker.search graph location unseen (front ++ rest.eraseDups) =
      tracker.search graph location unseen (front ++ rest) := by
  induction size : rest.length using Nat.strongRecOn generalizing front rest with
  | ind length ih =>
      cases rest with
      | nil => rfl
      | cons first rest =>
          have shorter : (rest.filter fun later => !later == first).length < length := by
            have filtered := List.length_filter_le (fun later => !later == first) rest
            simp only [List.length_cons] at size
            omega
          have step : tracker.search graph location unseen
              (front ++ [first] ++ (rest.filter fun later => !later == first).eraseDups) =
                tracker.search graph location unseen
                  (front ++ [first] ++ rest.filter fun later => !later == first) :=
            ih _ shorter rfl
          rw [search_append_filter distinct (by simp)] at step
          simpa [List.eraseDups_cons] using step

end Repeats

end Tracker

namespace FlowGraph.SameUpToRepeats

open Tracker

variable {graph other : FlowGraph} {tracker : Tracker} {location : Location}

theorem definitionIn?_eq (same : graph.SameUpToRepeats other) :
    tracker.definitionIn? other location = tracker.definitionIn? graph location := by
  funext block
  simp only [definitionIn?, same.entry_eq]

theorem search_eq {unseen queue : List BlockId} (same : graph.SameUpToRepeats other)
    (distinct : unseen.Nodup) :
    tracker.search other location unseen queue = tracker.search graph location unseen queue := by
  induction unseen, queue using search.induct graph tracker location with
  | case1 unseen => simp [search]
  | case2 unseen block queue mem definition defined ih =>
      simp [search, mem, same.definitionIn?_eq, defined, ih (distinct.erase block)]
  | case3 unseen block queue mem undefined ih =>
      have later : unseen.erase block |>.Nodup := distinct.erase block
      rw [search, search, if_pos mem, if_pos mem, same.definitionIn?_eq, undefined]
      dsimp only
      rw [← ih later, ← search_append_eraseDups later, same.predecessors_eq,
        search_append_eraseDups later]
  | case4 unseen block queue seen ih => simp [search, seen, ih distinct]

/-- What reaches a block does not depend on how often predecessors are listed. -/
theorem reaching_eq {block : BlockId} (same : graph.SameUpToRepeats other) (allPaths : Bool) :
    tracker.reaching other location block allPaths =
      tracker.reaching graph location block allPaths := by
  have found : tracker.reachingEnd other location = tracker.reachingEnd graph location := by
    funext start
    rw [reachingEnd, reachingEnd, same.size_eq, same.search_eq List.nodup_range]
  simp only [reaching, same.predecessors_eq, found]

end FlowGraph.SameUpToRepeats

namespace Tracker

variable {graph : FlowGraph} {tracker : Tracker} {location : Location}

/-- A list names exactly the different definitions of the sources of a block's predecessors. -/
structure ListsSources (graph : FlowGraph) (tracker : Tracker) (location : Location)
    (block : BlockId) (found : List ReachingDefinition) : Prop where
  /-- Everything listed is the definition of a source. -/
  sound : ∀ hit ∈ found,
    (∃ predecessor ∈ graph.predecessors block,
      tracker.IsSource graph location hit.block predecessor) ∧
    tracker.content? graph location hit.block = some hit.content
  /-- The definition of every source is listed: its value, or that it is pending in the block. -/
  covers : ∀ predecessor ∈ graph.predecessors block, ∀ source,
    tracker.IsSource graph location source predecessor →
    ∃ hit ∈ found, tracker.content? graph location source = some hit.content ∧
      (hit.content = .pending → hit.block = source)
  /-- No two entries have the same value, or are pending in the same block. -/
  different : found.Pairwise fun earlier later =>
    ¬ (earlier.content = later.content ∧
      (earlier.content = .pending → earlier.block = later.block))

theorem listsSources_reaching {block : BlockId} (closed : graph.Closed) :
    tracker.ListsSources graph location block (tracker.reaching graph location block false) where
  sound hit mem := by
    obtain ⟨⟨predecessor, edge, reaches⟩, held⟩ := reaches_of_mem_reaching closed mem
    exact ⟨⟨predecessor, edge, isSource_iff.mpr reaches⟩, held⟩
  covers predecessor edge source isSource := by
    have reaches : Reaches graph tracker location source block :=
      ⟨predecessor, edge, isSource_iff.mp isSource⟩
    obtain ⟨content, held⟩ := Option.isSome_iff_exists.mp isSource.1
    obtain ⟨hit, mem, same, pending⟩ :=
      exists_mem_reaching closed (reaching_ne_nil closed reaches) reaches held
    exact ⟨hit, mem, same ▸ held, fun waits => pending (same ▸ waits)⟩
  different := by
    apply (pairwise_reaching false).imp
    intro earlier later different same
    rw [← Bool.not_eq_true, ReachingDefinition.isSame_iff] at different
    exact different ⟨same.1.symm, fun pending => (same.2 (same.1.trans pending)).symm⟩

end Tracker

variable {graph : FlowGraph} {register : Register} {block : BlockId}

theorem Raise.run_reachingDefinitions (allPaths : Bool) (raising : Raising) :
    (Raise.reachingDefinitions graph register block allPaths).run raising =
      if register = .null then .error .nullRegister raising
      else .ok (raising.tracker.reaching graph (.register (graph.convention.canonical register))
        block allPaths) raising := by
  unfold Raise.reachingDefinitions Convention.locationOf
  split <;> rfl

/--
The definitions of a register that reach a block are exactly those of the sources of its
predecessors, each listed once. If all paths are required, there are none when a predecessor has no
source, and else the same in the same order. Repeated predecessors change no answer, and the null
register is refused.
-/
theorem reachingDefinitions_exact (closed : graph.Closed) (register : Register) (block : BlockId)
    (raising : Raising) :
    (register = .null → ∀ allPaths,
      (Raise.reachingDefinitions graph register block allPaths).run raising =
        .error .nullRegister raising) ∧
    (register ≠ .null → ∃ found complete,
      (Raise.reachingDefinitions graph register block false).run raising = .ok found raising ∧
      (Raise.reachingDefinitions graph register block true).run raising = .ok complete raising ∧
      raising.tracker.ListsSources graph (.register (graph.convention.canonical register)) block
        found ∧
      ((∃ predecessor ∈ graph.predecessors block, ∀ source,
          ¬ raising.tracker.IsSource graph (.register (graph.convention.canonical register)) source
            predecessor) →
        complete = []) ∧
      ((∀ predecessor ∈ graph.predecessors block, ∃ source,
          raising.tracker.IsSource graph (.register (graph.convention.canonical register)) source
            predecessor) →
        complete = found)) ∧
    ∀ other, graph.SameUpToRepeats other → ∀ allPaths,
      (Raise.reachingDefinitions other register block allPaths).run raising =
        (Raise.reachingDefinitions graph register block allPaths).run raising := by
  refine ⟨?_, ?_, ?_⟩
  · intro null allPaths
    rw [Raise.run_reachingDefinitions, if_pos null]
  · intro register_ne
    refine ⟨_, _, ?_, ?_, Tracker.listsSources_reaching closed, Tracker.reaching_allPaths closed⟩
    · rw [Raise.run_reachingDefinitions, if_neg register_ne]
    · rw [Raise.run_reachingDefinitions, if_neg register_ne]
  · intro other same allPaths
    rw [Raise.run_reachingDefinitions, Raise.run_reachingDefinitions, same.convention_eq,
      same.reaching_eq]

/-- A graph with loops, repeated predecessors and a block that only leads to itself. -/
def tangledGraph : FlowGraph where
  blocks := #[
    { name := "bb0", predecessors := [], effects := [] },
    { name := "bb1", predecessors := [0, 1, 2, 0], effects := [] },
    { name := "bb2", predecessors := [1, 1], effects := [{ writes := [.rdi], family := .add }] },
    { name := "bb3", predecessors := [1, 4, 1], effects := [] },
    { name := "bb4", predecessors := [4], effects := [] }]

/-- A register is bound at the entry and not yet known in the third block. -/
def tangledRaising : Raising where
  func := .empty "tangled" [.int 64] ["bb0", "bb1", "bb2", "bb3", "bb4"]
  tracker := {
    table := {
      definitions := [
        { location := .register .rdi, block := 2, width := 64, content := .pending }] }
    bindings := [(.rdi, { value := 0, width := 64 })] }

theorem reachingDefinitions_exact_tangled :
    tangledGraph.Closed ∧
      (∀ allPaths, (Raise.reachingDefinitions tangledGraph .null 3 allPaths).run tangledRaising =
        .error .nullRegister tangledRaising) ∧
      (Raise.reachingDefinitions tangledGraph (.general .doubleword 7) 3 false).run
          tangledRaising =
        .ok [⟨0, .known 0⟩, ⟨2, .pending⟩] tangledRaising ∧
      tangledRaising.tracker.ListsSources tangledGraph (.register .rdi) 3
        [⟨0, .known 0⟩, ⟨2, .pending⟩] ∧
      (Raise.reachingDefinitions tangledGraph (.general .doubleword 7) 3 true).run
          tangledRaising = .ok [] tangledRaising ∧
      (Raise.reachingDefinitions (tangledGraph.withoutRepeats fun _ => true)
          (.general .doubleword 7) 3 false).run tangledRaising =
        .ok [⟨0, .known 0⟩, ⟨2, .pending⟩] tangledRaising := by
  have closed : tangledGraph.Closed := by decide +kernel
  have refused := (reachingDefinitions_exact closed .null 3 tangledRaising).1 rfl
  obtain ⟨-, answers, repeats⟩ :=
    reachingDefinitions_exact closed (.general .doubleword 7) 3 tangledRaising
  obtain ⟨found, complete, finds, completes, lists, -, -⟩ := answers (by decide)
  have found_eq : (Raise.reachingDefinitions tangledGraph (.general .doubleword 7) 3 false).run
      tangledRaising = .ok [⟨0, .known 0⟩, ⟨2, .pending⟩] tangledRaising := by
    cbv
  have complete_eq : (Raise.reachingDefinitions tangledGraph (.general .doubleword 7) 3 true).run
      tangledRaising = .ok [] tangledRaising := by
    cbv
  have same : found = [⟨0, .known 0⟩, ⟨2, .pending⟩] := by
    rw [finds] at found_eq
    injection found_eq
  refine ⟨closed, refused, found_eq, same ▸ lists, complete_eq, ?_⟩
  rw [repeats _ (tangledGraph.sameUpToRepeats_withoutRepeats _), found_eq]

end RegisterFlow
