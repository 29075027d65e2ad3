import Mathlib.Data.List.Pairwise
import Mathlib.Tactic.Common
import RegisterFlow.Tracking.Reaching

/-!
# Reaching definitions as paths

A block `source` reaches the end of a block if it holds a definition and a path of the flow graph
leads from it to the block on which no later block holds one. This file proves that the backward
search finds exactly the blocks that reach the end of its starting block, each with the content of
its definition, and says what the different reaching definitions keep of them: one for each known
value, and all pending ones.
-/

namespace RegisterFlow

/-- The predecessor lists of a graph name its own blocks only. -/
def FlowGraph.Closed (graph : FlowGraph) : Prop :=
  ∀ block, ∀ predecessor ∈ graph.predecessors block, predecessor < graph.blocks.size

theorem FlowGraph.closed_iff {graph : FlowGraph} :
    graph.Closed ↔ ∀ block < graph.blocks.size,
      ∀ predecessor ∈ graph.predecessors block, predecessor < graph.blocks.size := by
  constructor
  · exact fun closed block _ => closed block
  · intro inside block predecessor edge
    by_cases held : block < graph.blocks.size
    · exact inside block held predecessor edge
    · have outside : graph.predecessors block = [] := by
        simp [FlowGraph.predecessors, FlowGraph.block, Nat.not_lt.mp held, default]
      rw [outside] at edge
      cases edge

instance (graph : FlowGraph) : Decidable graph.Closed :=
  decidable_of_iff _ FlowGraph.closed_iff.symm

section EraseDupsBy

variable {α : Type} {same : α → α → Bool}

theorem mem_of_mem_eraseDupsBy {item : α} (items : List α)
    (kept : item ∈ items.eraseDupsBy same) : item ∈ items := by
  induction size : items.length using Nat.strongRecOn generalizing items with
  | ind length ih =>
      cases items with
      | nil => exact kept
      | cons first rest =>
          rw [List.eraseDupsBy_cons, List.mem_cons] at kept
          rcases kept with rfl | later
          · exact List.mem_cons_self
          · have shorter : (rest.filter fun other => same other first = false).length < length := by
              have := List.length_filter_le (fun other => decide (same other first = false)) rest
              simp only [List.length_cons] at size
              omega
            exact List.mem_cons_of_mem _ (List.mem_filter.mp (ih _ shorter _ later rfl)).1

/-- An item that is dropped is the same as one that is kept. -/
theorem exists_same_mem_eraseDupsBy {item : α} (items : List α) (mem : item ∈ items) :
    ∃ kept ∈ items.eraseDupsBy same, item = kept ∨ same item kept = true := by
  induction size : items.length using Nat.strongRecOn generalizing items with
  | ind length ih =>
      cases items with
      | nil => simp at mem
      | cons first rest =>
          rw [List.eraseDupsBy_cons]
          rcases List.mem_cons.mp mem with rfl | later
          · exact ⟨item, List.mem_cons_self, Or.inl rfl⟩
          · cases found : same item first with
            | true => exact ⟨first, List.mem_cons_self, Or.inr found⟩
            | false =>
                have shorter :
                    (rest.filter fun other => same other first = false).length < length := by
                  have :=
                    List.length_filter_le (fun other => decide (same other first = false)) rest
                  simp only [List.length_cons] at size
                  omega
                have remains : item ∈ rest.filter fun other => same other first = false := by
                  simp [later, found]
                obtain ⟨kept, kept_mem, same_kept⟩ := ih _ shorter _ remains rfl
                exact ⟨kept, List.mem_cons_of_mem _ kept_mem, same_kept⟩

/-- No two kept items are the same. -/
theorem pairwise_eraseDupsBy (items : List α) :
    (items.eraseDupsBy same).Pairwise fun earlier later => same later earlier = false := by
  induction size : items.length using Nat.strongRecOn generalizing items with
  | ind length ih =>
      cases items with
      | nil => exact List.Pairwise.nil
      | cons first rest =>
          have shorter : (rest.filter fun other => same other first = false).length < length := by
            have := List.length_filter_le (fun other => decide (same other first = false)) rest
            simp only [List.length_cons] at size
            omega
          rw [List.eraseDupsBy_cons, List.pairwise_cons]
          refine ⟨?_, ih _ shorter _ rfl⟩
          intro other other_mem
          simpa using (List.mem_filter.mp (mem_of_mem_eraseDupsBy _ other_mem)).2

end EraseDupsBy

namespace Tracker

variable {graph : FlowGraph} {tracker : Tracker} {location : Location}

/-- The content of the definition that a block holds for a location. -/
def content? (graph : FlowGraph) (tracker : Tracker) (location : Location) (block : BlockId) :
    Option Content :=
  (tracker.definitionIn? graph location block).map Definition.content

/--
The definition of a location in `source` reaches the end of a block: the block is `source`, or it
holds no definition itself and the definition reaches the end of one of its predecessors.
-/
inductive ReachesEnd (graph : FlowGraph) (tracker : Tracker) (location : Location)
    (source : BlockId) : BlockId → Prop where
  | here (holds : (tracker.content? graph location source).isSome) :
      ReachesEnd graph tracker location source source
  | through {block predecessor : BlockId}
      (transparent : tracker.content? graph location block = none)
      (edge : predecessor ∈ graph.predecessors block)
      (reaches : ReachesEnd graph tracker location source predecessor) :
      ReachesEnd graph tracker location source block

/-- The definition of a location in `source` reaches a block over one of its predecessors. -/
def Reaches (graph : FlowGraph) (tracker : Tracker) (location : Location)
    (source block : BlockId) : Prop :=
  ∃ predecessor ∈ graph.predecessors block,
    ReachesEnd graph tracker location source predecessor

namespace ReachesEnd

theorem holds {source block : BlockId}
    (reaches : ReachesEnd graph tracker location source block) :
    (tracker.content? graph location source).isSome := by
  induction reaches with
  | here holds => exact holds
  | through _ _ _ ih => exact ih

theorem source_lt {source block : BlockId} (closed : graph.Closed)
    (reaches : ReachesEnd graph tracker location source block)
    (block_lt : block < graph.blocks.size) : source < graph.blocks.size := by
  induction reaches with
  | here _ => exact block_lt
  | through _ edge _ ih => exact ih (closed _ _ edge)

end ReachesEnd

theorem Reaches.source_lt {source block : BlockId} (closed : graph.Closed)
    (reaches : Reaches graph tracker location source block) : source < graph.blocks.size := by
  obtain ⟨predecessor, edge, reaches⟩ := reaches
  exact reaches.source_lt closed (closed _ _ edge)

/-- A reaching path all of whose blocks are among the `unseen` ones. -/
inductive ReachesWithin (graph : FlowGraph) (tracker : Tracker) (location : Location)
    (unseen : List BlockId) (source : BlockId) : BlockId → Prop where
  | here (mem : source ∈ unseen) (holds : (tracker.content? graph location source).isSome) :
      ReachesWithin graph tracker location unseen source source
  | through {block predecessor : BlockId} (mem : block ∈ unseen)
      (transparent : tracker.content? graph location block = none)
      (edge : predecessor ∈ graph.predecessors block)
      (reaches : ReachesWithin graph tracker location unseen source predecessor) :
      ReachesWithin graph tracker location unseen source block

namespace ReachesWithin

theorem mem {unseen : List BlockId} {source block : BlockId}
    (reaches : ReachesWithin graph tracker location unseen source block) : block ∈ unseen := by
  cases reaches with
  | here mem _ => exact mem
  | through mem _ _ _ => exact mem

/--
A path either avoids a block, or the part of it after its last visit to the block does: the block
is then the source, or the path goes on from one of its predecessors.
-/
theorem avoid {unseen : List BlockId} {source block : BlockId} (removed : BlockId)
    (reaches : ReachesWithin graph tracker location unseen source block) :
    ReachesWithin graph tracker location (unseen.erase removed) source block ∨
      (source = removed ∧ (tracker.content? graph location removed).isSome) ∨
      (tracker.content? graph location removed = none ∧
        ∃ predecessor ∈ graph.predecessors removed,
          ReachesWithin graph tracker location (unseen.erase removed) source predecessor) := by
  induction reaches with
  | here mem holds =>
      by_cases same : source = removed
      · exact Or.inr (Or.inl ⟨same, same ▸ holds⟩)
      · exact Or.inl (.here ((List.mem_erase_of_ne same).mpr mem) holds)
  | @through block predecessor mem transparent edge _ ih =>
      rcases ih with avoiding | later
      · by_cases same : block = removed
        · subst same
          exact Or.inr (Or.inr ⟨transparent, predecessor, edge, avoiding⟩)
        · exact Or.inl (.through ((List.mem_erase_of_ne same).mpr mem) transparent edge avoiding)
      · exact Or.inr later

end ReachesWithin

theorem ReachesEnd.within {source block : BlockId} (closed : graph.Closed)
    (reaches : ReachesEnd graph tracker location source block)
    (block_lt : block < graph.blocks.size) :
    ReachesWithin graph tracker location (List.range graph.blocks.size) source block := by
  induction reaches with
  | here holds => exact .here (List.mem_range.mpr block_lt) holds
  | through transparent edge _ ih =>
      exact .through (List.mem_range.mpr block_lt) transparent edge (ih (closed _ _ edge))

/-- What the search finds reaches the end of a block in its queue. -/
theorem reachesEnd_of_mem_search {found : ReachingDefinition} {unseen queue : List BlockId}
    (mem : found ∈ tracker.search graph location unseen queue) :
    tracker.content? graph location found.block = some found.content ∧
      ∃ block ∈ queue, ReachesEnd graph tracker location found.block block := by
  induction unseen, queue using search.induct graph tracker location with
  | case1 unseen => simp [search] at mem
  | case2 unseen block queue unseen_mem definition defined ih =>
      rw [search, if_pos unseen_mem, defined, List.mem_cons] at mem
      rcases mem with rfl | later
      · have content : tracker.content? graph location block = some definition.content := by
          simp [content?, defined]
        exact ⟨content, block, List.mem_cons_self, .here (by simp [content])⟩
      · obtain ⟨content, start, start_mem, reaches⟩ := ih later
        exact ⟨content, start, List.mem_cons_of_mem _ start_mem, reaches⟩
  | case3 unseen block queue unseen_mem undefined ih =>
      rw [search, if_pos unseen_mem, undefined] at mem
      obtain ⟨content, start, start_mem, reaches⟩ := ih mem
      refine ⟨content, ?_⟩
      rcases List.mem_append.mp start_mem with queued | predecessor
      · exact ⟨start, List.mem_cons_of_mem _ queued, reaches⟩
      · have transparent : tracker.content? graph location block = none := by
          simp [content?, undefined]
        exact ⟨block, List.mem_cons_self, .through transparent predecessor reaches⟩
  | case4 unseen block queue seen ih =>
      rw [search, if_neg seen] at mem
      obtain ⟨content, start, start_mem, reaches⟩ := ih mem
      exact ⟨content, start, List.mem_cons_of_mem _ start_mem, reaches⟩

/-- The search finds every block that reaches a block in its queue over unseen blocks. -/
theorem mem_search_of_reachesWithin {source start : BlockId} {content : Content}
    {unseen queue : List BlockId} (distinct : unseen.Nodup) (start_mem : start ∈ queue)
    (reaches : ReachesWithin graph tracker location unseen source start)
    (held : tracker.content? graph location source = some content) :
    { block := source, content } ∈ tracker.search graph location unseen queue := by
  induction unseen, queue using search.induct graph tracker location generalizing start with
  | case1 unseen => simp at start_mem
  | case2 unseen block queue unseen_mem definition defined ih =>
      have isSome : tracker.content? graph location block = some definition.content := by
        simp [content?, defined]
      rw [search, if_pos unseen_mem, defined]
      rcases reaches.avoid block with avoiding | ⟨same, _⟩ | ⟨transparent, _⟩
      · have ne_block : start ≠ block := by
          rintro rfl
          exact distinct.not_mem_erase avoiding.mem
        have queued : start ∈ queue := (List.mem_cons.mp start_mem).resolve_left ne_block
        exact List.mem_cons_of_mem _ (ih (distinct.erase _) queued avoiding)
      · subst same
        rw [isSome, Option.some.injEq] at held
        rw [← held]
        exact List.mem_cons_self
      · rw [isSome] at transparent
        cases transparent
  | case3 unseen block queue unseen_mem undefined ih =>
      have transparent : tracker.content? graph location block = none := by
        simp [content?, undefined]
      rw [search, if_pos unseen_mem, undefined]
      rcases reaches.avoid block with avoiding | ⟨_, holds⟩ | ⟨_, predecessor, edge, later⟩
      · have ne_block : start ≠ block := by
          rintro rfl
          exact distinct.not_mem_erase avoiding.mem
        have queued : start ∈ queue := (List.mem_cons.mp start_mem).resolve_left ne_block
        exact ih (distinct.erase _) (List.mem_append_left _ queued) avoiding
      · rw [transparent] at holds
        cases holds
      · exact ih (distinct.erase _) (List.mem_append_right _ edge) later
  | case4 unseen block queue seen ih =>
      rw [search, if_neg seen]
      rcases List.mem_cons.mp start_mem with rfl | queued
      · exact absurd reaches.mem seen
      · exact ih distinct queued reaches

/-- The search from a block finds exactly the definitions that reach its end. -/
theorem mem_reachingEnd_iff {found : ReachingDefinition} {block : BlockId}
    (closed : graph.Closed) (block_lt : block < graph.blocks.size) :
    found ∈ tracker.reachingEnd graph location block ↔
      ReachesEnd graph tracker location found.block block ∧
        tracker.content? graph location found.block = some found.content := by
  constructor
  · intro mem
    obtain ⟨content, start, start_mem, reaches⟩ := reachesEnd_of_mem_search mem
    rw [List.mem_singleton] at start_mem
    subst start_mem
    exact ⟨reaches, content⟩
  · rintro ⟨reaches, content⟩
    exact mem_search_of_reachesWithin List.nodup_range List.mem_cons_self
      (reaches.within closed block_lt) content

/-- All definitions that reach a block, before those that are the same are merged. -/
def reachingAll (graph : FlowGraph) (tracker : Tracker) (location : Location) (block : BlockId) :
    List ReachingDefinition :=
  ((graph.predecessors block).eraseDups.map (tracker.reachingEnd graph location)).flatten

theorem mem_reachingAll_iff {found : ReachingDefinition} {block : BlockId}
    (closed : graph.Closed) :
    found ∈ tracker.reachingAll graph location block ↔
      Reaches graph tracker location found.block block ∧
        tracker.content? graph location found.block = some found.content := by
  simp only [reachingAll, List.mem_flatten, List.mem_map, List.mem_eraseDups,
    exists_exists_and_eq_and]
  constructor
  · rintro ⟨predecessor, edge, mem⟩
    rw [mem_reachingEnd_iff closed (closed _ _ edge)] at mem
    exact ⟨⟨predecessor, edge, mem.1⟩, mem.2⟩
  · rintro ⟨⟨predecessor, edge, reaches⟩, content⟩
    exact ⟨predecessor, edge,
      (mem_reachingEnd_iff closed (closed _ _ edge)).mpr ⟨reaches, content⟩⟩

end Tracker

namespace ReachingDefinition

theorem isSame_known_iff {definition : ReachingDefinition} {value : ValueId} {block : BlockId} :
    definition.isSame { block, content := .known value } = true ↔
      definition.content = .known value := by
  cases content : definition.content <;> simp [isSame, content]

theorem isSame_pending_iff {definition : ReachingDefinition} {block : BlockId} :
    definition.isSame { block, content := .pending } = true ↔
      definition.content = .pending ∧ definition.block = block := by
  cases content : definition.content <;> simp [isSame, content]

theorem isSame_iff {first second : ReachingDefinition} :
    first.isSame second = true ↔
      first.content = second.content ∧
        (first.content = .pending → first.block = second.block) := by
  rcases second with ⟨block, content⟩
  cases content with
  | known value =>
      rw [isSame_known_iff]
      constructor
      · intro known
        exact ⟨known, fun pending => by rw [known] at pending; cases pending⟩
      · exact fun same => same.1
  | pending =>
      rw [isSame_pending_iff]
      exact ⟨fun same => ⟨same.1, fun _ => same.2⟩, fun same => ⟨same.1, same.2 same.1⟩⟩

end ReachingDefinition

namespace Tracker

variable {graph : FlowGraph} {tracker : Tracker} {location : Location} {block : BlockId}

theorem reaching_eq (allPaths : Bool) :
    tracker.reaching graph location block allPaths =
      if allPaths && ((graph.predecessors block).eraseDups.map
          (tracker.reachingEnd graph location)).any List.isEmpty then []
      else (tracker.reachingAll graph location block).eraseDupsBy ReachingDefinition.isSame :=
  rfl

/-- What is found reaches the block, with the content of its definition. -/
theorem reaches_of_mem_reaching {allPaths : Bool} {hit : ReachingDefinition}
    (closed : graph.Closed) (mem : hit ∈ tracker.reaching graph location block allPaths) :
    Reaches graph tracker location hit.block block ∧
      tracker.content? graph location hit.block = some hit.content := by
  rw [reaching_eq] at mem
  split at mem
  · cases mem
  · exact (mem_reachingAll_iff closed).mp (mem_of_mem_eraseDupsBy _ mem)

/-- If anything is found, then every definition that reaches the block is the same as one found. -/
theorem exists_mem_reaching {allPaths : Bool} {source : BlockId} {content : Content}
    (closed : graph.Closed) (nonempty : tracker.reaching graph location block allPaths ≠ [])
    (reaches : Reaches graph tracker location source block)
    (held : tracker.content? graph location source = some content) :
    ∃ hit ∈ tracker.reaching graph location block allPaths,
      hit.content = content ∧ (content = .pending → hit.block = source) := by
  rw [reaching_eq] at nonempty ⊢
  split at nonempty
  · exact absurd rfl nonempty
  · next complete =>
    rw [if_neg complete]
    have mem : { block := source, content } ∈ tracker.reachingAll graph location block :=
      (mem_reachingAll_iff closed).mpr ⟨reaches, held⟩
    obtain ⟨hit, hit_mem, same⟩ :=
      @exists_same_mem_eraseDupsBy _ ReachingDefinition.isSame _ _ mem
    refine ⟨hit, hit_mem, ?_⟩
    rcases same with rfl | same
    · exact ⟨rfl, fun _ => rfl⟩
    · rw [ReachingDefinition.isSame_iff] at same
      exact ⟨same.1.symm, fun pending => (same.2 pending).symm⟩

/-- Something is found if some definition reaches the block. -/
theorem reaching_ne_nil {source : BlockId} (closed : graph.Closed)
    (reaches : Reaches graph tracker location source block) :
    tracker.reaching graph location block false ≠ [] := by
  rcases reaches with ⟨predecessor, edge, reaches⟩
  rcases Option.isSome_iff_exists.mp reaches.holds with ⟨content, held⟩
  have mem : { block := source, content } ∈ tracker.reachingAll graph location block :=
    (mem_reachingAll_iff closed).mpr ⟨⟨predecessor, edge, reaches⟩, held⟩
  rcases @exists_same_mem_eraseDupsBy _ ReachingDefinition.isSame _ _ mem with ⟨kept, kept_mem, _⟩
  rw [reaching_eq]
  exact List.ne_nil_of_mem kept_mem

/-- No two definitions found are the same. -/
theorem pairwise_reaching (allPaths : Bool) :
    (tracker.reaching graph location block allPaths).Pairwise fun earlier later =>
      later.isSame earlier = false := by
  rw [reaching_eq]
  split
  · exact List.Pairwise.nil
  · exact pairwise_eraseDupsBy _

/-- Definitions found that are the same are one. -/
theorem eq_of_mem_reaching {allPaths : Bool} {first second : ReachingDefinition}
    (first_mem : first ∈ tracker.reaching graph location block allPaths)
    (second_mem : second ∈ tracker.reaching graph location block allPaths)
    (content : first.content = second.content)
    (pending : first.content = .pending → first.block = second.block) : first = second := by
  by_contra different
  have symmetric : Std.Symm fun earlier later : ReachingDefinition =>
      later.isSame earlier = false := by
    refine ⟨fun earlier later apart => ?_⟩
    rw [← Bool.not_eq_true, ReachingDefinition.isSame_iff] at apart ⊢
    rintro ⟨same, blocks⟩
    exact apart ⟨same.symm, fun pending => (blocks (same.trans pending)).symm⟩
  have apart := (pairwise_reaching allPaths).forall second_mem first_mem (Ne.symm different)
  rw [← Bool.not_eq_true, ReachingDefinition.isSame_iff] at apart
  exact apart ⟨content, pending⟩

/-- The definitions found are in different blocks. -/
theorem nodup_reaching_blocks (closed : graph.Closed) (allPaths : Bool) :
    ((tracker.reaching graph location block allPaths).map ReachingDefinition.block).Nodup := by
  refine List.pairwise_map.mpr (List.Pairwise.imp_of_mem ?_ (pairwise_reaching allPaths))
  intro earlier later earlier_mem later_mem different same
  have first := (reaches_of_mem_reaching closed earlier_mem).2
  have second := (reaches_of_mem_reaching closed later_mem).2
  rw [same, second, Option.some.injEq] at first
  rw [← Bool.not_eq_true, ReachingDefinition.isSame_iff] at different
  exact different ⟨first, fun _ => same.symm⟩

end Tracker

end RegisterFlow
