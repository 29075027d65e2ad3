import Mathlib
import RegisterFlow.Proofs.Tracking.Start
import RegisterFlow.Proofs.Tracking.Supply

/-!
# What a promotion supplies

When definitions meet, the blocks whose definitions reach the reading block should all supply the
new slot. Pending definitions always do. Of the blocks that hold the same known value, however, only
one does, because definitions with the same value count as the same. So no definition is lost
exactly if the known values that reach the block are held by different blocks.
-/

namespace RegisterFlow

/-- A block supplies a merge: it stores its value, converted, or it will once the value is known. -/
def Merge.SuppliedBy (graph : FlowGraph) (before after : Raising) (merge : Merge)
    (source : BlockId) : Prop :=
  (∀ value, before.tracker.content? graph merge.location source = some (.known value) →
    ∃ converted, after.func.storedIn merge.slot source = [converted] ∧
      Converts after.func source value (after.func.slot merge.slot).ty converted) ∧
  (before.tracker.content? graph merge.location source = some .pending →
    { location := merge.location, block := source, slot := merge.slot } ∈ after.tracker.deferred)

/-- An action that reads a register or a flag. -/
def Action.IsRead : Action → Prop
  | .readRegister .. | .readFlag .. => True
  | _ => False

namespace Raise

variable {graph : FlowGraph} {before after : Raising} {merge : Merge}

/-- A read that makes a merge lets the definitions meet that reach its block. -/
theorem exists_met_of_merges {location : Location} {native : Ty} {block : BlockId}
    {allPaths asNative : Bool} {answer : Option ValueId}
    (run : (readLocation graph location native block allPaths asNative).run before =
      .ok answer after)
    (merged : after.tracker.merges = before.tracker.merges ++ [merge]) :
    merge.location = location ∧ merge.block = block ∧ merge.slot = before.func.slots.size ∧
      before.tracker.reaching graph location block allPaths ≠ [] ∧
      ∃ native, Met location
        (before.slotTy graph location (before.tracker.reaching graph location block allPaths))
        block (before.tracker.reaching graph location block allPaths) native
        (before.tally Statistics.countPredecessorWalk) merge.value after := by
  have unmerged : ∀ tally, (before.tally tally).tracker.merges ≠
      before.tracker.merges ++ [merge] := by
    intro tally same
    have lengths := congrArg List.length same
    simp [Raising.tally] at lengths
  cases read_of_run run with
  | held _ => exact absurd merged (unmerged _)
  | missing _ _ => exact absurd merged (unmerged _)
  | direct _ _ => exact absurd merged (unmerged _)
  | @met hits value _ unknown reached several met =>
      have noted : after.tracker.merges = before.tracker.merges ++
          [{ location, block, slot := before.func.slots.size, value }] := by
        obtain ⟨supplied, chain, _, _, merges_eq⟩ := met.exists_chain
        rw [merges_eq, chain.tracker_eq]
        rfl
      rw [noted, List.append_cancel_left_eq, List.cons.injEq] at merged
      subst reached
      rw [← merged.1]
      exact ⟨rfl, rfl, rfl, several.1, _, met⟩

theorem run_ofExcept_bind {α β : Type} {result : Except TrackingError α} {next : α → Raise β}
    {answer : β} (run : (ofExcept result >>= next).run before = .ok answer after) :
    ∃ value, result = .ok value ∧ (next value).run before = .ok answer after := by
  cases result with
  | ok value => exact ⟨value, rfl, run⟩
  | error failure => cases run

/-- An action that reads is a read of a location in a block. -/
theorem exists_readLocation {action : Action} {answer : Option ValueId} (reads : action.IsRead)
    (run : (action.step graph).run before = .ok answer after) :
    ∃ location native block allPaths asNative,
      (readLocation graph location native block allPaths asNative).run before =
        .ok answer after := by
  cases action with
  | readRegister register block allPaths asNative =>
      obtain ⟨location, _, run⟩ := run_ofExcept_bind run
      exact ⟨location, _, block, allPaths, asNative, run⟩
  | readFlag flag block =>
      obtain ⟨location, _, run⟩ := run_ofExcept_bind run
      exact ⟨location, _, block, _, _, run⟩
  | _ => cases reads

end Raise

namespace Tracker

variable {graph : FlowGraph} {tracker : Tracker} {location : Location} {block source : BlockId}
  {allPaths : Bool}

/-- A block with a known value that is found in the block stores it, and only then. -/
theorem mem_reaching_of_valueIn? {value : ValueId} (closed : graph.Closed)
    (held : tracker.content? graph location source = some (.known value))
    (some_value : (tracker.reaching graph location block allPaths).filterMap
      (·.valueIn? source) ≠ []) :
    { block := source, content := .known value } ∈
      tracker.reaching graph location block allPaths := by
  obtain ⟨found, mem⟩ := List.exists_mem_of_ne_nil _ some_value
  obtain ⟨hit, hit_mem, known⟩ := List.mem_filterMap.mp mem
  rw [ReachingDefinition.valueIn?_eq_some_iff] at known
  subst known
  have content := (reaches_of_mem_reaching closed hit_mem).2
  rw [held] at content
  cases content
  exact hit_mem

end Tracker

/--
A promotion is supplied by all blocks whose definitions reach it exactly if the known values among
these definitions are held by different blocks.
-/
theorem suppliedBy_iff_distinct {graph : FlowGraph} {session : Session} {action : Action}
    {answer : Option ValueId} {after : Raising} {merge : Merge} (closed : graph.Closed)
    (reachable : Session.Reachable graph session) (reads : action.IsRead)
    (run : (action.step graph).run session.raising = .ok answer after)
    (merged : after.tracker.merges = session.raising.tracker.merges ++ [merge]) :
    (∀ source, Tracker.Reaches graph session.raising.tracker merge.location source merge.block →
        merge.SuppliedBy graph session.raising after source) ↔
      session.raising.tracker.Distinct graph merge.location merge.block := by
  obtain ⟨location, native, block, allPaths, asNative, run⟩ := Raise.exists_readLocation reads run
  obtain ⟨location_eq, block_eq, slot_eq, nonempty, native, met⟩ :=
    Raise.exists_met_of_merges run merged
  subst location_eq block_eq
  have walked : Move graph merge.block session.raising
      (session.raising.tally Statistics.countPredecessorWalk) := .tally _
  have kept := walked.wellKept (reachable.inOrder closed).kept closed
  have supplied : ∀ source, Tracker.Reaches graph session.raising.tracker merge.location source
      merge.block → _ := fun source reaches =>
    met.storedIn kept (meetingTy_ne_void _ _ _) (reaches.source_lt closed)
  have slot_is : (session.raising.tally Statistics.countPredecessorWalk).func.slots.size =
      merge.slot := slot_eq.symm
  simp only [slot_is] at supplied
  constructor
  · intro all first second value first_reaches second_reaches first_known second_known
    have found : ∀ source, Tracker.Reaches graph session.raising.tracker merge.location source
        merge.block →
        session.raising.tracker.content? graph merge.location source = some (.known value) →
        { block := source, content := .known value } ∈
          session.raising.tracker.reaching graph merge.location merge.block allPaths := by
      intro source reaches known
      obtain ⟨_, stores, _⟩ := supplied source reaches
      obtain ⟨converted, stored, _⟩ := (all source reaches).1 value known
      refine Tracker.mem_reaching_of_valueIn? closed known fun nothing => ?_
      rw [nothing, stored] at stores
      cases stores
    have same := Tracker.eq_of_mem_reaching (found first first_reaches first_known)
      (found second second_reaches second_known) rfl (fun pending => by cases pending)
    exact congrArg ReachingDefinition.block same
  · intro distinct source reaches
    obtain ⟨ty_eq, stores, deferred⟩ := supplied source reaches
    constructor
    · intro value known
      have mem := distinct.mem_reaching closed nonempty reaches known
      rw [ReachingDefinition.filterMap_valueIn?_of_mem
        (Tracker.nodup_reaching_blocks closed allPaths) mem] at stores
      obtain ⟨converted, rest, converts, none_left, stored⟩ := List.forall₂_cons_left_iff.mp stores
      rw [List.forall₂_nil_left_iff.mp none_left] at stored
      exact ⟨converted, stored, ty_eq.symm ▸ converts⟩
    · intro pending
      have mem := distinct.mem_reaching closed nonempty reaches pending
      rw [deferred]
      refine List.mem_append_right _ ?_
      exact ReachingDefinition.mem_filterMap_waiting?_iff.mpr ⟨_, mem, rfl, rfl⟩

/-! ### A fork of three -/

/-- A block with three successors that write a register, and a block in which they join. -/
def forkGraph : FlowGraph where
  blocks := #[
    { name := "bb0", predecessors := [], effects := [] },
    { name := "bb1", predecessors := [0],
      effects := [{ writes := [.rax], family := .other "mov" }] },
    { name := "bb2", predecessors := [0],
      effects := [{ writes := [.rax], family := .other "mov" }] },
    { name := "bb3", predecessors := [0],
      effects := [{ writes := [.rax], family := .other "mov" }] },
    { name := "bb4", predecessors := [1, 2, 3], effects := [] }]

/-- The three blocks of a fork were raised; each gave the register one of three arguments. -/
def forkSession (first second third : ValueId) : Session :=
  (Session.starting forkGraph "fork" [.int 64, .int 64, .int 64]
    ["entry", "first", "second", "third", "join"]).after forkGraph
    [.writeRegister .rax 1 first, .writeRegister .rax 2 second, .writeRegister .rax 3 third]

/-- The read of the register where the blocks of a fork join, and the merge that it makes. -/
def forkRead : Action :=
  .readRegister .rax 4 false true

def forkMerge (value : ValueId) : Merge where
  location := .register .rax
  block := 4
  slot := 0
  value

theorem closed_forkGraph : forkGraph.Closed := by
  decide +kernel

theorem reachable_forkSession {first second third : ValueId} (first_lt : first < 3)
    (second_lt : second < 3) (third_lt : third < 3) :
    Session.Reachable forkGraph (forkSession first second third) := by
  refine (Session.Reachable.start (Session.starts_starting rfl ?_)).after
    ⟨first_lt, second_lt, third_lt, trivial⟩
  decide +kernel

/-- With three different arguments, every block supplies the merge. -/
theorem suppliedBy_fork :
    forkGraph.Closed ∧ Session.Reachable forkGraph (forkSession 0 1 2) ∧ forkRead.IsRead ∧
      ∃ answer after,
        (forkRead.step forkGraph).run (forkSession 0 1 2).raising = .ok answer after ∧
        after.tracker.merges = (forkSession 0 1 2).raising.tracker.merges ++ [forkMerge 7] ∧
        ((∀ source, Tracker.Reaches forkGraph (forkSession 0 1 2).raising.tracker
              (forkMerge 7).location source (forkMerge 7).block →
            (forkMerge 7).SuppliedBy forkGraph (forkSession 0 1 2).raising after source) ↔
          (forkSession 0 1 2).raising.tracker.Distinct forkGraph (forkMerge 7).location
            (forkMerge 7).block) := by
  have reachable : Session.Reachable forkGraph (forkSession 0 1 2) :=
    reachable_forkSession (by decide) (by decide) (by decide)
  have reads : forkRead.IsRead := trivial
  have succeeds : (forkRead.step forkGraph).succeeds (forkSession 0 1 2).raising = true := by
    cbv
  obtain ⟨answer, after, run⟩ := Raise.exists_of_succeeds succeeds
  have merged : after.tracker.merges =
      (forkSession 0 1 2).raising.tracker.merges ++ [forkMerge 7] := by
    rw [← Raise.final_of_ok run]
    cbv
  exact ⟨closed_forkGraph, reachable, reads, answer, after, run, merged,
    suppliedBy_iff_distinct closed_forkGraph reachable reads run merged⟩

/-- When two of three blocks give the register the same argument, one of them supplies nothing. -/
theorem not_suppliedBy_fork :
    forkGraph.Closed ∧ Session.Reachable forkGraph (forkSession 0 0 1) ∧ forkRead.IsRead ∧
      ∃ answer after,
        (forkRead.step forkGraph).run (forkSession 0 0 1).raising = .ok answer after ∧
        after.tracker.merges = (forkSession 0 0 1).raising.tracker.merges ++ [forkMerge 6] ∧
        Tracker.Reaches forkGraph (forkSession 0 0 1).raising.tracker (forkMerge 6).location 2
          (forkMerge 6).block ∧
        after.func.storedIn (forkMerge 6).slot 2 = [] ∧
        ¬ (forkMerge 6).SuppliedBy forkGraph (forkSession 0 0 1).raising after 2 := by
  have succeeds : (forkRead.step forkGraph).succeeds (forkSession 0 0 1).raising = true := by
    cbv
  obtain ⟨answer, after, run⟩ := Raise.exists_of_succeeds succeeds
  have final_eq := Raise.final_of_ok run
  have known : (forkSession 0 0 1).raising.tracker.content? forkGraph (.register .rax) 2 =
      some (.known 0) := by
    cbv
  have unstored : after.func.storedIn (forkMerge 6).slot 2 = [] := by
    rw [← final_eq]
    cbv
  refine ⟨closed_forkGraph, reachable_forkSession (by decide) (by decide) (by decide), trivial,
    answer, after, run, ?_, ⟨2, by decide, .here ?_⟩, unstored, ?_⟩
  · rw [← final_eq]
    cbv
  · rw [show (forkMerge 6).location = .register .rax from rfl, known]
    rfl
  · rintro ⟨supplied, _⟩
    obtain ⟨converted, stored, _⟩ := supplied 0 known
    exact absurd (stored.symm.trans unstored) (List.cons_ne_nil _ _)

end RegisterFlow
