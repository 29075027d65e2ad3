import Mathlib.Data.List.Nodup
import RegisterFlow.Proofs.Machine.Working

/-!
# Raising a whole function

Block after block, all that a driver does succeeds, and matters stand as they should when a block is
done: nothing is pending there any longer, and it has the terminator that the driver gave it.
-/

namespace RegisterFlow

/-! ### Terminators -/

/-- The blocks of parts have the terminators of the parts, and no other block has one. -/
structure Function.Ended (parts : List Part) (func : Function) : Prop where
  ended : ∀ part ∈ parts, ∃ id < func.values.size,
    (func.block part.block).terminator = some id ∧ func.operation id = part.ending.operation
  unended : ∀ block, block ∉ parts.map Part.block → (func.block block).terminator = none

theorem Function.terminator_empty (name : String) (types : List Ty) (blockNames : List String)
    (block : BlockId) : ((empty name types blockNames).block block).terminator = none := by
  simp only [Function.block, empty]
  cases found : (blockNames.map fun name => ({ name } : Block)).toArray[block]? with
  | none => rfl
  | some body =>
      simp only [List.getElem?_toArray, List.getElem?_map, Option.map_eq_some_iff] at found
      rcases found with ⟨_, _, rfl⟩
      rfl

namespace Function.Ended

variable {graph : FlowGraph} {parts : List Part} {before after : Function}

theorem builds (ended : before.Ended parts) (builds : Builds graph before after) :
    after.Ended parts where
  ended part mem := by
    rcases ended.ended part mem with ⟨id, held, terminator, operation⟩
    have grown := builds.grows.toExtends
    refine ⟨id, Nat.lt_of_lt_of_le held grown.size_le, ?_, ?_⟩
    · rw [builds.terminator_eq, terminator]
    · rw [grown.operation_eq id held, operation]
  unended block outside := by
    rw [builds.terminator_eq]
    exact ended.unended block outside

/-- A further block gets its terminator. -/
theorem terminate {part : Part} (ended : before.Ended parts)
    (new : part.block ∉ parts.map Part.block) (block_lt : part.block < before.blocks.size) :
    (before.withTerminator part.block part.ending.operation).Ended (parts ++ [part]) where
  ended other mem := by
    rcases List.mem_append.mp mem with old | last
    · rcases ended.ended other old with ⟨id, held, terminator, operation⟩
      have different : other.block ≠ part.block := by
        intro same
        exact new (same ▸ List.mem_map_of_mem old)
      refine ⟨id, ?_, ?_, ?_⟩
      · rw [size_withTerminator]
        exact Nat.lt_succ_of_lt held
      · rw [block_withTerminator, if_neg fun same => different same.1, terminator]
      · simpa [Function.operation, Nat.ne_of_lt held] using operation
    · obtain rfl := List.mem_singleton.mp last
      refine ⟨before.values.size, by simp, ?_, by simp [Function.operation]⟩
      rw [block_withTerminator, if_pos ⟨rfl, block_lt⟩]
  unended block outside := by
    rw [List.map_append, List.mem_append, not_or] at outside
    have different : block ≠ part.block := by simpa using outside.2
    rw [block_withTerminator, if_neg fun same => different same.1]
    exact ended.unended block outside.1

end Function.Ended

/-! ### Parts -/

theorem Action.run_endBlock (graph : FlowGraph) (block : BlockId) (before : Raising) :
    ((Action.endBlock block).step graph).run before =
      .ok none
        { before with
          tracker := { before.tracker with table := before.tracker.table.withoutPending block }
          statistics := before.statistics.countPendingDropped
            (before.tracker.table.pendingIn block).length } :=
  rfl

theorem Action.run_terminate (graph : FlowGraph) (block : BlockId) (ending : Ending)
    (before : Raising) :
    ((Action.terminate block ending).step graph).run before =
      .ok (some before.func.values.size)
        { before with func := before.func.withTerminator block ending.operation } := by
  rw [Action.step, Raise.run_bind_of_ok (Raise.run_build ..), Ending.run_build]
  rfl

namespace Session

variable {graph : FlowGraph} {origin start : Session} {done : List BlockId} {part : Part}
  {parts earlier later : List Part}

/-- The blocks of parts, the latest one first. -/
def doneBlocks (parts : List Part) : List BlockId :=
  (parts.map Part.block).reverse

/-- How matters stand when the blocks of parts are done. -/
structure Done (graph : FlowGraph) (start : Session) (parts : List Part) : Prop where
  ordered : (start.after graph (parts.flatMap Part.actions)).InOrder graph
  allowed : AllowsAll graph start (parts.flatMap Part.actions)
  standing : (start.after graph (parts.flatMap Part.actions)).raising.Standing graph
    (doneBlocks parts) (doneBlocks parts)
  ended : (start.after graph (parts.flatMap Part.actions)).raising.func.Ended parts

/-- When all work in a block is done, nothing is pending there. -/
theorem InWork.not_isPending (inWork : InWork graph done part.block origin part.work)
    (raises : origin.RaisesPart graph part) (location : Location) :
    ¬ (origin.after graph part.work).raising.tracker.IsPending location part.block := by
  intro pending
  rcases (inWork.standing.pending location part.block pending).1 with ⟨register, mem, located⟩
  rcases raises.records register mem with ⟨value, recorded⟩
  exact (inWork.recorded _ recorded location ⟨rfl, located⟩).2 pending

theorem after_actions : origin.after graph part.actions =
    ((origin.after graph part.work).perform graph (.endBlock part.block)).perform graph
      (.terminate part.block part.ending) := by
  rw [Part.actions, after_append]
  rfl

/-- What blocks hold is not changed when a block is ended. -/
theorem InWork.content?_actions (inWork : InWork graph done part.block origin part.work)
    (raises : origin.RaisesPart graph part) (location : Location) (source : BlockId) :
    (origin.after graph part.actions).raising.tracker.content? graph location source =
      (origin.after graph part.work).raising.tracker.content? graph location source := by
  rw [after_actions, perform, Raise.final_of_ok (Action.run_terminate ..), perform,
    Raise.final_of_ok (Action.run_endBlock ..)]
  exact Tracker.content?_withoutPending_of_settled (inWork.not_isPending raises)

/-- A block that has been worked in can be ended, and then it is done. -/
theorem InWork.finish (inWork : InWork graph done part.block origin part.work)
    (closed : graph.Closed) (raises : origin.RaisesPart graph part) :
    (origin.after graph part.actions).InOrder graph ∧ AllowsAll graph origin part.actions ∧
      (origin.after graph part.actions).raising.Standing graph (part.block :: done)
        (part.block :: done) ∧
      (origin.after graph part.actions).raising.func =
        (origin.after graph part.work).raising.func.withTerminator part.block
          part.ending.operation := by
  have ended := Raise.final_of_ok
    (Action.run_endBlock graph part.block (origin.after graph part.work).raising)
  have terminated := Raise.final_of_ok (Action.run_terminate graph part.block part.ending
    ((origin.after graph part.work).perform graph (.endBlock part.block)).raising)
  have middle_ordered := inWork.ordered.perform closed
    (show (origin.after graph part.work).Allows (.endBlock part.block) from trivial)
  have middle : ((origin.after graph part.work).perform graph
      (.endBlock part.block)).raising.Standing graph (part.block :: done) (part.block :: done) := by
    rw [perform, ended]
    exact inWork.standing.drop (inWork.not_isPending raises)
  have func_eq : ((origin.after graph part.work).perform graph (.endBlock part.block)).raising.func =
      (origin.after graph part.work).raising.func := by
    rw [perform, ended]
  have wellBuilt : (((origin.after graph part.work).perform graph
      (.endBlock part.block)).raising.func.withTerminator part.block
        part.ending.operation).WellBuilt graph := by
    rw [func_eq]
    refine inWork.standing.wellBuilt.withTerminator part.ending.isTerminator_operation ?_
    exact fun operand mem => (inWork.usable operand (raises.operands operand mem)).lt_size
  refine ⟨?_, ?_, ?_, ?_⟩
  · rw [after_actions]
    exact middle_ordered.perform closed trivial
  · exact allowsAll_append.mpr ⟨inWork.allowed, trivial, trivial, trivial⟩
  · rw [after_actions, perform, terminated]
    exact middle.grow middle_ordered.kept wellBuilt (Function.growsSparing_withTerminator ..)
  · rw [after_actions, perform, terminated, func_eq]

/-! ### Functions -/

namespace RaisesFunction

theorem nodup (raises : RaisesFunction graph start parts) : (parts.map Part.block).Nodup :=
  raises.once.nodup_iff.mpr List.nodup_range

theorem mem_blocks_iff (raises : RaisesFunction graph start parts) {block : BlockId} :
    block ∈ parts.map Part.block ↔ block < graph.blocks.size := by
  rw [raises.once.mem_iff, List.mem_range]

theorem width_ne_zero (raises : RaisesFunction graph start parts) {block : BlockId}
    {register : Register} (mem : (block, register) ∈ graph.writes) :
    graph.convention.width register ≠ 0 := by
  rcases raises.starts with ⟨_, _, _, tracker, -, made, rfl⟩
  exact (Tracker.isPending_of_start made mem).2

/-- What a driver does in one part follows what it did in the parts before. -/
theorem raisesPart (raises : RaisesFunction graph start (earlier ++ part :: later)) :
    (start.after graph (earlier.flatMap Part.actions)).RaisesPart graph part ∧
      part.block < graph.blocks.size ∧ part.block ∉ doneBlocks earlier ∧
      ∀ location, (start.after graph (earlier.flatMap Part.actions)).DistinctMerges graph part.work
        location := by
  refine ⟨raises.raises.append.1, raises.mem_blocks_iff.mp (by simp), ?_, fun location => ?_⟩
  · have nodup := raises.nodup
    rw [List.map_append, List.map_cons, List.nodup_append] at nodup
    rw [doneBlocks, List.mem_reverse]
    exact fun mem => nodup.2.2 _ mem _ List.mem_cons_self rfl
  · have distinct := raises.distinct location
    rw [List.flatMap_append, List.flatMap_cons, Part.actions, List.append_assoc] at distinct
    exact distinct.after.of_append

/-- Every block that has been raised is done. -/
theorem isDone (raises : RaisesFunction graph start (earlier ++ later)) (rooted : graph.Rooted) :
    Done graph start earlier := by
  induction earlier using List.reverseRecOn generalizing later with
  | nil =>
      exact {
        ordered := raises.starts.inOrder
        allowed := trivial
        standing := raises.starts.standing raises.words
        ended := by
          rcases raises.starts with ⟨name, types, blockNames, tracker, -, -, rfl⟩
          refine ⟨fun _ mem => absurd mem List.not_mem_nil, fun block _ => ?_⟩
          exact Function.terminator_empty .. }
  | append_singleton earlier part ih =>
      rw [List.append_assoc, List.singleton_append] at raises
      have done := ih raises
      rcases raises.raisesPart with ⟨raisesPart, block_lt, new, distinct⟩
      have inWork := raisesPart.inWork rooted done.ordered done.standing block_lt
        (fun register mem => raises.width_ne_zero mem) distinct (List.append_nil part.work).symm
      rcases inWork.finish rooted.closed raisesPart with ⟨ordered, allowed, standing, func_eq⟩
      have after_eq : start.after graph ((earlier ++ [part]).flatMap Part.actions) =
          (start.after graph (earlier.flatMap Part.actions)).after graph part.actions := by
        rw [List.flatMap_append, after_append]
        simp
      have blocks_eq : doneBlocks (earlier ++ [part]) = part.block :: doneBlocks earlier := by
        simp [doneBlocks]
      refine ⟨?_, ?_, ?_, ?_⟩
      · rw [after_eq]
        exact ordered
      · rw [List.flatMap_append, List.flatMap_singleton]
        exact allowsAll_append.mpr ⟨done.allowed, allowed⟩
      · rw [after_eq, blocks_eq]
        exact standing
      · rw [after_eq, func_eq]
        refine (done.ended.builds inWork.builds).terminate ?_ ?_
        · rwa [doneBlocks, List.mem_reverse] at new
        · rw [inWork.ordered.kept.blockCount_eq]
          exact block_lt

/-- In the end, all blocks are done. -/
theorem allDone (raises : RaisesFunction graph start parts) (rooted : graph.Rooted) :
    Done graph start parts := by
  have whole : RaisesFunction graph start (parts ++ []) := by rwa [List.append_nil]
  exact whole.isDone rooted

/-- Matters stand as they should at every point of the work in a block. -/
theorem inWork {worked rest : List Action}
    (raises : RaisesFunction graph start (earlier ++ part :: later)) (rooted : graph.Rooted)
    (split : part.work = worked ++ rest) :
    InWork graph (doneBlocks earlier) part.block (start.after graph (earlier.flatMap Part.actions))
      worked := by
  have done := raises.isDone rooted
  rcases raises.raisesPart with ⟨raisesPart, block_lt, -, distinct⟩
  exact raisesPart.inWork rooted done.ordered done.standing block_lt
    (fun register mem => raises.width_ne_zero mem) distinct split

/-- Whatever a driver does in one part succeeds. -/
theorem succeeds_part (raises : RaisesFunction graph start (earlier ++ part :: later))
    (rooted : graph.Rooted) :
    (start.after graph (earlier.flatMap Part.actions)).SucceedsAll graph part.actions := by
  refine succeedsAll_append.mpr ⟨succeedsAll_of_forall fun front action back split => ?_, ?_⟩
  · rcases raises.raisesPart with ⟨raisesPart, block_lt, -, distinct⟩
    exact (raisesPart.continues rooted block_lt (fun register mem => raises.width_ne_zero mem)
      distinct split (raises.inWork rooted split)).1
  · refine ⟨⟨_, _, Action.run_endBlock .., ?_⟩, ⟨_, _, Action.run_terminate .., ?_⟩, trivial⟩
    · rintro location block allPaths ⟨⟩
    · rintro location block allPaths ⟨⟩

/-- Whatever a driver does succeeds. -/
theorem succeeds (raises : RaisesFunction graph start (earlier ++ later))
    (rooted : graph.Rooted) : SucceedsAll graph start (earlier.flatMap Part.actions) := by
  induction earlier using List.reverseRecOn generalizing later with
  | nil => trivial
  | append_singleton earlier part ih =>
      rw [List.append_assoc, List.singleton_append] at raises
      rw [List.flatMap_append, List.flatMap_singleton]
      exact succeedsAll_append.mpr ⟨ih raises, raises.succeeds_part rooted⟩

end RaisesFunction

end Session

end RegisterFlow
