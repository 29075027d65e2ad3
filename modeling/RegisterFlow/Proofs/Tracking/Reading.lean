import RegisterFlow.Proofs.Tracking.Meeting
import RegisterFlow.Proofs.Tracking.Walk

/-!
# What a read does

The ways in which a location is read: from the definition of the block itself, from the one known
value that reaches the block, or from a slot in which several definitions meet. Only a meeting
changes the function and the tracker, and whether it takes place or is given up, it touches nothing
but its new slot, the ends of the blocks whose values it stores, and the reading block.
-/

namespace RegisterFlow

namespace Tracker

/-- The known value of the definition of a location in a block. -/
def valueIn? (graph : FlowGraph) (tracker : Tracker) (location : Location) (block : BlockId) :
    Option ValueId :=
  (tracker.definitionIn? graph location block).bind Definition.value?

theorem valueIn?_eq_some_iff {graph : FlowGraph} {tracker : Tracker} {location : Location}
    {block : BlockId} {value : ValueId} :
    tracker.valueIn? graph location block = some value ↔
      tracker.content? graph location block = some (.known value) := by
  unfold valueIn? content?
  cases tracker.definitionIn? graph location block with
  | none => simp
  | some definition =>
      cases content : definition.content <;> simp [Definition.value?, Content.value?, content]

end Tracker

/-- Definitions that need a slot to meet in: there are some, and not just one known value. -/
def ReachingDefinition.Several (hits : List ReachingDefinition) : Prop :=
  hits ≠ [] ∧ ∀ source value, hits ≠ [{ block := source, content := .known value }]

/-- The state after something was counted. -/
def Raising.tally (raising : Raising) (tally : Statistics → Statistics) : Raising :=
  { raising with statistics := tally raising.statistics }

/-- A location was read in a block. -/
inductive Read (graph : FlowGraph) (location : Location) (native : Ty) (block : BlockId)
    (allPaths asNative : Bool) (before : Raising) : Option ValueId → Raising → Prop where
  | held {value : ValueId}
      (known : before.tracker.valueIn? graph location block = some value) :
      Read graph location native block allPaths asNative before (some value)
        (before.tally Statistics.countLocalHit)
  | missing (unknown : before.tracker.valueIn? graph location block = none)
      (unreached : before.tracker.reaching graph location block allPaths = []) :
      Read graph location native block allPaths asNative before none
        (before.tally Statistics.countPredecessorWalk)
  | direct {source : BlockId} {value : ValueId}
      (unknown : before.tracker.valueIn? graph location block = none)
      (reached : before.tracker.reaching graph location block allPaths =
        [{ block := source, content := .known value }]) :
      Read graph location native block allPaths asNative before (some value)
        (before.tally Statistics.countPredecessorWalk)
  | met {hits : List ReachingDefinition} {value : ValueId} {after : Raising}
      (unknown : before.tracker.valueIn? graph location block = none)
      (reached : before.tracker.reaching graph location block allPaths = hits)
      (several : ReachingDefinition.Several hits)
      (met : Met location (meetingTy before.func (graph.convention.fullWidth location) hits) block
        hits (if asNative then some native else none)
        (before.tally Statistics.countPredecessorWalk) value after) :
      Read graph location native block allPaths asNative before (some value) after

/-- A read failed because its meeting was given up. -/
inductive ReadFailed (graph : FlowGraph) (location : Location) (native : Ty) (block : BlockId)
    (allPaths asNative : Bool) (before : Raising) : Raising → Prop where
  | intro {hits : List ReachingDefinition} {after : Raising}
      (unknown : before.tracker.valueIn? graph location block = none)
      (reached : before.tracker.reaching graph location block allPaths = hits)
      (several : ReachingDefinition.Several hits)
      (abandoned : Abandoned location
        (meetingTy before.func (graph.convention.fullWidth location) hits) block hits
        (if asNative then some native else none)
        (before.tally Statistics.countPredecessorWalk) after) :
      ReadFailed graph location native block allPaths asNative before after

namespace Raise

/-- What a read answers from the definitions that reach the block. -/
def readReaching (graph : FlowGraph) (location : Location) (native : Ty) (block : BlockId)
    (asNative : Bool) : List ReachingDefinition → Raise (Option ValueId)
  | [] => pure none
  | [{ content := .known value, .. }] => pure (some value)
  | hits => merge graph location native block hits asNative >>= fun value => pure (some value)

variable {graph : FlowGraph} {location : Location} {native : Ty} {block : BlockId}
  {allPaths asNative : Bool} {before : Raising}

/-- A read of what the block knows gives its value and builds nothing. -/
theorem run_readLocation_of_known {value : ValueId}
    (known : before.tracker.valueIn? graph location block = some value) :
    (readLocation graph location native block allPaths asNative).run before =
      .ok (some value) (before.tally Statistics.countLocalHit) := by
  rw [Tracker.valueIn?] at known
  simp only [readLocation, EStateM.run_bind, run_definitionIn?, known]
  rfl

/-- Without a value of its own, the block is read from the definitions that reach it. -/
theorem run_readLocation_of_unknown
    (unknown : before.tracker.valueIn? graph location block = none) :
    (readLocation graph location native block allPaths asNative).run before =
      (readReaching graph location native block asNative
        (before.tracker.reaching graph location block allPaths)).run
        (before.tally Statistics.countPredecessorWalk) := by
  rw [Tracker.valueIn?] at unknown
  simp only [readLocation, EStateM.run_bind, run_definitionIn?, unknown]
  rfl

/-- A location is read, or the meeting that the read needs is given up. -/
theorem run_readLocation (graph : FlowGraph) (location : Location) (native : Ty) (block : BlockId)
    (allPaths asNative : Bool) (before : Raising) :
    (∃ answer after, Read graph location native block allPaths asNative before answer after ∧
        (readLocation graph location native block allPaths asNative).run before =
          .ok answer after) ∨
      ∃ failure after, ReadFailed graph location native block allPaths asNative before after ∧
        (readLocation graph location native block allPaths asNative).run before =
          .error failure after := by
  cases known : before.tracker.valueIn? graph location block with
  | some value => exact Or.inl ⟨_, _, .held known, run_readLocation_of_known known⟩
  | none =>
      rw [run_readLocation_of_unknown known]
      unfold readReaching
      split
      · next reached => exact Or.inl ⟨_, _, .missing known reached, rfl⟩
      · next value source reached => exact Or.inl ⟨_, _, .direct known reached, rfl⟩
      · next hits nonempty several =>
        have several : ReachingDefinition.Several
            (before.tracker.reaching graph location block allPaths) :=
          ⟨nonempty, fun source value => several source value⟩
        rcases run_merge graph location native block
            (before.tracker.reaching graph location block allPaths) asNative
            (before.tally Statistics.countPredecessorWalk) with
          ⟨value, after, met, succeeds⟩ | ⟨failure, after, abandoned, fails⟩
        · left
          refine ⟨some value, after, .met known rfl several met, ?_⟩
          rw [run_bind_of_ok succeeds]
          rfl
        · right
          exact ⟨failure, after, .intro known rfl several abandoned, run_bind_of_error fails⟩

theorem read_of_run {answer : Option ValueId} {after : Raising}
    (run : (readLocation graph location native block allPaths asNative).run before =
      .ok answer after) :
    Read graph location native block allPaths asNative before answer after := by
  rcases run_readLocation graph location native block allPaths asNative before with
    ⟨_, _, read, succeeds⟩ | ⟨_, _, _, fails⟩
  · rw [run] at succeeds
    cases succeeds
    exact read
  · rw [run] at fails
    cases fails

/--
A read leads along every relation that holds where something is counted, where the definitions that
reach the block meet, and where their meeting is given up.
-/
theorem leads_readLocation_of_meetings {related : Raising → Raising → Prop}
    (counted : ∀ tally, related before (before.tally tally))
    (met : ∀ {hits value after}, before.tracker.valueIn? graph location block = none →
      before.tracker.reaching graph location block allPaths = hits →
      ReachingDefinition.Several hits →
      Met location (meetingTy before.func (graph.convention.fullWidth location) hits) block hits
        (if asNative then some native else none) (before.tally Statistics.countPredecessorWalk)
        value after → related before after)
    (abandoned : ∀ {hits after}, before.tracker.valueIn? graph location block = none →
      before.tracker.reaching graph location block allPaths = hits →
      ReachingDefinition.Several hits →
      Abandoned location (meetingTy before.func (graph.convention.fullWidth location) hits) block
        hits (if asNative then some native else none)
        (before.tally Statistics.countPredecessorWalk) after → related before after) :
    Leads related (Read graph location native block allPaths asNative before)
      (readLocation graph location native block allPaths asNative) before := by
  rcases run_readLocation graph location native block allPaths asNative before with
    ⟨answer, after, read, succeeds⟩ | ⟨failure, after, failed, fails⟩
  · refine .of_ok succeeds ?_ read
    cases read with
    | held _ | missing _ _ | direct _ _ => exact counted _
    | met unknown reached several meets => exact met unknown reached several meets
  · refine .of_error fails ?_
    cases failed with
    | intro unknown reached several gives_up => exact abandoned unknown reached several gives_up

end Raise

end RegisterFlow
