import RegisterFlow.Proofs.Tracking.Merges
import RegisterFlow.Proofs.Tracking.Promotion

/-!
# Reading at a merge point

A read either finds its answer, and then it changes nothing, or it lets the definitions meet that
reach its block. After that the block is a merge point: reads of the location there have the value
of the merge as their answer, until the location is defined anew.
-/

namespace RegisterFlow

/-- An action reads a location in a block. -/
def Action.Reads (graph : FlowGraph) (location : Location) (block : BlockId) (allPaths : Bool) :
    Action → Prop
  | readRegister register worked all _ =>
    worked = block ∧ all = allPaths ∧ graph.convention.locationOf register = .ok location
  | readFlag flag worked =>
    worked = block ∧ allPaths = false ∧ Location.ofFlag flag = .ok location
  | _ => False

/--
An answer is found without a merge: there is none, or the block itself knows it, or it is the only
definition that reaches the block.
-/
def Raising.Finds (graph : FlowGraph) (location : Location) (block : BlockId) (allPaths : Bool)
    (answer : Option ValueId) (raising : Raising) : Prop :=
  answer = none ∨ raising.tracker.valueIn? graph location block = answer ∨
    ∃ source value, raising.tracker.reaching graph location block allPaths =
      [{ block := source, content := .known value }]

section Reads

variable {graph : FlowGraph} {location : Location} {block : BlockId} {allPaths : Bool}
  {action : Action} {answer : Option ValueId} {before after : Raising} {value : ValueId}

theorem Action.Reads.exists_run_eq (reads : action.Reads graph location block allPaths)
    (before : Raising) :
    ∃ native asNative, (action.step graph).run before =
      (Raise.readLocation graph location native block allPaths asNative).run before := by
  cases action with
  | readRegister register worked all asNative =>
      rcases reads with ⟨rfl, rfl, located⟩
      refine ⟨.int (graph.convention.width register), asNative, ?_⟩
      rw [step, Raise.readRegister, located]
      rfl
  | readFlag flag worked =>
      rcases reads with ⟨rfl, rfl, tracked⟩
      refine ⟨.bool, true, ?_⟩
      rw [step, Raise.readFlag, tracked]
      rfl
  | _ => cases reads

/-- What the block knows is found by every read of the location. -/
theorem Action.Reads.run_of_known (reads : action.Reads graph location block allPaths)
    (known : before.tracker.valueIn? graph location block = some value) :
    (action.step graph).run before =
      .ok (some value) (before.tally Statistics.countLocalHit) := by
  rcases reads.exists_run_eq before with ⟨native, asNative, run_eq⟩
  rw [run_eq]
  exact Raise.run_readLocation_of_known known

/-- A read that finds its answer changes nothing but the statistics, and any other one merges. -/
theorem Action.Reads.finds_or_merges (reads : action.Reads graph location block allPaths)
    (run : (action.step graph).run before = .ok answer after) :
    (before.Finds graph location block allPaths answer →
      after.func = before.func ∧ after.tracker = before.tracker) ∧
    (¬ before.Finds graph location block allPaths answer →
      ∃ merge, after.tracker.merges = before.tracker.merges ++ [merge] ∧
        merge.location = location ∧ merge.block = block ∧ answer = some merge.value ∧
        ∃ width, after.tracker.table.get? location block =
          some { location, block, width, content := .known merge.value }) := by
  rcases reads.exists_run_eq before with ⟨native, asNative, run_eq⟩
  rw [run_eq] at run
  cases Raise.read_of_run run with
  | held known => exact ⟨fun _ => ⟨rfl, rfl⟩, fun unfound => absurd (.inr (.inl known)) unfound⟩
  | missing _ _ => exact ⟨fun _ => ⟨rfl, rfl⟩, fun unfound => absurd (.inl rfl) unfound⟩
  | direct _ reached =>
      exact ⟨fun _ => ⟨rfl, rfl⟩, fun unfound => absurd (.inr (.inr ⟨_, _, reached⟩)) unfound⟩
  | @met hits value _ unknown reached several met =>
      refine ⟨?_, fun _ => ?_⟩
      · rintro (none | known | ⟨source, other, single⟩)
        · cases none
        · rw [unknown] at known
          cases known
        · exact absurd (reached.symm.trans single) (several.2 source other)
      · refine ⟨{ location, block, slot := before.func.slots.size, value }, ?_, rfl, rfl, rfl, ?_⟩
        · rcases met.exists_chain with ⟨supplied, chain, -, -, merges_eq⟩
          rw [merges_eq, chain.tracker_eq]
          rfl
        · refine ⟨(after.func.ty value).bits, ?_⟩
          rw [Table.get?_record met.record_eq.1, if_pos ⟨rfl, rfl⟩]

end Reads

/--
Every merge has its own point and its own slot. The slot is loaded once, at the merge, and no block
stores into it twice; a value is on record at the point from then on. Reads that find their answer
change nothing, and after a merge the same read, of any part of the register, has the value of the
merge as its answer and builds nothing, until a definition is recorded there.
-/
theorem one_slot_per_merge {graph : FlowGraph} {start : Session} {actions : List Action}
    (closed : graph.Closed) (starts : Session.Starts graph start)
    (allowed : Session.AllowsAll graph start actions)
    (loads : Session.LoadsOwn graph start actions) :
    let reached := start.after graph actions
    reached.raising.tracker.merges.Pairwise Merge.Apart ∧
    (∀ merge ∈ reached.raising.tracker.merges,
      merge.LoadedOnce reached.raising.func ∧
      (∀ block, (reached.raising.func.storedIn merge.slot block).length ≤ 1) ∧
      merge.OnRecord reached.raising.tracker.table) ∧
    (∀ earlier later, actions = earlier ++ later →
      (start.after graph earlier).raising.tracker.merges <+: reached.raising.tracker.merges) ∧
    ∀ read location block allPaths, Action.Reads graph location block allPaths read →
      ∀ answer after, (read.step graph).run reached.raising = .ok answer after →
        (reached.raising.Finds graph location block allPaths answer →
          after.func = reached.raising.func ∧ after.tracker = reached.raising.tracker) ∧
        (¬ reached.raising.Finds graph location block allPaths answer →
          ∃ merge, after.tracker.merges = reached.raising.tracker.merges ++ [merge] ∧
            merge.location = location ∧ merge.block = block ∧ answer = some merge.value ∧
            ∀ later, (∀ action ∈ later, ¬ action.Records graph location block) →
              ∀ again allAgain, Action.Reads graph location block allAgain again →
                let state := ((reached.perform graph read).after graph later).raising
                (again.step graph).run state =
                  .ok (some merge.value) (state.tally Statistics.countLocalHit)) := by
  have merging := Session.merging_after closed starts.merging loads
  have reachable : Session.Reachable graph (start.after graph actions) :=
    (Session.Reachable.start starts).after allowed
  have once := reachable.storesOnce closed
  have ordered : start.raising.tracker.table.Ordered :=
    Tracker.ordered_of_start starts.tracker_eq
  refine ⟨merging.apart, ?_, ?_, ?_⟩
  · intro merge mem
    exact ⟨merging.loadedOnce merge mem, once merge.slot (merging.unowned merge mem),
      merging.onRecord merge mem⟩
  · rintro earlier later rfl
    rw [Session.after_append]
    exact Session.merges_prefix_after graph _ later
  · intro read location block allPaths reads answer after run
    refine ⟨(reads.finds_or_merges run).1, fun unfound => ?_⟩
    rcases (reads.finds_or_merges run).2 unfound with
      ⟨merge, merged, located, placed, answered, width, filed⟩
    refine ⟨merge, merged, located, placed, answered, ?_⟩
    intro later silent again allAgain reads_again
    have final : ((start.after graph actions).perform graph read).raising = after :=
      Raise.final_of_ok run
    have knows : ((start.after graph actions).perform graph read).raising.tracker.Knows graph
        location block { location, block, width, content := .known merge.value } := by
      refine ⟨?_, ?_, rfl⟩
      · exact Tracker.ordered_after [read] (Tracker.ordered_after actions ordered)
      · rw [final]
        exact Tracker.definitionIn?_of_known filed rfl
    exact reads_again.run_of_known ((knows.after silent).valueIn?_eq rfl)

/-- The three blocks of a fork are raised before the block in which they join. -/
def forkWrites : List Action :=
  [.writeRegister .rax 1 0, .writeRegister .rax 2 1, .writeRegister .rax 3 2]

/-- The start of raising a function of three arguments with a fork. -/
def forkStart : Session :=
  .starting forkGraph "fork" [.int 64, .int 64, .int 64]
    ["entry", "first", "second", "third", "join"]

/-- Where the blocks join, the lower half of the register is read after the register was merged. -/
theorem one_slot_per_merge_fork :
    forkGraph.Closed ∧ Session.Starts forkGraph forkStart ∧
      Session.AllowsAll forkGraph forkStart forkWrites ∧
      Session.LoadsOwn forkGraph forkStart forkWrites ∧
      Action.Reads forkGraph (.register .rax) 4 false forkRead ∧
      ∃ value after,
        (forkRead.step forkGraph).run (forkStart.after forkGraph forkWrites).raising =
          .ok (some value) after ∧
        let state := (((forkStart.after forkGraph forkWrites).perform forkGraph forkRead).after
          forkGraph [.endBlock 4, .drain]).raising
        (Raise.readRegister forkGraph (.general .doubleword 0) 4 true true).run state =
          .ok (some value) (state.tally Statistics.countLocalHit) := by
  have starts : Session.Starts forkGraph forkStart := by
    apply Session.starts_starting rfl
    decide +kernel
  have allowed : Session.AllowsAll forkGraph forkStart forkWrites :=
    ⟨(by decide : 0 < 3), (by decide : 1 < 3), (by decide : 2 < 3), trivial⟩
  have loads : Session.LoadsOwn forkGraph forkStart forkWrites := by
    intro earlier block slot later split
    have mem : Action.emit block (.load slot) ∈ forkWrites := by simp [split]
    simp [forkWrites] at mem
  have reads : Action.Reads forkGraph (.register .rax) 4 false forkRead := ⟨rfl, rfl, rfl⟩
  have reads_again : Action.Reads forkGraph (.register .rax) 4 true
      (.readRegister (.general .doubleword 0) 4 true true) := ⟨rfl, rfl, rfl⟩
  have succeeds : (forkRead.step forkGraph).succeeds (forkStart.after forkGraph forkWrites).raising =
      true := by
    cbv
  rcases Raise.exists_of_succeeds succeeds with ⟨answer, after, run⟩
  have holds := one_slot_per_merge closed_forkGraph starts allowed loads
  have finds_or_merges := holds.2.2.2 _ _ _ _ reads _ _ run
  have unfound : ¬ (forkStart.after forkGraph forkWrites).raising.Finds forkGraph (.register .rax) 4
      false answer := by
    intro found
    have same := congrArg (·.merges.length) (finds_or_merges.1 found).2
    rw [← Raise.final_of_ok run] at same
    have different : ((forkRead.step forkGraph).final
        (forkStart.after forkGraph forkWrites).raising).tracker.merges.length ≠
          (forkStart.after forkGraph forkWrites).raising.tracker.merges.length := by
      cbv
    exact different same
  have silent : ∀ action ∈ [Action.endBlock 4, .drain],
      ¬ action.Records forkGraph (.register .rax) 4 := by
    simp [Action.Records, Action.Sets]
  rcases finds_or_merges.2 unfound with ⟨merge, -, -, -, rfl, again⟩
  exact ⟨closed_forkGraph, starts, allowed, loads, reads, merge.value, after, run,
    again _ silent _ true reads_again⟩

end RegisterFlow
