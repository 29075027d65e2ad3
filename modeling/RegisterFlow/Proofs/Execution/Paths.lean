import RegisterFlow.Proofs.Execution.Bodies

/-!
# Paths of execution

An execution visits blocks one after the other: it executes the instructions of a block and then
follows its terminator. `Ends` says in which state an execution stands at the end of a block, given
the blocks that it visited before. What was seen at the end of an earlier visit is still seen later,
as far as no block visited in between changes it.
-/

namespace RegisterFlow

namespace Function

/-- What follows a block, as its terminator says on a snapshot. -/
def exitFrom? (func : Function) (snapshot : Snapshot) (block : BlockId) : Option Exit :=
  match (func.block block).terminator.map func.operation with
  | some (.branch target) => some (.jump target)
  | some (.branchIf condition ifTrue ifFalse) => do
    return .jump (if (← snapshot.words condition) &&& 1 = 1 then ifTrue else ifFalse)
  | some (.ret (some result)) => do return .result (some (← snapshot.words result))
  | some (.ret none) => some (.result none)
  | _ => none

/--
An execution stands at the end of a block, in front of its terminator, after it visited other blocks
from the entry on. The visited blocks are listed from the latest to the first.
-/
inductive Ends (func : Function) (arguments : Array UInt64) :
    List BlockId → BlockId → EvalState → Prop where
  | entry {state : EvalState}
      (runs : ((func.body BlockId.entry).forM (func.execute arguments)).run {} = .ok () state) :
      Ends func arguments [] BlockId.entry state
  | jump {visited : List BlockId} {block target : BlockId} {before middle state : EvalState}
      (ends : Ends func arguments visited block before)
      (jumps : (func.leave arguments block).run before = .ok (.jump target) middle)
      (runs : ((func.body target).forM (func.execute arguments)).run middle = .ok () state) :
      Ends func arguments (block :: visited) target state

/-- A value can be read in a state and has a word there. -/
def Evaluates (func : Function) (arguments : Array UInt64) (state : EvalState) (id : ValueId)
    (word : UInt64) : Prop :=
  ∃ after, (func.operand arguments id).run state = .ok word after

variable {func : Function} {arguments : Array UInt64} {state : EvalState} {block : BlockId}
  {visited : List BlockId}

theorem faithful_empty : func.Faithful arguments {} := by
  intro id word leaf computed
  simp at computed

theorem Shows.of_ok {α : Type} {result : Option α} {step : Eval α} {answer : α}
    {after : EvalState} (shown : func.Shows arguments result step state)
    (succeeds : step.run state = .ok answer after) :
    result = some answer ∧ func.snapshot arguments after = func.snapshot arguments state ∧
      func.Faithful arguments after := by
  cases result with
  | none =>
      rcases shown with ⟨failure, other, fails⟩
      rw [fails] at succeeds
      cases succeeds
  | some other =>
      rcases shown with ⟨_, found, same, faithful⟩
      rw [found] at succeeds
      cases succeeds
      exact ⟨rfl, same, faithful⟩

theorem Advances.of_ok {next : Option Snapshot} {step : Eval Unit} {after : EvalState}
    (advances : func.Advances arguments next step state)
    (succeeds : step.run state = .ok () after) :
    next = some (func.snapshot arguments after) ∧ func.Faithful arguments after := by
  cases next with
  | none =>
      rcases advances with ⟨failure, other, fails⟩
      rw [fails] at succeeds
      cases succeeds
  | some snapshot =>
      rcases advances with ⟨_, found, same, faithful⟩
      rw [found] at succeeds
      cases succeeds
      exact ⟨congrArg some same.symm, faithful⟩

/-- A value evaluates to its word. -/
theorem evaluates_iff {id : ValueId} {word : UInt64} (faithful : func.Faithful arguments state) :
    func.Evaluates arguments state id word ↔
      (func.snapshot arguments state).words id = some word := by
  have shown := shows_operand faithful id
  constructor
  · rintro ⟨after, succeeds⟩
    exact (shown.of_ok succeeds).1
  · intro known
    rw [known] at shown
    rcases shown with ⟨after, succeeds, _, _⟩
    exact ⟨after, succeeds⟩

/-- A terminator shows what follows its block. -/
theorem shows_leave (faithful : func.Faithful arguments state) (block : BlockId) :
    func.Shows arguments (func.exitFrom? (func.snapshot arguments state) block)
      (func.leave arguments block) state := by
  unfold exitFrom? leave
  rcases (func.block block).terminator.map func.operation with _ | operation
  · exact shows_throw _
  cases operation with
  | branch target => exact shows_pure faithful _
  | branchIf condition ifTrue ifFalse =>
      exact (shows_operand faithful _).bind fun word after same kept => shows_pure kept _
  | ret result =>
      cases result with
      | none => exact shows_pure faithful _
      | some result =>
          exact (shows_operand faithful _).bind fun word after same kept => shows_pure kept _
  | _ => exact shows_throw _

namespace Ends

theorem faithful (ends : func.Ends arguments visited block state) :
    func.Faithful arguments state := by
  induction ends with
  | entry runs => exact ((advances_forM faithful_empty _).of_ok runs).2
  | jump _ jumps runs ih =>
      have left := (shows_leave ih _).of_ok jumps
      exact ((advances_forM left.2.2 _).of_ok runs).2

/-- A block executes its instructions on what is seen when it is entered. -/
theorem exists_traverse {nearest : BlockId}
    (ends : func.Ends arguments (nearest :: visited) block state) :
    ∃ before, func.Ends arguments visited nearest before ∧
      func.exitFrom? (func.snapshot arguments before) nearest = some (.jump block) ∧
      func.traverse arguments (func.snapshot arguments before) (func.body block) =
        some (func.snapshot arguments state) := by
  cases ends with
  | @jump _ _ _ before middle _ ends jumps runs =>
      have left := (shows_leave ends.faithful _).of_ok jumps
      have executed := (advances_forM left.2.2 _).of_ok runs
      exact ⟨before, ends, left.1, left.2.1 ▸ executed.1⟩

/-- An execution comes to the end of the entry block if its instructions can be traversed. -/
theorem exists_entry {next : Snapshot}
    (traverses : func.traverse arguments (func.snapshot arguments {}) (func.body BlockId.entry) =
      some next) :
    ∃ state, func.Ends arguments [] BlockId.entry state ∧ func.snapshot arguments state = next := by
  have advances := advances_forM (@faithful_empty func arguments) (func.body BlockId.entry)
  rw [traverses] at advances
  rcases advances with ⟨state, runs, same, _⟩
  exact ⟨state, .entry runs, same⟩

/-- It comes to the end of a block that it jumps to, if the instructions can be traversed. -/
theorem exists_jump {target : BlockId} {next : Snapshot}
    (ends : func.Ends arguments visited block state)
    (exits : func.exitFrom? (func.snapshot arguments state) block = some (.jump target))
    (traverses : func.traverse arguments (func.snapshot arguments state) (func.body target) =
      some next) :
    ∃ after, func.Ends arguments (block :: visited) target after ∧
      func.snapshot arguments after = next := by
  have shown := shows_leave ends.faithful block
  rw [exits] at shown
  rcases shown with ⟨middle, jumps, same, faithful⟩
  have advances := advances_forM faithful (func.body target)
  rw [same, traverses] at advances
  rcases advances with ⟨after, runs, arrived, _⟩
  exact ⟨after, .jump ends jumps runs, arrived⟩

/-- An execution is determined by the blocks that it visits. -/
theorem unique {other : EvalState} (ends : func.Ends arguments visited block state)
    (again : func.Ends arguments visited block other) : state = other := by
  induction ends generalizing other with
  | entry runs =>
      cases again with
      | entry runs_again =>
          rw [runs] at runs_again
          cases runs_again
          rfl
  | jump _ jumps runs ih =>
      cases again with
      | jump ends_again jumps_again runs_again =>
          cases ih ends_again
          rw [jumps] at jumps_again
          cases jumps_again
          rw [runs] at runs_again
          cases runs_again
          rfl

/--
Between a visit and the entry of a later block, a slot keeps its content if no block in between
stores into it, and a value its word if no block in between computes it.
-/
theorem exists_passage {between : List BlockId} {source : BlockId}
    (ends : func.Ends arguments (between ++ source :: visited) block state) :
    ∃ before start, func.Ends arguments visited source before ∧
      func.traverse arguments start (func.body block) = some (func.snapshot arguments state) ∧
      (∀ slot, (∀ other ∈ between, func.storedIn slot other = []) →
        start.cells slot = (func.snapshot arguments before).cells slot) ∧
      ∀ id, (∀ other ∈ between, id ∉ func.body other) →
        start.words id = (func.snapshot arguments before).words id := by
  induction between generalizing block state with
  | nil =>
      rcases ends.exists_traverse with ⟨before, ends, _, run⟩
      exact ⟨before, _, ends, run, fun _ _ => rfl, fun _ _ => rfl⟩
  | cons nearest between ih =>
      rcases ends.exists_traverse with ⟨middle, ends, _, run⟩
      rcases ih ends with ⟨before, start, ends_before, passed, cells, words⟩
      refine ⟨before, _, ends_before, run, ?_, ?_⟩
      · intro slot harmless
        rw [cells_traverse_of_not_stored passed (harmless nearest List.mem_cons_self)]
        exact cells slot fun other mem => harmless other (List.mem_cons_of_mem _ mem)
      · intro id outside
        rw [words_traverse_of_not_mem passed (outside nearest List.mem_cons_self)]
        exact words id fun other mem => outside other (List.mem_cons_of_mem _ mem)

theorem exists_start (ends : func.Ends arguments visited block state) :
    ∃ start, func.traverse arguments start (func.body block) =
      some (func.snapshot arguments state) := by
  cases ends with
  | entry runs => exact ⟨_, ((advances_forM faithful_empty _).of_ok runs).1⟩
  | jump ends jumps runs =>
      have left := (shows_leave ends.faithful _).of_ok jumps
      exact ⟨_, ((advances_forM left.2.2 _).of_ok runs).1⟩

/-- A slot is still empty when a block is entered if no block that was visited stores into it. -/
theorem exists_start_of_unstored {slot : SlotId}
    (ends : func.Ends arguments visited block state)
    (harmless : ∀ other ∈ visited, func.storedIn slot other = []) :
    ∃ start, func.traverse arguments start (func.body block) =
      some (func.snapshot arguments state) ∧ start.cells slot = none := by
  induction visited generalizing block state with
  | nil =>
      cases ends with
      | entry runs => exact ⟨_, ((advances_forM faithful_empty _).of_ok runs).1, by simp [snapshot]⟩
  | cons nearest visited ih =>
      rcases ends.exists_traverse with ⟨before, ends_before, _, run⟩
      rcases ih ends_before fun other mem => harmless other (List.mem_cons_of_mem _ mem) with
        ⟨start, run_before, empty⟩
      refine ⟨_, run, ?_⟩
      rw [cells_traverse_of_not_stored run_before (harmless nearest List.mem_cons_self), empty]

/-- At the end of a block a slot holds the word of the value that the block last stored there. -/
theorem cells_of_storedIn {slot : SlotId} {values : List ValueId} {value : ValueId}
    (ends : func.Ends arguments visited block state) (numbered : func.Numbered)
    (stored : func.storedIn slot block = values ++ [value])
    (timely : ∀ id ∈ func.body block, func.operation id = .store slot value → value < id) :
    (func.snapshot arguments state).cells slot = (func.snapshot arguments state).words value := by
  rcases ends.exists_start with ⟨start, run⟩
  exact cells_of_stored (numbered.sorted block) run stored timely

/--
A load reads what an earlier visit stored into the slot last, if neither the blocks visited in
between nor the block of the load store anything there before.
-/
theorem words_of_load {between : List BlockId} {source : BlockId} {slot : SlotId} {load : ValueId}
    {values : List ValueId} {value : ValueId}
    (ends : func.Ends arguments (between ++ source :: visited) block state)
    (numbered : func.Numbered) (mem : load ∈ func.body block)
    (loads : func.operation load = .load slot)
    (late : ∀ other ∈ func.body block, ∀ operand,
      func.operation other = .store slot operand → load < other)
    (quiet : ∀ other ∈ between, func.storedIn slot other = [])
    (stored : func.storedIn slot source = values ++ [value])
    (timely : ∀ id ∈ func.body source, func.operation id = .store slot value → value < id) :
    ∃ before, func.Ends arguments visited source before ∧
      (func.snapshot arguments state).words load =
        (func.snapshot arguments before).words value := by
  rcases ends.exists_passage with ⟨before, start, ends_before, run, cells, _⟩
  refine ⟨before, ends_before, ?_⟩
  rw [Function.words_of_load (numbered.sorted block) run mem loads late, cells slot quiet,
    ends_before.cells_of_storedIn numbered stored timely]

end Ends

end Function

end RegisterFlow
