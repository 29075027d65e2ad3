import RegisterFlow.Proofs.Execution.Runs
import RegisterFlow.Proofs.Machine.Matching

/-!
# Raised code runs like the machine

An execution of raised code and the machine for which it stands visit the same blocks and return the
same results. What carries this from block to block: a register holds the word that it was given at
the latest visit to a block that defines it, and that is the word that reads deliver.
-/

namespace RegisterFlow

namespace Ending

variable {ending : Ending} {first second : ValueId → Option UInt64}

/-- What follows an ending depends on the words of its operands only. -/
theorem exit?_congr (same : ∀ operand ∈ ending.operation.operands, first operand = second operand) :
    ending.exit? first = ending.exit? second := by
  cases ending with
  | branch target => rfl
  | branchIf condition ifTrue ifFalse =>
      rw [exit?, exit?, same condition (List.mem_singleton_self condition)]
  | ret result =>
      cases result with
      | none => rfl
      | some result => rw [exit?, exit?, same result (List.mem_singleton_self result)]

theorem isSome_exit? (known : ∀ operand ∈ ending.operation.operands, (first operand).isSome) :
    (ending.exit? first).isSome := by
  cases ending with
  | branch target => rfl
  | branchIf condition ifTrue ifFalse =>
      have known := known condition (List.mem_singleton_self condition)
      rcases Option.isSome_iff_exists.mp known with ⟨word, known⟩
      simp [exit?, known]
  | ret result =>
      cases result with
      | none => rfl
      | some result =>
          have known := known result (List.mem_singleton_self result)
          rcases Option.isSome_iff_exists.mp known with ⟨word, known⟩
          simp [exit?, known]

end Ending

/--
Registers agree with an execution in front of a block: a register holds the word that it was given
at the latest visit to a block that defines it.
-/
def Raising.Agrees (graph : FlowGraph) (final : Raising) (arguments : Array UInt64)
    (visited : List BlockId) (registers : Register → Option UInt64) : Prop :=
  ∀ register passed source earlier given before, visited = passed ++ source :: earlier →
    (∀ other ∈ passed, ¬ graph.Writes other (.register register)) →
    final.tracker.content? graph (.register register) source = some (.known given) →
    final.func.Ends arguments earlier source before →
    registers register = (final.func.snapshot arguments before).words given

namespace Session

variable {graph : FlowGraph} {start : Session} {parts front back : List Part} {part : Part}
  {arguments : Array UInt64} {visited : List BlockId} {block : BlockId} {state : EvalState}

/-- The machine for which the raised code stands when tracking has ended. -/
abbrev raisedProgram (graph : FlowGraph) (start : Session) (parts : List Part) : Program :=
  start.program graph parts (start.raised graph parts).func

/--
At the end of a block, a machine accords with an execution: its registers agree, its results have
the same words, and it goes on to the same block or returns the same result.
-/
structure Accords (graph : FlowGraph) (start : Session) (parts : List Part)
    (arguments : Array UInt64) (visited : List BlockId) (block : BlockId) (state : EvalState)
    (machine : Machine) : Prop where
  agrees : (start.raised graph parts).Agrees graph arguments (block :: visited) machine.registers
  words : ∀ value word, machine.results value = some word →
    wordsAt graph start parts arguments state value = some word
  exit_eq : (start.raisedProgram graph parts).exit? block machine.results =
    (start.raised graph parts).func.exitFrom?
      ((start.raised graph parts).func.snapshot arguments state) block
  exits : ((start.raisedProgram graph parts).exit? block machine.results).isSome

/-! ### One block -/

namespace Executes

variable {registers : Register → Option UInt64}

theorem arrives (execution : Executes graph start parts arguments visited block state) :
    graph.Arrives visited block :=
  (execution.ends.arrived (execution.raises.finished execution.rooted).executable
    execution.supplied).arrives

/-- The block of an execution is one that was raised. -/
theorem exists_part (execution : Executes graph start parts arguments visited block state) :
    ∃ front part back, parts = front ++ part :: back ∧ part.block = block := by
  have entry_lt := execution.raises.mem_blocks_iff.mp (List.mem_of_mem_head? execution.raises.first)
  have block_lt := execution.arrives.lt_size entry_lt
  rcases List.mem_map.mp (execution.raises.mem_blocks_iff.mpr block_lt) with ⟨part, mem, same⟩
  rcases List.append_of_mem mem with ⟨front, back, split⟩
  exact ⟨front, part, back, split, same⟩

/-- Registers that agree with an execution hold what reads deliver. -/
theorem receives (execution : Executes graph start parts arguments visited block state)
    (agrees : (start.raised graph parts).Agrees graph arguments visited registers) :
    Receives graph (start.raised graph parts) block (wordsAt graph start parts arguments state)
      registers := by
  intro register value delivers
  rcases delivers arguments visited state execution.supplied execution.ends with
    ⟨passed, source, earlier, given, before, split, unwritten, known, ends, same⟩
  exact (agrees register passed source earlier given before split unwritten known ends).trans
    same.symm

/-- An argument has the same word at the start and at the end. -/
theorem leafWord?_argument (execution : Executes graph start parts arguments visited block state)
    {argument : ValueId} (mem : argument ∈ start.raising.func.arguments) :
    wordsAt graph start parts arguments state argument =
      start.raising.func.leafWord? arguments argument := by
  rcases execution.raises.starts with ⟨name, types, blockNames, tracker, -, made, start_eq⟩
  have grown : start.raising.func.Extends (start.raised graph parts).func :=
    (execution.raises.grows_raised execution.rooted (List.nil_append _).symm).toExtends
  have func_eq : start.raising.func = Function.empty name types blockNames := by
    rw [start_eq]
  rw [func_eq] at mem grown ⊢
  have held : argument < (Function.empty name types blockNames).values.size := by
    rw [Function.size_empty]
    exact List.mem_range.mp mem
  have operation := Function.operation_empty mem
  have later := grown.operation_of_ne (by simp) operation
  have leaf : ((start.raised graph parts).func.operation argument).isLeaf = true := by
    rw [later]
    rfl
  rw [wordsAt, Function.words_snapshot_of_isLeaf leaf, Function.leafWord?, Function.leafWord?,
    Function.wordFrom?, Function.wordFrom?, later, operation]
  dsimp only
  rw [grown.ty_eq _ held]

section Part

variable (execution : Executes graph start (front ++ part :: back) arguments visited part.block state)
include execution

/-- When a block is entered, what it knows are arguments at the start. -/
theorem matchesAmid_nil (opening : visited = [] → registers = start.argumentWords arguments) :
    MatchesAmid graph start front part
      (wordsAt graph start (front ++ part :: back) arguments state) registers [] { registers } := by
  refine ⟨?_, ?_, ?_, fun _ _ => rfl, fun _ _ => rfl⟩
  · exact fun value mem => absurd mem List.not_mem_nil
  · rintro value word ⟨⟩
  · intro register value known
    rw [Tracker.valueIn?_eq_some_iff] at known
    have done := execution.raises.isDone execution.rooted
    have entered := done.standing.known _ _ _ known
    have fresh := execution.raises.raisesPart.2.2.1
    have entry_eq : part.block = graph.entry := (List.mem_cons.mp entered).resolve_right fresh
    have front_eq : front = [] := by
      cases front with
      | nil => rfl
      | cons head front =>
          have head_eq : head.block = graph.entry := Option.some.inj execution.raises.first
          exact absurd (by simp [doneBlocks, entry_eq, head_eq]) fresh
    subst front_eq
    rcases execution.raises.starts.bound_of_known known with ⟨-, bound, argument⟩
    rcases Option.map_eq_some_iff.mp bound with ⟨binding, carried, rfl⟩
    have visited_eq : visited = [] :=
      execution.rooted.eq_nil_of_arrives (entry_eq ▸ execution.arrives)
    have carried : start.raising.tracker.binding? register = some binding := carried
    rw [execution.leafWord?_argument argument, opening visited_eq]
    simp [argumentWords, carried]

/-- The machine can execute the block, and at the end it accords with the execution. -/
theorem exists_execute_part (opening : visited = [] → registers = start.argumentWords arguments)
    (agrees : (start.raised graph (front ++ part :: back)).Agrees graph arguments visited registers) :
    ∃ after, (start.raisedProgram graph (front ++ part :: back)).execute part.block registers =
        some after ∧
      Accords graph start (front ++ part :: back) arguments visited part.block state after := by
  have split : part.work = part.work ++ [] := (List.append_nil _).symm
  have raises := execution.raises
  have finished := raises.finished execution.rooted
  have named : (start.raisedProgram graph (front ++ part :: back)).convention =
    graph.convention := rfl
  rcases execution.exists_steps named rfl split (execution.receives agrees)
      (execution.matchesAmid_nil opening) with
    ⟨after, runs, alike⟩
  have fresh : part.block ∉ front.map Part.block := by
    have fresh := raises.raisesPart.2.2.1
    rwa [doneBlocks, List.mem_reverse] at fresh
  have script : (start.raisedProgram graph (front ++ part :: back)).scripts.lookup part.block =
      some { steps := (start.after graph (front.flatMap Part.actions)).trace graph part.work
             ending := part.ending } := lookup_scripts fresh
  have same : ∀ operand ∈ part.ending.operation.operands,
      after.results operand =
        wordsAt graph start (front ++ part :: back) arguments state operand :=
    fun operand mem => alike.learned operand (raises.raisesPart.1.operands operand mem)
  have known : ∀ operand ∈ part.ending.operation.operands, (after.results operand).isSome := by
    intro operand mem
    rcases execution.exists_word split (raises.raisesPart.1.operands operand mem) with ⟨word, found⟩
    rw [same operand mem, found]
    rfl
  refine ⟨after, ?_, ?_, alike.sound, ?_, ?_⟩
  · rw [Program.execute, script]
    exact runs
  · intro register passed source earlier given before way unwritten content ends
    cases passed with
    | nil =>
        cases way
        rw [raises.content?_of_worked execution.rooted, ← Tracker.valueIn?_eq_some_iff] at content
        rw [alike.known register given content, ends.unique execution.ends]
        rfl
    | cons nearest passed =>
        cases way
        rw [alike.unwritten register (unwritten _ List.mem_cons_self)]
        exact agrees register passed source earlier given before rfl
          (fun other mem => unwritten other (List.mem_cons_of_mem _ mem)) content ends
  · rw [Program.exit?, script, finished.ended.exitFrom?_eq (by simp)]
    exact Ending.exit?_congr same
  · rw [Program.exit?, script]
    exact Ending.isSome_exit? known

end Part

/-- The machine can execute the block of an execution. -/
theorem exists_execute (execution : Executes graph start parts arguments visited block state)
    (opening : visited = [] → registers = start.argumentWords arguments)
    (agrees : (start.raised graph parts).Agrees graph arguments visited registers) :
    ∃ after, (start.raisedProgram graph parts).execute block registers = some after ∧
      Accords graph start parts arguments visited block state after := by
  rcases execution.exists_part with ⟨front, part, back, rfl, rfl⟩
  exact execution.exists_execute_part opening agrees

/-! ### Whole paths -/

/-- The machine visits whatever blocks an execution visits, and accords with it. -/
theorem exists_visits (execution : Executes graph start parts arguments visited block state) :
    ∃ machine, (start.raisedProgram graph parts).Visits (start.argumentWords arguments) visited
        block machine ∧
      Accords graph start parts arguments visited block state machine := by
  induction visited generalizing block state with
  | nil =>
      have entry_eq : block = graph.entry := execution.arrives
      have agrees : (start.raised graph parts).Agrees graph arguments []
          (start.argumentWords arguments) := by
        intro register passed source earlier given before way
        simp at way
      rcases execution.exists_execute (fun _ => rfl) agrees with ⟨machine, runs, accords⟩
      subst entry_eq
      exact ⟨machine, .entry runs, accords⟩
  | cons nearest visited ih =>
      rcases execution.ends.exists_traverse with ⟨before, ends, exits, -⟩
      rcases ih ⟨execution.toPrepared, ends⟩ with ⟨machine, visits, accords⟩
      rcases execution.exists_execute nofun accords.agrees with ⟨after, runs, accords_after⟩
      exact ⟨after, .jump visits (accords.exit_eq.trans exits) runs, accords_after⟩

end Executes

namespace Prepared

variable {machine : Machine} {target : BlockId}
  (prepared : Prepared graph start parts arguments)
include prepared

/-- Whenever raised code enters a block, it can be executed to the end of the block. -/
theorem exists_traverse {before : Snapshot}
    (enters : (start.raised graph parts).func.Enters arguments visited block before) :
    ∃ after, (start.raised graph parts).func.traverse arguments before
      ((start.raised graph parts).func.body block) = some after :=
  enters.exists_traverse (prepared.raises.finished prepared.rooted).executable prepared.supplied

theorem exists_executes {before : Snapshot}
    (enters : (start.raised graph parts).func.Enters arguments visited block before) :
    ∃ state, Executes graph start parts arguments visited block state := by
  rcases prepared.exists_traverse enters with ⟨after, run⟩
  rcases enters.exists_ends run with ⟨state, ends, -⟩
  exact ⟨state, prepared, ends⟩

theorem exists_executes_entry :
    ∃ state, Executes graph start parts arguments [] graph.entry state :=
  prepared.rooted.entry_eq ▸ prepared.exists_executes .entry

omit prepared in
theorem exists_executes_jump (execution : Executes graph start parts arguments visited block state)
    {accorded : Machine} (accords : Accords graph start parts arguments visited block state accorded)
    (jumps : (start.raisedProgram graph parts).exit? block accorded.results = some (.jump target)) :
    ∃ after, Executes graph start parts arguments (block :: visited) target after :=
  execution.toPrepared.exists_executes (.jump execution.ends (accords.exit_eq.symm.trans jumps))

/-- An execution visits whatever blocks the machine visits, and accords with it. -/
theorem exists_accords (visits : (start.raisedProgram graph parts).Visits
      (start.argumentWords arguments) visited block machine) :
    ∃ state, Executes graph start parts arguments visited block state ∧
      Accords graph start parts arguments visited block state machine := by
  induction visits with
  | entry runs =>
      rcases prepared.exists_executes_entry with ⟨state, execution⟩
      rcases execution.exists_visits with ⟨twin, again, accords⟩
      obtain rfl := Program.Visits.unique (.entry runs) again
      exact ⟨state, execution, accords⟩
  | jump visits jumps runs ih =>
      rcases ih with ⟨state, execution, accords⟩
      rcases exists_executes_jump execution accords jumps with ⟨after, further⟩
      rcases further.exists_visits with ⟨twin, again, accords_after⟩
      obtain rfl := Program.Visits.unique (.jump visits jumps runs) again
      exact ⟨after, further, accords_after⟩

/-- Raised code never gets stuck. -/
theorem total : (start.raised graph parts).func.Total arguments where
  runs _ _ _ enters := prepared.exists_traverse enters
  exits visited block state ends := by
    have execution : Executes graph start parts arguments visited block state := ⟨prepared, ends⟩
    rcases execution.exists_visits with ⟨machine, -, accords⟩
    exact Option.isSome_iff_exists.mp (accords.exit_eq ▸ accords.exits)

/-- The machine never gets stuck either. -/
theorem total_raisedProgram :
    (start.raisedProgram graph parts).Total (start.argumentWords arguments) where
  starts := by
    rcases prepared.exists_executes_entry with ⟨state, execution⟩
    rcases execution.exists_visits with ⟨machine, visits, -⟩
    cases visits with
    | entry runs => exact ⟨machine, runs⟩
  exits visited block machine visits := by
    rcases prepared.exists_accords visits with ⟨state, -, accords⟩
    exact Option.isSome_iff_exists.mp accords.exits
  jumps visited block machine target visits jumps := by
    rcases prepared.exists_accords visits with ⟨state, execution, accords⟩
    rcases exists_executes_jump execution accords jumps with ⟨_, further⟩
    rcases further.exists_visits with ⟨after, again, -⟩
    cases again with
    | jump visits_again _ runs =>
        obtain rfl := visits.unique visits_again
        exact ⟨after, runs⟩

/-- Raised code returns what the machine returns. -/
theorem returns_iff {result : Option UInt64} :
    (start.raised graph parts).func.Returns arguments result ↔
      (start.raisedProgram graph parts).Returns (start.argumentWords arguments) result := by
  constructor
  · rintro ⟨visited, block, state, ends, exits⟩
    have execution : Executes graph start parts arguments visited block state := ⟨prepared, ends⟩
    rcases execution.exists_visits with ⟨machine, visits, accords⟩
    exact ⟨visited, block, machine, visits, accords.exit_eq.trans exits⟩
  · rintro ⟨visited, block, machine, visits, exits⟩
    rcases prepared.exists_accords visits with ⟨state, execution, accords⟩
    exact ⟨visited, block, state, execution.ends, accords.exit_eq.symm.trans exits⟩

end Prepared

end Session

end RegisterFlow
