import RegisterFlow.Proofs.Execution.Paths
import RegisterFlow.Proofs.Tracking.Bindings

/-!
# Coming back to the entry

The entry block may have predecessors. An argument register that is read there before the block
writes it still gives the argument, whichever blocks write the register: the value read is what came
in when the function was called, at the first visit of the entry and at every later one.
-/

namespace RegisterFlow

/-- An argument evaluates to the word that was passed for it, cut to the width of its type. -/
theorem Function.evaluates_argument_iff {func : Function} {arguments : Array UInt64}
    {state : EvalState} {id : ValueId} {index : Nat} {word : UInt64}
    (faithful : func.Faithful arguments state) (operation : func.operation id = .argument index) :
    func.Evaluates arguments state id word ↔
      ∃ given, arguments[index]? = some given ∧ Word.truncate (func.ty id).bits given = word := by
  have leaf : (func.operation id).isLeaf = true := by
    rw [operation]
    rfl
  rw [evaluates_iff faithful, words_snapshot_of_isLeaf leaf, leafWord?, wordFrom?, operation]
  exact Option.map_eq_some_iff

theorem Function.operation_empty {name : String} {types : List Ty} {blockNames : List String}
    {argument : ValueId} (mem : argument ∈ (Function.empty name types blockNames).arguments) :
    (Function.empty name types blockNames).operation argument = .argument argument := by
  have inside : argument < types.length := List.mem_range.mp mem
  simp [Function.operation, Function.value, Function.empty, inside]

namespace Tracker

variable {graph : FlowGraph} {func : Function} {tracker before after : Tracker}

/-- Every register is bound with the width of its argument. -/
def BoundFully (func : Function) (tracker : Tracker) : Prop :=
  ∀ register binding, tracker.binding? register = some binding →
    binding.value ∈ func.arguments ∧ binding.width = (func.ty binding.value).bits

theorem BoundFully.bindArgument {written : Register} (fully : before.BoundFully func)
    (binds : Tracker.bindArgument graph func before written = .ok after) :
    after.BoundFully func := by
  intro register binding bound
  rcases bindArgument_eq_ok binds with ⟨-, rfl⟩ | ⟨value, table, found, -, rfl⟩
  · exact fully register binding bound
  · rw [binding?, List.lookup_cons] at bound
    split at bound
    · cases bound
      exact ⟨mem_arguments_of_argumentOf? found, rfl⟩
    · exact fully register binding bound

theorem boundFully_of_start (starts : start graph func = .ok tracker) :
    tracker.BoundFully func := by
  rcases start_eq_ok starts with ⟨bound, binds, seeds⟩
  have binding : ∀ register ∈ graph.convention.argumentRegisters, ∀ before after : Tracker,
      before.BoundFully func → Tracker.bindArgument graph func before register = .ok after →
      after.BoundFully func :=
    fun _ _ _ _ fully binds => fully.bindArgument binds
  have fully_bound := foldlM_invariant binding binds
  intro register binding found
  rw [binding?, bindings_foldlM_seedWrite seeds] at found
  refine fully_bound ?_ register binding found
  intro register binding bound
  cases bound

end Tracker

/--
A read of an argument register in the entry block, before the block writes the register, gives the
argument. What was read evaluates to what was passed to the function whenever an execution comes to
the end of the entry block, whatever blocks it visited before.
-/
theorem argument_evaluates_at_entry {graph : FlowGraph} {start : Session}
    {earlier later : List Action} {register part : Register} {binding : Binding}
    {allPaths asNative : Bool} {summary : Summary} {finished : Raising} (closed : graph.Closed)
    (starts : Session.Starts graph start)
    (allowed : Session.AllowsAll graph start
      (earlier ++ .readRegister part graph.entry allPaths asNative :: later))
    (located : graph.convention.locationOf part = .ok (.register register))
    (bound : start.raising.tracker.binding? register = some binding)
    (silent : ∀ action ∈ earlier, ¬ action.Records graph (.register register) graph.entry)
    (concluded : (Raise.conclude graph).run
      (start.after graph (earlier ++ .readRegister part graph.entry allPaths asNative :: later)
        ).raising = .ok summary finished) :
    (∃ after, (Raise.readRegister graph part graph.entry allPaths asNative).run
        (start.after graph earlier).raising = .ok (some binding.value) after) ∧
      ∀ arguments visited state, finished.func.Ends arguments visited graph.entry state →
        ∀ word, finished.func.Evaluates arguments state binding.value word ↔
          ∃ given, arguments[binding.value]? = some given ∧
            Word.truncate binding.width given = word := by
  have ordered := starts.inOrder
  rcases starts with ⟨name, types, blockNames, tracker, -, made, start_eq⟩
  have func_eq : start.raising.func = Function.empty name types blockNames := by
    rw [start_eq]
  have made_start : Tracker.start graph start.raising.func = .ok start.raising.tracker := by
    rw [start_eq]
    exact made
  constructor
  · have kept := Tracker.knows_argument_after made_start bound silent
    exact ⟨_, Raise.run_readRegister_of_known located (kept.valueIn?_eq rfl)⟩
  · intro arguments visited state ends word
    have grown : start.raising.func.Extends finished.func := by
      have drained := Session.allowsAll_append.mpr ⟨allowed, show Session.AllowsAll graph _ [.drain] from
        ⟨trivial, trivial⟩⟩
      have grows := ordered.grows_after closed drained
      rw [Session.after_append] at grows
      rw [(Session.conclude_eq_ok concluded).2]
      exact grows.toExtends
    rcases Tracker.boundFully_of_start made_start register binding bound with ⟨mem, width⟩
    rw [func_eq] at grown mem width
    have operation := grown.operation_of_ne (by simp) (Function.operation_empty mem)
    have held : binding.value < (Function.empty name types blockNames).values.size := by
      rw [Function.size_empty]
      exact List.mem_range.mp mem
    rw [Function.evaluates_argument_iff ends.faithful operation, grown.ty_eq _ held, width]

/-! ### A loop that starts at the entry -/

/-- An entry that is a loop of its own and counts an argument down, and an exit. -/
def spinGraph : FlowGraph where
  blocks := #[
    { name := "bb0", predecessors := [0], effects := [{ writes := [.rdi], family := .subtract }] },
    { name := "bb1", predecessors := [0], effects := [] }]

/-- The start of raising a function of one argument. -/
def spinSession : Session :=
  .starting spinGraph "spin" [.int 64] ["entry", "exit"]

/-- The entry subtracts one from what it read and is entered again if what it read was odd. -/
def spinRest : List Action :=
  [.constant (.int 64) 1, .emit 0 (.binary .sub 0 1), .writeRegister .rdi 0 2,
    .terminate 0 (.branchIf 0 0 1), .terminate 1 (.ret (some 0))]

def spinActions : List Action :=
  .readRegister .rdi 0 false true :: spinRest

theorem closed_spinGraph : spinGraph.Closed := by
  decide +kernel

theorem starts_spin : Session.Starts spinGraph spinSession :=
  Session.starts_starting rfl (by decide +kernel)

theorem allowsAll_spin : Session.AllowsAll spinGraph spinSession spinActions := by
  refine ⟨trivial, trivial, trivial, ?_, trivial, trivial, trivial⟩
  cbv

theorem bound_spin : spinSession.raising.tracker.binding? .rdi = some { value := 0, width := 64 } := by
  cbv

theorem succeeds_spin : (Raise.conclude spinGraph).succeeds
    (spinSession.after spinGraph spinActions).raising = true := by
  cbv

/-- What the entry reads is the argument, also when the entry is entered again. -/
theorem argument_evaluates_at_entry_spin :
    spinGraph.Closed ∧ Session.Starts spinGraph spinSession ∧
      Session.AllowsAll spinGraph spinSession spinActions ∧
      spinSession.raising.tracker.binding? .rdi = some { value := 0, width := 64 } ∧
      ∃ summary finished,
        (Raise.conclude spinGraph).run (spinSession.after spinGraph spinActions).raising =
          .ok summary finished ∧
        (∃ after, (Raise.readRegister spinGraph .rdi 0 false true).run spinSession.raising =
          .ok (some 0) after) ∧
        ∀ arguments visited state, finished.func.Ends arguments visited 0 state →
          ∀ word, finished.func.Evaluates arguments state 0 word ↔
            ∃ given, arguments[0]? = some given ∧ Word.truncate 64 given = word := by
  rcases Raise.exists_of_succeeds succeeds_spin with ⟨summary, finished, concluded⟩
  have silent : ∀ action ∈ ([] : List Action),
      ¬ action.Records spinGraph (.register .rdi) spinGraph.entry := by
    intro action mem
    cases mem
  have allowed : Session.AllowsAll spinGraph spinSession
      ([] ++ .readRegister .rdi spinGraph.entry false true :: spinRest) := allowsAll_spin
  have holds := argument_evaluates_at_entry closed_spinGraph starts_spin allowed rfl bound_spin
    silent concluded
  exact ⟨closed_spinGraph, starts_spin, allowsAll_spin, bound_spin, summary, finished, concluded,
    holds⟩

/--
When the entry is entered again, what it read is not what it wrote to the register at the visit
before.
-/
theorem not_evaluates_spin :
    spinGraph.Closed ∧ Session.RaisesInOrder spinGraph spinSession spinActions ∧
      0 ∈ spinGraph.predecessors spinGraph.entry ∧
      spinSession.raising.tracker.binding? .rdi = some { value := 0, width := 64 } ∧
      Action.Records spinGraph (.register .rdi) 0 (.writeRegister .rdi 0 2) ∧
      spinGraph.Path 0 [] spinGraph.entry ∧
      ∃ summary finished after state before,
        (Raise.conclude spinGraph).run (spinSession.after spinGraph spinActions).raising =
          .ok summary finished ∧
        (Raise.readRegister spinGraph .rdi 0 false true).run spinSession.raising =
          .ok (some 0) after ∧
        finished.tracker.valueIn? spinGraph (.register .rdi) 0 = some 2 ∧
        finished.func.Ends #[1] [0] 0 state ∧ finished.func.Ends #[1] [] 0 before ∧
        finished.func.Evaluates #[1] state 0 1 ∧ finished.func.Evaluates #[1] before 2 0 ∧
        ¬ ∀ word, finished.func.Evaluates #[1] state 0 word ↔
          finished.func.Evaluates #[1] before 2 word := by
  rcases Raise.exists_of_succeeds succeeds_spin with ⟨summary, finished, concluded⟩
  have finished_eq := Raise.final_of_ok concluded
  have layout : Action.InLayoutOrder spinActions := by
    rw [Action.InLayoutOrder]
    decide
  have path : spinGraph.Path 0 [] spinGraph.entry := by
    change 0 ∈ spinGraph.predecessors 0
    decide +kernel
  have known : finished.tracker.valueIn? spinGraph (.register .rdi) 0 = some 2 := by
    rw [← finished_eq]
    cbv
  have reads : ∃ after, (Raise.readRegister spinGraph .rdi 0 false true).run spinSession.raising =
      .ok (some 0) after := by
    refine ⟨(Raise.readRegister spinGraph .rdi 0 false true).final spinSession.raising, ?_⟩
    cbv
  rcases reads with ⟨after, reads⟩
  have at_entry : finished.func.traverse #[1] (finished.func.snapshot #[1] {})
      (finished.func.body BlockId.entry) =
        some ((finished.func.snapshot #[1] {}).learn 2 0) := by
    rw [← finished_eq]
    cbv
  rcases Function.Ends.exists_entry at_entry with ⟨before, ends_entry, snapshot_before⟩
  have back : finished.func.exitFrom? (finished.func.snapshot #[1] before) BlockId.entry =
        some (.jump 0) ∧
      finished.func.traverse #[1] (finished.func.snapshot #[1] before) (finished.func.body 0) =
        some (((finished.func.snapshot #[1] {}).learn 2 0).learn 2 0) := by
    rw [snapshot_before, ← finished_eq]
    constructor <;> cbv
  rcases ends_entry.exists_jump back.1 back.2 with ⟨state, ends_again, snapshot_state⟩
  have says_one : finished.func.Evaluates #[1] state 0 1 := by
    rw [Function.evaluates_iff ends_again.faithful, snapshot_state, ← finished_eq]
    cbv
  have was_zero : ∀ word, finished.func.Evaluates #[1] before 2 word ↔ word = 0 := by
    intro word
    have zero : (finished.func.snapshot #[1] before).words 2 = some 0 := by
      rw [snapshot_before, ← finished_eq]
      cbv
    rw [Function.evaluates_iff ends_entry.faithful, zero, Option.some.injEq, eq_comm]
  refine ⟨closed_spinGraph, ⟨starts_spin, allowsAll_spin, layout⟩, by decide +kernel, bound_spin,
    ⟨rfl, rfl⟩, path, summary, finished, after, state, before, concluded, reads, known, ends_again,
    ends_entry, says_one, (was_zero 0).mpr rfl, ?_⟩
  intro agree
  have contradiction := (was_zero 1).mp ((agree 1).mp says_one)
  cases contradiction

end RegisterFlow
