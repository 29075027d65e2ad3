import RegisterFlow.Proofs.Code.Aside
import RegisterFlow.Proofs.Execution.Demand
import RegisterFlow.Proofs.Execution.Runs

/-!
# Executing code that grew aside

Where a function grew aside, storing only into new slots, an execution of what it has become carries
an execution of what it was: block after block, the instructions that were there before compute the
same words and write the same slots, and the appended ones, which come after them, change neither.
Both follow the same jumps, so if the one returns, the other does, with the same result and after no
more instructions.
-/

namespace RegisterFlow

namespace Function

/--
A state knows the word of a value: it is read in the order of execution, and it is what evaluation
on demand gives.
-/
def Recalls (func : Function) (arguments : Array UInt64) (state : EvalState) (id : ValueId)
    (word : UInt64) : Prop :=
  func.Evaluates arguments state id word ∧
    ∃ later, (func.demand arguments id).run state = .ok word later

/-- Snapshots show the same of all values and slots of a function. -/
structure Agrees (func : Function) (first second : Snapshot) : Prop where
  words : ∀ id < func.values.size, second.words id = first.words id
  cells : ∀ slot < func.slots.size, second.cells slot = first.cells slot

variable {before after func : Function} {arguments : Array UInt64} {first second next : Snapshot}
  {id : ValueId} {block : BlockId} {instructions : List ValueId}

/-- What can be read in the order of execution has the same word on demand. -/
theorem recalls_iff {state : EvalState} {word : UInt64} (faithful : func.Faithful arguments state) :
    func.Recalls arguments state id word ↔
      (func.snapshot arguments state).words id = some word := by
  rw [Recalls, evaluates_iff faithful, and_iff_left_iff_imp]
  intro known
  rw [demand, demandWithin, Eval.remember]
  cases computed : state.computed[id]? with
  | some other =>
      have same := (words_of_computed faithful computed).symm.trans known
      rw [Option.some.injEq] at same
      refine ⟨state, ?_⟩
      rw [← same]
      simp [EStateM.run_bind, computed]
  | none =>
      have leaf : (func.operation id).isLeaf = true := by
        by_contra inner
        simp [snapshot, inner, computed] at known
      rw [words_snapshot_of_isLeaf leaf] at known
      have run := @run_compute_of_isLeaf func arguments state id leaf
        (func.demandWithin arguments id)
      rw [known] at run
      refine ⟨state.learn id word, ?_⟩
      simp only [EStateM.run_bind, EStateM.run_get, computed, run]
      rfl

namespace GrowsAside

section Carried

variable (aside : before.GrowsAside before.slots.size after) (contained : before.SelfContained)
  (agrees : before.Agrees first second)

include aside contained agrees

/-- A value that was there before computes the same. -/
theorem wordFrom?_eq (held : id < before.values.size) :
    after.wordFrom? arguments second id = before.wordFrom? arguments first id := by
  have operation_eq := aside.operation_eq id held
  have ty_eq := aside.ty_eq id held
  have operand_eq : ∀ operand ∈ (before.operation id).operands,
      after.ty operand = before.ty operand ∧ second.words operand = first.words operand := by
    intro operand mem
    have operand_lt := contained.operand_lt id operand mem
    exact ⟨aside.ty_eq operand operand_lt, agrees.words operand operand_lt⟩
  have cell_eq : ∀ slot, before.operation id = .load slot →
      second.cells slot = first.cells slot :=
    fun slot loads => agrees.cells slot (contained.load_lt id slot loads)
  unfold wordFrom?
  rw [operation_eq, ty_eq]
  cases operation : before.operation id <;> simp_all [Operation.operands]

/-- An instruction that was there before does the same. -/
theorem exists_advance (held : id < before.values.size)
    (step : after.advance arguments second id = some next) :
    ∃ reached, before.advance arguments first id = some reached ∧ before.Agrees reached next := by
  by_cases stores : ∃ slot operand, before.operation id = .store slot operand
  · rcases stores with ⟨slot, operand, stores⟩
    have word_eq := agrees.words operand
      (contained.operand_lt id operand (by rw [stores]; exact List.mem_singleton_self _))
    rw [advance_of_store ((aside.operation_eq id held).trans stores), word_eq] at step
    rcases Option.map_eq_some_iff.mp step with ⟨word, known, rfl⟩
    rw [advance_of_store stores, known]
    refine ⟨_, rfl, agrees.words, fun other other_lt => ?_⟩
    simp only [Snapshot.write, agrees.cells other other_lt]
  · have computes : ∀ slot operand, before.operation id ≠ .store slot operand :=
      fun slot operand found => stores ⟨slot, operand, found⟩
    have computes_after : ∀ slot operand, after.operation id ≠ .store slot operand := by
      rw [aside.operation_eq id held]
      exact computes
    rw [advance_of_not_store computes_after, wordFrom?_eq aside contained agrees held] at step
    rcases Option.map_eq_some_iff.mp step with ⟨word, known, rfl⟩
    rw [advance_of_not_store computes, known]
    refine ⟨_, rfl, fun other other_lt => ?_, agrees.cells⟩
    simp only [Snapshot.learn, agrees.words other other_lt]

/-- Instructions that were there before do the same. -/
theorem exists_traverse (held : ∀ id ∈ instructions, id < before.values.size)
    (run : after.traverse arguments second instructions = some next) :
    ∃ reached, before.traverse arguments first instructions = some reached ∧
      before.Agrees reached next := by
  induction instructions generalizing first second with
  | nil =>
      cases run
      exact ⟨first, rfl, agrees⟩
  | cons id rest ih =>
      rcases Option.bind_eq_some_iff.mp run with ⟨middle, step, others⟩
      rcases exists_advance aside contained agrees (held id List.mem_cons_self) step with
        ⟨reached, step_before, agrees⟩
      rcases ih agrees (fun other mem => held other (List.mem_cons_of_mem _ mem)) others with
        ⟨last, rest_before, agrees⟩
      refine ⟨last, ?_, agrees⟩
      rw [traverse_cons, step_before, Option.bind_some, rest_before]

/-- A block does what it did before, and what it does in addition cannot be noticed. -/
theorem exists_traverse_body
    (run : after.traverse arguments second (after.body block) = some next) :
    ∃ reached, before.traverse arguments first (before.body block) = some reached ∧
      before.Agrees reached next := by
  rcases aside.appended block with ⟨added, added_eq, new⟩
  rw [added_eq, traverse_append] at run
  rcases Option.bind_eq_some_iff.mp run with ⟨middle, old_part, new_part⟩
  rcases exists_traverse aside contained agrees (contained.body_lt block) old_part with
    ⟨reached, run_before, agrees⟩
  refine ⟨reached, run_before, fun id held => ?_, fun slot held => ?_⟩
  · have outside : id ∉ added := fun mem => Nat.not_lt_of_le (new id mem).1 held
    rw [words_traverse_of_not_mem new_part outside, agrees.words id held]
  · have harmless : added.filterMap (after.storedBy? slot) = [] := by
      rw [List.filterMap_eq_nil_iff]
      intro id mem
      rw [Option.eq_none_iff_forall_ne_some]
      intro operand stores
      have above := (new id mem).2.2 slot operand (storedBy?_eq_some_iff.mp stores)
      exact Nat.not_lt_of_le above held
    rw [cells_traverse_of_not_stored new_part harmless, agrees.cells slot held]

/-- A block is left the same way. -/
theorem exitFrom?_eq (block : BlockId) :
    after.exitFrom? second block = before.exitFrom? first block := by
  unfold exitFrom?
  rw [aside.terminator_eq block]
  cases ends : (before.block block).terminator with
  | none => rfl
  | some id =>
      have operation_eq := aside.operation_eq id (contained.terminator_lt block id ends)
      have operand_eq : ∀ operand ∈ (before.operation id).operands,
          second.words operand = first.words operand :=
        fun operand mem => agrees.words operand (contained.operand_lt id operand mem)
      simp only [Option.map_some, operation_eq]
      cases operation : before.operation id with
      | branchIf condition ifTrue ifFalse => simp_all [Operation.operands]
      | ret result => cases result <;> simp_all [Operation.operands]
      | _ => rfl

/-- If the execution returns from a block, it did so before, after no more instructions. -/
theorem exists_finishes {result : Option UInt64} {last : Snapshot} {needed count : Nat}
    (finishes : after.Finishes arguments result last needed count block second) :
    ∃ fewer ≤ needed, ∃ reached,
      before.Finishes arguments result reached fewer count block first ∧
        before.Agrees reached last := by
  induction finishes generalizing first with
  | @here block second run exits =>
      rcases exists_traverse_body aside contained agrees run with ⟨reached, run_before, agrees⟩
      rw [exitFrom?_eq aside contained agrees] at exits
      exact ⟨_, (aside.body_prefix block).length_le, reached, .here run_before exits, agrees⟩
  | @jump needed count block target second next run exits _ ih =>
      rcases exists_traverse_body aside contained agrees run with ⟨reached, run_before, agrees⟩
      rw [exitFrom?_eq aside contained agrees] at exits
      rcases ih agrees with ⟨fewer, fewer_le, last_before, finishes, agrees⟩
      exact ⟨_, Nat.add_le_add fewer_le (aside.body_prefix block).length_le, last_before,
        .jump run_before exits finishes, agrees⟩

end Carried

variable (aside : before.GrowsAside before.slots.size after) (contained : before.SelfContained)

include aside contained

/-- Executions start with the same words, which are those of the leaves, and with empty slots. -/
theorem agrees_empty :
    before.Agrees (before.snapshot arguments {}) (after.snapshot arguments {}) where
  words id held := by
    have same : after.leafWord? arguments id = before.leafWord? arguments id :=
      wordFrom?_eq aside contained ⟨fun _ _ => rfl, fun _ _ => rfl⟩ held
    simp only [snapshot, aside.operation_eq id held, same]
  cells _ _ := rfl

/-- An execution to the end of a block carries one of the function as it was, on the same path. -/
theorem exists_ends {visited : List BlockId} {state : EvalState}
    (ends : after.Ends arguments visited block state) :
    ∃ reached, before.Ends arguments visited block reached ∧
      before.Agrees (before.snapshot arguments reached) (after.snapshot arguments state) := by
  induction ends with
  | entry runs =>
      have run := ((advances_forM faithful_empty _).of_ok runs).1
      rcases exists_traverse_body aside contained (agrees_empty aside contained) run with
        ⟨next, run_before, agrees⟩
      rcases Ends.exists_entry run_before with ⟨reached, ends, rfl⟩
      exact ⟨reached, ends, agrees⟩
  | @jump visited source target middle _ state ends jumps runs ih =>
      rcases ih with ⟨reached, ends_before, agrees⟩
      rcases (Ends.jump ends jumps runs).exists_traverse with ⟨left, ends_left, exits, run⟩
      obtain rfl := ends.unique ends_left
      rcases exists_traverse_body aside contained agrees run with ⟨next, run_before, agrees_next⟩
      rw [exitFrom?_eq aside contained agrees] at exits
      rcases ends_before.exists_jump exits run_before with ⟨last, ends_last, rfl⟩
      exact ⟨last, ends_last, agrees_next⟩

/-- At the end of a block, the values that were there before have the words that they had. -/
theorem exists_word {visited : List BlockId} {state : EvalState}
    (ends : after.Ends arguments visited block state) (held : id < before.values.size) :
    ∃ reached, before.Ends arguments visited block reached ∧
      (before.snapshot arguments reached).words id = (after.snapshot arguments state).words id := by
  rcases exists_ends aside contained ends with ⟨reached, ends_before, agrees⟩
  exact ⟨reached, ends_before, (agrees.words id held).symm⟩

/--
If a run returns, then a run of the function as it was before returns the same with the same fuel,
and afterwards the same words are known of its values.
-/
theorem exists_run {fuel : Nat} {result : Option UInt64} {final : EvalState}
    (returns : (after.run arguments fuel).run {} = .ok result final) :
    ∃ state, (before.run arguments fuel).run {} = .ok result state ∧
      ∀ id < before.values.size, ∀ word,
        before.Recalls arguments state id word ↔ after.Recalls arguments final id word := by
  rcases exists_finishes_of_run returns with ⟨faithful, needed, within, count, finishes⟩
  rcases exists_finishes aside contained (agrees_empty aside contained) finishes with
    ⟨fewer, fewer_le, last, finishes_before, agrees⟩
  rcases (finishes_before.spends fuel).returns (Nat.le_trans fewer_le within) with
    ⟨state, returns_before, seen, faithful_before⟩
  refine ⟨state, returns_before, fun id held word => ?_⟩
  rw [recalls_iff faithful_before, recalls_iff faithful, seen, agrees.words id held]

end GrowsAside

end Function

end RegisterFlow
