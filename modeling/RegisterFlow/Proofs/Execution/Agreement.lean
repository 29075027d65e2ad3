import Mathlib
import RegisterFlow.Proofs.Code.ResultTypes
import RegisterFlow.Proofs.Execution.Inheritance
import RegisterFlow.Proofs.Execution.Points

/-!
# Agreement of both evaluations

Without loads, the word of a value depends on the arguments only. A run therefore gives an
instruction the word that evaluation on demand gives it, whenever it executes the instruction.
Evaluation on demand itself never descends deeper than the number of the value says.
-/

namespace RegisterFlow

open Relation (ReflTransGen)

/-- The slot that an operation loads. -/
def Operation.loaded? : Operation → Option SlotId
  | load slot => some slot
  | _ => none

namespace Function

variable {func : Function} {arguments : Array UInt64} {id : ValueId} {word : UInt64}
  {state : EvalState}

/-! ### Evaluation on demand -/

/-- What a value computes depends on how its operands are read, and on nothing else that is read. -/
theorem compute_congr {first second : ValueId → Eval UInt64}
    (same : ∀ operand ∈ (func.operation id).operands, first operand = second operand) :
    func.compute arguments first id = func.compute arguments second id := by
  unfold compute
  cases operation : func.operation id <;>
    simp only [operation, Operation.operands, List.forall_mem_cons] at same
  case binary | compare | overflow => simp only [same.1, same.2.1]
  case select | funnel => simp only [same.1, same.2.1, same.2.2.1]
  case cast => simp only [same.1]
  all_goals rfl

/-- From enough levels on, evaluation on demand does not depend on their number. -/
theorem demandWithin_eq (grounded : func.Grounded) {depth : Nat} (below : id < depth) :
    func.demandWithin arguments depth id = func.demand arguments id := by
  suffices same : ∀ {first second : Nat}, id < first → id < second →
      func.demandWithin arguments first id = func.demandWithin arguments second id from
    same below (Nat.lt_succ_self id)
  clear below
  induction id using Nat.strongRecOn with
  | ind id ih =>
      intro first second below_first below_second
      cases first with
      | zero => exact absurd below_first (Nat.not_lt_zero _)
      | succ first =>
          cases second with
          | zero => exact absurd below_second (Nat.not_lt_zero _)
          | succ second =>
              rw [demandWithin, demandWithin]
              congr 1
              apply compute_congr
              intro operand mem
              have smaller := grounded id operand mem
              exact ih operand smaller (Nat.lt_of_lt_of_le smaller (Nat.le_of_lt_succ below_first))
                (Nat.lt_of_lt_of_le smaller (Nat.le_of_lt_succ below_second))

theorem demand_ne_circular (grounded : func.Grounded) {failure : EvalError} {after : EvalState}
    (fails : (func.demand arguments id).run state = .error failure after) (value : ValueId) :
    failure ≠ .circular value := by
  have keeps : state.Keeps (fun _ _ => True) (fun _ _ => True) :=
    ⟨fun _ _ _ => trivial, fun _ _ _ => trivial⟩
  have inherits : func.Inherits arguments (fun _ _ => True) (fun _ _ => True) :=
    ⟨fun _ _ _ => trivial, fun _ _ _ _ _ _ => trivial⟩
  have upheld := upholds_demandWithin grounded inherits (Nat.lt_succ_self id) state keeps
  rw [demand] at fails
  rw [fails] at upheld
  exact upheld.2 value

/-! ### Evaluation in a run -/

/-- What is computed from words that values have on demand is what the value has on demand. -/
theorem word?_of_derives (grounded : func.Grounded)
    (unloaded : ∀ slot, func.operation id ≠ .load slot)
    (derives : func.Derives arguments
      (fun operand word => func.word? arguments (fun _ => none) operand = some word)
      (fun _ _ => True) id word) :
    func.word? arguments (fun _ => none) id = some word := by
  rw [word?_eq grounded]
  unfold wordFrom?
  unfold Derives at derives
  cases operation : func.operation id with
  | argument index =>
      rw [operation] at derives
      rcases derives with ⟨given, found, rfl⟩
      simp [found]
  | constant payload | slotAddress slot =>
      rw [operation] at derives
      simp [derives]
  | binary op lhs rhs =>
      rw [operation] at derives
      rcases derives with ⟨width, left, right, wide, left_eq, right_eq, rfl⟩
      simp [wide, left_eq, right_eq]
  | compare comparison lhs rhs =>
      rw [operation] at derives
      rcases derives with ⟨width, left, right, wide, left_eq, right_eq, rfl⟩
      simp [wide, left_eq, right_eq]
  | select condition ifTrue ifFalse =>
      rw [operation] at derives
      rcases derives with ⟨truth, truth_eq, arm⟩
      simp only [truth_eq, Option.bind_eq_bind, Option.bind_some]
      split at arm
      · next taken => rw [if_pos taken, arm]
      · next other => rw [if_neg other, arm]
  | cast kind operand =>
      rw [operation] at derives
      rcases derives with ⟨source, source_eq, rfl⟩
      simp [source_eq]
  | overflow check lhs rhs =>
      rw [operation] at derives
      rcases derives with ⟨width, left, right, wide, left_eq, right_eq, rfl⟩
      simp [wide, left_eq, right_eq]
  | funnel direction high low amount =>
      rw [operation] at derives
      rcases derives with ⟨width, upper, lower, shift, wide, upper_eq, lower_eq, shift_eq, rfl⟩
      simp [wide, upper_eq, lower_eq, shift_eq]
  | load slot => exact absurd operation (unloaded slot)
  | store | branch | branchIf | ret =>
      rw [operation] at derives
      cases derives

/-- An instruction other than a store leaves a word for its value. -/
theorem exists_word_of_execute {after : EvalState}
    (computes : ∀ slot operand, func.operation id ≠ .store slot operand)
    (executes : (func.execute arguments id).run state = .ok () after) :
    ∃ word, after.computed[id]? = some word := by
  unfold execute at executes
  split at executes
  · next slot operand stores => exact absurd stores (computes slot operand)
  · rw [EStateM.run_bind] at executes
    cases ran : (func.compute arguments (func.operand arguments) id).run state with
    | error failure middle =>
        rw [ran] at executes
        cases executes
    | ok word middle =>
        rw [ran] at executes
        cases executes
        exact ⟨word, Std.HashMap.getElem?_insert_self⟩

/--
In a function that is built by calls and loads nothing, a run that returns executes each of its
instructions successfully, and whenever it executes one that is not a store, the value gets the word
that a fresh evaluation on demand gives. In any function that is built by calls, evaluation on demand
of a value comes to an end within as many levels as its number says.
-/
theorem demand_agrees (built : func.Built) (arguments : Array UInt64) :
    ((∀ id slot, func.operation id ≠ .load slot) →
      ∀ fuel result final, (func.run arguments fuel).run {} = .ok result final →
      ∃ last, ReflTransGen (func.Step arguments) (func.start {}) last ∧
        func.Leaves arguments result final last ∧
        ∀ block id rest before,
          ReflTransGen (func.Step arguments) (func.start {}) ⟨block, id :: rest, before⟩ →
          ReflTransGen (func.Step arguments) ⟨block, id :: rest, before⟩ last →
          (∀ slot operand, func.operation id ≠ .store slot operand) →
          ∃ word after later, (func.execute arguments id).run before = .ok () after ∧
            after.computed[id]? = some word ∧
            (func.demand arguments id).run {} = .ok word later) ∧
    ∀ id depth, id < depth →
      func.demandWithin arguments depth id = func.demand arguments id ∧
      ∀ state failure after, (func.demand arguments id).run state = .error failure after →
        ∀ value, failure ≠ .circular value := by
  have grounded : func.Grounded := built.sound.grounded
  refine ⟨?_, ?_⟩
  · intro unloaded fuel result final returns
    rcases exists_leaves_of_run returns with ⟨last, path, left⟩
    refine ⟨last, path, left, ?_⟩
    intro block id rest before reached onward computes
    have inherits : func.Inherits arguments
        (fun id word => func.word? arguments (fun _ => none) id = some word) (fun _ _ => True) :=
      ⟨fun id _ => word?_of_derives grounded (unloaded id), fun _ _ _ _ _ _ => trivial⟩
    have keeps := inherits.keeps_of_path reached EvalState.keeps_empty
    rcases onward.cases_head with ended | ⟨next, step, -⟩
    · cases ended
      cases left
    · cases step with
      | instruction executes =>
          have keeps_after := inherits.keeps_of_step (.instruction executes) keeps
          rcases exists_word_of_execute computes executes with ⟨word, known⟩
          have known_on_demand := keeps_after.computed id word known
          rcases (yields_iff grounded).mpr known_on_demand with ⟨later, yields⟩
          exact ⟨word, _, later, executes, known, yields⟩
  · intro id depth below
    exact ⟨demandWithin_eq grounded below,
      fun _ _ _ fails value => demand_ne_circular grounded fails value⟩

/-- Calls that build a selection in one block and a product that reads it in the next. -/
def pureCalls : List Call :=
  [.emit 0 (.binary .add 0 1), .emit 0 (.compare .ult 0 1), .emit 0 (.select 3 2 0),
    .terminate 0 (.branchIf 3 1 1), .emit 1 (.binary .mul 4 2), .terminate 1 (.ret (some 6))]

def pureSample : Function :=
  ((pureCalls.mapM Call.build).run (.empty "sample" [.int 8, .int 8] ["entry", "exit"])).2

theorem built_pureSample : pureSample.Built :=
  ⟨"sample", [.int 8, .int 8], ["entry", "exit"], pureCalls, by decide +kernel, rfl⟩

theorem operation_pureSample_ne_load (id : ValueId) (slot : SlotId) :
    pureSample.operation id ≠ .load slot := by
  intro loads
  by_cases inside : id < pureSample.values.size
  · have plain : ∀ id < pureSample.values.size, (pureSample.operation id).loaded? = none := by
      decide +kernel
    have absent := plain id inside
    rw [loads] at absent
    cases absent
  · rw [operation, value_of_size_le (Nat.le_of_not_lt inside)] at loads
    cases loads

/-- The sum that a run computes first leaves the range of its width, also on demand. -/
theorem demand_agrees_pureSample :
    (∃ final, (pureSample.run #[200, 100] 4).run {} = .ok (some 96) final) ∧
      ∃ word after later, (pureSample.execute #[200, 100] 2).run {} = .ok () after ∧
        after.computed[2]? = some word ∧
        (pureSample.demand #[200, 100] 2).run {} = .ok word later := by
  have returns : ∃ final, (pureSample.run #[200, 100] 4).run {} = .ok (some 96) final :=
    ⟨_, by cbv⟩
  refine ⟨returns, ?_⟩
  rcases returns with ⟨final, returns⟩
  rcases (demand_agrees built_pureSample #[200, 100]).1 operation_pureSample_ne_load 4 _ final
    returns with ⟨last, path, -, agrees⟩
  have body : pureSample.body BlockId.entry = [2, 3, 4] := by decide +kernel
  have sum : pureSample.operation 2 = .binary .add 0 1 := by decide +kernel
  rw [start, body] at path agrees
  exact agrees BlockId.entry 2 [3, 4] {} .refl path (by simp [sum])

end Function

end RegisterFlow
