import RegisterFlow.Proofs.Execution.Checked
import RegisterFlow.Proofs.Execution.Words

/-!
# Results of computations

A value whose operands can be read computes the result of its operation. At every width that a word
can hold, this is the number that unbounded arithmetic gives, and the steps of a machine arrive at
it without leaving their types.
-/

namespace RegisterFlow

namespace Function

/-- A value computes a word with a number, and so does the machine. -/
def ComputesNumber (func : Function) (arguments : Array UInt64) (read : ValueId → Eval UInt64)
    (state : EvalState) (id : ValueId) (machine : Option UInt64) (number : Nat) : Prop :=
  ∃ word, (func.compute arguments read id).run state = .ok word state ∧
    machine = some word ∧ word.toNat = number

/-- A value computes whether something holds, and so does the machine. -/
def ComputesTruth (func : Function) (arguments : Array UInt64) (read : ValueId → Eval UInt64)
    (state : EvalState) (id : ValueId) (machine : Option Bool) (holds : Prop) : Prop :=
  ∃ truth : Bool, (func.compute arguments read id).run state = .ok truth.toUInt64 state ∧
    machine = some truth ∧ (truth = true ↔ holds)

variable {func : Function} {arguments : Array UInt64} {read : ValueId → Eval UInt64}
  {state : EvalState} {words : ValueId → UInt64} {id : ValueId} {width : Nat}

/-- A value computes from the words that reading its operands gives. -/
theorem run_compute_of_reads {word : UInt64}
    (reads : ∀ operand ∈ (func.operation id).operands,
      (read operand).run state = .ok (words operand) state)
    (computes : func.wordFrom? arguments
      { words := fun operand => some (words operand), cells := (state.memory[·]?) } id =
        some word) :
    (func.compute arguments read id).run state = .ok word state := by
  have answers : Answers (· = state) (func.wordFrom? arguments
      { words := fun operand => some (words operand), cells := (state.memory[·]?) } id)
      (func.compute arguments read id) state := by
    apply answers_compute
    · rintro after rfl slot
      rfl
    · rintro operand mem after rfl
      exact ⟨after, reads operand mem, rfl⟩
    · rfl
  rw [computes] at answers
  rcases answers with ⟨after, succeeds, rfl⟩
  exact succeeds

/--
Whatever operands of a width from 1 to 64 can be read, arithmetic, comparisons, overflow checks,
funnel shifts and conversions give the numbers of unbounded arithmetic.
-/
theorem compute_exact
    (reads : ∀ operand ∈ (func.operation id).operands,
      (read operand).run state = .ok (words operand) state)
    (positive : 1 ≤ width) (narrow : width ≤ 64) :
    (∀ op lhs rhs, func.operation id = .binary op lhs rhs → func.ty id = .int width →
      (words lhs).toNat < 2 ^ width → (words rhs).toNat < 2 ^ width →
      func.ComputesNumber arguments read state id
        (op.checked width (words lhs) (words rhs))
        (op.number width (words lhs).toNat (words rhs).toNat)) ∧
    (∀ comparison lhs rhs, func.operation id = .compare comparison lhs rhs →
      func.ty lhs = .int width →
      (words lhs).toNat < 2 ^ width → (words rhs).toNat < 2 ^ width →
      func.ComputesTruth arguments read state id
        (comparison.checked width (words lhs) (words rhs))
        (comparison.HoldsFor width (words lhs).toNat (words rhs).toNat)) ∧
    (∀ check lhs rhs, func.operation id = .overflow check lhs rhs → func.ty lhs = .int width →
      (words lhs).toNat < 2 ^ width → (words rhs).toNat < 2 ^ width →
      func.ComputesTruth arguments read state id
        (check.checked width (words lhs) (words rhs))
        (¬ check.FitsFor width (words lhs).toNat (words rhs).toNat)) ∧
    (∀ direction high low amount, func.operation id = .funnel direction high low amount →
      func.ty id = .int width →
      (words high).toNat < 2 ^ width → (words low).toNat < 2 ^ width →
      func.ComputesNumber arguments read state id
        (direction.checked width (words high) (words low) (words amount))
        (direction.number width (words high).toNat (words low).toNat (words amount).toNat)) ∧
    (∀ kind operand target, func.operation id = .cast kind operand →
      func.ty operand = .int width → func.ty id = .int target → target ≤ 64 →
      (kind = .zext → width ≤ target) → (words operand).toNat < 2 ^ width →
      func.ComputesNumber arguments read state id
        (kind.checked width target (words operand))
        (kind.number width target (words operand).toNat)) := by
  have word_bits : (Ty.int width).wordBits? = some width :=
    Ty.wordBits?_eq_some_iff.mpr ⟨rfl, positive, narrow⟩
  refine ⟨?_, ?_, ?_, ?_, ?_⟩
  · intro op lhs rhs operation typed lhs_fits rhs_fits
    refine ⟨op.apply width (words lhs) (words rhs), run_compute_of_reads reads ?_, ?_, ?_⟩
    · simp [wordFrom?, operation, typed, word_bits]
    · exact op.checked_eq positive narrow ..
    · exact op.toNat_apply positive narrow lhs_fits rhs_fits
  · intro comparison lhs rhs operation typed lhs_fits rhs_fits
    refine ⟨comparison.holds width (words lhs) (words rhs), run_compute_of_reads reads ?_, ?_, ?_⟩
    · simp [wordFrom?, operation, typed, word_bits]
    · exact comparison.checked_eq positive narrow ..
    · exact comparison.holds_iff positive narrow lhs_fits rhs_fits
  · intro check lhs rhs operation typed lhs_fits rhs_fits
    refine ⟨check.occurs width (words lhs) (words rhs), run_compute_of_reads reads ?_, ?_, ?_⟩
    · simp [wordFrom?, operation, typed, word_bits]
    · exact check.checked_eq positive narrow ..
    · exact check.occurs_iff positive narrow lhs_fits rhs_fits
  · intro direction high low amount operation typed high_fits low_fits
    refine ⟨direction.shift width (words high) (words low) ((words amount).toNat % width),
      run_compute_of_reads reads ?_, ?_, ?_⟩
    · simp [wordFrom?, operation, typed, word_bits]
    · exact direction.checked_eq positive narrow ..
    · exact direction.toNat_shift _ positive narrow high_fits low_fits
  · intro kind operand target operation typed target_typed target_narrow widens fits
    refine ⟨kind.convert width target (words operand), run_compute_of_reads reads ?_, ?_, ?_⟩
    · simp [wordFrom?, operation, typed, target_typed, Ty.bits]
    · exact kind.checked_eq ..
    · exact kind.toNat_convert positive narrow target_narrow fits widens

/-- A function with one value of each kind of arithmetic on two arguments of 64 bits. -/
def arithmeticSample : Function :=
  let build : Builder Unit := do
    let _ ← Builder.binary BlockId.entry .ashr 0 1
    let _ ← Builder.compare BlockId.entry .sgt 0 1
    let _ ← Builder.overflow BlockId.entry .ssub 0 1
    let _ ← Builder.funnel BlockId.entry .right 0 1 1
    let _ ← Builder.cast BlockId.entry .sext 0 (.int 8)
  (build.run (empty "sample" [.int 64, .int 64] ["entry"])).2

/-- Operands at the edge: the most negative word, and the greatest shift amount. -/
def edgeWords : ValueId → UInt64
  | 0 => 0x8000000000000000
  | _ => 63

theorem compute_exact_of_edgeWords :
    arithmeticSample.ComputesNumber #[] (fun operand => pure (edgeWords operand)) {} 2
      (BinaryOp.ashr.checked 64 0x8000000000000000 63)
      (BinaryOp.ashr.number 64 0x8000000000000000 63) ∧
    arithmeticSample.ComputesTruth #[] (fun operand => pure (edgeWords operand)) {} 3
      (Comparison.sgt.checked 64 0x8000000000000000 63)
      (Comparison.sgt.HoldsFor 64 0x8000000000000000 63) ∧
    arithmeticSample.ComputesTruth #[] (fun operand => pure (edgeWords operand)) {} 4
      (OverflowCheck.ssub.checked 64 0x8000000000000000 63)
      (¬ OverflowCheck.ssub.FitsFor 64 0x8000000000000000 63) ∧
    arithmeticSample.ComputesNumber #[] (fun operand => pure (edgeWords operand)) {} 5
      (Direction.right.checked 64 0x8000000000000000 63 63)
      (Direction.right.number 64 0x8000000000000000 63 63) ∧
    arithmeticSample.ComputesNumber #[] (fun operand => pure (edgeWords operand)) {} 6
      (Conversion.sext.checked 64 8 0x8000000000000000)
      (Conversion.sext.number 64 8 0x8000000000000000) := by
  have exact_at (id : ValueId) := @compute_exact arithmeticSample #[]
    (fun operand => pure (edgeWords operand)) {} edgeWords id 64 (fun _ _ => rfl) (by decide)
    (by decide)
  refine ⟨?_, ?_, ?_, ?_, ?_⟩
  · exact (exact_at 2).1 .ashr 0 1 (by decide) (by decide) (by decide) (by decide)
  · exact (exact_at 3).2.1 .sgt 0 1 (by decide) (by decide) (by decide) (by decide)
  · exact (exact_at 4).2.2.1 .ssub 0 1 (by decide) (by decide) (by decide) (by decide)
  · exact (exact_at 5).2.2.2.1 .right 0 1 1 (by decide) (by decide) (by decide) (by decide)
  · exact (exact_at 6).2.2.2.2 .sext 0 8 (by decide) (by decide) (by decide) (by decide)
      (by decide) (by decide)

example : BinaryOp.ashr.number 64 0x8000000000000000 63 = 2 ^ 64 - 1 := by
  decide

end Function

end RegisterFlow
