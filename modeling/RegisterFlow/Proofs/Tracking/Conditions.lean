import RegisterFlow.Proofs.Execution.Differences
import RegisterFlow.Proofs.Execution.Shifts
import RegisterFlow.Proofs.Tracking.ArithmeticFlags
import RegisterFlow.Proofs.Tracking.FlagFailures
import RegisterFlow.Proofs.Tracking.Inertness

/-!
# Conditions after a comparison

A comparison or subtraction sets four flags from the difference of its operands. In whatever order
they are derived, together they satisfy the condition of each comparison exactly if it holds of the
operands, so they agree with what a comparing instruction answers.
-/

namespace RegisterFlow

open Word (ofBits)

/-- Of the difference of two values that are bit vectors, a value tells what a flag says. -/
def TellsOfDifference (width : Nat) (flag : Flag) (lhs rhs test : ValueId)
    (tells : ValueId → UInt64 → Prop) (value : ValueId) : Prop :=
  ∀ first second : BitVec width, tells lhs (ofBits first) → tells rhs (ofBits second) →
    tells test (ofBits (first - second)) → tells value (flag.ofDifference first second).toUInt64

section Derivations

variable {graph : FlowGraph} {before after : Raising} {block : BlockId} {family : Family}
  {flag : Flag} {width : Nat} {lhs rhs test : ValueId}

theorem DerivesFlag.imp {meaning weaker : (ValueId → UInt64 → Prop) → ValueId → Prop}
    (derives : DerivesFlag graph before flag block family test meaning)
    (implies : ∀ tells value, meaning tells value → weaker tells value) :
    DerivesFlag graph before flag block family test weaker := by
  rcases derives with ⟨value, after, run, filed, orderly, means⟩
  refine ⟨value, after, run, filed, orderly, ?_⟩
  intro func arguments tells grown orderly_func evaluation
  exact implies tells value (means func arguments tells grown orderly_func evaluation)

/-- A value is the difference of two integers of a width. -/
structure Function.Subtracts (func : Function) (width : Nat) (lhs rhs test : ValueId) : Prop where
  lhs_ty : func.ty lhs = .int width
  rhs_ty : func.ty rhs = .int width
  test_ty : func.ty test = .int width
  operation_eq : func.operation test = .binary .sub lhs rhs

theorem Function.Subtracts.mono {func later : Function}
    (subtracts : func.Subtracts width lhs rhs test) (grown : func.Extends later) :
    later.Subtracts width lhs rhs test where
  lhs_ty := grown.ty_of_ne (by simp) subtracts.lhs_ty
  rhs_ty := grown.ty_of_ne (by simp) subtracts.rhs_ty
  test_ty := grown.ty_of_ne (by simp) subtracts.test_ty
  operation_eq := grown.operation_of_ne (by simp) subtracts.operation_eq

/-- Where the difference is computed, it is that of the bit vectors. -/
theorem Function.Subtracts.tells {func : Function} {arguments : Array UInt64}
    {tells : ValueId → UInt64 → Prop} (subtracts : func.Subtracts width lhs rhs test)
    (positive : 1 ≤ width) (narrow : width ≤ 64) (orderly : func.Orderly)
    (evaluation : func.Evaluation arguments block tells) (mem : test ∈ func.body block)
    {first second : BitVec width} (left : tells lhs (ofBits first))
    (right : tells rhs (ofBits second)) : tells test (ofBits (first - second)) := by
  rcases evaluation.exists_snapshot orderly with ⟨snapshot, consistent, rfl⟩
  have word := consistent.binary mem left right subtracts.operation_eq
    (Function.wordBits?_of_int positive narrow subtracts.test_ty)
  rwa [BinaryOp.apply_sub narrow] at word

/-- Each of the four flags is derived from a difference. -/
theorem derivesFlag_difference (orderly : before.func.Orderly)
    (bound : block < before.func.blocks.size) (positive : 1 ≤ width) (narrow : width ≤ 64)
    (subtracts : before.func.Subtracts width lhs rhs test)
    (compares : family = .subtract ∨ family = .compare) (tracked : flag.isTracked = true) :
    DerivesFlag graph before flag block family test
      (TellsOfDifference width flag lhs rhs test) := by
  have behind : before.func.behindCasts test = test := by
    apply Function.behindCasts_of_adjusts orderly.grounded .refl
    simp [subtracts.operation_eq]
  cases flag with
  | zero =>
      apply (derivesFlag_zero orderly bound positive narrow subtracts.test_ty family).imp
      exact fun _ _ told _ _ _ _ difference => told _ difference
  | sign =>
      apply (derivesFlag_sign orderly bound positive narrow subtracts.test_ty family).imp
      exact fun _ _ told _ _ _ _ difference => told _ difference
  | carry =>
      have rule : (Raise.flagValue graph .carry block family test).run before =
          (Raise.checkedFlag .carry block family (before.func.behindCasts test) .sub .usub).run
            before := by
        rcases compares with rfl | rfl
        · rfl
        · rfl
      rw [behind] at rule
      apply (derivesFlag_checked orderly bound positive narrow subtracts.lhs_ty subtracts.rhs_ty
        subtracts.operation_eq (OverflowCheck.occurs_usub narrow) rfl rule).imp
      exact fun _ _ told first second left right _ => told first second left right
  | overflow =>
      have rule : (Raise.flagValue graph .overflow block family test).run before =
          (Raise.checkedFlag .overflow block family (before.func.behindCasts test) .sub .ssub).run
            before := by
        rcases compares with rfl | rfl
        · rfl
        · rfl
      rw [behind] at rule
      apply (derivesFlag_checked orderly bound positive narrow subtracts.lhs_ty subtracts.rhs_ty
        subtracts.operation_eq (OverflowCheck.occurs_ssub positive narrow) rfl rule).imp
      exact fun _ _ told first second left right _ => told first second left right
  | parity | adjust | direction => cases tracked

/-- The derivation of a flag grows the function. -/
theorem extends_of_run_deriveFlag
    (run : (Raise.deriveFlag graph flag block family test).run before = .ok () after) :
    before.func.Extends after.func := by
  have aside : Raise.Leads Raising.GrowsAside (fun _ _ => True)
      (Raise.deriveFlag graph flag block family test) before := by
    apply ((Raising.respectsTracking_growsAside graph).derives block).deriveFlag
    · exact (Raising.respectsTracking_growsAside graph).rename
    · exact (Raising.respectsTracking_growsAside graph).tally
    · intro middle set value _
      exact Raise.leads_define_of_record fun _ _ => Function.GrowsAside.refl ..
  exact (aside.ok run).1.toExtends

theorem Tracker.valueIn?_flag (graph : FlowGraph) (tracker : Tracker) (flag : Flag)
    (block : BlockId) : tracker.valueIn? graph (.flag flag) block =
      (tracker.table.get? (.flag flag) block).bind Definition.value? := by
  rw [Tracker.valueIn?, Tracker.definitionIn?]
  split <;> rfl

/-- Flags were derived from a difference, and their values tell of it. -/
structure DifferenceFlags (graph : FlowGraph) (block : BlockId) (width : Nat)
    (lhs rhs test : ValueId) (before : Raising) (flags : List Flag) (after : Raising) : Prop where
  orderly : after.func.Orderly
  grown : before.func.Extends after.func
  told : ∀ flag ∈ flags, ∃ value, after.tracker.valueIn? graph (.flag flag) block = some value ∧
    after.func.Tells block fun tells => TellsOfDifference width flag lhs rhs test tells value

/-- A further flag can be derived, and the others keep their values. -/
theorem DifferenceFlags.step {flags : List Flag} {middle : Raising}
    (derived : DifferenceFlags graph block width lhs rhs test before flags middle)
    (bound : block < before.func.blocks.size) (positive : 1 ≤ width) (narrow : width ≤ 64)
    (subtracts : before.func.Subtracts width lhs rhs test)
    (compares : family = .subtract ∨ family = .compare) (tracked : flag.isTracked = true) :
    ∃ after, (Raise.deriveFlag graph flag block family test).run middle = .ok () after ∧
      DifferenceFlags graph block width lhs rhs test before (flag :: flags) after := by
  have bound_middle : block < middle.func.blocks.size :=
    Nat.lt_of_lt_of_eq bound derived.grown.blockCount_eq.symm
  rcases derivesFlag_difference derived.orderly bound_middle positive narrow
    (subtracts.mono derived.grown) compares tracked with
    ⟨value, after, run, filed, orderly, means⟩
  have grown := extends_of_run_deriveFlag run
  refine ⟨after, run, orderly, derived.grown.trans grown, ?_⟩
  intro other mem
  by_cases same : other = flag
  · subst same
    exact ⟨value, filed other (Or.inl rfl), means⟩
  · rcases derived.told other ((List.mem_cons.mp mem).resolve_left same) with ⟨held, known, told⟩
    refine ⟨held, ?_, told.mono grown⟩
    rcases Raise.filed_of_run_deriveFlag run with ⟨_, kept, -⟩
    rw [Tracker.valueIn?_flag, kept, ← Tracker.valueIn?_flag]
    · exact known
    · rintro ⟨-, set, rfl | twin, located⟩
      · exact same (Location.flag.inj located)
      · rw [Raise.twin?_eq_some_iff] at twin
        rcases compares with rfl | rfl <;> simp at twin

/-- All flags of a list can be derived one after the other. -/
theorem DifferenceFlags.run {flags : List Flag} {middle : Raising} (order : List Flag)
    (derived : DifferenceFlags graph block width lhs rhs test before flags middle)
    (bound : block < before.func.blocks.size) (positive : 1 ≤ width) (narrow : width ≤ 64)
    (subtracts : before.func.Subtracts width lhs rhs test)
    (compares : family = .subtract ∨ family = .compare)
    (tracked : ∀ flag ∈ order, flag.isTracked = true) :
    ∃ after,
      (order.forM fun flag => Raise.deriveFlag graph flag block family test).run middle =
        .ok () after ∧
      DifferenceFlags graph block width lhs rhs test before (order.reverse ++ flags) after := by
  induction order generalizing flags middle with
  | nil => exact ⟨middle, rfl, derived⟩
  | cons flag order ih =>
      rw [List.forall_mem_cons] at tracked
      rcases derived.step bound positive narrow subtracts compares tracked.1 with
        ⟨next, first, derived_next⟩
      rcases ih derived_next tracked.2 with ⟨after, rest, derived_after⟩
      refine ⟨after, ?_, ?_⟩
      · rw [List.forM_eq_forM, List.forM_cons, Raise.run_bind_of_ok first]
        exact rest
      · rw [List.reverse_cons, List.append_assoc]
        exact derived_after

end Derivations

/--
After a comparison or subtraction, the four flags can be derived in any order, and in every way to
evaluate the block, also after the function was extended, they satisfy the conditions of exactly
those comparisons that hold of the operands. The instructions of the block that compare the
operands answer the same.
-/
theorem conditions_agree {graph : FlowGraph} {before : Raising} {block : BlockId} {width : Nat}
    {lhs rhs test : ValueId} {family : Family} {order : List Flag} (orderly : before.func.Orderly)
    (bound : block < before.func.blocks.size) (positive : 1 ≤ width) (narrow : width ≤ 64)
    (subtracts : before.func.Subtracts width lhs rhs test)
    (compares : family = .subtract ∨ family = .compare)
    (complete : ∀ flag, flag ∈ order ↔ flag.isTracked = true) :
    ∃ zero_value sign_value carry_value overflow_value after,
      (order.forM fun flag => Raise.deriveFlag graph flag block family test).run before =
        .ok () after ∧
      after.tracker.valueIn? graph (.flag .zero) block = some zero_value ∧
      after.tracker.valueIn? graph (.flag .sign) block = some sign_value ∧
      after.tracker.valueIn? graph (.flag .carry) block = some carry_value ∧
      after.tracker.valueIn? graph (.flag .overflow) block = some overflow_value ∧
      ∀ func arguments tells, after.func.Extends func → func.Orderly →
        func.Evaluation arguments block tells →
        ∀ first second : BitVec width, tells lhs (ofBits first) → tells rhs (ofBits second) →
          test ∈ before.func.body block ∨ tells test (ofBits (first - second)) →
          ∃ zf sf cf of : Bool, tells zero_value zf.toUInt64 ∧ tells sign_value sf.toUInt64 ∧
            tells carry_value cf.toUInt64 ∧ tells overflow_value of.toUInt64 ∧
            ∀ comparison : Comparison,
              comparison.condition zf sf cf of =
                comparison.holds width (ofBits first) (ofBits second) ∧
              ∀ compared ∈ func.body block,
                func.operation compared = .compare comparison lhs rhs →
                tells compared (comparison.condition zf sf cf of).toUInt64 := by
  have none_yet : DifferenceFlags graph block width lhs rhs test before [] before :=
    ⟨orderly, .refl _, by simp⟩
  rcases none_yet.run order bound positive narrow subtracts compares
    (fun flag => (complete flag).mp) with ⟨after, run, derived⟩
  have told : ∀ flag : Flag, flag.isTracked = true → ∃ value,
      after.tracker.valueIn? graph (.flag flag) block = some value ∧
      after.func.Tells block fun tells => TellsOfDifference width flag lhs rhs test tells value := by
    intro flag tracked
    apply derived.told
    simpa using (complete flag).mpr tracked
  rcases told .zero rfl with ⟨zero_value, zero_filed, zero_told⟩
  rcases told .sign rfl with ⟨sign_value, sign_filed, sign_told⟩
  rcases told .carry rfl with ⟨carry_value, carry_filed, carry_told⟩
  rcases told .overflow rfl with ⟨overflow_value, overflow_filed, overflow_told⟩
  refine ⟨zero_value, sign_value, carry_value, overflow_value, after, run, zero_filed, sign_filed,
    carry_filed, overflow_filed, ?_⟩
  intro func arguments tells grown orderly_func evaluation first second left right computed
  have extended := derived.grown.trans grown
  have subtracts_func := subtracts.mono extended
  have difference : tells test (ofBits (first - second)) := by
    rcases computed with mem | known
    · exact subtracts_func.tells positive narrow orderly_func evaluation
        ((extended.body_prefix block).subset mem) left right
    · exact known
  have value_of : ∀ {flag : Flag} {value : ValueId},
      (after.func.Tells block fun tells => TellsOfDifference width flag lhs rhs test tells value) →
      tells value (flag.ofDifference first second).toUInt64 :=
    fun told => told func arguments tells grown orderly_func evaluation first second left right
      difference
  refine ⟨_, _, _, _, value_of zero_told, value_of sign_told, value_of carry_told,
    value_of overflow_told, fun comparison => ?_⟩
  have agrees := comparison.condition_ofDifference positive narrow first second
  refine ⟨agrees, fun compared mem compares => ?_⟩
  rw [agrees]
  rcases evaluation.exists_snapshot orderly_func with ⟨snapshot, consistent, rfl⟩
  exact consistent.compare mem left right compares
    (Function.wordBits?_of_int positive narrow subtracts_func.lhs_ty)

/-- The difference of two bits. -/
def differenceOfBits : Function :=
  (Function.empty "bits" [.int 1, .int 1] ["entry"]).withInstruction 0 (.int 1) (.binary .sub 0 1)

/-- A set bit is above a clear one without a sign, and below it with one. -/
theorem conditions_agree_bits :
    differenceOfBits.Orderly ∧ 0 < differenceOfBits.blocks.size ∧ 1 ≤ 1 ∧ 1 ≤ 64 ∧
      differenceOfBits.Subtracts 1 0 1 2 ∧
      (∀ flag, flag ∈ [Flag.overflow, .carry, .zero, .sign] ↔ flag.isTracked = true) ∧
      ∃ carry_value overflow_value after,
        ([Flag.overflow, .carry, .zero, .sign].forM fun flag =>
          Raise.deriveFlag entryGraph flag 0 .compare 2).run
            { func := differenceOfBits, tracker := {} } = .ok () after ∧
        after.tracker.valueIn? entryGraph (.flag .carry) 0 = some carry_value ∧
        after.tracker.valueIn? entryGraph (.flag .overflow) 0 = some overflow_value ∧
        ∀ func arguments tells, after.func.Extends func → func.Orderly →
          func.Evaluation arguments 0 tells →
          tells 0 (ofBits (1 : BitVec 1)) → tells 1 (ofBits (0 : BitVec 1)) →
          ∃ zf sf cf of : Bool, tells carry_value cf.toUInt64 ∧ tells overflow_value of.toUInt64 ∧
            Comparison.ugt.condition zf sf cf of = true ∧
            Comparison.slt.condition zf sf cf of = true := by
  have orderly : differenceOfBits.Orderly := by
    apply Function.Orderly.withInstruction
    · exact Function.orderly_empty ..
    · decide
  have subtracts : differenceOfBits.Subtracts 1 0 1 2 := ⟨rfl, rfl, rfl, rfl⟩
  have complete : ∀ flag, flag ∈ [Flag.overflow, .carry, .zero, .sign] ↔
      flag.isTracked = true := by
    intro flag
    cases flag <;> decide
  rcases @conditions_agree entryGraph { func := differenceOfBits, tracker := {} } 0 1 0 1 2 .compare
    _ orderly (by decide) (by decide) (by decide) subtracts (Or.inr rfl) complete with
    ⟨_, _, carry_value, overflow_value, after, run, -, -, carry_filed, overflow_filed, agree⟩
  refine ⟨orderly, by decide, by decide, by decide, subtracts, complete, carry_value,
    overflow_value, after, run, carry_filed, overflow_filed, ?_⟩
  intro func arguments tells grown orderly_func evaluation left right
  rcases agree func arguments tells grown orderly_func evaluation 1 0 left right
    (Or.inl (by decide)) with ⟨zf, sf, cf, of, -, -, carry, overflow, agrees⟩
  refine ⟨zf, sf, cf, of, carry, overflow, ?_, ?_⟩
  · rw [(agrees .ugt).1]
    decide +kernel
  · rw [(agrees .slt).1]
    decide +kernel

end RegisterFlow
