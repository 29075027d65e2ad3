import RegisterFlow.Proofs.Execution.Demand
import RegisterFlow.Proofs.Execution.Exact
import RegisterFlow.Proofs.Tracking.FlagRules

/-!
# The flags of arithmetic

The flags that sums, differences, negations and signed products set are exact at every width: they
say of the operands, read as bit vectors, what overflow means for bit vectors. The zero and sign
flags say what they should of the value from which they are derived. It does not matter whether the
values are evaluated on demand or by an execution.
-/

namespace RegisterFlow

open Relation (ReflTransGen)
open Word (ofBits)

/-! ### Conversions around a result -/

namespace Function

variable {func : Function} {producer test : ValueId}

/-- A value is obtained from another one by conversions that adjust the width. -/
def Adjusts (func : Function) : ValueId → ValueId → Prop :=
  ReflTransGen fun inner outer =>
    ∃ kind : Conversion, func.operation outer = .cast kind inner ∧ kind.adjustsWidth = true

/-- What stands behind a chain of conversions is found, however long the chain is. -/
theorem behindCasts_of_adjusts (grounded : func.Grounded) (chain : func.Adjusts producer test)
    (origin : ∀ kind operand, func.operation producer ≠ .cast kind operand) :
    func.behindCasts test = producer := by
  suffices found : ∀ depth, test ≤ depth → func.behindCastsWithin depth test = producer from
    found test (Nat.le_refl _)
  induction chain with
  | refl =>
      intro depth _
      unfold behindCastsWithin
      split
      · exact absurd ‹func.operation producer = .cast _ _› (origin _ _)
      · rfl
  | @tail inner outer chain step ih =>
      intro depth within
      rcases step with ⟨kind, cast, adjusts⟩
      have smaller : inner < outer := grounded outer inner (by simp [cast, Operation.operands])
      cases depth with
      | zero => exact absurd (Nat.lt_of_lt_of_le smaller within) (Nat.not_lt_zero _)
      | succ depth =>
          unfold behindCastsWithin
          simp only [cast, adjusts, if_true]
          exact ih depth (Nat.le_of_lt_succ (Nat.lt_of_lt_of_le smaller within))

end Function

namespace Raise

variable {graph : FlowGraph} {block : BlockId} {before middle : Raising} {flag : Flag}
  {family : Family} {test producer lhs rhs value : ValueId}

/-! ### Steps of the rules -/

theorem run_operandsOf {op : BinaryOp} (produced : before.func.operation producer = .binary op lhs rhs)
    (typed : before.func.ty lhs = before.func.ty rhs) :
    (operandsOf flag family producer op).run before = .ok (lhs, rhs) before := by
  rw [operandsOf, EStateM.run_bind, EStateM.run_get]
  simp only [produced, typed, ne_eq, not_true_eq_false, if_false]
  rfl

theorem run_checkedFlag {op : BinaryOp} (check : OverflowCheck)
    (produced : before.func.operation producer = .binary op lhs rhs)
    (typed : before.func.ty lhs = before.func.ty rhs) :
    (checkedFlag flag block family producer op check).run before =
      .ok before.func.values.size
        { before with func := before.func.withInstruction block .bool (.overflow check lhs rhs) } := by
  rw [checkedFlag, run_bind_of_ok (run_operandsOf produced typed)]
  rfl

theorem run_testWidth {width : Nat} (typed : (before.func.ty value).wordBits? = some width) :
    (testWidth flag value).run before = .ok width before := by
  rw [testWidth, EStateM.run_bind, EStateM.run_get]
  simp only [typed]
  rfl

/-- A value can be filed for a flag, and nothing else changes. -/
theorem exists_run_define (graph : FlowGraph) (set : Flag) (block : BlockId) (value : ValueId)
    (before : Raising) :
    ∃ after, (define (.flag set) block 1 value).run before = .ok () after ∧
      after.func = before.func ∧
      ∀ other, after.tracker.content? graph (.flag other) block =
        if other = set then some (.known value)
        else before.tracker.content? graph (.flag other) block := by
  rcases Table.record_eq_ok Nat.one_pos fun _ => rfl with ⟨table, filed⟩
  refine ⟨{ before with tracker := { before.tracker with table } }, ?_, rfl, ?_⟩
  · rw [run_define, filed]
  · intro other
    refine (Tracker.content?_record filed).trans ?_
    simp

/-- What a rule derives is named and filed for its flag, and for the one that is set alike. -/
theorem exists_run_deriveFlag (tracked : flag.isTracked = true)
    (derived : (flagValue graph flag block family test).run before = .ok value middle) :
    ∃ after, (deriveFlag graph flag block family test).run before = .ok () after ∧
      after.func = middle.func.withName value flag.name ∧
      ∀ set, set = flag ∨ twin? flag family = some set →
        after.tracker.valueIn? graph (.flag set) block = some value := by
  have located : Location.ofFlag flag = .ok (.flag flag) := if_pos tracked
  have named : (build (Builder.rename value flag.name)).run middle =
      .ok () { middle with func := middle.func.withName value flag.name } := run_build ..
  rcases exists_run_define graph flag block value
    { middle with func := middle.func.withName value flag.name } with
    ⟨filed, defines, filed_func, content⟩
  rw [deriveFlag_eq, located, run_bind_of_ok (run_ofExcept_ok ..), run_bind_of_ok derived,
    run_bind_of_ok named, run_bind_of_ok defines]
  cases alike : twin? flag family with
  | none =>
      refine ⟨_, rfl, filed_func, ?_⟩
      rintro set (same | other)
      · apply Tracker.valueIn?_eq_some_iff.mpr
        exact (content set).trans (if_pos same)
      · cases other
  | some twin =>
      rcases exists_run_define graph twin block value filed with
        ⟨last, defines_alike, last_func, content_alike⟩
      refine ⟨_, run_bind_of_ok defines_alike, last_func.trans filed_func, ?_⟩
      intro set sets
      apply Tracker.valueIn?_eq_some_iff.mpr
      refine (content_alike set).trans ?_
      rcases sets with same | same
      · rw [content set, if_pos same, ite_self]
      · cases same
        exact if_pos rfl

end Raise

/-! ### Instructions that were appended -/

namespace Function

variable {func after : Function} {block : BlockId} {ty : Ty} {operation : Operation} {id : ValueId}

/-- An instruction stays where it was appended. -/
theorem Extends.mem_body_of_withInstruction
    (grown : (func.withInstruction block ty operation).Extends after)
    (bound : block < func.blocks.size) : func.values.size ∈ after.body block := by
  apply (grown.body_prefix block).subset
  rw [body_withInstruction, if_pos ⟨rfl, bound⟩]
  simp

theorem Extends.operation_of_withInstruction
    (grown : (func.withInstruction block ty operation).Extends after)
    (proper : operation ≠ .ret none) : after.operation func.values.size = operation := by
  apply grown.operation_of_ne proper
  rw [operation_withInstruction, if_pos rfl]

theorem wordBits?_of_int {width : Nat} (positive : 1 ≤ width) (narrow : width ≤ 64)
    (typed : func.ty id = .int width) : (func.ty id).wordBits? = some width := by
  rw [typed]
  exact Ty.wordBits?_eq_some_iff.mpr ⟨rfl, positive, narrow⟩

theorem lt_size_of_int {width : Nat} (typed : func.ty id = .int width) : id < func.values.size :=
  lt_size_of_ty (by simp) typed

/-- A constant is a value of the function then, and it is the same wherever it is evaluated. -/
theorem exists_run_constant {width : Nat} (narrow : width ≤ 64) (bits : BitVec width)
    (orderly : func.Orderly) :
    ∃ id after, (Builder.constant (.int width) (ofBits bits)).run func = (id, after) ∧
      func.Extends after ∧ after.Orderly ∧ id < after.values.size ∧ after.ty id = .int width ∧
      ∀ (extended : Function) (arguments : Array UInt64) (block : BlockId) (snapshot : Snapshot),
        after.Extends extended → extended.Consistent arguments block snapshot →
        snapshot.words id = some (ofBits bits) := by
  have payload : Builder.payloadOf (.int width) (ofBits bits) = ofBits bits :=
    Word.truncate_ofBits narrow bits
  have known : ∀ {id : ValueId} {after : Function},
      after.operation id = .constant (ofBits bits) →
      ∀ (extended : Function) (arguments : Array UInt64) (block : BlockId) (snapshot : Snapshot),
        after.Extends extended → extended.Consistent arguments block snapshot →
        snapshot.words id = some (ofBits bits) := by
    intro id after operation extended arguments block snapshot grown consistent
    exact consistent.constant (grown.operation_of_ne (by simp) operation)
  have run := Builder.run_constant (.int width) (ofBits bits) func
  rw [payload] at run
  rcases run with ⟨id, held, run, typed, operation⟩ | run
  · exact ⟨id, func, run, .refl func, orderly, held, typed, known operation⟩
  · refine ⟨_, _, run, (grows_withLeaf ..).toExtends, orderly.withConstant, ?_, ?_, known ?_⟩
    · rw [size_withLeaf]
      exact Nat.lt_succ_self _
    · rw [Function.ty, value_withLeaf, if_pos rfl]
    · rw [Function.operation, value_withLeaf, if_pos rfl]

end Function

/-! ### What flags tell -/

/-- In every way to evaluate a block, also after the function was extended, something is told. -/
def Function.Tells (func : Function) (block : BlockId)
    (meaning : (ValueId → UInt64 → Prop) → Prop) : Prop :=
  ∀ extended arguments tells, func.Extends extended → extended.Orderly →
    extended.Evaluation arguments block tells → meaning tells

theorem Function.Tells.mono {func later : Function} {block : BlockId}
    {meaning : (ValueId → UInt64 → Prop) → Prop} (told : func.Tells block meaning)
    (grown : func.Extends later) : later.Tells block meaning :=
  fun extended arguments tells further => told extended arguments tells (grown.trans further)

/-- It is enough to know what the snapshots of extended functions tell. -/
theorem Function.tells_of_snapshots {func : Function} {block : BlockId}
    {meaning : (ValueId → UInt64 → Prop) → Prop}
    (means : ∀ (extended : Function) (arguments : Array UInt64) (snapshot : Snapshot),
      func.Extends extended → extended.Consistent arguments block snapshot →
      meaning fun id word => snapshot.words id = some word) :
    func.Tells block meaning := by
  intro extended arguments tells grown orderly evaluation
  rcases evaluation.exists_snapshot orderly with ⟨snapshot, consistent, rfl⟩
  exact means extended arguments snapshot grown consistent

/-- Of a value that is a bit vector, a flag tells a truth. -/
def TellsOf {width : Nat} (truth : BitVec width → Bool) (operand : ValueId)
    (tells : ValueId → UInt64 → Prop) (flag : ValueId) : Prop :=
  ∀ bits : BitVec width, tells operand (ofBits bits) → tells flag (truth bits).toUInt64

/-- Of two values that are bit vectors, a flag tells a truth. -/
def TellsOfBoth {width : Nat} (truth : BitVec width → BitVec width → Bool) (lhs rhs : ValueId)
    (tells : ValueId → UInt64 → Prop) (flag : ValueId) : Prop :=
  ∀ first second : BitVec width, tells lhs (ofBits first) → tells rhs (ofBits second) →
    tells flag (truth first second).toUInt64

/--
A flag is derived and filed in a block, with the flag that is set alike, and its value has a
meaning in every way to evaluate the block, also after the function was extended.
-/
def DerivesFlag (graph : FlowGraph) (before : Raising) (flag : Flag) (block : BlockId)
    (family : Family) (test : ValueId)
    (meaning : (ValueId → UInt64 → Prop) → ValueId → Prop) : Prop :=
  ∃ value after, (Raise.deriveFlag graph flag block family test).run before = .ok () after ∧
    (∀ set, set = flag ∨ Raise.twin? flag family = some set →
      after.tracker.valueIn? graph (.flag set) block = some value) ∧
    after.func.Orderly ∧
    ∀ func arguments tells, after.func.Extends func → func.Orderly →
      func.Evaluation arguments block tells → meaning tells value

section Rules

variable {graph : FlowGraph} {block : BlockId} {before : Raising} {flag : Flag} {family : Family}
  {test producer lhs rhs value : ValueId} {func : Function} {width : Nat}
  {meaning : (ValueId → UInt64 → Prop) → ValueId → Prop}

/-- It is enough to know what the value means on the snapshots of extended functions. -/
theorem derivesFlag_of_flagValue (tracked : flag.isTracked = true)
    (derived : (Raise.flagValue graph flag block family test).run before =
      .ok value { before with func })
    (orderly : func.Orderly)
    (means : ∀ (extended : Function) (arguments : Array UInt64) (snapshot : Snapshot),
      func.Extends extended → extended.Consistent arguments block snapshot →
      meaning (fun id word => snapshot.words id = some word) value) :
    DerivesFlag graph before flag block family test meaning := by
  rcases Raise.exists_run_deriveFlag tracked derived with ⟨after, runs, func_eq, filed⟩
  refine ⟨value, after, runs, filed, ?_, ?_⟩
  · rw [func_eq]
    exact orderly.withName value flag.name
  · rw [func_eq]
    exact (Function.tells_of_snapshots means).mono (Function.grows_withName ..).toExtends

/-- A flag that is an overflow check of the operands tells whether they overflow. -/
theorem derivesFlag_checked {op : BinaryOp} {check : OverflowCheck}
    {truth : BitVec width → BitVec width → Bool} (orderly : before.func.Orderly)
    (bound : block < before.func.blocks.size) (positive : 1 ≤ width) (narrow : width ≤ 64)
    (lhs_ty : before.func.ty lhs = .int width) (rhs_ty : before.func.ty rhs = .int width)
    (produced : before.func.operation producer = .binary op lhs rhs)
    (occurs : ∀ first second : BitVec width,
      check.occurs width (ofBits first) (ofBits second) = truth first second)
    (tracked : flag.isTracked = true)
    (rule : (Raise.flagValue graph flag block family test).run before =
      (Raise.checkedFlag flag block family producer op check).run before) :
    DerivesFlag graph before flag block family test (TellsOfBoth truth lhs rhs) := by
  have derived := rule.trans (Raise.run_checkedFlag check produced (lhs_ty.trans rhs_ty.symm))
  refine derivesFlag_of_flagValue tracked derived ?_ ?_
  · apply orderly.withInstruction
    simp [Operation.operands, Function.lt_size_of_int lhs_ty, Function.lt_size_of_int rhs_ty]
  · intro extended arguments snapshot grown consistent first second left right
    have operation := grown.operation_of_withInstruction (by simp)
    have typed : extended.ty lhs = .int width :=
      ((Function.extends_withInstruction ..).trans grown).ty_of_ne (by simp) lhs_ty
    rw [← occurs]
    exact consistent.overflow (grown.mem_body_of_withInstruction bound) left right operation
      (Function.wordBits?_of_int positive narrow typed)

theorem Builder.run_bind_of_run {α β : Type} {step : Builder α} {next : α → Builder β} {answer : α}
    {first second : Function} (run : step.run first = (answer, second)) :
    (step >>= next).run first = (next answer).run second := by
  change (next (step.run first).1).run (step.run first).2 = _
  rw [run]

/-- The zero flag tells whether a value is zero. -/
theorem derivesFlag_zero (orderly : before.func.Orderly) (bound : block < before.func.blocks.size)
    (positive : 1 ≤ width) (narrow : width ≤ 64) (typed : before.func.ty test = .int width)
    (family : Family) :
    DerivesFlag graph before .zero block family test
      (TellsOf (fun bits : BitVec width => bits == 0) test) := by
  rcases Function.exists_run_constant narrow (0 : BitVec width) orderly with
    ⟨zeros, middle, constant, grown, orderly_middle, held, zeros_ty, zeros_word⟩
  rw [Word.ofBits_zero, ← typed] at constant
  have derived : (Raise.flagValue graph .zero block family test).run before =
      .ok middle.values.size
        { before with func := middle.withInstruction block .bool (.compare .eq test zeros) } := by
    have width_run : (Raise.testWidth .zero test).run before = .ok width before :=
      Raise.run_testWidth (Function.wordBits?_of_int positive narrow typed)
    have discarded : (discard (Raise.testWidth .zero test)).run before = .ok () before := by
      rw [Raise.run_discard, width_run]
    change (Raise.deriveZero block test).run before = _
    rw [Raise.deriveZero, Raise.run_bind_of_ok discarded]
    apply Raise.run_build_of_run
    change (Builder.constant (before.func.ty test) 0 >>= Builder.compare block .eq test).run
      before.func = _
    rw [Builder.run_bind_of_run constant]
    rfl
  have test_ty : middle.ty test = .int width := grown.ty_of_ne (by simp) typed
  refine derivesFlag_of_flagValue rfl derived ?_ ?_
  · apply orderly_middle.withInstruction
    simp [Operation.operands, Function.lt_size_of_int test_ty, held]
  · intro extended arguments snapshot further consistent bits known
    have grown_middle := (Function.extends_withInstruction ..).trans further
    have mem := further.mem_body_of_withInstruction
      (Nat.lt_of_lt_of_eq bound grown.blockCount_eq.symm)
    have test_ty_extended : extended.ty test = .int width :=
      grown_middle.ty_of_ne (by simp) test_ty
    have zero := zeros_word extended arguments block snapshot grown_middle consistent
    change snapshot.words middle.values.size = some (bits == 0).toUInt64
    rw [← Comparison.holds_eq narrow]
    exact consistent.compare mem known zero (further.operation_of_withInstruction (by simp))
      (Function.wordBits?_of_int positive narrow test_ty_extended)

/-- The sign flag tells the top bit of a value. -/
theorem derivesFlag_sign (orderly : before.func.Orderly) (bound : block < before.func.blocks.size)
    (positive : 1 ≤ width) (narrow : width ≤ 64) (typed : before.func.ty test = .int width)
    (family : Family) :
    DerivesFlag graph before .sign block family test
      (TellsOf (fun bits : BitVec width => bits.msb) test) := by
  rcases Function.exists_run_constant narrow (BitVec.twoPow width (width - 1)) orderly with
    ⟨top, middle, constant, grown, orderly_middle, held, top_ty, top_word⟩
  rw [Word.ofBits_twoPow (Nat.sub_lt positive Nat.one_pos), ← typed] at constant
  have test_ty : middle.ty test = .int width := grown.ty_of_ne (by simp) typed
  let masked := middle.withInstruction block (middle.ty test) (.binary .and test top)
  let tested := masked.withInstruction block .bool (.compare .eq middle.values.size top)
  have derived : (Raise.flagValue graph .sign block family test).run before =
      .ok masked.values.size { before with func := tested } := by
    have width_run : (Raise.testWidth .sign test).run before = .ok width before :=
      Raise.run_testWidth (Function.wordBits?_of_int positive narrow typed)
    change (Raise.deriveSign block test).run before = _
    rw [Raise.deriveSign, Raise.run_bind_of_ok width_run]
    apply Raise.run_build_of_run
    change (Builder.constant (before.func.ty test) (UInt64.ofNat (2 ^ (width - 1))) >>= fun top =>
      Builder.binary block .and test top >>= fun masked =>
        Builder.compare block .eq masked top).run before.func = _
    rw [Builder.run_bind_of_run constant]
    rfl
  have masked_ty : masked.ty middle.values.size = .int width := by
    rw [Function.ty_withInstruction, if_pos rfl, test_ty]
  have orderly_masked : masked.Orderly := by
    apply orderly_middle.withInstruction
    simp [Operation.operands, Function.lt_size_of_int test_ty, held]
  have top_masked : masked.ty top = .int width :=
    (Function.extends_withInstruction ..).ty_of_ne (by simp) top_ty
  refine derivesFlag_of_flagValue rfl derived ?_ ?_
  · apply orderly_masked.withInstruction
    simp [Operation.operands, Function.lt_size_of_int masked_ty,
      Function.lt_size_of_int top_masked]
  · intro extended arguments snapshot further consistent bits known
    have grown_masked : masked.Extends extended :=
      (Function.extends_withInstruction ..).trans further
    have grown_middle : middle.Extends extended :=
      (Function.extends_withInstruction ..).trans grown_masked
    have bound_middle : block < middle.blocks.size :=
      Nat.lt_of_lt_of_eq bound grown.blockCount_eq.symm
    have bound_masked : block < masked.blocks.size := by
      rwa [Function.blockCount_withInstruction]
    have mask := top_word extended arguments block snapshot grown_middle consistent
    have typed_masked : extended.ty middle.values.size = .int width :=
      grown_masked.ty_of_ne (by simp) masked_ty
    have word_bits := Function.wordBits?_of_int positive narrow typed_masked
    have masked_word : snapshot.words middle.values.size =
        some (ofBits (bits &&& BitVec.twoPow width (width - 1))) := by
      rw [← BinaryOp.apply_and narrow]
      exact consistent.binary (grown_masked.mem_body_of_withInstruction bound_middle) known mask
        (grown_masked.operation_of_withInstruction (by simp)) word_bits
    change snapshot.words masked.values.size = some bits.msb.toUInt64
    rw [← and_top_beq_top positive, ← Comparison.holds_eq narrow]
    exact consistent.compare (further.mem_body_of_withInstruction bound_masked) masked_word mask
      (further.operation_of_withInstruction (by simp)) word_bits

/-- The carry flag of a negation tells whether the operand is not zero. -/
theorem derivesFlag_negate (orderly : before.func.Orderly)
    (bound : block < before.func.blocks.size) (positive : 1 ≤ width) (narrow : width ≤ 64)
    (lhs_ty : before.func.ty lhs = .int width) (rhs_ty : before.func.ty rhs = .int width)
    (produced : before.func.operation producer = .binary .sub lhs rhs)
    (zero : before.func.operation lhs = .constant 0)
    (behind : before.func.behindCasts test = producer) :
    DerivesFlag graph before .carry block .negate test
      (TellsOf (fun bits : BitVec width => bits != 0) rhs) := by
  have derived : (Raise.flagValue graph .carry block .negate test).run before =
      .ok before.func.values.size
        { before with func := before.func.withInstruction block .bool (.compare .ne rhs lhs) } := by
    change (Raise.deriveCarry graph block .negate test).run before = _
    rw [Raise.deriveCarry, EStateM.run_bind, EStateM.run_get]
    simp only [behind]
    rw [Raise.run_bind_of_ok (Raise.run_operandsOf produced (lhs_ty.trans rhs_ty.symm))]
    have minuend : before.func.constant? lhs = some 0 := by
      rw [Function.constant?, zero]
    simp only [minuend, ne_eq, not_true_eq_false, if_false]
    rfl
  refine derivesFlag_of_flagValue rfl derived ?_ ?_
  · apply orderly.withInstruction
    simp [Operation.operands, Function.lt_size_of_int lhs_ty, Function.lt_size_of_int rhs_ty]
  · intro extended arguments snapshot grown consistent bits known
    have grown_before := (Function.extends_withInstruction ..).trans grown
    have typed : extended.ty rhs = .int width := grown_before.ty_of_ne (by simp) rhs_ty
    have constant : extended.operation lhs = .constant 0 :=
      grown_before.operation_of_ne (by simp) zero
    have zeros : snapshot.words lhs = some (ofBits (0 : BitVec width)) := by
      rw [Word.ofBits_zero]
      exact consistent.constant constant
    change snapshot.words before.func.values.size = some (bits != 0).toUInt64
    rw [← Comparison.holds_ne narrow]
    exact consistent.compare (grown.mem_body_of_withInstruction bound) known zeros
      (grown.operation_of_withInstruction (by simp))
      (Function.wordBits?_of_int positive narrow typed)

end Rules

/--
The flags of arithmetic are exact at every width. They are derived from every value that comes from
the arithmetic through conversions that adjust the width, and they say of the operands what is true
of bit vectors. The zero and sign flags of any instruction are exact for the value itself.
-/
theorem arithmetic_flags_exact {graph : FlowGraph} {before : Raising} {block : BlockId}
    {width : Nat} (orderly : before.func.Orderly) (bound : block < before.func.blocks.size)
    (positive : 1 ≤ width) (narrow : width ≤ 64) :
    (∀ family test, before.func.ty test = .int width →
      DerivesFlag graph before .zero block family test
        (TellsOf (fun bits : BitVec width => bits == 0) test) ∧
      DerivesFlag graph before .sign block family test
        (TellsOf (fun bits : BitVec width => bits.msb) test)) ∧
    ∀ producer test lhs rhs, before.func.ty lhs = .int width → before.func.ty rhs = .int width →
      before.func.Adjusts producer test →
      (before.func.operation producer = .binary .add lhs rhs →
        DerivesFlag graph before .carry block .add test
          (TellsOfBoth (@BitVec.uaddOverflow width) lhs rhs) ∧
        DerivesFlag graph before .overflow block .add test
          (TellsOfBoth (@BitVec.saddOverflow width) lhs rhs)) ∧
      (before.func.operation producer = .binary .sub lhs rhs →
        (∀ family, family = .subtract ∨ family = .compare →
          DerivesFlag graph before .carry block family test
            (TellsOfBoth (@BitVec.usubOverflow width) lhs rhs) ∧
          DerivesFlag graph before .overflow block family test
            (TellsOfBoth (@BitVec.ssubOverflow width) lhs rhs)) ∧
        (before.func.operation lhs = .constant 0 →
          DerivesFlag graph before .carry block .negate test
            (TellsOf (fun bits : BitVec width => bits != 0) rhs))) ∧
      (before.func.operation producer = .binary .mul lhs rhs →
        ∀ flag, flag = .carry ∨ flag = .overflow →
          Raise.twin? flag .signedMultiply =
            some (if flag = .carry then .overflow else .carry) ∧
          DerivesFlag graph before flag block .signedMultiply test
            (TellsOfBoth (@BitVec.smulOverflow width) lhs rhs)) := by
  refine ⟨?_, ?_⟩
  · intro family test typed
    exact ⟨derivesFlag_zero orderly bound positive narrow typed family,
      derivesFlag_sign orderly bound positive narrow typed family⟩
  · intro producer test lhs rhs lhs_ty rhs_ty chain
    have behind : ∀ {op : BinaryOp}, before.func.operation producer = .binary op lhs rhs →
        before.func.behindCasts test = producer := by
      intro op produced
      apply Function.behindCasts_of_adjusts orderly.grounded chain
      simp [produced]
    refine ⟨?_, ?_, ?_⟩
    · intro sum
      refine ⟨?_, ?_⟩
      · apply derivesFlag_checked orderly bound positive narrow lhs_ty rhs_ty sum
          (OverflowCheck.occurs_uadd narrow) rfl
        rw [← behind sum]
        rfl
      · apply derivesFlag_checked orderly bound positive narrow lhs_ty rhs_ty sum
          (OverflowCheck.occurs_sadd positive narrow) rfl
        rw [← behind sum]
        rfl
    · intro difference
      refine ⟨?_, ?_⟩
      · rintro family (rfl | rfl)
        all_goals
          refine ⟨?_, ?_⟩
          · apply derivesFlag_checked orderly bound positive narrow lhs_ty rhs_ty difference
              (OverflowCheck.occurs_usub narrow) rfl
            rw [← behind difference]
            rfl
          · apply derivesFlag_checked orderly bound positive narrow lhs_ty rhs_ty difference
              (OverflowCheck.occurs_ssub positive narrow) rfl
            rw [← behind difference]
            rfl
      · intro zero
        exact derivesFlag_negate orderly bound positive narrow lhs_ty rhs_ty difference zero
          (behind difference)
    · rintro product flag (rfl | rfl)
      all_goals
        refine ⟨rfl, ?_⟩
        apply derivesFlag_checked orderly bound positive narrow lhs_ty rhs_ty product
          (OverflowCheck.occurs_smul positive narrow) rfl
        rw [← behind product]
        rfl

/-- The difference of two bytes, which was widened. -/
def differenceOfBytes : Function :=
  ((Function.empty "difference" [.int 8, .int 8] ["entry"]).withInstruction 0 (.int 8)
    (.binary .sub 0 1)).withInstruction 0 (.int 32) (.cast .zext 2)

/-- A graph of one block. -/
def entryGraph : FlowGraph where
  blocks := #[{ name := "entry", predecessors := [], effects := [] }]

/-- The carry of the difference tells whether the first byte is below the second. -/
theorem arithmetic_flags_exact_difference :
    differenceOfBytes.Orderly ∧ 0 < differenceOfBytes.blocks.size ∧ 1 ≤ 8 ∧ 8 ≤ 64 ∧
      differenceOfBytes.Adjusts 2 3 ∧
      DerivesFlag entryGraph { func := differenceOfBytes, tracker := {} } .carry 0 .compare 3
        (TellsOfBoth (@BitVec.usubOverflow 8) 0 1) := by
  have orderly : differenceOfBytes.Orderly := by
    apply Function.Orderly.withInstruction
    · apply Function.Orderly.withInstruction
      · exact Function.orderly_empty ..
      · decide
    · decide
  have chain : differenceOfBytes.Adjusts 2 3 := .single ⟨.zext, rfl, rfl⟩
  have difference :=
    ((@arithmetic_flags_exact entryGraph { func := differenceOfBytes, tracker := {} } 0 8 orderly
      (by decide) (by decide) (by decide)).2 2 3 0 1 rfl rfl chain).2.1 rfl
  exact ⟨orderly, by decide, by decide, by decide, chain, (difference.1 .compare (.inr rfl)).1⟩

end RegisterFlow
