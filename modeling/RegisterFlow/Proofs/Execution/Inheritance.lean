import RegisterFlow.Proofs.Execution.Demand
import RegisterFlow.Proofs.Execution.Runs

/-!
# Inherited properties of words

Some properties of words are inherited: if the operands of a value have them, then so does what the
value computes. Whatever is asked of an evaluation, in whatever order, and whether it succeeds or
fails, all words that it remembers or stores have such a property.
-/

namespace RegisterFlow

/--
What a step leaves has a property, and so has its answer. It does not fail because a value needs
itself.
-/
def Upholds {α : Type} (kept : EvalState → Prop) (good : α → Prop) (step : Eval α) : Prop :=
  ∀ state, kept state →
    match step.run state with
    | .ok answer after => kept after ∧ good answer
    | .error failure after => kept after ∧ ∀ value, failure ≠ .circular value

section Upholds

variable {α β : Type} {kept : EvalState → Prop} {good : α → Prop} {best : β → Prop}

theorem upholds_pure {answer : α} (fine : good answer) :
    Upholds kept good (pure answer) :=
  fun _ held => ⟨held, fine⟩

theorem upholds_throw {failure : EvalError} (fine : ∀ value, failure ≠ .circular value) :
    Upholds kept good (throw failure) :=
  fun _ held => ⟨held, fine⟩

theorem upholds_get : Upholds kept kept get :=
  fun _ held => ⟨held, held⟩

theorem upholds_modify {change : EvalState → EvalState}
    (keeps : ∀ state, kept state → kept (change state)) :
    Upholds kept (fun _ => True) (modify change) :=
  fun state held => ⟨keeps state held, trivial⟩

theorem Upholds.bind {step : Eval α} {next : α → Eval β} (first : Upholds kept good step)
    (second : ∀ answer, good answer → Upholds kept best (next answer)) :
    Upholds kept best (step >>= next) := by
  intro state held
  have front := first state held
  rw [EStateM.run_bind]
  cases ran : step.run state with
  | error failure after =>
      rw [ran] at front
      exact front
  | ok answer after =>
      rw [ran] at front
      exact second answer front.2 after front.1

theorem Upholds.mono {better : α → Prop} {step : Eval α}
    (upholds : Upholds kept good step) (implies : ∀ answer, good answer → better answer) :
    Upholds kept better step := by
  intro state held
  have whole := upholds state held
  split
  · next ran =>
    rw [ran] at whole
    exact ⟨whole.1, implies _ whole.2⟩
  · next ran =>
    rw [ran] at whole
    exact whole

theorem Upholds.of_ok {step : Eval α} {state after : EvalState} {answer : α}
    (upholds : Upholds kept good step) (held : kept state)
    (succeeds : step.run state = .ok answer after) : kept after ∧ good answer := by
  have whole := upholds state held
  rwa [succeeds] at whole

theorem upholds_widthOf (ty : Ty) :
    Upholds kept (fun width => ty.wordBits? = some width) (Eval.widthOf ty) := by
  unfold Eval.widthOf
  split
  · next found => exact upholds_pure found
  · exact upholds_throw (by simp)

end Upholds

namespace Function

/-- What a value may compute, given which words its operands and the slots may have. -/
def Derives (func : Function) (arguments : Array UInt64) (good : ValueId → UInt64 → Prop)
    (held : SlotId → UInt64 → Prop) (id : ValueId) (word : UInt64) : Prop :=
  match func.operation id with
  | .argument index =>
    ∃ given, arguments[index]? = some given ∧ word = Word.truncate (func.ty id).bits given
  | .constant payload => word = payload
  | .slotAddress slot => word = UInt64.ofNat slot
  | .binary op lhs rhs => ∃ width left right, (func.ty id).wordBits? = some width ∧
    good lhs left ∧ good rhs right ∧ word = op.apply width left right
  | .compare comparison lhs rhs => ∃ width left right, (func.ty lhs).wordBits? = some width ∧
    good lhs left ∧ good rhs right ∧ word = (comparison.holds width left right).toUInt64
  | .select condition ifTrue ifFalse =>
    ∃ truth, good condition truth ∧ if truth &&& 1 = 1 then good ifTrue word else good ifFalse word
  | .cast kind operand => ∃ source, good operand source ∧
    word = kind.convert (func.ty operand).bits (func.ty id).bits source
  | .overflow check lhs rhs => ∃ width left right, (func.ty lhs).wordBits? = some width ∧
    good lhs left ∧ good rhs right ∧ word = (check.occurs width left right).toUInt64
  | .funnel direction high low amount => ∃ width upper lower shift,
    (func.ty id).wordBits? = some width ∧ good high upper ∧ good low lower ∧ good amount shift ∧
      word = direction.shift width upper lower (shift.toNat % width)
  | .load slot => held slot word
  | .store .. | .branch _ | .branchIf .. | .ret _ => False

/-- Properties of words and contents that pass from operands to values and into slots. -/
structure Inherits (func : Function) (arguments : Array UInt64) (good : ValueId → UInt64 → Prop)
    (held : SlotId → UInt64 → Prop) : Prop where
  derives : ∀ id word, func.Derives arguments good held id word → good id word
  stores : ∀ id slot operand word, func.operation id = .store slot operand → good operand word →
    held slot word

end Function

/-- All words that a state remembers, and all contents of its slots, have a property. -/
structure EvalState.Keeps (good : ValueId → UInt64 → Prop) (held : SlotId → UInt64 → Prop)
    (state : EvalState) : Prop where
  computed : ∀ id word, state.computed[id]? = some word → good id word
  memory : ∀ slot word, state.memory[slot]? = some word → held slot word

section Keeps

variable {good : ValueId → UInt64 → Prop} {held : SlotId → UInt64 → Prop} {state : EvalState}

theorem EvalState.keeps_empty : Keeps good held {} where
  computed id word computed := by simp at computed
  memory slot word memory := by simp at memory

theorem EvalState.Keeps.learn (keeps : state.Keeps good held) {id : ValueId} {word : UInt64}
    (fine : good id word) : (state.learn id word).Keeps good held where
  computed other found computed := by
    rw [EvalState.learn, Std.HashMap.getElem?_insert] at computed
    split at computed
    · next same =>
      cases computed
      exact beq_iff_eq.mp same ▸ fine
    · exact keeps.computed other found computed
  memory := keeps.memory

theorem EvalState.Keeps.write (keeps : state.Keeps good held) {slot : SlotId} {word : UInt64}
    (fine : held slot word) : (state.write slot word).Keeps good held where
  computed := keeps.computed
  memory other found memory := by
    rw [EvalState.write, Std.HashMap.getElem?_insert] at memory
    split at memory
    · next same =>
      cases memory
      exact beq_iff_eq.mp same ▸ fine
    · exact keeps.memory other found memory

end Keeps

namespace Function

variable {func : Function} {arguments : Array UInt64} {good : ValueId → UInt64 → Prop}
  {held : SlotId → UInt64 → Prop} {id : ValueId}

/-- A value computes what it may compute from what reading its operands gives. -/
theorem upholds_compute {read : ValueId → Eval UInt64}
    (reads : ∀ operand ∈ (func.operation id).operands,
      Upholds (EvalState.Keeps good held) (good operand) (read operand)) :
    Upholds (EvalState.Keeps good held) (func.Derives arguments good held id)
      (func.compute arguments read id) := by
  unfold compute Derives
  cases operation : func.operation id with
  | argument index =>
      dsimp only
      split
      · next found => exact upholds_pure ⟨_, found, rfl⟩
      · exact upholds_throw (by simp)
  | constant payload => exact upholds_pure rfl
  | slotAddress slot => exact upholds_pure rfl
  | binary op lhs rhs =>
      simp only [operation, Operation.operands, List.forall_mem_cons] at reads
      refine (upholds_widthOf _).bind fun width wide => ?_
      refine reads.1.bind fun left left_fine => ?_
      refine reads.2.1.bind fun right right_fine => ?_
      exact upholds_pure ⟨width, left, right, wide, left_fine, right_fine, rfl⟩
  | compare comparison lhs rhs =>
      simp only [operation, Operation.operands, List.forall_mem_cons] at reads
      refine (upholds_widthOf _).bind fun width wide => ?_
      refine reads.1.bind fun left left_fine => ?_
      refine reads.2.1.bind fun right right_fine => ?_
      exact upholds_pure ⟨width, left, right, wide, left_fine, right_fine, rfl⟩
  | select condition ifTrue ifFalse =>
      simp only [operation, Operation.operands, List.forall_mem_cons] at reads
      refine reads.1.bind fun truth fine => ?_
      dsimp only
      split
      · next taken => exact reads.2.1.mono fun word arm => ⟨truth, fine, by rwa [if_pos taken]⟩
      · next other => exact reads.2.2.1.mono fun word arm => ⟨truth, fine, by rwa [if_neg other]⟩
  | cast kind operand =>
      simp only [operation, Operation.operands, List.forall_mem_cons] at reads
      exact reads.1.bind fun source fine => upholds_pure ⟨source, fine, rfl⟩
  | overflow check lhs rhs =>
      simp only [operation, Operation.operands, List.forall_mem_cons] at reads
      refine (upholds_widthOf _).bind fun width wide => ?_
      refine reads.1.bind fun left left_fine => ?_
      refine reads.2.1.bind fun right right_fine => ?_
      exact upholds_pure ⟨width, left, right, wide, left_fine, right_fine, rfl⟩
  | funnel direction high low amount =>
      simp only [operation, Operation.operands, List.forall_mem_cons] at reads
      refine (upholds_widthOf _).bind fun width wide => ?_
      refine reads.1.bind fun upper upper_fine => ?_
      refine reads.2.1.bind fun lower lower_fine => ?_
      refine reads.2.2.1.bind fun shift shift_fine => ?_
      exact upholds_pure ⟨width, upper, lower, shift, wide, upper_fine, lower_fine, shift_fine, rfl⟩
  | load slot =>
      refine upholds_get.bind fun state keeps => ?_
      dsimp only
      split
      · next found => exact upholds_pure (keeps.memory slot _ found)
      · exact upholds_throw (by simp)
  | store | branch | branchIf | ret =>
      exact upholds_throw (by simp)

/-- What is remembered of a value is what it computed at some time. -/
theorem upholds_remember {compute : Eval UInt64}
    (upholds : Upholds (EvalState.Keeps good held) (good id) compute) :
    Upholds (EvalState.Keeps good held) (good id) (Eval.remember id compute) := by
  refine upholds_get.bind fun state keeps => ?_
  split
  · next word found => exact upholds_pure (keeps.computed id word found)
  · refine upholds.bind fun word fine => ?_
    exact (upholds_modify fun after keeps_after => keeps_after.learn fine).bind
      fun _ _ => upholds_pure fine

theorem upholds_operand (inherits : func.Inherits arguments good held) (id : ValueId) :
    Upholds (EvalState.Keeps good held) (good id) (func.operand arguments id) := by
  apply upholds_remember
  split
  · exact (upholds_compute fun operand _ => upholds_throw (by simp)).mono
      (inherits.derives id)
  · exact upholds_throw (by simp)

theorem upholds_execute (inherits : func.Inherits arguments good held) (id : ValueId) :
    Upholds (EvalState.Keeps good held) (fun _ => True) (func.execute arguments id) := by
  unfold execute
  split
  · next slot operand stores =>
    refine (upholds_operand inherits operand).bind fun word fine => ?_
    exact upholds_modify fun after keeps => keeps.write (inherits.stores id _ _ word stores fine)
  · refine (upholds_compute fun operand _ => upholds_operand inherits operand).bind
      fun word derived => ?_
    exact upholds_modify fun after keeps => keeps.learn (inherits.derives id word derived)

/-- What leaves a block is a jump, or the word of the value that the block returns. -/
theorem upholds_leave (inherits : func.Inherits arguments good held) (block : BlockId) :
    Upholds (EvalState.Keeps good held)
      (fun exit => ∀ word, exit = .result (some word) → ∃ result,
        (func.block block).terminator.map func.operation = some (.ret (some result)) ∧
          good result word)
      (func.leave arguments block) := by
  unfold leave
  split
  · exact upholds_pure (by simp)
  · next condition _ _ _ =>
    exact (upholds_operand inherits condition).bind fun word _ => upholds_pure (by simp)
  · next result returns =>
    refine (upholds_operand inherits result).bind fun word fine => upholds_pure ?_
    rintro _ ⟨⟩
    exact ⟨result, returns, fine⟩
  · exact upholds_pure (by simp)
  · exact upholds_throw (by simp)

theorem upholds_runFrom (inherits : func.Inherits arguments good held) (limit fuel jumps : Nat)
    (block : BlockId) (remaining : List ValueId) :
    Upholds (EvalState.Keeps good held) (fun _ => True)
      (func.runFrom arguments limit fuel jumps block remaining) := by
  cases remaining with
  | nil =>
      rw [runFrom_nil]
      refine (upholds_leave inherits block).bind fun exit _ => ?_
      cases exit with
      | result word => exact upholds_pure trivial
      | jump target =>
          cases jumps with
          | zero => exact upholds_throw (by simp)
          | succ jumps => exact upholds_runFrom inherits limit fuel jumps target _
  | cons id rest =>
      cases fuel with
      | zero =>
          rw [runFrom_zero_cons]
          exact upholds_throw (by simp)
      | succ fuel =>
          rw [runFrom_succ_cons]
          exact (upholds_execute inherits id).bind
            fun _ _ => upholds_runFrom inherits limit fuel _ block rest
termination_by (fuel, jumps)
decreasing_by
  · exact Prod.Lex.right _ (by omega)
  · exact Prod.Lex.left _ _ (by omega)

/-- Evaluation on demand does not come to a value that needs itself. -/
theorem upholds_demandWithin (grounded : func.Grounded)
    (inherits : func.Inherits arguments good held) {depth : Nat} (below : id < depth) :
    Upholds (EvalState.Keeps good held) (good id)
      (func.demandWithin arguments depth id) := by
  induction depth generalizing id with
  | zero => exact absurd below (Nat.not_lt_zero id)
  | succ depth ih =>
      apply upholds_remember
      refine (upholds_compute fun operand mem => ih ?_).mono (inherits.derives id)
      exact Nat.lt_of_lt_of_le (grounded id operand mem) (Nat.le_of_lt_succ below)

end Function

end RegisterFlow
