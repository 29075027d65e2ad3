import Mathlib.Logic.Relation
import RegisterFlow.Proofs.Code.Emission

/-!
# Computing from values

A function grows by computations if its new values are constants, and instructions of one block that
compute from other values alone. What the rules for flags build is of this kind, whatever the rule.
-/

namespace RegisterFlow

open Relation (ReflTransGen)

/-- Operations that compute from the values that they read, and from nothing else. -/
def Operation.isPure : Operation → Bool
  | binary .. | compare .. | select .. | cast .. | overflow .. | funnel .. => true
  | argument _ | constant _ | slotAddress _ | load _ | store .. | branch _ | branchIf .. | ret _ =>
    false

namespace Function

/--
A function grew by a constant that it did not hold, or by an instruction of a block that computes
from values.
-/
inductive Computation (block : BlockId) (before : Function) : Function → Prop where
  | constant (ty : Ty) (number : UInt64)
      (unheld : Builder.heldConstant? ty (Builder.payloadOf ty number) before = none) :
      Computation block before
        (before.withLeaf ty (.constant (Builder.payloadOf ty number)) none)
  | instruction (ty : Ty) {operation : Operation} (pure : operation.isPure = true) :
      Computation block before (before.withInstruction block ty operation)

/-- Any number of computations in a block. -/
abbrev Computations (block : BlockId) : Function → Function → Prop :=
  ReflTransGen (Computation block)

variable {block : BlockId} {before after : Function}

theorem Computation.growsQuietly (computation : Computation block before after) :
    before.GrowsQuietly block after := by
  cases computation with
  | constant ty number unheld => exact growsQuietly_withLeaf ..
  | instruction ty pure =>
      apply growsQuietly_withInstruction
      rintro slot operand rfl
      cases pure

theorem Computations.growsQuietly (computations : Computations block before after) :
    before.GrowsQuietly block after := by
  induction computations with
  | refl => exact .refl _
  | tail _ computation ih => exact ih.trans computation.growsQuietly

/--
A function holds more computations than before: constants, and instructions at the end of one block
that compute from values. Everything else is as it was.
-/
structure ComputesMore (block : BlockId) (before after : Function) : Prop where
  size_le : before.values.size ≤ after.values.size
  arguments_eq : after.arguments = before.arguments
  value_eq : ∀ id < before.values.size, after.value id = before.value id
  slots_eq : after.slots = before.slots
  frameSize_eq : after.frameSize = before.frameSize
  blockCount_eq : after.blocks.size = before.blocks.size
  block_eq : ∀ other ≠ block, after.block other = before.block other
  terminator_eq : ∀ other, (after.block other).terminator = (before.block other).terminator
  appended : ∃ added, after.body block = before.body block ++ added ∧
    ∀ id ∈ added, before.values.size ≤ id ∧ (after.operation id).isPure = true
  computes : ∀ id < after.values.size, before.values.size ≤ id →
    (after.operation id).isPure = true ∨ ∃ payload, after.operation id = .constant payload

namespace ComputesMore

protected theorem refl (block : BlockId) (func : Function) : ComputesMore block func func where
  size_le := Nat.le_refl _
  arguments_eq := rfl
  value_eq _ _ := rfl
  slots_eq := rfl
  frameSize_eq := rfl
  blockCount_eq := rfl
  block_eq _ _ := rfl
  terminator_eq _ := rfl
  appended := ⟨[], by simp, by simp⟩
  computes _ below above := absurd below (Nat.not_lt_of_le above)

theorem operation_eq (more : ComputesMore block before after) {id : ValueId}
    (held : id < before.values.size) : after.operation id = before.operation id := by
  rw [operation, more.value_eq id held, operation]

theorem lt_size_of_isPure {func : Function} {id : ValueId}
    (pure : (func.operation id).isPure = true) : id < func.values.size := by
  apply lt_size_of_operation
  intro idle
  simp [idle, Operation.isPure] at pure

protected theorem trans {middle : Function} (first : ComputesMore block before middle)
    (second : ComputesMore block middle after) : ComputesMore block before after where
  size_le := Nat.le_trans first.size_le second.size_le
  arguments_eq := second.arguments_eq.trans first.arguments_eq
  value_eq id held :=
    (second.value_eq id (Nat.lt_of_lt_of_le held first.size_le)).trans (first.value_eq id held)
  slots_eq := second.slots_eq.trans first.slots_eq
  frameSize_eq := second.frameSize_eq.trans first.frameSize_eq
  blockCount_eq := second.blockCount_eq.trans first.blockCount_eq
  block_eq other elsewhere := (second.block_eq other elsewhere).trans (first.block_eq other elsewhere)
  terminator_eq other := (second.terminator_eq other).trans (first.terminator_eq other)
  appended := by
    rcases first.appended with ⟨added, added_eq, pure⟩
    rcases second.appended with ⟨further, further_eq, further_pure⟩
    refine ⟨added ++ further, by rw [further_eq, added_eq, List.append_assoc], ?_⟩
    intro id mem
    rcases List.mem_append.mp mem with earlier | later
    · rw [second.operation_eq (lt_size_of_isPure (pure id earlier).2)]
      exact pure id earlier
    · exact ⟨Nat.le_trans first.size_le (further_pure id later).1, (further_pure id later).2⟩
  computes id below above := by
    by_cases held : id < middle.values.size
    · rw [second.operation_eq held]
      exact first.computes id held above
    · exact second.computes id below (Nat.le_of_not_lt held)

/-- What was there reads no new value, if all that it read before was there. -/
theorem lt_size_of_mem_operands (more : ComputesMore block before after)
    (held : ∀ id, ∀ operand ∈ (before.operation id).operands, operand < before.values.size)
    {user operand : ValueId} (old : user < before.values.size)
    (reads : operand ∈ (after.operation user).operands) : operand < before.values.size := by
  rw [more.operation_eq old] at reads
  exact held user operand reads

/-- What is selected from the instructions is the same as before if nothing pure is selected. -/
theorem instructions_filterMap_eq {α : Type} (more : ComputesMore block before after)
    (numbered : ∀ other, ∀ id ∈ before.body other, id < before.values.size)
    (select : Function → BlockId × ValueId → Option α)
    (same : ∀ item, after.operation item.2 = before.operation item.2 →
      select after item = select before item)
    (skips : ∀ item, (after.operation item.2).isPure = true → select after item = none) :
    after.instructions.filterMap (select after) = before.instructions.filterMap (select before) := by
  have old : ∀ other, ((before.body other).map (other, ·)).filterMap (select after) =
      ((before.body other).map (other, ·)).filterMap (select before) := by
    intro other
    apply List.filterMap_congr
    intro item mem
    rcases List.mem_map.mp mem with ⟨id, id_mem, rfl⟩
    exact same _ (more.operation_eq (numbered other id id_mem))
  simp only [instructions, more.blockCount_eq, List.filterMap_flatMap]
  congr 1
  funext other
  change ((after.body other).map _).filterMap _ = ((before.body other).map _).filterMap _
  by_cases here : other = block
  · subst here
    rcases more.appended with ⟨added, added_eq, pure⟩
    have skipped : (added.map (other, ·)).filterMap (select after) = [] := by
      rw [List.filterMap_eq_nil_iff]
      intro item mem
      rcases List.mem_map.mp mem with ⟨id, id_mem, rfl⟩
      exact skips _ (pure id id_mem).2
    rw [added_eq, List.map_append, List.filterMap_append, skipped, List.append_nil, old]
  · rw [body, more.block_eq other here]
    exact old other

/-- The stores into a slot are the same as before. -/
theorem slotStores_eq (more : ComputesMore block before after)
    (numbered : ∀ other, ∀ id ∈ before.body other, id < before.values.size) (slot : SlotId) :
    after.slotStores slot = before.slotStores slot := by
  have stored : ∀ func : Function, func.slotStores slot = func.instructions.filterMap
      fun item => (func.storedBy? slot item.2).map (item.1, ·) := by
    intro func
    apply List.filterMap_congr
    rintro ⟨other, id⟩ _
    grind [storedBy?]
  rw [stored, stored]
  apply more.instructions_filterMap_eq numbered
    fun func item => (func.storedBy? slot item.2).map (item.1, ·)
  · intro item same
    simp only [storedBy?, same]
  · intro item pure
    have nothing : after.storedBy? slot item.2 = none := by
      rw [Option.eq_none_iff_forall_ne_some]
      intro operand stores
      rw [storedBy?_eq_some_iff.mp stores] at pure
      cases pure
    rw [nothing, Option.map_none]

/-- The loads from a slot are the same as before. -/
theorem slotLoads_eq (more : ComputesMore block before after)
    (numbered : ∀ other, ∀ id ∈ before.body other, id < before.values.size) (slot : SlotId) :
    after.slotLoads slot = before.slotLoads slot := by
  simp only [slotLoads, ← List.filterMap_eq_filter]
  apply more.instructions_filterMap_eq numbered fun func =>
    Option.guard fun item => decide (func.operation item.2 = .load slot)
  · intro item same
    simp only [Option.guard, same]
  · intro item pure
    have other : after.operation item.2 ≠ .load slot := by
      intro loads
      rw [loads] at pure
      cases pure
    rw [Option.guard, decide_eq_false other]
    rfl

end ComputesMore

theorem Computation.computesMore (computation : Computation block before after) :
    ComputesMore block before after := by
  cases computation with
  | constant ty number unheld =>
      refine ⟨by simp, rfl, ?_, rfl, rfl, rfl, fun _ _ => rfl, fun _ => rfl, ⟨[], ?_, ?_⟩, ?_⟩
      · intro id held
        rw [value_withLeaf, if_neg (Nat.ne_of_lt held)]
      · rw [List.append_nil]
        rfl
      · simp
      · intro id below above
        have new : id = before.values.size := by
          rw [size_withLeaf] at below
          omega
        right
        simp [operation, new]
  | @instruction ty operation pure =>
      refine ⟨by simp, rfl, ?_, rfl, rfl, by simp, ?_, fun _ => terminator_withInstruction .., ?_,
        ?_⟩
      · intro id held
        rw [value_withInstruction, if_neg (Nat.ne_of_lt held)]
      · intro other elsewhere
        rw [block_withInstruction, if_neg fun holds => elsewhere holds.1]
      · rw [body_withInstruction]
        split
        · refine ⟨[before.values.size], rfl, ?_⟩
          simp [pure]
        · exact ⟨[], by simp, by simp⟩
      · intro id below above
        have new : id = before.values.size := by
          rw [size_withInstruction] at below
          omega
        left
        rw [operation_withInstruction, if_pos new, pure]

theorem Computations.computesMore (computations : Computations block before after) :
    ComputesMore block before after := by
  induction computations with
  | refl => exact .refl ..
  | tail _ computation ih => exact ih.trans computation.computesMore

end Function

namespace Builder

variable {α β : Type} {block : BlockId}

/-- A building step that only computes in a block. -/
def ComputesIn (block : BlockId) (builder : Builder α) : Prop :=
  ∀ func, Function.Computations block func (builder.run func).2

theorem ComputesIn.bind {step : Builder α} {next : α → Builder β} (first : step.ComputesIn block)
    (second : ∀ answer, (next answer).ComputesIn block) : (step >>= next).ComputesIn block :=
  fun func => (first func).trans (second (step.run func).1 (step.run func).2)

theorem computesIn_tyOf (id : ValueId) : (tyOf id).ComputesIn block :=
  fun _ => .refl

theorem computesIn_constant (ty : Ty) (number : UInt64) : (constant ty number).ComputesIn block := by
  intro func
  rw [run_constant_eq]
  split
  · exact .refl
  · next unheld => exact .single (.constant ty number unheld)

theorem computesIn_append (ty : Ty) {operation : Operation} (pure : operation.isPure = true) :
    (append block ty operation).ComputesIn block :=
  fun _ => .single (.instruction ty pure)

theorem computesIn_binary (op : BinaryOp) (lhs rhs : ValueId) :
    (binary block op lhs rhs).ComputesIn block :=
  fun _ => .single (.instruction _ rfl)

theorem computesIn_compare (comparison : Comparison) (lhs rhs : ValueId) :
    (compare block comparison lhs rhs).ComputesIn block :=
  computesIn_append _ rfl

theorem computesIn_select (condition ifTrue ifFalse : ValueId) :
    (select block condition ifTrue ifFalse).ComputesIn block :=
  fun _ => .single (.instruction _ rfl)

theorem computesIn_overflow (check : OverflowCheck) (lhs rhs : ValueId) :
    (overflow block check lhs rhs).ComputesIn block :=
  computesIn_append _ rfl

end Builder

end RegisterFlow
