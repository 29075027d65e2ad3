import RegisterFlow.Proofs.Code.Growth
import RegisterFlow.Tracking.Resolve

/-!
# Well-typed code

The typing rules of operations: arithmetic reads integers of one width, the arms of a selection have
one type, what is stored has the type of its slot, and conversions between integers change the width
the way their names say. A function stays well typed while it grows by instructions that obey the
rules in it.
-/

namespace RegisterFlow

/-- The conversions that may lead from one type to another. -/
def Conversion.Suits : Conversion → Ty → Ty → Prop
  | .zext, .int source, .int target | .sext, .int source, .int target => source < target
  | .trunc, .int source, .int target => target < source
  | .zext, _, _ | .sext, _, _ | .trunc, _, _ => False
  | .bitcast, source, target => source.bits = target.bits
  | .ptrToInt, _, _ | .intToPtr, _, _ => True

/-- The conversion between two types suits them. -/
theorem Conversion.suits_of_between? {source target : Ty} {kind : Conversion}
    (convertible : between? source target = some kind) (differs : source ≠ target) :
    kind.Suits source target := by
  unfold between? at convertible
  split at convertible
  · next narrow wide =>
    have ne : narrow ≠ wide := fun same => differs (congrArg Ty.int same)
    split at convertible
    · next narrower =>
      cases convertible
      exact narrower
    · next wider =>
      cases convertible
      simp only [Suits]
      omega
  all_goals cases convertible
  all_goals simp [Suits, Ty.bits]

namespace Function

/-- A function holds a value of a type. -/
def HasTy (func : Function) (id : ValueId) (ty : Ty) : Prop :=
  id < func.values.size ∧ func.ty id = ty

/-- A function holds a slot of a type. -/
def SlotHasTy (func : Function) (slot : SlotId) (ty : Ty) : Prop :=
  slot < func.slots.size ∧ (func.slot slot).ty = ty

/-- The typing rules of operations, given the type of the result. -/
def Types (func : Function) (ty : Ty) : Operation → Prop
  | .binary _ lhs rhs | .compare _ lhs rhs | .overflow _ lhs rhs =>
    ∃ bits, func.HasTy lhs (.int bits) ∧ func.HasTy rhs (.int bits)
  | .funnel _ high low amount =>
    ∃ bits, func.HasTy high (.int bits) ∧ func.HasTy low (.int bits) ∧
      func.HasTy amount (.int bits)
  | .select _ ifTrue ifFalse => ∃ arm, func.HasTy ifTrue arm ∧ func.HasTy ifFalse arm
  | .store slot operand => ∃ content, func.SlotHasTy slot content ∧ func.HasTy operand content
  | .cast kind operand => ∃ source, func.HasTy operand source ∧ kind.Suits source ty
  | _ => True

/-- All values of a function obey the typing rules. -/
def WellTyped (func : Function) : Prop :=
  ∀ id < func.values.size, func.Types (func.ty id) (func.operation id)

variable {before after func : Function} {id : ValueId} {slot : SlotId} {block : BlockId} {ty : Ty}
  {operation : Operation}

/-- What has a type other than `void` is held by the function. -/
theorem hasTy_of_ne (proper : ty ≠ .void) (typed : func.ty id = ty) : func.HasTy id ty :=
  ⟨lt_size_of_ty proper typed, typed⟩

theorem HasTy.mono (held : before.HasTy id ty) (grown : before.Extends after) :
    after.HasTy id ty :=
  ⟨Nat.lt_of_lt_of_le held.1 grown.size_le, (grown.ty_eq id held.1).trans held.2⟩

theorem SlotHasTy.mono (held : before.SlotHasTy slot ty) (grown : before.Extends after) :
    after.SlotHasTy slot ty :=
  ⟨Nat.lt_of_lt_of_le held.1 grown.slotCount_le, (grown.slotTy_eq slot held.1).trans held.2⟩

/-- A value stays typed while the function grows. -/
theorem Types.mono (typed : before.Types ty operation) (grown : before.Extends after) :
    after.Types ty operation := by
  cases operation with
  | binary _ _ _ | compare _ _ _ | overflow _ _ _ =>
      rcases typed with ⟨bits, lhs, rhs⟩
      exact ⟨bits, lhs.mono grown, rhs.mono grown⟩
  | funnel _ _ _ _ =>
      rcases typed with ⟨bits, high, low, amount⟩
      exact ⟨bits, high.mono grown, low.mono grown, amount.mono grown⟩
  | select _ _ _ =>
      rcases typed with ⟨arm, ifTrue, ifFalse⟩
      exact ⟨arm, ifTrue.mono grown, ifFalse.mono grown⟩
  | store _ _ =>
      rcases typed with ⟨content, slot, operand⟩
      exact ⟨content, slot.mono grown, operand.mono grown⟩
  | cast _ _ =>
      rcases typed with ⟨source, operand, suits⟩
      exact ⟨source, operand.mono grown, suits⟩
  | argument _ | constant _ | slotAddress _ | load _ | branch _ | branchIf _ _ _ | ret _ =>
      trivial

/-- Leaves and terminators obey every typing rule. -/
theorem types_of_isLeaf (leaf : operation.isLeaf = true) : func.Types ty operation := by
  cases operation <;> trivial

theorem types_of_isTerminator (ends : operation.isTerminator = true) :
    func.Types ty operation := by
  cases operation <;> trivial

/-- The operands of well-typed arithmetic are integers of one width. -/
theorem WellTyped.operands {op : BinaryOp} {lhs rhs : ValueId} (typed : func.WellTyped)
    (computes : func.operation id = .binary op lhs rhs) :
    ∃ bits, func.HasTy lhs (.int bits) ∧ func.HasTy rhs (.int bits) := by
  have operands := typed id (lt_size_of_operation (by simp [computes]))
  rwa [computes] at operands

/-- A function grew, and it is well typed if it was. -/
structure GrowsTyped (before after : Function) : Prop extends Extends before after where
  typed : before.WellTyped → after.WellTyped

namespace GrowsTyped

protected theorem refl (func : Function) : GrowsTyped func func where
  toExtends := .refl func
  typed := id

protected theorem trans {first second third : Function} (left : GrowsTyped first second)
    (right : GrowsTyped second third) : GrowsTyped first third where
  toExtends := left.toExtends.trans right.toExtends
  typed := right.typed ∘ left.typed

end GrowsTyped

/-- A function that grew is well typed if its old values were and the new ones are. -/
theorem growsTyped_of_new (grown : before.Extends after)
    (new : ∀ id, before.values.size ≤ id → id < after.values.size →
      after.Types (after.ty id) (after.operation id)) : before.GrowsTyped after where
  toExtends := grown
  typed typed id held := by
    by_cases old : id < before.values.size
    · rw [grown.ty_eq id old, grown.operation_eq id old]
      exact (typed id old).mono grown
    · exact new id (Nat.le_of_not_lt old) held

theorem growsTyped_withLeaf {name : Option String} (leaf : operation.isLeaf = true) :
    func.GrowsTyped (func.withLeaf ty operation name) := by
  apply growsTyped_of_new (extends_withLeaf ..)
  intro id new held
  rw [size_withLeaf] at held
  obtain rfl := Nat.le_antisymm (Nat.le_of_lt_succ held) new
  simpa [Function.operation] using types_of_isLeaf leaf

theorem growsTyped_withInstruction (typed : func.Types ty operation) :
    func.GrowsTyped (func.withInstruction block ty operation) := by
  have grown := extends_withInstruction func block ty operation
  apply growsTyped_of_new grown
  intro id new held
  rw [size_withInstruction] at held
  obtain rfl := Nat.le_antisymm (Nat.le_of_lt_succ held) new
  simpa using typed.mono grown

theorem growsTyped_withTerminator (ends : operation.isTerminator = true) :
    func.GrowsTyped (func.withTerminator block operation) := by
  apply growsTyped_of_new (extends_withTerminator ..)
  intro id new held
  rw [size_withTerminator] at held
  obtain rfl := Nat.le_antisymm (Nat.le_of_lt_succ held) new
  simpa [Function.operation] using types_of_isTerminator ends

theorem growsTyped_withName (name : String) : func.GrowsTyped (func.withName id name) := by
  apply growsTyped_of_new (extends_withName ..)
  intro id new held
  rw [size_withName] at held
  exact absurd held (Nat.not_lt_of_le new)

theorem growsTyped_withSlot (base : String) : func.GrowsTyped (func.withSlot ty base) := by
  apply growsTyped_of_new (extends_withSlot ..)
  intro id new held
  rw [size_withSlot] at held
  obtain rfl := Nat.le_antisymm (Nat.le_of_lt_succ held) new
  simp [Function.operation, Types]

/-- A function without code is well typed. -/
theorem wellTyped_empty (name : String) (argumentTypes : List Ty) (blockNames : List String) :
    (empty name argumentTypes blockNames).WellTyped := by
  intro id held
  have argument : (empty name argumentTypes blockNames).operation id = .argument id := by
    simp only [empty, List.size_toArray, List.length_mapIdx] at held
    simp [empty, operation, value, held]
  rw [argument]
  trivial

theorem hasTy_withInstruction :
    (func.withInstruction block ty operation).HasTy func.values.size ty := by
  simp [HasTy]

theorem slotHasTy_withSlot (base : String) :
    (func.withSlot ty base).SlotHasTy func.slots.size ty := by
  simp [SlotHasTy]

end Function

end RegisterFlow
