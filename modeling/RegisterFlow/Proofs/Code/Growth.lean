import Mathlib.Tactic.Common
import RegisterFlow.Code.Frame

/-!
# Growing functions

What the building operations do to a function, seen through its values, the instructions of its
blocks and its slots. A function only grows: `Extends` says that everything it held stays, apart
from printable names, and that instructions are only appended.
-/

namespace RegisterFlow

namespace Function

/-- The instructions of a block in order. -/
def body (func : Function) (block : BlockId) : List ValueId :=
  (func.block block).instructions.toList

/-- The function with a further value outside of all blocks. -/
def withLeaf (func : Function) (ty : Ty) (operation : Operation) (name : Option String) :
    Function :=
  { func with values := func.values.push { ty, operation, name } }

/-- The function with a further instruction at the end of a block. -/
def withInstruction (func : Function) (block : BlockId) (ty : Ty) (operation : Operation) :
    Function :=
  { func with
    values := func.values.push { ty, operation, block := some block }
    blocks := func.blocks.modify block fun body =>
      { body with instructions := body.instructions.push func.values.size } }

/-- The function with a terminator for a block. -/
def withTerminator (func : Function) (block : BlockId) (operation : Operation) : Function :=
  { func with
    values := func.values.push { ty := .void, operation, block := some block }
    blocks := func.blocks.modify block fun body =>
      { body with terminator := some func.values.size } }

/-- The function with a printable name for a value. -/
def withName (func : Function) (id : ValueId) (name : String) : Function :=
  { func with values := func.values.modify id fun value => { value with name := some name } }

/-- The function with a further slot of a type. -/
def withSlot (func : Function) (ty : Ty) (base : String) : Function :=
  let name := Frame.freshName (func.slots.toList.map Slot.name) base
  let frameSize := Frame.extend func.frameSize ty.byteSize
  { func.withLeaf .ptr (.slotAddress func.slots.size) (some name) with
    frameSize
    slots := func.slots.push
      { name, ty, address := func.values.size, offset := -frameSize,
        align := Frame.alignment ty.byteSize } }

end Function

namespace Builder

theorem run_append_eq (block : BlockId) (ty : Ty) (operation : Operation) (func : Function) :
    (append block ty operation).run func =
      (func.values.size, func.withInstruction block ty operation) :=
  rfl

theorem run_rename (id : ValueId) (name : String) (func : Function) :
    (rename id name).run func = ((), func.withName id name) :=
  rfl

theorem run_load (block : BlockId) (slot : SlotId) (func : Function) :
    (load block slot).run func =
      (func.values.size, func.withInstruction block (func.slot slot).ty (.load slot)) :=
  rfl

/-- The payload of the constant that stands for a number of a type. -/
def payloadOf (ty : Ty) (number : UInt64) : UInt64 :=
  Word.truncate (ty.intBits?.getD 64) number

/-- The first value that is the constant with a payload of a type. -/
def heldConstant? (ty : Ty) (payload : UInt64) (func : Function) : Option ValueId :=
  func.values.findIdx? fun value => value.ty = ty ∧ value.operation = .constant payload

theorem run_constant_eq (ty : Ty) (number : UInt64) (func : Function) :
    (constant ty number).run func =
      match heldConstant? ty (payloadOf ty number) func with
      | some id => (id, func)
      | none =>
        (func.values.size, func.withLeaf ty (.constant (payloadOf ty number)) none) := by
  change (match heldConstant? ty (payloadOf ty number) func with
      | some id => pure id
      | none => add { ty, operation := .constant (payloadOf ty number) } : Builder ValueId) func = _
  cases heldConstant? ty (payloadOf ty number) func <;> rfl

/-- A constant is one that the function holds already, or a new value. -/
theorem run_constant (ty : Ty) (number : UInt64) (func : Function) :
    (∃ id < func.values.size, (constant ty number).run func = (id, func) ∧ func.ty id = ty ∧
        func.operation id = .constant (payloadOf ty number)) ∨
      (constant ty number).run func =
        (func.values.size, func.withLeaf ty (.constant (payloadOf ty number)) none) := by
  rw [run_constant_eq]
  cases held : heldConstant? ty (payloadOf ty number) func with
  | none => exact Or.inr rfl
  | some id =>
      left
      rw [heldConstant?, Array.findIdx?_eq_some_iff_getElem] at held
      obtain ⟨bound, holds, -⟩ := held
      simp only [decide_eq_true_eq] at holds
      refine ⟨id, bound, rfl, ?_, ?_⟩
      · simpa [Function.ty, Function.value, bound] using holds.1
      · simpa [Function.operation, Function.value, bound] using holds.2

end Builder

namespace Function

theorem value_of_size_le {func : Function} {id : ValueId} (outside : func.values.size ≤ id) :
    func.value id = default := by
  simp [value, outside]

/-- Only values that a function holds have an operation other than a void return. -/
theorem lt_size_of_operation {func : Function} {id : ValueId}
    (proper : func.operation id ≠ .ret none) : id < func.values.size := by
  by_contra outside
  apply proper
  rw [operation, value_of_size_le (Nat.le_of_not_lt outside)]
  rfl

theorem lt_size_of_ty {func : Function} {id : ValueId} {ty : Ty} (proper : ty ≠ .void)
    (typed : func.ty id = ty) : id < func.values.size := by
  by_contra outside
  apply proper
  rw [← typed, Function.ty, value_of_size_le (Nat.le_of_not_lt outside)]
  rfl

theorem body_of_size_le {func : Function} {block : BlockId}
    (outside : func.blocks.size ≤ block) : func.body block = [] := by
  rw [body, Function.block, Array.getElem?_eq_none outside]
  rfl

section Leaf

variable (func : Function) (ty : Ty) (operation : Operation) (name : Option String)

@[simp]
theorem value_withLeaf (id : ValueId) :
    (func.withLeaf ty operation name).value id =
      if id = func.values.size then { ty, operation, name } else func.value id := by
  simp only [value, withLeaf, Array.getElem?_push]
  split <;> rfl

@[simp]
theorem size_withLeaf :
    (func.withLeaf ty operation name).values.size = func.values.size + 1 := by
  simp [withLeaf]

@[simp]
theorem block_withLeaf (block : BlockId) :
    (func.withLeaf ty operation name).block block = func.block block :=
  rfl

@[simp]
theorem blocks_withLeaf : (func.withLeaf ty operation name).blocks = func.blocks :=
  rfl

@[simp]
theorem slots_withLeaf : (func.withLeaf ty operation name).slots = func.slots :=
  rfl

end Leaf

section Instruction

variable (func : Function) (block : BlockId) (ty : Ty) (operation : Operation)

@[simp]
theorem value_withInstruction (id : ValueId) :
    (func.withInstruction block ty operation).value id =
      if id = func.values.size then { ty, operation, block := some block }
      else func.value id := by
  simp only [value, withInstruction, Array.getElem?_push]
  split <;> rfl

@[simp]
theorem ty_withInstruction (id : ValueId) :
    (func.withInstruction block ty operation).ty id =
      if id = func.values.size then ty else func.ty id := by
  simp only [Function.ty, value_withInstruction]
  split <;> rfl

@[simp]
theorem operation_withInstruction (id : ValueId) :
    (func.withInstruction block ty operation).operation id =
      if id = func.values.size then operation else func.operation id := by
  simp only [Function.operation, value_withInstruction]
  split <;> rfl

@[simp]
theorem size_withInstruction :
    (func.withInstruction block ty operation).values.size = func.values.size + 1 := by
  simp [withInstruction]

theorem block_withInstruction (other : BlockId) :
    (func.withInstruction block ty operation).block other =
      if other = block ∧ block < func.blocks.size then
        { func.block block with
          instructions := (func.block block).instructions.push func.values.size }
      else func.block other := by
  simp only [Function.block, withInstruction, Array.getElem?_modify]
  by_cases same : block = other
  · subst same
    by_cases bound : block < func.blocks.size
    · simp [bound]
    · simp [bound]
  · simp [same, Ne.symm same]

@[simp]
theorem body_withInstruction (other : BlockId) :
    (func.withInstruction block ty operation).body other =
      if other = block ∧ block < func.blocks.size then func.body block ++ [func.values.size]
      else func.body other := by
  simp only [body, block_withInstruction]
  split <;> simp

@[simp]
theorem terminator_withInstruction (other : BlockId) :
    ((func.withInstruction block ty operation).block other).terminator =
      (func.block other).terminator := by
  rw [block_withInstruction]
  split
  · next holds => rw [holds.1]
  · rfl

@[simp]
theorem blockCount_withInstruction :
    (func.withInstruction block ty operation).blocks.size = func.blocks.size := by
  simp [withInstruction]

@[simp]
theorem slots_withInstruction :
    (func.withInstruction block ty operation).slots = func.slots :=
  rfl

end Instruction

section Terminator

variable (func : Function) (block : BlockId) (operation : Operation)

@[simp]
theorem value_withTerminator (id : ValueId) :
    (func.withTerminator block operation).value id =
      if id = func.values.size then { ty := .void, operation, block := some block }
      else func.value id := by
  simp only [value, withTerminator, Array.getElem?_push]
  split <;> rfl

@[simp]
theorem size_withTerminator :
    (func.withTerminator block operation).values.size = func.values.size + 1 := by
  simp [withTerminator]

theorem block_withTerminator (other : BlockId) :
    (func.withTerminator block operation).block other =
      if other = block ∧ block < func.blocks.size then
        { func.block block with terminator := some func.values.size }
      else func.block other := by
  simp only [Function.block, withTerminator, Array.getElem?_modify]
  by_cases same : block = other
  · subst same
    by_cases bound : block < func.blocks.size
    · simp [bound]
    · simp [bound]
  · simp [same, Ne.symm same]

@[simp]
theorem body_withTerminator (other : BlockId) :
    (func.withTerminator block operation).body other = func.body other := by
  simp only [body, block_withTerminator]
  split
  · next holds => rw [holds.1]
  · rfl

@[simp]
theorem blockCount_withTerminator :
    (func.withTerminator block operation).blocks.size = func.blocks.size := by
  simp [withTerminator]

@[simp]
theorem slots_withTerminator : (func.withTerminator block operation).slots = func.slots :=
  rfl

end Terminator

section Name

variable (func : Function) (id : ValueId) (name : String)

theorem value_withName (other : ValueId) :
    (func.withName id name).value other =
      if other = id ∧ id < func.values.size then { func.value id with name := some name }
      else func.value other := by
  simp only [value, withName, Array.getElem?_modify]
  by_cases same : id = other
  · subst same
    by_cases bound : id < func.values.size
    · simp [bound]
    · simp [bound]
  · simp [same, Ne.symm same]

@[simp]
theorem ty_withName (other : ValueId) : (func.withName id name).ty other = func.ty other := by
  simp only [ty, value_withName]
  split
  · next holds => rw [holds.1]
  · rfl

@[simp]
theorem operation_withName (other : ValueId) :
    (func.withName id name).operation other = func.operation other := by
  simp only [operation, value_withName]
  split
  · next holds => rw [holds.1]
  · rfl

@[simp]
theorem owner_withName (other : ValueId) :
    ((func.withName id name).value other).block = (func.value other).block := by
  simp only [value_withName]
  split
  · next holds => rw [holds.1]
  · rfl

@[simp]
theorem size_withName : (func.withName id name).values.size = func.values.size := by
  simp [withName]

@[simp]
theorem block_withName (block : BlockId) :
    (func.withName id name).block block = func.block block :=
  rfl

@[simp]
theorem body_withName (block : BlockId) :
    (func.withName id name).body block = func.body block :=
  rfl

@[simp]
theorem blocks_withName : (func.withName id name).blocks = func.blocks :=
  rfl

@[simp]
theorem slots_withName : (func.withName id name).slots = func.slots :=
  rfl

end Name

section Slot

variable (func : Function) (slotTy : Ty) (base : String)

@[simp]
theorem value_withSlot (id : ValueId) :
    (func.withSlot slotTy base).value id =
      if id = func.values.size then
        { ty := .ptr, operation := .slotAddress func.slots.size,
          name := some (Frame.freshName (func.slots.toList.map Slot.name) base) }
      else func.value id :=
  value_withLeaf ..

@[simp]
theorem size_withSlot :
    (func.withSlot slotTy base).values.size = func.values.size + 1 :=
  size_withLeaf ..

@[simp]
theorem block_withSlot (block : BlockId) :
    (func.withSlot slotTy base).block block = func.block block :=
  rfl

@[simp]
theorem body_withSlot (block : BlockId) :
    (func.withSlot slotTy base).body block = func.body block :=
  rfl

@[simp]
theorem blocks_withSlot : (func.withSlot slotTy base).blocks = func.blocks :=
  rfl

@[simp]
theorem slotCount_withSlot :
    (func.withSlot slotTy base).slots.size = func.slots.size + 1 := by
  simp [withSlot]

/-- The type of a slot after one was allocated: earlier slots keep theirs. -/
@[simp]
theorem slotTy_withSlot (slot : SlotId) :
    ((func.withSlot slotTy base).slot slot).ty =
      if slot = func.slots.size then slotTy else (func.slot slot).ty := by
  simp only [Function.slot, withSlot, Array.getElem?_push]
  split <;> rfl

end Slot

/-- Everything that a function holds stays, and instructions are only appended. -/
structure Extends (before after : Function) : Prop where
  size_le : before.values.size ≤ after.values.size
  ty_eq : ∀ id < before.values.size, after.ty id = before.ty id
  operation_eq : ∀ id < before.values.size, after.operation id = before.operation id
  owner_eq : ∀ id < before.values.size, (after.value id).block = (before.value id).block
  body_prefix : ∀ block, before.body block <+: after.body block
  blockCount_eq : after.blocks.size = before.blocks.size
  slotCount_le : before.slots.size ≤ after.slots.size
  slotTy_eq : ∀ slot < before.slots.size, (after.slot slot).ty = (before.slot slot).ty
  arguments_eq : after.arguments = before.arguments

namespace Extends

protected theorem refl (func : Function) : Extends func func where
  size_le := Nat.le_refl _
  ty_eq _ _ := rfl
  operation_eq _ _ := rfl
  owner_eq _ _ := rfl
  body_prefix _ := List.prefix_refl _
  blockCount_eq := rfl
  slotCount_le := Nat.le_refl _
  slotTy_eq _ _ := rfl
  arguments_eq := rfl

protected theorem trans {first second third : Function} (left : Extends first second)
    (right : Extends second third) : Extends first third where
  size_le := Nat.le_trans left.size_le right.size_le
  ty_eq id held := by
    rw [right.ty_eq id (Nat.lt_of_lt_of_le held left.size_le), left.ty_eq id held]
  operation_eq id held := by
    rw [right.operation_eq id (Nat.lt_of_lt_of_le held left.size_le), left.operation_eq id held]
  owner_eq id held := by
    rw [right.owner_eq id (Nat.lt_of_lt_of_le held left.size_le), left.owner_eq id held]
  body_prefix block := (left.body_prefix block).trans (right.body_prefix block)
  blockCount_eq := right.blockCount_eq.trans left.blockCount_eq
  slotCount_le := Nat.le_trans left.slotCount_le right.slotCount_le
  slotTy_eq slot held := by
    rw [right.slotTy_eq slot (Nat.lt_of_lt_of_le held left.slotCount_le), left.slotTy_eq slot held]
  arguments_eq := right.arguments_eq.trans left.arguments_eq

variable {before after : Function}

/-- A value with an operation other than a void return keeps it. -/
theorem operation_of_ne (grown : Extends before after) {id : ValueId} {operation : Operation}
    (proper : operation ≠ .ret none) (computed : before.operation id = operation) :
    after.operation id = operation := by
  rw [grown.operation_eq id (lt_size_of_operation (computed ▸ proper)), computed]

/-- A value with a type other than `void` keeps it. -/
theorem ty_of_ne (grown : Extends before after) {id : ValueId} {ty : Ty} (proper : ty ≠ .void)
    (typed : before.ty id = ty) : after.ty id = ty := by
  rw [grown.ty_eq id (lt_size_of_ty proper typed), typed]

end Extends

theorem extends_withLeaf (func : Function) (ty : Ty) (operation : Operation)
    (name : Option String) : Extends func (func.withLeaf ty operation name) where
  size_le := by simp
  ty_eq id held := by simp [Function.ty, Nat.ne_of_lt held]
  operation_eq id held := by simp [Function.operation, Nat.ne_of_lt held]
  owner_eq id held := by simp [Nat.ne_of_lt held]
  body_prefix block := List.prefix_refl _
  blockCount_eq := rfl
  slotCount_le := Nat.le_refl _
  slotTy_eq _ _ := rfl
  arguments_eq := rfl

theorem extends_withInstruction (func : Function) (block : BlockId) (ty : Ty)
    (operation : Operation) : Extends func (func.withInstruction block ty operation) where
  size_le := by simp
  ty_eq id held := by simp [Function.ty, Nat.ne_of_lt held]
  operation_eq id held := by simp [Function.operation, Nat.ne_of_lt held]
  owner_eq id held := by simp [Nat.ne_of_lt held]
  body_prefix other := by
    rw [body_withInstruction]
    split
    · next holds =>
      rw [holds.1]
      exact List.prefix_append ..
    · exact List.prefix_refl _
  blockCount_eq := by simp
  slotCount_le := Nat.le_refl _
  slotTy_eq _ _ := rfl
  arguments_eq := rfl

theorem extends_withTerminator (func : Function) (block : BlockId) (operation : Operation) :
    Extends func (func.withTerminator block operation) where
  size_le := by simp
  ty_eq id held := by simp [Function.ty, Nat.ne_of_lt held]
  operation_eq id held := by simp [Function.operation, Nat.ne_of_lt held]
  owner_eq id held := by simp [Nat.ne_of_lt held]
  body_prefix other := by simp
  blockCount_eq := by simp
  slotCount_le := Nat.le_refl _
  slotTy_eq _ _ := rfl
  arguments_eq := rfl

theorem extends_withName (func : Function) (id : ValueId) (name : String) :
    Extends func (func.withName id name) where
  size_le := by simp
  ty_eq other _ := by simp
  operation_eq other _ := by simp
  owner_eq other _ := by simp
  body_prefix other := by simp
  blockCount_eq := rfl
  slotCount_le := Nat.le_refl _
  slotTy_eq _ _ := rfl
  arguments_eq := rfl

theorem extends_withSlot (func : Function) (ty : Ty) (base : String) :
    Extends func (func.withSlot ty base) where
  size_le := by simp
  ty_eq id held := by simp [Function.ty, Nat.ne_of_lt held]
  operation_eq id held := by simp [Function.operation, Nat.ne_of_lt held]
  owner_eq id held := by simp [Nat.ne_of_lt held]
  body_prefix block := by simp
  blockCount_eq := rfl
  slotCount_le := by simp
  slotTy_eq slot held := by simp [Nat.ne_of_lt held]
  arguments_eq := rfl

end Function

end RegisterFlow
