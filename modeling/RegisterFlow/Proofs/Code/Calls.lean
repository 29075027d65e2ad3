import RegisterFlow.Proofs.Code.Growth

/-!
# Calls that build a function

The calls with which a function is built, and what each of them does to it. A call may only name
values, blocks and slots that exist when it is made.
-/

namespace RegisterFlow

/-- An instruction that is appended to a block. -/
inductive Emission where
  | binary (op : BinaryOp) (lhs rhs : ValueId)
  | compare (comparison : Comparison) (lhs rhs : ValueId)
  | select (condition ifTrue ifFalse : ValueId)
  | cast (kind : Conversion) (operand : ValueId) (target : Ty)
  | overflow (check : OverflowCheck) (lhs rhs : ValueId)
  | funnel (direction : Direction) (high low amount : ValueId)
  | load (slot : SlotId)
  | store (slot : SlotId) (operand : ValueId)

namespace Emission

/-- The building step that appends an instruction. -/
def build (block : BlockId) : Emission → Builder ValueId
  | binary op lhs rhs => Builder.binary block op lhs rhs
  | compare comparison lhs rhs => Builder.compare block comparison lhs rhs
  | select condition ifTrue ifFalse => Builder.select block condition ifTrue ifFalse
  | cast kind operand target => Builder.cast block kind operand target
  | overflow check lhs rhs => Builder.overflow block check lhs rhs
  | funnel direction high low amount => Builder.funnel block direction high low amount
  | load slot => Builder.load block slot
  | store slot operand => Builder.store block slot operand

/-- What the appended instruction does. -/
def operation : Emission → Operation
  | binary op lhs rhs => .binary op lhs rhs
  | compare comparison lhs rhs => .compare comparison lhs rhs
  | select condition ifTrue ifFalse => .select condition ifTrue ifFalse
  | cast kind operand _ => .cast kind operand
  | overflow check lhs rhs => .overflow check lhs rhs
  | funnel direction high low amount => .funnel direction high low amount
  | load slot => .load slot
  | store slot operand => .store slot operand

/-- The type of the appended instruction. -/
def ty (func : Function) : Emission → Ty
  | binary _ lhs _ => func.ty lhs
  | compare .. | overflow .. => .bool
  | select _ ifTrue _ => func.ty ifTrue
  | cast _ _ target => target
  | funnel _ high _ _ => func.ty high
  | load slot => (func.slot slot).ty
  | store .. => .void

theorem run_build (block : BlockId) (emission : Emission) (func : Function) :
    (emission.build block).run func =
      (func.values.size,
        func.withInstruction block (emission.ty func) emission.operation) := by
  cases emission <;> rfl

/-- The slot that the appended instruction reads or writes. -/
def slot? : Emission → Option SlotId
  | load slot | store slot _ => some slot
  | _ => none

theorem isLeaf_operation (emission : Emission) : emission.operation.isLeaf = false := by
  cases emission <;> rfl

theorem isTerminator_operation (emission : Emission) :
    emission.operation.isTerminator = false := by
  cases emission <;> rfl

end Emission

/-- How a block is ended. -/
inductive Ending where
  | branch (target : BlockId)
  | branchIf (condition : ValueId) (ifTrue ifFalse : BlockId)
  | ret (result : Option ValueId)

namespace Ending

/-- The terminator of an ending. -/
def operation : Ending → Operation
  | branch target => .branch target
  | branchIf condition ifTrue ifFalse => .branchIf condition ifTrue ifFalse
  | ret result => .ret result

/-- The building step that ends a block. -/
def build (block : BlockId) : Ending → Builder ValueId
  | branch target => Builder.branch block target
  | branchIf condition ifTrue ifFalse => Builder.branchIf block condition ifTrue ifFalse
  | ret result => Builder.ret block result

theorem run_build (block : BlockId) (ending : Ending) (func : Function) :
    (ending.build block).run func =
      (func.values.size, func.withTerminator block ending.operation) := by
  cases ending <;> rfl

/-- The blocks to which an ending leads. -/
def targets : Ending → List BlockId
  | branch target => [target]
  | branchIf _ ifTrue ifFalse => [ifTrue, ifFalse]
  | ret _ => []

theorem isTerminator_operation (ending : Ending) : ending.operation.isTerminator = true := by
  cases ending <;> rfl

end Ending

/-- A call that extends a function or names one of its values. -/
inductive Call where
  | constant (ty : Ty) (number : UInt64)
  | boolean (truth : Bool)
  | allocate (ty : Ty) (base : String)
  | rename (id : ValueId) (name : String)
  | emit (block : BlockId) (emission : Emission)
  | terminate (block : BlockId) (ending : Ending)

namespace Call

/-- The building step of a call, with the value that it answers, if it does. -/
def build : Call → Builder (Option ValueId)
  | constant ty number => some <$> Builder.constant ty number
  | boolean truth => some <$> Builder.boolean truth
  | allocate ty base => do
    discard <| Builder.allocate ty base
    return none
  | rename id name => do
    Builder.rename id name
    return none
  | emit block emission => some <$> emission.build block
  | terminate block ending => some <$> ending.build block

/-- The function after a call. -/
def after (func : Function) (call : Call) : Function :=
  (call.build.run func).2

/-- The type and number of the constant that a call asks for. -/
def constant? : Call → Option (Ty × UInt64)
  | constant ty number => some (ty, number)
  | boolean truth => some (.bool, truth.toUInt64)
  | _ => none

/-- The values, blocks and slots that a call names exist. -/
def Allowed (func : Function) : Call → Prop
  | constant .. | boolean _ | allocate .. => True
  | rename id _ => id < func.values.size
  | emit block emission =>
    block < func.blocks.size ∧
      (∀ operand ∈ emission.operation.operands, operand < func.values.size) ∧
      ∀ slot ∈ emission.slot?, slot < func.slots.size
  | terminate block ending =>
    block < func.blocks.size ∧
      (∀ operand ∈ ending.operation.operands, operand < func.values.size) ∧
      ∀ target ∈ ending.targets, target < func.blocks.size

instance (func : Function) : DecidablePred (Allowed func)
  | constant .. | boolean _ | allocate .. => isTrue trivial
  | rename .. => inferInstanceAs (Decidable (_ < _))
  | emit .. | terminate .. => inferInstanceAs (Decidable (_ ∧ _ ∧ _))

/-- Every call of a list is allowed when its turn comes. -/
def AllowedAll : Function → List Call → Prop
  | _, [] => True
  | func, call :: calls => call.Allowed func ∧ AllowedAll (call.after func) calls

instance decidableAllowedAll : (func : Function) → (calls : List Call) →
    Decidable (AllowedAll func calls)
  | _, [] => isTrue trivial
  | func, call :: calls =>
    have := decidableAllowedAll (call.after func) calls
    inferInstanceAs (Decidable (_ ∧ _))

variable (func : Function)

@[simp]
theorem after_boolean (truth : Bool) :
    (boolean truth).after func = (constant .bool truth.toUInt64).after func :=
  rfl

@[simp]
theorem after_allocate (ty : Ty) (base : String) :
    (allocate ty base).after func = func.withSlot ty base :=
  rfl

@[simp]
theorem after_rename (id : ValueId) (name : String) :
    (rename id name).after func = func.withName id name :=
  rfl

@[simp]
theorem after_emit (block : BlockId) (emission : Emission) :
    (emit block emission).after func =
      func.withInstruction block (emission.ty func) emission.operation := by
  cases emission <;> rfl

@[simp]
theorem after_terminate (block : BlockId) (ending : Ending) :
    (terminate block ending).after func = func.withTerminator block ending.operation := by
  cases ending <;> rfl

end Call

end RegisterFlow
