import RegisterFlow.Proofs.Code.Bodies

/-!
# Emitting instructions

What the building operations that compute something do to a function: it grows quietly at the end of
one block, and the result is a new instruction of the block, of a known type.
-/

namespace RegisterFlow

namespace Function

/-- A value is an instruction of a block, of a type. -/
structure Computes (block : BlockId) (ty : Ty) (value : ValueId) (func : Function) : Prop where
  ty_eq : func.ty value = ty
  owner_eq : (func.value value).block = some block

theorem Computes.mono {block : BlockId} {ty : Ty} {value : ValueId} {before after : Function}
    (computes : before.Computes block ty value) (proper : ty ≠ .void)
    (grown : before.Extends after) : after.Computes block ty value where
  ty_eq := grown.ty_of_ne proper computes.ty_eq
  owner_eq := by
    rw [grown.owner_eq value (lt_size_of_ty proper computes.ty_eq), computes.owner_eq]

end Function

namespace Builder

/-- A building step lets one block grow quietly, and its result is a good one. -/
def Emits (block : BlockId) (good : ValueId → Function → Prop) (builder : Builder ValueId)
    (func : Function) : Prop :=
  func.GrowsQuietly block (builder.run func).2 ∧ good (builder.run func).1 (builder.run func).2

variable {block : BlockId} {func : Function} {good best : ValueId → Function → Prop}

theorem Emits.bind {step : Builder ValueId} {next : ValueId → Builder ValueId}
    (first : Emits block good step func)
    (second : ∀ value middle, func.GrowsQuietly block middle → good value middle →
      Emits block best (next value) middle) :
    Emits block best (step >>= next) func := by
  have rest := second _ _ first.1 first.2
  exact ⟨first.1.trans rest.1, rest.2⟩

theorem emits_constant (ty : Ty) (number : UInt64) :
    Emits block (fun value func => func.ty value = ty) (constant ty number) func := by
  rcases run_constant ty number func with ⟨id, _, run, typed, _⟩ | run
  · rw [Emits, run]
    exact ⟨.refl _, typed⟩
  · rw [Emits, run]
    exact ⟨Function.growsQuietly_withLeaf .., by simp [Function.ty]⟩

theorem emits_boolean (truth : Bool) :
    Emits block
      (fun value func => func.ty value = .bool ∧ (func.operation value).isLeaf = true)
      (boolean truth) func := by
  rcases run_constant .bool truth.toUInt64 func with ⟨id, _, run, typed, operation⟩ | run
  · rw [Emits, boolean, run]
    exact ⟨.refl _, typed, by rw [operation]; rfl⟩
  · rw [Emits, boolean, run]
    exact ⟨Function.growsQuietly_withLeaf .., by simp [Function.ty],
      by simp [Function.operation, Operation.isLeaf]⟩

theorem emits_append (ty : Ty) (operation : Operation)
    (harmless : ∀ slot operand, operation ≠ .store slot operand) :
    Emits block (Function.Computes block ty) (append block ty operation) func := by
  rw [Emits, run_append_eq]
  refine ⟨Function.growsQuietly_withInstruction _ _ _ _ harmless, ?_, ?_⟩
  · simp [Function.ty]
  · simp

theorem emits_binary (op : BinaryOp) (lhs rhs : ValueId) :
    Emits block (Function.Computes block (func.ty lhs)) (binary block op lhs rhs) func :=
  emits_append _ _ fun _ _ => by simp

theorem emits_compare (comparison : Comparison) (lhs rhs : ValueId) :
    Emits block (Function.Computes block .bool) (compare block comparison lhs rhs) func :=
  emits_append _ _ fun _ _ => by simp

theorem emits_overflow (check : OverflowCheck) (lhs rhs : ValueId) :
    Emits block (Function.Computes block .bool) (overflow block check lhs rhs) func :=
  emits_append _ _ fun _ _ => by simp

theorem emits_select (condition ifTrue ifFalse : ValueId) :
    Emits block (Function.Computes block (func.ty ifTrue)) (select block condition ifTrue ifFalse)
      func :=
  emits_append _ _ fun _ _ => by simp

theorem emits_tyOf_bind {next : Ty → Builder ValueId} (value : ValueId)
    (rest : Emits block best (next (func.ty value)) func) :
    Emits block best (tyOf value >>= next) func :=
  rest

end Builder

end RegisterFlow
