import RegisterFlow.Proofs.Code.Aside
import RegisterFlow.Proofs.Code.Labels
import RegisterFlow.Proofs.Code.ResultTypes
import RegisterFlow.Proofs.Execution.Demand

/-!
# What building keeps

A function is built from what it holds: a call names only values and slots that exist, and a rule
computes only from values that it found. So a property of functions holds of all functions that are
built if every step of building keeps it that reads values and loads a slot that there are.
-/

namespace RegisterFlow

namespace Function

/-- A function holds the values that an operation reads, and the slot that it loads. -/
structure Provides (func : Function) (operation : Operation) : Prop where
  operand_lt : ∀ operand ∈ operation.operands, operand < func.values.size
  load_lt : ∀ slot, operation = .load slot → slot < func.slots.size

/--
A property that the steps of building keep if the function provides what they name. The values of a
function with the property read only values that it holds.
-/
structure KeptByBuilding (kept : Function → Prop) : Prop where
  operand_lt : ∀ {func : Function}, kept func →
    ∀ id, ∀ operand ∈ (func.operation id).operands, operand < func.values.size
  empty : ∀ (name : String) (argumentTypes : List Ty) (blockNames : List String),
    kept (.empty name argumentTypes blockNames)
  constant : ∀ {func : Function} (ty : Ty) (payload : UInt64), kept func →
    kept (func.withLeaf ty (.constant payload) none)
  instruction : ∀ {func : Function} {operation : Operation} (block : BlockId) (ty : Ty), kept func →
    func.Provides operation → kept (func.withInstruction block ty operation)
  terminator : ∀ {func : Function} {operation : Operation} (block : BlockId), kept func →
    func.Provides operation → kept (func.withTerminator block operation)
  name : ∀ {func : Function} (id : ValueId) (name : String), kept func →
    kept (func.withName id name)
  slot : ∀ {func : Function} (ty : Ty) (base : String), kept func → kept (func.withSlot ty base)

variable {before after func : Function} {operation : Operation} {kept : Function → Prop}

theorem provides_of_operands (loads : ∀ slot, operation ≠ .load slot)
    (held : ∀ operand ∈ operation.operands, operand < func.values.size) :
    func.Provides operation where
  operand_lt := held
  load_lt slot same := absurd same (loads slot)

theorem provides_load {slot : SlotId} (opened : slot < func.slots.size) :
    func.Provides (.load slot) where
  operand_lt _ mem := absurd mem List.not_mem_nil
  load_lt
    | _, rfl => opened

/-! ### Functions that mention only what they hold -/

/-- A function with one more value is one if it provided for that value. -/
theorem SelfContained.add {added : Value} (contained : before.SelfContained)
    (value_eq : ∀ id, after.value id = if id = before.values.size then added else before.value id)
    (size_eq : after.values.size = before.values.size + 1)
    (slotCount_le : before.slots.size ≤ after.slots.size)
    (body : ∀ block, ∀ id ∈ after.body block, id ∈ before.body block ∨ id = before.values.size)
    (ends : ∀ block id, (after.block block).terminator = some id →
      (before.block block).terminator = some id ∨ id = before.values.size)
    (provides : before.Provides added.operation) : after.SelfContained where
  body_lt block id mem := by
    rcases body block id mem with old | rfl
    · exact size_eq ▸ Nat.lt_succ_of_lt (contained.body_lt block id old)
    · exact size_eq ▸ Nat.lt_succ_self _
  terminator_lt block id ends_with := by
    rcases ends block id ends_with with old | rfl
    · exact size_eq ▸ Nat.lt_succ_of_lt (contained.terminator_lt block id old)
    · exact size_eq ▸ Nat.lt_succ_self _
  operand_lt id operand mem := by
    rw [size_eq]
    apply Nat.lt_succ_of_lt
    rw [operation, value_eq] at mem
    split at mem
    · exact provides.operand_lt operand mem
    · exact contained.operand_lt id operand mem
  load_lt id slot loads := by
    apply Nat.lt_of_lt_of_le _ slotCount_le
    rw [operation, value_eq] at loads
    split at loads
    · exact provides.load_lt slot loads
    · exact contained.load_lt id slot loads

theorem SelfContained.withName (contained : func.SelfContained) (id : ValueId) (name : String) :
    (func.withName id name).SelfContained where
  body_lt block other mem := by
    rw [size_withName]
    exact contained.body_lt block other mem
  terminator_lt block other ends := by
    rw [size_withName]
    exact contained.terminator_lt block other ends
  operand_lt other operand mem := by
    rw [operation_withName] at mem
    rw [size_withName]
    exact contained.operand_lt other operand mem
  load_lt other slot loads := by
    rw [operation_withName] at loads
    exact contained.load_lt other slot loads

theorem selfContained_empty (name : String) (argumentTypes : List Ty) (blockNames : List String) :
    (empty name argumentTypes blockNames).SelfContained where
  body_lt := (numbered_empty ..).lt_size
  terminator_lt block id ends := ((sound_empty ..).ended block id ends).1
  operand_lt id operand mem := by
    rw [operands_empty] at mem
    cases mem
  load_lt id slot loads := by
    rw [operation, value_empty] at loads
    cases found : argumentTypes[id]? with
    | none =>
        rw [found] at loads
        cases loads
    | some ty =>
        rw [found] at loads
        cases loads

theorem keptByBuilding_selfContained : KeptByBuilding SelfContained where
  operand_lt contained := contained.operand_lt
  empty := selfContained_empty
  constant ty payload contained := by
    apply contained.add (value_withLeaf _ _ _ _) (size_withLeaf ..) (Nat.le_refl _)
    · exact fun _ _ mem => .inl mem
    · exact fun _ _ ends => .inl ends
    · exact provides_of_operands (by simp) (by simp [Operation.operands])
  instruction block ty contained provides := by
    apply contained.add (value_withInstruction _ _ _ _) (size_withInstruction ..) (Nat.le_refl _)
    · intro other id mem
      rw [body_withInstruction] at mem
      split at mem
      · next holds =>
        rw [holds.1]
        simpa using mem
      · exact .inl mem
    · intro other id ends
      rw [terminator_withInstruction] at ends
      exact .inl ends
    · exact provides
  terminator block contained provides := by
    apply contained.add (value_withTerminator _ _ _) (size_withTerminator ..) (Nat.le_refl _)
    · intro other id mem
      rw [body_withTerminator] at mem
      exact .inl mem
    · intro other id ends
      rw [block_withTerminator] at ends
      split at ends
      · exact .inr (Option.some.inj ends).symm
      · exact .inl ends
    · exact provides
  name id name contained := contained.withName id name
  slot ty base contained := by
    apply contained.add (value_withSlot _ _ _) (size_withSlot ..)
    · rw [slotCount_withSlot]
      exact Nat.le_succ _
    · exact fun _ _ mem => .inl mem
    · exact fun _ _ ends => .inl ends
    · exact provides_of_operands (by simp) (by simp [Operation.operands])

/-- Functions stay in order as well: what they provide came before. -/
theorem keptByBuilding_orderly : KeptByBuilding Orderly where
  operand_lt {func} orderly id operand mem := by
    have held : id < func.values.size := by
      apply lt_size_of_operation
      intro returns
      simp [returns, Operation.operands] at mem
    exact Nat.lt_trans (orderly.grounded id operand mem) held
  empty := orderly_empty
  constant _ _ orderly := orderly.withConstant
  instruction _ _ orderly provides := orderly.withInstruction provides.operand_lt
  terminator _ orderly provides := orderly.withTerminator provides.operand_lt
  name id name orderly := orderly.withName id name
  slot _ base orderly := orderly.withSlot base

end Function

/-! ### Calls -/

namespace Call

variable {func : Function} {call : Call} {kept : Function → Prop}

theorem provides_of_emit {block : BlockId} {emission : Emission}
    (allowed : (emit block emission).Allowed func) : func.Provides emission.operation where
  operand_lt := allowed.2.1
  load_lt slot loads := by
    apply allowed.2.2 slot
    cases emission <;> simp_all [Emission.operation, Emission.slot?]

theorem provides_of_terminate {block : BlockId} {ending : Ending}
    (allowed : (terminate block ending).Allowed func) : func.Provides ending.operation := by
  refine Function.provides_of_operands (fun _ => ?_) allowed.2.1
  cases ending <;> simp [Ending.operation]

theorem kept_after_constant (building : Function.KeptByBuilding kept) (holds : kept func) (ty : Ty)
    (number : UInt64) : kept ((constant ty number).after func) := by
  rw [after_constant, Builder.run_constant_eq]
  split
  · exact holds
  · exact building.constant _ _ holds

/-- What building keeps, an allowed call keeps. -/
theorem kept_after (building : Function.KeptByBuilding kept) (holds : kept func)
    (allowed : call.Allowed func) : kept (call.after func) := by
  cases call with
  | constant ty number => exact kept_after_constant building holds ty number
  | boolean truth => exact kept_after_constant building holds .bool truth.toUInt64
  | allocate ty base => exact building.slot ty base holds
  | rename id name => exact building.name id name holds
  | emit block emission =>
      rw [after_emit]
      exact building.instruction _ _ holds (provides_of_emit allowed)
  | terminate block ending =>
      rw [after_terminate]
      exact building.terminator _ holds (provides_of_terminate allowed)

end Call

namespace Function.Built

variable {func : Function} {kept : Function → Prop}

/-- What building keeps holds of all functions that are built by calls. -/
theorem holds (building : Function.KeptByBuilding kept) (built : func.Built) : kept func := by
  rcases built with ⟨name, argumentTypes, blockNames, calls, allowed, rfl⟩
  exact Call.kept_afterAll (fun _ _ holds allowed => Call.kept_after building holds allowed)
    (building.empty name argumentTypes blockNames) allowed

/-- A function that is built by calls mentions only values and slots that it holds. -/
theorem selfContained (built : func.Built) : func.SelfContained :=
  built.holds keptByBuilding_selfContained

end Function.Built

end RegisterFlow
