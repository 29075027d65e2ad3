import RegisterFlow.Proofs.Code.Structure
import RegisterFlow.Proofs.Code.Typing

/-!
# Types of results

In a function that is built by calls, a value has the type that its operation gives it: comparisons
and overflow checks are truth values, what passes an operand on has its type, and a load has the
type of its slot.
-/

namespace RegisterFlow

namespace Function

/-- Whether an operation gives its result a type. -/
def Gives (func : Function) (ty : Ty) : Operation → Prop
  | .binary _ operand _ | .select _ operand _ | .funnel _ operand _ _ => func.HasTy operand ty
  | .compare .. | .overflow .. => ty = .bool
  | .slotAddress _ => ty = .ptr
  | .load slot => func.SlotHasTy slot ty
  | _ => True

/-- Every value has the type that its operation gives it. -/
def ResultsTyped (func : Function) : Prop :=
  ∀ id, func.Gives (func.ty id) (func.operation id)

variable {before after func : Function} {ty : Ty} {operation : Operation}

theorem Gives.mono (gives : before.Gives ty operation) (grown : before.Extends after) :
    after.Gives ty operation := by
  cases operation with
  | binary | select | funnel => exact HasTy.mono gives grown
  | load => exact SlotHasTy.mono gives grown
  | compare | overflow | slotAddress => exact gives
  | argument | constant | cast | store | branch | branchIf | ret => trivial

/-- Results are typed in a function that grew, if they were before and the new ones are. -/
theorem ResultsTyped.of_new (typed : before.ResultsTyped) (grown : before.Extends after)
    (new : ∀ id, before.values.size ≤ id → id < after.values.size →
      after.Gives (after.ty id) (after.operation id)) : after.ResultsTyped := by
  intro id
  by_cases old : id < before.values.size
  · rw [grown.ty_eq id old, grown.operation_eq id old]
    exact (typed id).mono grown
  · by_cases held : id < after.values.size
    · exact new id (Nat.le_of_not_lt old) held
    · rw [Function.operation, value_of_size_le (Nat.le_of_not_lt held)]
      trivial

theorem resultsTyped_empty (name : String) (argumentTypes : List Ty) (blockNames : List String) :
    (empty name argumentTypes blockNames).ResultsTyped := by
  intro id
  rw [operation, value]
  cases found : (empty name argumentTypes blockNames).values[id]? with
  | none => trivial
  | some value =>
      simp only [empty, List.getElem?_toArray, List.getElem?_mapIdx, Option.map_eq_some_iff] at found
      rcases found with ⟨ty, -, rfl⟩
      trivial

theorem ResultsTyped.withLeaf {name : Option String} (typed : func.ResultsTyped)
    (gives : (func.withLeaf ty operation name).Gives ty operation) :
    (func.withLeaf ty operation name).ResultsTyped := by
  apply typed.of_new (extends_withLeaf ..)
  intro id new held
  rw [size_withLeaf] at held
  obtain rfl := Nat.le_antisymm (Nat.le_of_lt_succ held) new
  simpa [Function.ty, Function.operation] using gives

/-- The type that an emission gives its instruction is the type of the instruction. -/
theorem gives_emission {emission : Emission}
    (held : ∀ operand ∈ emission.operation.operands, operand < func.values.size)
    (slots : ∀ slot ∈ emission.slot?, slot < func.slots.size) :
    func.Gives (emission.ty func) emission.operation := by
  cases emission with
  | binary op lhs rhs => exact ⟨held lhs (by simp [Emission.operation, Operation.operands]), rfl⟩
  | select condition ifTrue ifFalse =>
      exact ⟨held ifTrue (by simp [Emission.operation, Operation.operands]), rfl⟩
  | funnel direction high low amount =>
      exact ⟨held high (by simp [Emission.operation, Operation.operands]), rfl⟩
  | load slot => exact ⟨slots slot rfl, rfl⟩
  | compare | overflow => rfl
  | cast | store => trivial

end Function

namespace Call

variable {func : Function} {call : Call}

/-- What every allowed call keeps holds after all calls of a list. -/
theorem kept_afterAll {kept : Function → Prop}
    (keeps : ∀ func (call : Call), kept func → call.Allowed func → kept (call.after func))
    {calls : List Call} (holds : kept func) (allowed : AllowedAll func calls) :
    kept ((calls.mapM build).run func).2 := by
  induction calls generalizing func with
  | nil => exact holds
  | cons call calls ih =>
      rw [List.mapM_cons, StateT.run_bind]
      change kept (StateT.run (calls.mapM build >>= _) (call.after func)).2
      rw [StateT.run_bind]
      exact ih (keeps func call holds allowed.1) allowed.2

theorem resultsTyped_after_constant (typed : func.ResultsTyped) (ty : Ty) (number : UInt64) :
    ((constant ty number).after func).ResultsTyped := by
  rw [after_constant, Builder.run_constant_eq]
  split
  · exact typed
  · exact typed.withLeaf trivial

theorem resultsTyped_after (typed : func.ResultsTyped) (allowed : call.Allowed func) :
    (call.after func).ResultsTyped := by
  cases call with
  | constant ty number => exact resultsTyped_after_constant typed ty number
  | boolean truth => exact resultsTyped_after_constant typed .bool truth.toUInt64
  | allocate ty base =>
      apply typed.of_new extends_after
      intro id new held
      rw [after_allocate, Function.size_withSlot] at held
      obtain rfl := Nat.le_antisymm (Nat.le_of_lt_succ held) new
      simp [Function.ty, Function.operation, Function.Gives]
  | rename id name =>
      apply typed.of_new extends_after
      intro other new held
      rw [after_rename, Function.size_withName] at held
      exact absurd held (Nat.not_lt_of_le new)
  | emit block emission =>
      rcases allowed with ⟨-, held, slots⟩
      have grown : func.Extends ((emit block emission).after func) := extends_after
      have gives := (Function.gives_emission held slots).mono grown
      apply typed.of_new extends_after
      intro id new fits
      rw [after_emit, Function.size_withInstruction] at fits
      obtain rfl := Nat.le_antisymm (Nat.le_of_lt_succ fits) new
      simpa using gives
  | terminate block ending =>
      apply typed.of_new extends_after
      intro id new held
      rw [after_terminate, Function.size_withTerminator] at held
      obtain rfl := Nat.le_antisymm (Nat.le_of_lt_succ held) new
      cases ending <;> simp [Function.operation, Ending.operation, Function.Gives]

end Call

/-- A function is built by calls, each of which is allowed when its turn comes. -/
def Function.Built (func : Function) : Prop :=
  ∃ name argumentTypes blockNames calls,
    Call.AllowedAll (.empty name argumentTypes blockNames) calls ∧
      ((calls.mapM Call.build).run (.empty name argumentTypes blockNames)).2 = func

namespace Function.Built

variable {func : Function}

theorem sound (built : func.Built) : func.Sound := by
  rcases built with ⟨name, argumentTypes, blockNames, calls, allowed, rfl⟩
  exact Call.kept_afterAll (fun _ _ => Call.sound_after) (sound_empty ..) allowed

theorem resultsTyped (built : func.Built) : func.ResultsTyped := by
  rcases built with ⟨name, argumentTypes, blockNames, calls, allowed, rfl⟩
  exact Call.kept_afterAll (fun _ _ => Call.resultsTyped_after)
    (resultsTyped_empty name argumentTypes blockNames) allowed

end Function.Built

end RegisterFlow
