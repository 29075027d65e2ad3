import Mathlib.Data.List.Nodup
import Mathlib.Data.Nat.ModEq
import RegisterFlow.Proofs.Code.Bodies
import RegisterFlow.Proofs.Code.Calls

/-!
# The structure of functions

What holds of every function that is built by calls: operands come before the values that read them,
each instruction stands once in the block that it belongs to, blocks end with terminators only, and
a constant of a type is held once. Two calls therefore ask for the same constant if and only if they
get the same value.
-/

namespace RegisterFlow

/-- No constant of a type with a payload is held if and only if none is found. -/
theorem Builder.heldConstant?_eq_none_iff {ty : Ty} {payload : UInt64} {func : Function} :
    heldConstant? ty payload func = none ↔
      ∀ id, func.ty id = ty → func.operation id ≠ .constant payload := by
  simp only [heldConstant?, Array.findIdx?_eq_none_iff, decide_eq_false_iff_not, not_and]
  constructor
  · intro absent id typed computed
    have held : id < func.values.size := by
      apply Function.lt_size_of_operation
      rw [computed]
      simp
    have value_eq : func.value id = func.values[id] := by simp [Function.value, held]
    apply absent _ (Array.getElem_mem held)
    · rw [← value_eq]
      exact typed
    · rw [← value_eq]
      exact computed
  · intro absent value mem typed computed
    rcases Array.mem_iff_getElem.mp mem with ⟨id, held, rfl⟩
    have value_eq : func.value id = func.values[id] := by simp [Function.value, held]
    apply absent id
    · rw [Function.ty, value_eq, typed]
    · rw [Function.operation, value_eq, computed]

/-- The payload of a constant is in the range of its type. -/
theorem Builder.payloadOf_lt (width : Nat) (number : UInt64) :
    (payloadOf (.int width) number).toNat < 2 ^ width := by
  have wider : 2 ^ min width 64 ≤ 2 ^ width :=
    Nat.pow_le_pow_right (by omega) (Nat.min_le_left ..)
  exact Nat.lt_of_lt_of_le (Word.truncate_lt width number) wider

namespace Function

/-- Values read smaller numbers, and constants are held once, in the range of their type. -/
structure ValuesSound (func : Function) : Prop where
  grounded : ∀ id, ∀ operand ∈ (func.operation id).operands, operand < id
  shared : ∀ first second payload, func.operation first = .constant payload →
    func.operation second = .constant payload → func.ty first = func.ty second → first = second
  fitting : ∀ id width payload, func.ty id = .int width → func.operation id = .constant payload →
    payload.toNat < 2 ^ width

/-- A function holds each constant of a type once, in the range of the type. -/
structure Interned (func : Function) : Prop where
  shared : ∀ first second payload, func.operation first = .constant payload →
    func.operation second = .constant payload → func.ty first = func.ty second → first = second
  fitting : ∀ id width payload, func.ty id = .int width → func.operation id = .constant payload →
    payload.toNat < 2 ^ width

/-- A value may be added: it is no constant, or one in the range of its type that is not held. -/
def Admits (func : Function) (added : Value) : Prop :=
  ∀ payload, added.operation = .constant payload →
    (∀ id, func.ty id = added.ty → func.operation id ≠ .constant payload) ∧
      ∀ width, added.ty = .int width → payload.toNat < 2 ^ width

/-- Blocks list exactly the instructions that belong to them, and end with terminators. -/
structure BlocksSound (func : Function) : Prop extends func.Numbered where
  listed : ∀ id < func.values.size, (func.operation id).isLeaf = false →
    (func.operation id).isTerminator = false →
    ∃ block, (func.value id).block = some block ∧ id ∈ func.body block
  inner : ∀ block, ∀ id ∈ func.body block, (func.operation id).isTerminator = false
  ended : ∀ block id, (func.block block).terminator = some id →
    id < func.values.size ∧ (func.operation id).isTerminator = true

/-- A function whose values and blocks are sound. -/
structure Sound (func : Function) : Prop extends func.ValuesSound, func.BlocksSound

section Values

variable {before after : Function} {added : Value}

theorem admits_of_ne (other : ∀ payload, added.operation ≠ .constant payload) :
    before.Admits added :=
  fun payload same => absurd same (other payload)

/-- The constant for a number may be added if it is not held. -/
theorem admits_constant {ty : Ty} {number : UInt64}
    (unheld : Builder.heldConstant? ty (Builder.payloadOf ty number) before = none) :
    before.Admits { ty, operation := .constant (Builder.payloadOf ty number) } := by
  intro payload same
  obtain rfl := Operation.constant.inj same
  refine ⟨Builder.heldConstant?_eq_none_iff.mp unheld, fun width typed => ?_⟩
  obtain rfl : ty = .int width := typed
  exact Builder.payloadOf_lt width number

theorem Interned.add (interned : before.Interned)
    (value_eq : ∀ id, after.value id = if id = before.values.size then added else before.value id)
    (admits : before.Admits added) : after.Interned := by
  have new_value : after.value before.values.size = added := by
    rw [value_eq, if_pos rfl]
  have old_value : ∀ {id}, id ≠ before.values.size → after.value id = before.value id := by
    intro id old
    rw [value_eq, if_neg old]
  constructor
  · intro first second payload first_operation second_operation same
    simp only [Function.operation, Function.ty] at first_operation second_operation same
    by_cases first_new : first = before.values.size
    · by_cases second_new : second = before.values.size
      · rw [first_new, second_new]
      · subst first_new
        rw [new_value] at first_operation same
        rw [old_value second_new] at second_operation same
        exact absurd second_operation ((admits payload first_operation).1 second same.symm)
    · rw [old_value first_new] at first_operation same
      by_cases second_new : second = before.values.size
      · subst second_new
        rw [new_value] at second_operation same
        exact absurd first_operation ((admits payload second_operation).1 first same)
      · rw [old_value second_new] at second_operation same
        exact interned.shared first second payload first_operation second_operation same
  · intro id width payload typed computed
    simp only [Function.operation, Function.ty] at typed computed
    by_cases new : id = before.values.size
    · subst new
      rw [new_value] at typed computed
      exact (admits payload computed).2 width typed
    · rw [old_value new] at typed computed
      exact interned.fitting id width payload typed computed

theorem ValuesSound.interned {func : Function} (sound : func.ValuesSound) : func.Interned where
  shared := sound.shared
  fitting := sound.fitting

/-- A further value keeps the values sound, if it reads held ones and may be added. -/
theorem ValuesSound.add (sound : before.ValuesSound)
    (value_eq : ∀ id, after.value id = if id = before.values.size then added else before.value id)
    (held : ∀ operand ∈ added.operation.operands, operand < before.values.size)
    (admits : before.Admits added) : after.ValuesSound where
  grounded := by
    intro id operand read
    rw [Function.operation, value_eq] at read
    split at read
    · next new => exact new ▸ held operand read
    · exact sound.grounded id operand read
  shared := (sound.interned.add value_eq admits).shared
  fitting := (sound.interned.add value_eq admits).fitting

end Values

namespace Sound

variable {func : Function} {block : BlockId} {ty : Ty} {operation : Operation}

theorem withLeaf {name : Option String} (sound : func.Sound)
    (leaf : operation.isLeaf = true)
    (values : (func.withLeaf ty operation name).ValuesSound) :
    (func.withLeaf ty operation name).Sound where
  toValuesSound := values
  toNumbered := sound.toNumbered.withLeaf name
  listed id held := by
    rw [size_withLeaf] at held
    simp only [Function.operation, value_withLeaf]
    split
    · simp [leaf]
    · next old => exact sound.listed id (Nat.lt_of_le_of_ne (Nat.le_of_lt_succ held) old)
  inner block id mem := by
    have old := Nat.ne_of_lt (sound.lt_size block id mem)
    simpa [Function.operation, old] using sound.inner block id mem
  ended block id ends := by
    have held := sound.ended block id ends
    refine ⟨?_, by simpa [Function.operation, Nat.ne_of_lt held.1] using held.2⟩
    rw [size_withLeaf]
    exact Nat.lt_succ_of_lt held.1

/-- The constant for a number can be added if it is not held. -/
theorem withConstant (sound : func.Sound) (number : UInt64)
    (unheld : Builder.heldConstant? ty (Builder.payloadOf ty number) func = none) :
    (func.withLeaf ty (.constant (Builder.payloadOf ty number)) none).Sound := by
  apply sound.withLeaf rfl
  apply sound.toValuesSound.add (value_withLeaf _ _ _ _)
  · simp [Operation.operands]
  · exact admits_constant unheld

theorem withSlot (sound : func.Sound) (base : String) : (func.withSlot ty base).Sound := by
  have leaf : (func.withLeaf .ptr (.slotAddress func.slots.size)
      (some (Frame.freshName (func.slots.toList.map Slot.name) base))).Sound := by
    apply sound.withLeaf rfl
    apply sound.toValuesSound.add (value_withLeaf _ _ _ _)
    · simp [Operation.operands]
    · exact admits_of_ne (by simp)
  exact { leaf with }

theorem withName (sound : func.Sound) (id : ValueId) (name : String) :
    (func.withName id name).Sound where
  grounded other := by simpa using sound.grounded other
  shared first second := by simpa using sound.shared first second
  fitting other := by simpa using sound.fitting other
  toNumbered := sound.toNumbered.withName id name
  listed other := by simpa using sound.listed other
  inner block other := by simpa using sound.inner block other
  ended block other := by simpa using sound.ended block other

theorem withInstruction (sound : func.Sound) (bound : block < func.blocks.size)
    (held : ∀ operand ∈ operation.operands, operand < func.values.size)
    (leaf : operation.isLeaf = false) (inner : operation.isTerminator = false) :
    (func.withInstruction block ty operation).Sound where
  toValuesSound := by
    refine sound.toValuesSound.add (value_withInstruction _ _ _ _) held (admits_of_ne ?_)
    intro payload same
    rw [show operation = .constant payload from same] at leaf
    cases leaf
  toNumbered := sound.toNumbered.withInstruction
  listed id held := by
    rw [size_withInstruction] at held
    rw [operation_withInstruction, value_withInstruction]
    split
    · next new =>
      intro _ _
      exact ⟨block, rfl, by simp [bound, new]⟩
    · next old =>
      intro instruction unended
      rcases sound.listed id (Nat.lt_of_le_of_ne (Nat.le_of_lt_succ held) old) instruction unended
        with ⟨owner, belongs, mem⟩
      have grown := extends_withInstruction func block ty operation
      exact ⟨owner, belongs, (grown.body_prefix owner).subset mem⟩
  inner other id mem := by
    rw [operation_withInstruction]
    split
    · exact inner
    · next old =>
      rw [body_withInstruction] at mem
      split at mem
      · simp only [List.mem_append, List.mem_singleton, old, or_false] at mem
        exact sound.inner block id mem
      · exact sound.inner other id mem
  ended other id ends := by
    rw [terminator_withInstruction] at ends
    have held := sound.ended other id ends
    refine ⟨?_, by simpa [Nat.ne_of_lt held.1] using held.2⟩
    rw [size_withInstruction]
    exact Nat.lt_succ_of_lt held.1

theorem withTerminator (sound : func.Sound)
    (held : ∀ operand ∈ operation.operands, operand < func.values.size)
    (ends : operation.isTerminator = true) :
    (func.withTerminator block operation).Sound where
  toValuesSound := by
    refine sound.toValuesSound.add (value_withTerminator _ _ _) held (admits_of_ne ?_)
    intro payload same
    rw [show operation = .constant payload from same] at ends
    cases ends
  toNumbered := sound.toNumbered.withTerminator
  listed id held := by
    rw [size_withTerminator] at held
    simp only [Function.operation, value_withTerminator, body_withTerminator]
    split
    · simp [ends]
    · next old => exact sound.listed id (Nat.lt_of_le_of_ne (Nat.le_of_lt_succ held) old)
  inner other id mem := by
    rw [body_withTerminator] at mem
    have old := Nat.ne_of_lt (sound.lt_size other id mem)
    simpa [Function.operation, old] using sound.inner other id mem
  ended other id ended := by
    rw [block_withTerminator] at ended
    split at ended
    · cases ended
      simpa [Function.operation] using ends
    · have held := sound.ended other id ended
      refine ⟨?_, by simpa [Function.operation, Nat.ne_of_lt held.1] using held.2⟩
      rw [size_withTerminator]
      exact Nat.lt_succ_of_lt held.1

end Sound

/-- A function without code is sound. -/
theorem sound_empty (name : String) (argumentTypes : List Ty) (blockNames : List String) :
    (empty name argumentTypes blockNames).Sound := by
  have arguments : ∀ id < (empty name argumentTypes blockNames).values.size,
      (empty name argumentTypes blockNames).operation id = .argument id := by
    intro id held
    simp only [operation, value, Array.getElem?_eq_getElem held, Option.getD_some]
    simp [empty]
  have not_constant : ∀ id payload,
      (empty name argumentTypes blockNames).operation id ≠ .constant payload := by
    intro id payload computed
    have held := lt_size_of_operation (by rw [computed]; simp)
    rw [arguments id held] at computed
    cases computed
  have unended : ∀ block,
      ((empty name argumentTypes blockNames).block block).terminator = none := by
    intro block
    simp only [Function.block, empty, List.getElem?_toArray, List.getElem?_map]
    cases blockNames[block]? <;> rfl
  constructor
  · constructor
    · intro id operand read
      by_cases held : id < (empty name argumentTypes blockNames).values.size
      · rw [arguments id held] at read
        cases read
      · rw [operation, value_of_size_le (Nat.le_of_not_lt held)] at read
        cases read
    · exact fun first _ payload computed => absurd computed (not_constant first payload)
    · exact fun id _ payload _ computed => absurd computed (not_constant id payload)
  · constructor
    · exact numbered_empty ..
    · intro id held instruction
      rw [arguments id held] at instruction
      cases instruction
    · intro block id mem
      rw [body_empty] at mem
      cases mem
    · intro block id ended
      rw [unended] at ended
      cases ended

end Function

/-! ### Sequences of calls -/

namespace Call

variable {func : Function} {call : Call} {ty : Ty} {number : UInt64}

theorem after_constant (ty : Ty) (number : UInt64) :
    (constant ty number).after func = ((Builder.constant ty number).run func).2 :=
  rfl

theorem extends_after_constant (ty : Ty) (number : UInt64) :
    func.Extends ((constant ty number).after func) := by
  rw [after_constant]
  rcases Builder.run_constant ty number func with ⟨id, _, run, _⟩ | run
  · rw [run]
    exact .refl func
  · rw [run]
    exact Function.extends_withLeaf ..

theorem extends_after : func.Extends (call.after func) := by
  cases call with
  | constant ty number => exact extends_after_constant ty number
  | boolean truth => exact extends_after_constant .bool truth.toUInt64
  | allocate => exact Function.extends_withSlot ..
  | rename => exact Function.extends_withName ..
  | emit block emission =>
      rw [after_emit]
      exact Function.extends_withInstruction ..
  | terminate block ending =>
      rw [after_terminate]
      exact Function.extends_withTerminator ..

/-- A constant keeps a function sound, whether it is held or added. -/
theorem sound_after_constant (sound : func.Sound) (ty : Ty) (number : UInt64) :
    ((constant ty number).after func).Sound := by
  rw [after_constant, Builder.run_constant_eq]
  split
  · exact sound
  · next unheld => exact sound.withConstant number unheld

/-- Every allowed call keeps a function sound. -/
theorem sound_after (sound : func.Sound) (allowed : call.Allowed func) :
    (call.after func).Sound := by
  cases call with
  | constant ty number => exact sound_after_constant sound ty number
  | boolean truth => exact sound_after_constant sound .bool truth.toUInt64
  | allocate ty base => exact sound.withSlot base
  | rename id name => exact sound.withName id name
  | emit block emission =>
      rcases allowed with ⟨bound, held, _⟩
      rw [after_emit]
      exact sound.withInstruction bound held emission.isLeaf_operation
        emission.isTerminator_operation
  | terminate block ending =>
      rcases allowed with ⟨_, held, _⟩
      rw [after_terminate]
      exact sound.withTerminator held ending.isTerminator_operation

/-- A value is the constant that stands for a number of a type. -/
def Holds (func : Function) (ty : Ty) (number : UInt64) (id : ValueId) : Prop :=
  func.ty id = ty ∧ func.operation id = .constant (Builder.payloadOf ty number)

theorem Holds.mono {before after : Function} {id : ValueId} (holds : Holds before ty number id)
    (grown : before.Extends after) : Holds after ty number id := by
  have held : id < before.values.size := by
    apply Function.lt_size_of_operation
    rw [holds.2]
    simp
  exact ⟨(grown.ty_eq id held).trans holds.1, (grown.operation_eq id held).trans holds.2⟩

/-- Whoever asks for a constant gets the value that is this constant. -/
theorem exists_holds (asks : call.constant? = some (ty, number)) :
    ∃ id, (call.build.run func).1 = some id ∧ Holds (call.after func) ty number id := by
  have constant_holds : Holds ((Builder.constant ty number).run func).2 ty number
      ((Builder.constant ty number).run func).1 := by
    rcases Builder.run_constant ty number func with ⟨id, _, run, typed, computed⟩ | run
    · rw [run]
      exact ⟨typed, computed⟩
    · rw [run]
      simp [Holds, Function.ty, Function.operation]
  cases call with
  | constant => cases asks; exact ⟨_, rfl, constant_holds⟩
  | boolean => cases asks; exact ⟨_, rfl, constant_holds⟩
  | _ => cases asks

/-- The type and number of the constant that the call at a position of a list asks for. -/
def constantAt? (calls : List Call) (position : Nat) : Option (Ty × UInt64) :=
  calls[position]?.bind constant?

/-- The function after a list of calls is sound, and each constant asked for is held there. -/
theorem sound_afterAll {calls : List Call} (sound : func.Sound)
    (allowed : AllowedAll func calls) :
    ∃ answers last, (calls.mapM build).run func = (answers, last) ∧ func.Extends last ∧
      last.Sound ∧
      ∀ position ty number, constantAt? calls position = some (ty, number) →
        ∃ id, answers[position]? = some (some id) ∧ Holds last ty number id := by
  induction calls generalizing func with
  | nil => exact ⟨[], func, rfl, .refl func, sound, by simp [constantAt?]⟩
  | cons call calls ih =>
      rcases ih (sound_after sound allowed.1) allowed.2 with ⟨answers, last, run, grown, held, all⟩
      refine ⟨(call.build.run func).1 :: answers, last, ?_, extends_after.trans grown, held, ?_⟩
      · rw [List.mapM_cons, StateT.run_bind]
        change (StateT.run (calls.mapM build >>= _) (call.after func)) = _
        rw [StateT.run_bind, run]
        rfl
      · intro position ty number asks
        cases position with
        | zero =>
            obtain ⟨id, answer, holds⟩ : ∃ id, (call.build.run func).1 = some id ∧
                Holds (call.after func) ty number id := exists_holds asks
            exact ⟨id, by simp [answer], holds.mono grown⟩
        | succ position => exact all position ty number asks

end Call

/-- Numbers have the same payload in a type if and only if they agree in the bits it keeps. -/
theorem Builder.payloadOf_eq_iff {ty : Ty} {first second : UInt64} :
    payloadOf ty first = payloadOf ty second ↔
      first.toNat ≡ second.toNat [MOD 2 ^ min (ty.intBits?.getD 64) 64] := by
  rw [payloadOf, payloadOf, ← UInt64.toNat_inj, Word.toNat_truncate, Word.toNat_truncate]
  rfl

/-- A value that is a constant for two numbers is so for one type and for numbers that agree. -/
theorem Function.Sound.holds_iff {func : Function} {ty otherTy : Ty} {number other : UInt64}
    {first second : ValueId} (sound : func.Sound) (first_holds : Call.Holds func ty number first)
    (second_holds : Call.Holds func otherTy other second) :
    first = second ↔
      ty = otherTy ∧ number.toNat ≡ other.toNat [MOD 2 ^ min (ty.intBits?.getD 64) 64] := by
  rcases first_holds with ⟨first_ty, first_operation⟩
  rcases second_holds with ⟨second_ty, second_operation⟩
  rw [← Builder.payloadOf_eq_iff]
  constructor
  · rintro rfl
    rw [first_ty] at second_ty
    subst second_ty
    rw [first_operation] at second_operation
    exact ⟨rfl, Operation.constant.inj second_operation⟩
  · rintro ⟨rfl, same⟩
    apply sound.shared first second _ first_operation (same ▸ second_operation)
    rw [first_ty, second_ty]

/--
Every function that is built by calls is structurally sound. Operands come before the values that
read them; each instruction stands exactly once in the block that it belongs to and in no other, in
increasing order; no block lists a terminator, and what ends a block is one. A constant of a type is
held once, in the range of the type, and two calls get the same constant if and only if they name
the same type and numbers that agree in the bits that the type keeps.
-/
theorem structure_of_calls (name : String) (argumentTypes : List Ty) (blockNames : List String)
    {calls : List Call}
    (allowed : Call.AllowedAll (.empty name argumentTypes blockNames) calls) :
    ∃ answers func,
      (calls.mapM Call.build).run (.empty name argumentTypes blockNames) = (answers, func) ∧
      (∀ id, ∀ operand ∈ (func.operation id).operands, operand < id) ∧
      (∀ id < func.values.size, (func.operation id).isLeaf = false →
        (func.operation id).isTerminator = false →
        ∃ block, (func.value id).block = some block ∧ (func.body block).count id = 1 ∧
          ∀ other, other ≠ block → id ∉ func.body other) ∧
      (∀ block, (func.body block).Pairwise (· < ·) ∧
        (∀ id ∈ func.body block,
          id < func.values.size ∧ (func.operation id).isTerminator = false) ∧
        ∀ id, (func.block block).terminator = some id →
          id < func.values.size ∧ (func.operation id).isTerminator = true) ∧
      (∀ first second payload, func.operation first = .constant payload →
        func.operation second = .constant payload → func.ty first = func.ty second →
        first = second) ∧
      (∀ id width payload, func.ty id = .int width → func.operation id = .constant payload →
        payload.toNat < 2 ^ width) ∧
      ∀ first second ty otherTy number other,
        Call.constantAt? calls first = some (ty, number) →
        Call.constantAt? calls second = some (otherTy, other) →
        (∃ id, answers[first]? = some (some id)) ∧
          (answers[first]? = answers[second]? ↔
            ty = otherTy ∧
              number.toNat ≡ other.toNat [MOD 2 ^ min (ty.intBits?.getD 64) 64]) := by
  rcases Call.sound_afterAll (Function.sound_empty ..) allowed with
    ⟨answers, func, run, -, sound, holds⟩
  refine ⟨answers, func, run, sound.grounded, ?_, ?_, sound.shared, sound.fitting, ?_⟩
  · intro id held instruction unended
    rcases sound.listed id held instruction unended with ⟨block, owner, mem⟩
    have distinct : (func.body block).Nodup := (sound.sorted block).imp Nat.ne_of_lt
    refine ⟨block, owner, List.count_eq_one_of_mem distinct mem, ?_⟩
    intro other different elsewhere
    have owner_other := sound.owner other id elsewhere
    rw [owner, Option.some.injEq] at owner_other
    exact different owner_other.symm
  · intro block
    exact ⟨sound.sorted block,
      fun id mem => ⟨sound.lt_size block id mem, sound.inner block id mem⟩, sound.ended block⟩
  · intro first second ty otherTy number other first_asks second_asks
    rcases holds first ty number first_asks with ⟨id, first_answer, first_holds⟩
    rcases holds second otherTy other second_asks with ⟨otherId, second_answer, second_holds⟩
    refine ⟨⟨id, first_answer⟩, ?_⟩
    rw [first_answer, second_answer, Option.some.injEq, Option.some.injEq]
    exact sound.holds_iff first_holds second_holds

/-- Calls that ask for constants of narrow, wide, empty and other types, and end a block twice. -/
def sampleCalls : List Call :=
  [.constant (.int 8) 300, .constant (.int 8) 44, .constant (.int 128) 300, .constant (.int 0) 7,
    .constant (.int 0) 9, .constant .f64 300, .boolean true, .constant .bool 3,
    .allocate (.int 8) "kept", .emit 0 (.binary .add 0 1), .emit 0 (.store 0 7),
    .terminate 0 (.branch 1), .emit 1 (.load 0), .rename 10 "sum", .terminate 0 (.ret (some 7)),
    .terminate 1 (.ret (some 10))]

theorem structure_of_sampleCalls :
    Call.AllowedAll (.empty "sample" [.int 8] ["entry", "exit"]) sampleCalls ∧
      ∃ answers func,
        (sampleCalls.mapM Call.build).run (.empty "sample" [.int 8] ["entry", "exit"]) =
          (answers, func) ∧
        answers[0]? = answers[1]? ∧ answers[3]? = answers[4]? ∧ answers[6]? = answers[7]? ∧
        answers[0]? ≠ answers[2]? ∧ answers[2]? ≠ answers[5]? ∧
        (func.body 0).count 7 = 1 ∧ 7 ∉ func.body 1 ∧
        (func.block 0).terminator = some 11 ∧ (func.operation 11).isTerminator = true := by
  have allowed : Call.AllowedAll (.empty "sample" [.int 8] ["entry", "exit"]) sampleCalls := by
    decide +kernel
  rcases structure_of_calls "sample" [.int 8] ["entry", "exit"] allowed with
    ⟨answers, func, run, -, listed, blocks, -, -, constants⟩
  refine ⟨allowed, answers, func, run, ?_⟩
  have func_eq : func =
      ((sampleCalls.mapM Call.build).run (.empty "sample" [.int 8] ["entry", "exit"])).2 := by
    rw [run]
  have narrow := (constants 0 1 (.int 8) (.int 8) 300 44 rfl rfl).2
  have empty := (constants 3 4 (.int 0) (.int 0) 7 9 rfl rfl).2
  have truth := (constants 6 7 .bool .bool 1 3 rfl rfl).2
  have wide := (constants 0 2 (.int 8) (.int 128) 300 300 rfl rfl).2
  have other := (constants 2 5 (.int 128) .f64 300 300 rfl rfl).2
  have ends : (func.block 0).terminator = some 11 := by
    rw [func_eq]
    decide +kernel
  rcases listed 7 (by rw [func_eq]; decide +kernel) (by rw [func_eq]; decide +kernel)
    (by rw [func_eq]; decide +kernel) with ⟨block, owner, once, elsewhere⟩
  have block_eq : block = 0 := by
    rw [func_eq] at owner
    have entry : (((sampleCalls.mapM Call.build).run
        (.empty "sample" [.int 8] ["entry", "exit"])).2.value 7).block = some 0 := by
      decide +kernel
    rw [entry, Option.some.injEq] at owner
    exact owner.symm
  subst block_eq
  exact ⟨narrow.mpr ⟨rfl, rfl⟩, empty.mpr ⟨rfl, rfl⟩, truth.mpr ⟨rfl, rfl⟩,
    fun same => by simpa using (wide.mp same).1, fun same => by simpa using (other.mp same).1, once,
    elsewhere 1 (by decide), ends, ((blocks 0).2.2 11 ends).2⟩

end RegisterFlow
