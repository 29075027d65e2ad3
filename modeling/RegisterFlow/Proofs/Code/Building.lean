import Mathlib.Algebra.Group.Nat.Defs
import Mathlib.Logic.Relation
import RegisterFlow.Proofs.Code.Bodies
import RegisterFlow.Proofs.Graph.Routes

/-!
# Well-built code

A function is well built if its instructions are typed as words and read only what has been computed
when they are executed. It stays so while it is extended by leaves, by slots, and by instructions
that read usable values.
-/

namespace RegisterFlow

open Relation (ReflTransGen)

/-- Integer types that a machine word can hold. -/
def Ty.IsWord (ty : Ty) : Prop :=
  ∃ width, ty.wordBits? = some width

/-- Whether a word is in the range of a type. -/
def Ty.Fits (ty : Ty) (word : UInt64) : Prop :=
  word.toNat < 2 ^ min ty.bits 64

/-- Operations that stand in a block in front of its terminator. -/
def Operation.isInner (operation : Operation) : Bool :=
  !operation.isLeaf && !operation.isTerminator

theorem Operation.operands_of_isLeaf {operation : Operation} (leaf : operation.isLeaf = true) :
    operation.operands = [] := by
  cases operation <;> simp_all [isLeaf, operands]

namespace Function

/--
A value that can be read in a block: a word that is a leaf, or was computed in the block itself or in
one that has been visited before.
-/
structure Usable (graph : FlowGraph) (func : Function) (block : BlockId) (value : ValueId) :
    Prop where
  word : (func.ty value).IsWord
  computed : (func.operation value).isLeaf = false →
    (func.operation value).hasResult = true ∧
      ∃ owner, (func.value value).block = some owner ∧ graph.Precedes owner block

/-- The typing rules of operations. -/
def Proper (func : Function) (ty : Ty) : Operation → Prop
  | .argument index => index < func.arguments.length
  | .constant payload => ty.Fits payload
  | .binary _ lhs _ => ty = func.ty lhs
  | .compare .. | .overflow .. => ty = .bool
  | .select _ ifTrue ifFalse => ty = func.ty ifTrue ∧ ty = func.ty ifFalse
  | .cast .. => ty.IsWord
  | .funnel _ high low _ => ty = func.ty high ∧ ty = func.ty low
  | .load slot => slot < func.slots.size ∧ ty = (func.slot slot).ty ∧ ty.IsWord
  | .store slot operand => slot < func.slots.size ∧ func.ty operand = (func.slot slot).ty
  | .slotAddress _ => ty = .ptr
  | .branch _ | .branchIf .. | .ret _ => True

/--
A value obeys the typing rules, stands in the block that it belongs to, and reads smaller numbers and
usable values.
-/
structure ValueBuilt (graph : FlowGraph) (func : Function) (id : ValueId) : Prop where
  proper : func.Proper (func.ty id) (func.operation id)
  grounded : ∀ operand ∈ (func.operation id).operands, operand < id
  placed : ∀ block, (func.value id).block = some block →
    (func.operation id).isTerminator = false → id ∈ func.body block
  inner : ∀ block, id ∈ func.body block → (func.operation id).isInner = true
  usable : ∀ block, id ∈ func.body block → ∀ operand ∈ (func.operation id).operands,
    func.Usable graph block operand

/-- Blocks list their own instructions, and all values are well built. -/
structure WellBuilt (graph : FlowGraph) (func : Function) : Prop where
  numbered : func.Numbered
  built : ∀ id < func.values.size, func.ValueBuilt graph id

variable {graph : FlowGraph} {before after func : Function} {block : BlockId} {value : ValueId}
  {ty : Ty} {operation : Operation}

theorem Usable.lt_size (usable : func.Usable graph block value) : value < func.values.size := by
  rcases usable.word with ⟨width, word⟩
  apply lt_size_of_ty _ rfl
  intro void
  rw [void] at word
  cases word

theorem Usable.mono (grown : Extends before after) (usable : before.Usable graph block value) :
    after.Usable graph block value where
  word := by
    rw [grown.ty_eq value usable.lt_size]
    exact usable.word
  computed := by
    rw [grown.operation_eq value usable.lt_size, grown.owner_eq value usable.lt_size]
    exact usable.computed

theorem Proper.mono (grown : Extends before after)
    (held : ∀ operand ∈ operation.operands, operand < before.values.size)
    (proper : before.Proper ty operation) : after.Proper ty operation := by
  cases operation with
  | argument index =>
      rw [Proper, grown.arguments_eq]
      exact proper
  | binary _ lhs rhs =>
      rw [Proper, grown.ty_eq lhs (held lhs (by simp [Operation.operands]))]
      exact proper
  | select condition ifTrue ifFalse =>
      rw [Proper, grown.ty_eq ifTrue (held ifTrue (by simp [Operation.operands])),
        grown.ty_eq ifFalse (held ifFalse (by simp [Operation.operands]))]
      exact proper
  | funnel _ high low amount =>
      rw [Proper, grown.ty_eq high (held high (by simp [Operation.operands])),
        grown.ty_eq low (held low (by simp [Operation.operands]))]
      exact proper
  | load slot =>
      rcases proper with ⟨slot_lt, typed, word⟩
      rw [Proper, grown.slotTy_eq slot slot_lt]
      exact ⟨Nat.lt_of_lt_of_le slot_lt grown.slotCount_le, typed, word⟩
  | store slot operand =>
      rcases proper with ⟨slot_lt, typed⟩
      rw [Proper, grown.slotTy_eq slot slot_lt,
        grown.ty_eq operand (held operand (by simp [Operation.operands]))]
      exact ⟨Nat.lt_of_lt_of_le slot_lt grown.slotCount_le, typed⟩
  | constant _ | compare | overflow | cast | slotAddress _ | branch _ | branchIf | ret _ =>
      exact proper

/-- A value stays well built while the function grows, if no block comes to list it. -/
theorem ValueBuilt.mono {id : ValueId} (grown : Extends before after) (old : id < before.values.size)
    (stays : ∀ block, id ∈ after.body block → id ∈ before.body block)
    (built : before.ValueBuilt graph id) : after.ValueBuilt graph id where
  proper := by
    rw [grown.ty_eq id old, grown.operation_eq id old]
    exact built.proper.mono grown fun operand read => Nat.lt_trans (built.grounded operand read) old
  grounded := by
    rw [grown.operation_eq id old]
    exact built.grounded
  placed := by
    rw [grown.operation_eq id old, grown.owner_eq id old]
    exact fun block owned inner => (grown.body_prefix block).subset (built.placed block owned inner)
  inner := by
    rw [grown.operation_eq id old]
    exact fun block mem => built.inner block (stays block mem)
  usable := by
    rw [grown.operation_eq id old]
    exact fun block mem operand read => (built.usable block (stays block mem) operand read).mono grown

/-- The ways to extend a function that keep it well built, apart from terminators. -/
inductive Extension (graph : FlowGraph) (func : Function) : Function → Prop where
  | leaf {ty : Ty} {operation : Operation} {name : Option String}
      (leaf : operation.isLeaf = true) (proper : func.Proper ty operation) :
      Extension graph func (func.withLeaf ty operation name)
  | instruction {block : BlockId} {ty : Ty} {operation : Operation}
      (bound : block < func.blocks.size) (inner : operation.isInner = true)
      (proper : func.Proper ty operation)
      (usable : ∀ operand ∈ operation.operands, func.Usable graph block operand) :
      Extension graph func (func.withInstruction block ty operation)
  | name (id : ValueId) (name : String) : Extension graph func (func.withName id name)
  | slot (ty : Ty) (base : String) : Extension graph func (func.withSlot ty base)

/-- Any number of extensions. -/
abbrev Builds (graph : FlowGraph) : Function → Function → Prop :=
  ReflTransGen (Extension graph)

namespace Extension

theorem grows (extension : Extension graph before after) : before.Grows after := by
  cases extension with
  | leaf _ _ => exact grows_withLeaf ..
  | instruction _ _ _ _ => exact grows_withInstruction ..
  | name _ _ => exact grows_withName ..
  | slot _ _ => exact grows_withSlot ..

theorem terminator_eq (extension : Extension graph before after) (block : BlockId) :
    (after.block block).terminator = (before.block block).terminator := by
  cases extension with
  | leaf _ _ => rfl
  | instruction _ _ _ _ => exact terminator_withInstruction ..
  | name _ _ => rfl
  | slot _ _ => rfl

/-- A block lists what it listed before, and perhaps the new instruction. -/
theorem mem_body (extension : Extension graph before after) {id : ValueId}
    (mem : id ∈ after.body block) : id ∈ before.body block ∨ before.values.size ≤ id := by
  cases extension with
  | leaf _ _ => exact Or.inl mem
  | name _ _ => exact Or.inl mem
  | slot _ _ => exact Or.inl mem
  | instruction _ _ _ _ =>
      rw [body_withInstruction] at mem
      split at mem
      · next holds =>
        rcases List.mem_append.mp mem with old | new
        · exact Or.inl (holds.1 ▸ old)
        · exact Or.inr (Nat.le_of_eq (List.mem_singleton.mp new).symm)
      · exact Or.inl mem

/-- The new value of an extension is well built, if there is one. -/
theorem built_new (extension : Extension graph before after) (numbered : before.Numbered)
    {id : ValueId} (new : before.values.size ≤ id) (held : id < after.values.size) :
    after.ValueBuilt graph id := by
  have unlisted : ∀ block, id ∉ before.body block :=
    fun block mem => Nat.not_lt_of_le new (numbered.lt_size block id mem)
  have grows := extension.grows
  cases extension with
  | @leaf ty operation name leaf proper =>
      rw [size_withLeaf] at held
      obtain rfl := Nat.le_antisymm (Nat.le_of_lt_succ held) new
      have reads_nothing := Operation.operands_of_isLeaf leaf
      have operation_eq : (before.withLeaf ty operation name).operation before.values.size =
          operation := by
        simp [Function.operation]
      constructor
      · rw [operation_eq]
        simpa [Function.ty] using proper.mono grows.toExtends (by simp [reads_nothing])
      · simp [operation_eq, reads_nothing]
      · simp
      · exact fun block mem => absurd mem (unlisted block)
      · exact fun block mem => absurd mem (unlisted block)
  | name id name =>
      rw [size_withName] at held
      exact absurd held (Nat.not_lt_of_le new)
  | slot ty base =>
      rw [size_withSlot] at held
      obtain rfl := Nat.le_antisymm (Nat.le_of_lt_succ held) new
      have operation_eq : (before.withSlot ty base).operation before.values.size =
          .slotAddress before.slots.size := by
        simp [Function.operation]
      constructor
      · simp [operation_eq, Proper, Function.ty]
      · simp [operation_eq, Operation.operands]
      · simp
      · exact fun block mem => absurd mem (unlisted block)
      · exact fun block mem => absurd mem (unlisted block)
  | @instruction block ty operation bound inner proper usable =>
      rw [size_withInstruction] at held
      obtain rfl := Nat.le_antisymm (Nat.le_of_lt_succ held) new
      have only : ∀ other, before.values.size ∈
          (before.withInstruction block ty operation).body other → other = block := by
        intro other mem
        rw [body_withInstruction] at mem
        split at mem
        · next holds => exact holds.1
        · exact absurd mem (unlisted other)
      constructor
      · simpa using proper.mono grows.toExtends fun operand read => (usable operand read).lt_size
      · simpa using fun operand read => (usable operand read).lt_size
      · intro other owned _
        simp only [value_withInstruction, if_pos, Option.some.injEq] at owned
        simp [← owned, bound]
      · simp [inner]
      · intro other mem operand read
        rw [only other mem]
        simp only [operation_withInstruction, if_pos] at read
        exact (usable operand read).mono grows.toExtends

theorem wellBuilt (extension : Extension graph before after) (wellBuilt : before.WellBuilt graph) :
    after.WellBuilt graph where
  numbered := extension.grows.numbered wellBuilt.numbered
  built id held := by
    by_cases old : id < before.values.size
    · apply (wellBuilt.built id old).mono extension.grows.toExtends old
      intro block mem
      exact (extension.mem_body mem).resolve_right (Nat.not_le_of_lt old)
    · exact extension.built_new wellBuilt.numbered (Nat.le_of_not_lt old) held

end Extension

namespace Builds

theorem grows (builds : Builds graph before after) : before.Grows after := by
  induction builds with
  | refl => exact .refl _
  | tail _ extension ih => exact ih.trans extension.grows

theorem terminator_eq (builds : Builds graph before after) (block : BlockId) :
    (after.block block).terminator = (before.block block).terminator := by
  induction builds with
  | refl => rfl
  | tail _ extension ih => exact (extension.terminator_eq block).trans ih

theorem wellBuilt (builds : Builds graph before after) (wellBuilt : before.WellBuilt graph) :
    after.WellBuilt graph := by
  induction builds with
  | refl => exact wellBuilt
  | tail _ extension ih => exact extension.wellBuilt ih

end Builds

theorem WellBuilt.withTerminator (wellBuilt : func.WellBuilt graph)
    (terminates : operation.isTerminator = true)
    (held : ∀ operand ∈ operation.operands, operand < func.values.size) :
    (func.withTerminator block operation).WellBuilt graph where
  numbered := wellBuilt.numbered.withTerminator
  built id id_lt := by
    rw [size_withTerminator] at id_lt
    rcases Nat.lt_succ_iff_lt_or_eq.mp id_lt with old | rfl
    · apply (wellBuilt.built id old).mono (extends_withTerminator ..) old
      intro other mem
      rwa [body_withTerminator] at mem
    · have unlisted : ∀ other, func.values.size ∉
          (func.withTerminator block operation).body other := by
        intro other mem
        rw [body_withTerminator] at mem
        exact Nat.lt_irrefl _ (wellBuilt.numbered.lt_size other _ mem)
      have operation_eq : (func.withTerminator block operation).operation func.values.size =
          operation := by
        simp [Function.operation]
      constructor
      · rw [operation_eq]
        cases operation <;> simp_all [Operation.isTerminator, Proper]
      · rwa [operation_eq]
      · intro other _ inner
        rw [operation_eq, terminates] at inner
        cases inner
      · exact fun other mem => absurd mem (unlisted other)
      · exact fun other mem => absurd mem (unlisted other)

end Function

end RegisterFlow
