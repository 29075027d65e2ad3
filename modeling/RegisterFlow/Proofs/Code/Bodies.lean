import Mathlib.Data.List.Basic
import RegisterFlow.Proofs.Code.Growth

/-!
# Bodies of blocks

In a numbered function every block lists instructions that exist and belong to it, in increasing
order. New values then never pass for old ones, and what a block stores into a slot is known: it
stays while the function grows, apart from the stores that are appended.
-/

namespace RegisterFlow

namespace Function

/-- Blocks list existing instructions of their own in increasing order. -/
structure Numbered (func : Function) : Prop where
  lt_size : ∀ block, ∀ id ∈ func.body block, id < func.values.size
  owner : ∀ block, ∀ id ∈ func.body block, (func.value id).block = some block
  sorted : ∀ block, (func.body block).Pairwise (· < ·)

/-- The value that an instruction stores into a slot. -/
def storedBy? (func : Function) (slot : SlotId) (id : ValueId) : Option ValueId :=
  match func.operation id with
  | .store target operand => if target = slot then some operand else none
  | _ => none

/-- The values that a block stores into a slot, in order. -/
def storedIn (func : Function) (slot : SlotId) (block : BlockId) : List ValueId :=
  (func.body block).filterMap (func.storedBy? slot)

namespace Numbered

variable {func : Function} {block : BlockId} {ty : Ty} {operation : Operation}

theorem withLeaf (numbered : func.Numbered) (name : Option String) :
    (func.withLeaf ty operation name).Numbered where
  lt_size block id mem := by
    rw [size_withLeaf]
    exact Nat.lt_succ_of_lt (numbered.lt_size block id mem)
  owner block id mem := by
    rw [value_withLeaf, if_neg (Nat.ne_of_lt (numbered.lt_size block id mem))]
    exact numbered.owner block id mem
  sorted := numbered.sorted

theorem withInstruction (numbered : func.Numbered) :
    (func.withInstruction block ty operation).Numbered where
  lt_size other id mem := by
    rw [size_withInstruction]
    rw [body_withInstruction] at mem
    split at mem
    · rcases List.mem_append.mp mem with old | new
      · exact Nat.lt_succ_of_lt (numbered.lt_size _ id old)
      · rw [List.mem_singleton.mp new]
        exact Nat.lt_succ_self _
    · exact Nat.lt_succ_of_lt (numbered.lt_size _ id mem)
  owner other id mem := by
    rw [value_withInstruction]
    rw [body_withInstruction] at mem
    split at mem
    · next holds =>
      rcases List.mem_append.mp mem with old | new
      · rw [if_neg (Nat.ne_of_lt (numbered.lt_size _ id old)), holds.1]
        exact numbered.owner _ id old
      · rw [if_pos (List.mem_singleton.mp new), holds.1]
    · rw [if_neg (Nat.ne_of_lt (numbered.lt_size _ id mem))]
      exact numbered.owner _ id mem
  sorted other := by
    rw [body_withInstruction]
    split
    · refine List.pairwise_append.mpr ⟨numbered.sorted _, List.pairwise_singleton .., ?_⟩
      intro id mem new new_mem
      rw [List.mem_singleton.mp new_mem]
      exact numbered.lt_size _ id mem
    · exact numbered.sorted _

theorem withTerminator (numbered : func.Numbered) :
    (func.withTerminator block operation).Numbered where
  lt_size other id mem := by
    rw [size_withTerminator]
    rw [body_withTerminator] at mem
    exact Nat.lt_succ_of_lt (numbered.lt_size other id mem)
  owner other id mem := by
    rw [body_withTerminator] at mem
    rw [value_withTerminator, if_neg (Nat.ne_of_lt (numbered.lt_size other id mem))]
    exact numbered.owner other id mem
  sorted other := by
    rw [body_withTerminator]
    exact numbered.sorted other

theorem withName (numbered : func.Numbered) (id : ValueId) (name : String) :
    (func.withName id name).Numbered where
  lt_size block other mem := by
    rw [size_withName]
    exact numbered.lt_size block other mem
  owner block other mem := by
    rw [owner_withName]
    exact numbered.owner block other mem
  sorted := numbered.sorted

theorem withSlot (numbered : func.Numbered) (base : String) :
    (func.withSlot ty base).Numbered where
  lt_size block id mem := by
    rw [size_withSlot]
    exact Nat.lt_succ_of_lt (numbered.lt_size block id mem)
  owner block id mem := by
    rw [value_withSlot, if_neg (Nat.ne_of_lt (numbered.lt_size block id mem))]
    exact numbered.owner block id mem
  sorted := numbered.sorted

end Numbered

/-- A function grew, and it is numbered if it was. -/
structure Grows (before after : Function) : Prop extends Extends before after where
  numbered : before.Numbered → after.Numbered

namespace Grows

protected theorem refl (func : Function) : Grows func func where
  toExtends := .refl func
  numbered := id

protected theorem trans {first second third : Function} (left : Grows first second)
    (right : Grows second third) : Grows first third where
  toExtends := left.toExtends.trans right.toExtends
  numbered := right.numbered ∘ left.numbered

end Grows

section Grows

variable (func : Function) (block : BlockId) (ty : Ty) (operation : Operation)

theorem grows_withLeaf (name : Option String) : Grows func (func.withLeaf ty operation name) where
  toExtends := extends_withLeaf ..
  numbered numbered := numbered.withLeaf name

theorem grows_withInstruction : Grows func (func.withInstruction block ty operation) where
  toExtends := extends_withInstruction ..
  numbered := Numbered.withInstruction

theorem grows_withTerminator : Grows func (func.withTerminator block operation) where
  toExtends := extends_withTerminator ..
  numbered := Numbered.withTerminator

theorem grows_withName (id : ValueId) (name : String) : Grows func (func.withName id name) where
  toExtends := extends_withName ..
  numbered numbered := numbered.withName id name

theorem grows_withSlot (base : String) : Grows func (func.withSlot ty base) where
  toExtends := extends_withSlot ..
  numbered numbered := numbered.withSlot base

end Grows

section Stored

variable {before after : Function} {block : BlockId} {slot : SlotId}

theorem storedBy?_eq_some_iff {func : Function} {id operand : ValueId} :
    func.storedBy? slot id = some operand ↔ func.operation id = .store slot operand := by
  unfold storedBy?
  split
  · next target found stores =>
    rw [stores]
    simp only [Option.ite_none_right_eq_some, Option.some.injEq, Operation.store.injEq]
  · next other =>
    simp only [reduceCtorEq, false_iff]
    intro stores
    exact other _ _ stores

theorem mem_storedIn_iff {func : Function} {operand : ValueId} :
    operand ∈ func.storedIn slot block ↔
      ∃ id ∈ func.body block, func.operation id = .store slot operand := by
  simp only [storedIn, List.mem_filterMap, storedBy?_eq_some_iff]

/-- What a block stores into a slot depends on its body and what the instructions there do. -/
theorem storedIn_congr (body : after.body block = before.body block)
    (operation : ∀ id ∈ before.body block, after.operation id = before.operation id) :
    after.storedIn slot block = before.storedIn slot block := by
  unfold storedIn
  rw [body]
  refine List.filterMap_congr ?_
  intro id mem
  simp only [storedBy?, operation id mem]

/-- The stores of a function that grew, if its block did not. -/
theorem Extends.storedIn_of_body (grown : Extends before after) (numbered : before.Numbered)
    (body : after.body block = before.body block) :
    after.storedIn slot block = before.storedIn slot block :=
  storedIn_congr body fun id mem => grown.operation_eq id (numbered.lt_size block id mem)

variable {func : Function} (numbered : func.Numbered)

include numbered

@[simp]
theorem storedIn_withLeaf (ty : Ty) (operation : Operation) (name : Option String) :
    (func.withLeaf ty operation name).storedIn slot block = func.storedIn slot block :=
  (extends_withLeaf ..).storedIn_of_body numbered rfl

@[simp]
theorem storedIn_withTerminator (ended : BlockId) (operation : Operation) :
    (func.withTerminator ended operation).storedIn slot block = func.storedIn slot block :=
  (extends_withTerminator ..).storedIn_of_body numbered (body_withTerminator ..)

@[simp]
theorem storedIn_withName (id : ValueId) (name : String) :
    (func.withName id name).storedIn slot block = func.storedIn slot block :=
  (extends_withName ..).storedIn_of_body numbered rfl

@[simp]
theorem storedIn_withSlot (ty : Ty) (base : String) :
    (func.withSlot ty base).storedIn slot block = func.storedIn slot block :=
  (extends_withSlot ..).storedIn_of_body numbered rfl

/-- An appended instruction adds to what its block stores, if it is a store into the slot. -/
theorem storedIn_withInstruction (extended : BlockId) (ty : Ty) (operation : Operation) :
    (func.withInstruction extended ty operation).storedIn slot block =
      func.storedIn slot block ++
        if block = extended ∧ extended < func.blocks.size then
          ((func.withInstruction extended ty operation).storedBy? slot func.values.size).toList
        else [] := by
  have old : (func.body block).filterMap
        ((func.withInstruction extended ty operation).storedBy? slot) =
      func.storedIn slot block := by
    refine List.filterMap_congr ?_
    intro id mem
    simp only [storedBy?, (extends_withInstruction ..).operation_eq id
      (numbered.lt_size block id mem)]
  unfold storedIn at old ⊢
  rw [body_withInstruction]
  split
  · next holds =>
    rcases holds with ⟨rfl, bound⟩
    rw [List.filterMap_append, old]
    cases found : (func.withInstruction block ty operation).storedBy? slot func.values.size <;>
      simp [found]
  · rw [old, List.append_nil]

theorem storedIn_withInstruction_of_ne {extended : BlockId} {ty : Ty} {operation : Operation}
    (harmless : ∀ operand, operation ≠ .store slot operand) :
    (func.withInstruction extended ty operation).storedIn slot block =
      func.storedIn slot block := by
  rw [storedIn_withInstruction numbered]
  have other : (func.withInstruction extended ty operation).storedBy? slot func.values.size =
      none := by
    rw [Option.eq_none_iff_forall_ne_some]
    intro operand stores
    rw [storedBy?_eq_some_iff] at stores
    simp only [Function.operation, value_withInstruction, if_pos] at stores
    exact harmless operand stores
  simp [other]

theorem storedIn_withInstruction_store {extended : BlockId} {ty : Ty} (operand : ValueId) :
    (func.withInstruction extended ty (.store slot operand)).storedIn slot block =
      func.storedIn slot block ++
        if block = extended ∧ extended < func.blocks.size then [operand] else [] := by
  rw [storedIn_withInstruction numbered]
  have stores : (func.withInstruction extended ty (.store slot operand)).storedBy? slot
      func.values.size = some operand := by
    rw [storedBy?_eq_some_iff]
    simp [Function.operation]
  rw [stores]
  rfl

end Stored

/-- A function grew without stores and slots, and at most one of its blocks did. -/
structure GrowsQuietly (block : BlockId) (before after : Function) : Prop
    extends Grows before after where
  slots_eq : after.slots = before.slots
  body_of_ne : ∀ other, other ≠ block → after.body other = before.body other
  storedIn_eq : before.Numbered →
    ∀ slot other, after.storedIn slot other = before.storedIn slot other

namespace GrowsQuietly

variable {block : BlockId}

protected theorem refl (func : Function) : GrowsQuietly block func func where
  toGrows := .refl func
  slots_eq := rfl
  body_of_ne _ _ := rfl
  storedIn_eq _ _ _ := rfl

protected theorem trans {first second third : Function} (left : GrowsQuietly block first second)
    (right : GrowsQuietly block second third) : GrowsQuietly block first third where
  toGrows := left.toGrows.trans right.toGrows
  slots_eq := right.slots_eq.trans left.slots_eq
  body_of_ne other different := by
    rw [right.body_of_ne other different, left.body_of_ne other different]
  storedIn_eq numbered slot other := by
    rw [right.storedIn_eq (left.numbered numbered), left.storedIn_eq numbered]

end GrowsQuietly

section GrowsQuietly

variable (func : Function) (block : BlockId) (ty : Ty) (operation : Operation)

theorem growsQuietly_withLeaf (name : Option String) :
    GrowsQuietly block func (func.withLeaf ty operation name) where
  toGrows := grows_withLeaf ..
  slots_eq := rfl
  body_of_ne _ _ := rfl
  storedIn_eq numbered _ _ := storedIn_withLeaf numbered ..

theorem growsQuietly_withInstruction
    (harmless : ∀ slot operand, operation ≠ .store slot operand) :
    GrowsQuietly block func (func.withInstruction block ty operation) where
  toGrows := grows_withInstruction ..
  slots_eq := rfl
  body_of_ne other different := by
    rw [body_withInstruction, if_neg fun holds => different holds.1]
  storedIn_eq numbered slot _ := storedIn_withInstruction_of_ne numbered (harmless slot)

theorem growsQuietly_withTerminator (ended : BlockId) :
    GrowsQuietly block func (func.withTerminator ended operation) where
  toGrows := grows_withTerminator ..
  slots_eq := rfl
  body_of_ne _ _ := body_withTerminator ..
  storedIn_eq numbered _ _ := storedIn_withTerminator numbered ..

theorem growsQuietly_withName (id : ValueId) (name : String) :
    GrowsQuietly block func (func.withName id name) where
  toGrows := grows_withName ..
  slots_eq := rfl
  body_of_ne _ _ := rfl
  storedIn_eq numbered _ _ := storedIn_withName numbered ..

end GrowsQuietly

/-! ### Functions without code -/

section Empty

variable (name : String) (argumentTypes : List Ty) (blockNames : List String)

theorem size_empty : (empty name argumentTypes blockNames).values.size = argumentTypes.length := by
  simp [empty]

theorem body_empty (block : BlockId) : (empty name argumentTypes blockNames).body block = [] := by
  simp only [body, Function.block, empty]
  cases found : (blockNames.map fun name => ({ name } : Block)).toArray[block]? with
  | none => rfl
  | some body =>
      simp only [List.getElem?_toArray, List.getElem?_map, Option.map_eq_some_iff] at found
      obtain ⟨_, _, rfl⟩ := found
      rfl

theorem numbered_empty : (empty name argumentTypes blockNames).Numbered where
  lt_size block id mem := by
    rw [body_empty] at mem
    cases mem
  owner block id mem := by
    rw [body_empty] at mem
    cases mem
  sorted block := by
    rw [body_empty]
    exact List.Pairwise.nil

end Empty

end Function

end RegisterFlow
