import RegisterFlow.Proofs.Code.Computing

/-!
# Loads of slots

Which instructions of a block load a slot. What a function does while it grows leaves the loads of
all slots alone that no appended instruction loads.
-/

namespace RegisterFlow

namespace Function

/-- The instructions of a block that load a slot, in order. -/
def loadsIn (func : Function) (slot : SlotId) (block : BlockId) : List ValueId :=
  (func.body block).filter fun id => func.operation id = .load slot

/-- A function grew, and no loads of the slots in question were appended. -/
structure GrowsSparing (spared : SlotId → Prop) (before after : Function) : Prop
    extends Grows before after where
  loadsIn_eq : before.Numbered →
    ∀ slot, spared slot → ∀ block, after.loadsIn slot block = before.loadsIn slot block

variable {before after func : Function} {block : BlockId} {slot : SlotId}

theorem mem_loadsIn_iff {id : ValueId} :
    id ∈ func.loadsIn slot block ↔ id ∈ func.body block ∧ func.operation id = .load slot := by
  simp only [loadsIn, List.mem_filter, decide_eq_true_eq]

/-- Instructions that were there before are loads of a slot if they were. -/
theorem Extends.filter_load (grown : Extends before after) (numbered : before.Numbered)
    (slot : SlotId) (block : BlockId) :
    ((before.body block).filter fun id => after.operation id = .load slot) =
      before.loadsIn slot block := by
  apply List.filter_congr
  intro id mem
  rw [grown.operation_eq id (numbered.lt_size block id mem)]

theorem Extends.loadsIn_of_body (grown : Extends before after) (numbered : before.Numbered)
    (body : after.body block = before.body block) :
    after.loadsIn slot block = before.loadsIn slot block := by
  rw [← grown.filter_load numbered, loadsIn, body]

/-- An appended instruction adds to the loads of its block if it loads the slot. -/
theorem loadsIn_withInstruction (numbered : func.Numbered) (extended : BlockId) (ty : Ty)
    (operation : Operation) :
    (func.withInstruction extended ty operation).loadsIn slot block =
      func.loadsIn slot block ++
        if block = extended ∧ extended < func.blocks.size ∧ operation = .load slot then
          [func.values.size]
        else [] := by
  have old := (extends_withInstruction func extended ty operation).filter_load numbered slot block
  rw [loadsIn, body_withInstruction]
  by_cases here : block = extended ∧ extended < func.blocks.size
  · rw [if_pos here]
    rcases here with ⟨rfl, bound⟩
    rw [List.filter_append, old]
    by_cases loads : operation = .load slot
    · simp [loads, bound]
    · simp [loads]
  · rw [if_neg here, old, if_neg fun all => here ⟨all.1, all.2.1⟩, List.append_nil]

namespace GrowsSparing

variable {spared : SlotId → Prop}

protected theorem refl (func : Function) : GrowsSparing spared func func where
  toGrows := .refl func
  loadsIn_eq _ _ _ _ := rfl

protected theorem trans {first second third : Function} (left : GrowsSparing spared first second)
    (right : GrowsSparing spared second third) : GrowsSparing spared first third where
  toGrows := left.toGrows.trans right.toGrows
  loadsIn_eq numbered slot held block := by
    rw [right.loadsIn_eq (left.numbered numbered) slot held,
      left.loadsIn_eq numbered slot held]

end GrowsSparing

section GrowsSparing

variable (spared : SlotId → Prop) (func : Function) (block : BlockId) (ty : Ty)
  (operation : Operation)

theorem growsSparing_withLeaf (name : Option String) :
    GrowsSparing spared func (func.withLeaf ty operation name) where
  toGrows := grows_withLeaf ..
  loadsIn_eq numbered _ _ _ := (extends_withLeaf ..).loadsIn_of_body numbered rfl

theorem growsSparing_withTerminator :
    GrowsSparing spared func (func.withTerminator block operation) where
  toGrows := grows_withTerminator ..
  loadsIn_eq numbered _ _ _ :=
    (extends_withTerminator ..).loadsIn_of_body numbered (body_withTerminator ..)

theorem growsSparing_withName (id : ValueId) (name : String) :
    GrowsSparing spared func (func.withName id name) where
  toGrows := grows_withName ..
  loadsIn_eq numbered _ _ _ := (extends_withName ..).loadsIn_of_body numbered rfl

theorem growsSparing_withSlot (base : String) :
    GrowsSparing spared func (func.withSlot ty base) where
  toGrows := grows_withSlot ..
  loadsIn_eq numbered _ _ _ := (extends_withSlot ..).loadsIn_of_body numbered rfl

theorem growsSparing_withInstruction
    (harmless : ∀ slot, spared slot → operation ≠ .load slot) :
    GrowsSparing spared func (func.withInstruction block ty operation) where
  toGrows := grows_withInstruction ..
  loadsIn_eq numbered slot held other := by
    rw [loadsIn_withInstruction numbered, if_neg fun all => harmless slot held all.2.2,
      List.append_nil]

end GrowsSparing

/-- Computations load nothing. -/
theorem Computations.growsSparing (spared : SlotId → Prop)
    (computations : Computations block before after) : before.GrowsSparing spared after := by
  induction computations with
  | refl => exact .refl _
  | tail _ computation ih =>
      apply ih.trans
      cases computation with
      | constant ty number unheld => exact growsSparing_withLeaf ..
      | instruction ty pure =>
          apply growsSparing_withInstruction
          rintro slot - rfl
          cases pure

end Function

end RegisterFlow
