import RegisterFlow.Proofs.Code.Computing

/-!
# Growing aside

A function grows aside if everything that it holds stays exactly as it is, apart from the printable
names of values, and if the instructions that are appended to its blocks are new values which store
only into slots from some number on. Where that number is the number of the slots that there were,
code that was there before can notice nothing of it.
-/

namespace RegisterFlow

namespace Function

/--
A function grew. Its blocks kept their names and terminators, and its slots everything. The appended
instructions are new values, and they store only into slots from `fresh` on.
-/
structure GrowsAside (fresh : SlotId) (before after : Function) : Prop
    extends Extends before after where
  blockName_eq : ∀ block, (after.block block).name = (before.block block).name
  terminator_eq : ∀ block, (after.block block).terminator = (before.block block).terminator
  slot_eq : ∀ slot < before.slots.size, after.slot slot = before.slot slot
  appended : ∀ block, ∃ added, after.body block = before.body block ++ added ∧
    ∀ id ∈ added, before.values.size ≤ id ∧ id < after.values.size ∧
      ∀ slot operand, after.operation id = .store slot operand → fresh ≤ slot

/-- Blocks list values that exist, and values read values and load slots that exist. -/
structure SelfContained (func : Function) : Prop where
  body_lt : ∀ block, ∀ id ∈ func.body block, id < func.values.size
  terminator_lt : ∀ block id, (func.block block).terminator = some id → id < func.values.size
  operand_lt : ∀ id, ∀ operand ∈ (func.operation id).operands, operand < func.values.size
  load_lt : ∀ id slot, func.operation id = .load slot → slot < func.slots.size

variable {fresh lower : SlotId} {block : BlockId} {before after func : Function}

namespace GrowsAside

protected theorem refl (fresh : SlotId) (func : Function) : GrowsAside fresh func func where
  toExtends := .refl func
  blockName_eq _ := rfl
  terminator_eq _ := rfl
  slot_eq _ _ := rfl
  appended _ := ⟨[], (List.append_nil _).symm, fun _ mem => absurd mem List.not_mem_nil⟩

protected theorem trans {first second third : Function} (left : GrowsAside fresh first second)
    (right : GrowsAside fresh second third) : GrowsAside fresh first third where
  toExtends := left.toExtends.trans right.toExtends
  blockName_eq block := (right.blockName_eq block).trans (left.blockName_eq block)
  terminator_eq block := (right.terminator_eq block).trans (left.terminator_eq block)
  slot_eq slot held := by
    rw [right.slot_eq slot (Nat.lt_of_lt_of_le held left.slotCount_le), left.slot_eq slot held]
  appended block := by
    rcases left.appended block with ⟨added, added_eq, new⟩
    rcases right.appended block with ⟨further, further_eq, newer⟩
    refine ⟨added ++ further, ?_, ?_⟩
    · rw [further_eq, added_eq, List.append_assoc]
    · intro id mem
      rcases List.mem_append.mp mem with earlier | later
      · rcases new id earlier with ⟨above, below, stores⟩
        refine ⟨above, Nat.lt_of_lt_of_le below right.size_le, ?_⟩
        rw [right.operation_eq id below]
        exact stores
      · rcases newer id later with ⟨above, below, stores⟩
        exact ⟨Nat.le_trans left.size_le above, below, stores⟩

/-- Slots from a lower number on include those from a higher one on. -/
theorem mono (grown : GrowsAside fresh before after) (below : lower ≤ fresh) :
    GrowsAside lower before after where
  toExtends := grown.toExtends
  blockName_eq := grown.blockName_eq
  terminator_eq := grown.terminator_eq
  slot_eq := grown.slot_eq
  appended block := by
    rcases grown.appended block with ⟨added, added_eq, new⟩
    refine ⟨added, added_eq, fun id mem => ?_⟩
    rcases new id mem with ⟨old, held, stores⟩
    exact ⟨old, held, fun slot operand store => Nat.le_trans below (stores slot operand store)⟩

/-- A function whose blocks, apart from their instructions, and slots are the same. -/
theorem of_body (grown : Extends before after)
    (blockName_eq : ∀ block, (after.block block).name = (before.block block).name)
    (terminator_eq : ∀ block, (after.block block).terminator = (before.block block).terminator)
    (slot_eq : ∀ slot < before.slots.size, after.slot slot = before.slot slot)
    (body_eq : ∀ block, after.body block = before.body block) : GrowsAside fresh before after where
  toExtends := grown
  blockName_eq
  terminator_eq
  slot_eq
  appended block := ⟨[], by rw [body_eq, List.append_nil], fun _ mem => absurd mem List.not_mem_nil⟩

end GrowsAside

theorem growsAside_withLeaf (fresh : SlotId) (func : Function) (ty : Ty) (operation : Operation)
    (name : Option String) : GrowsAside fresh func (func.withLeaf ty operation name) :=
  .of_body (extends_withLeaf ..) (fun _ => rfl) (fun _ => rfl) (fun _ _ => rfl) fun _ => rfl

theorem growsAside_withName (fresh : SlotId) (func : Function) (id : ValueId) (name : String) :
    GrowsAside fresh func (func.withName id name) :=
  .of_body (extends_withName ..) (fun _ => rfl) (fun _ => rfl) (fun _ _ => rfl) fun _ => rfl

theorem growsAside_withSlot (fresh : SlotId) (func : Function) (ty : Ty) (base : String) :
    GrowsAside fresh func (func.withSlot ty base) := by
  refine .of_body (extends_withSlot ..) (fun _ => rfl) (fun _ => rfl) ?_ fun _ => rfl
  intro slot held
  simp only [Function.slot, withSlot, Array.getElem?_push, if_neg (Nat.ne_of_lt held)]

theorem growsAside_withInstruction (func : Function) (block : BlockId) (ty : Ty)
    {operation : Operation}
    (harmless : ∀ slot operand, operation = .store slot operand → fresh ≤ slot) :
    GrowsAside fresh func (func.withInstruction block ty operation) where
  toExtends := extends_withInstruction ..
  blockName_eq other := by
    rw [block_withInstruction]
    split
    · next holds => rw [holds.1]
    · rfl
  terminator_eq other := terminator_withInstruction ..
  slot_eq _ _ := rfl
  appended other := by
    rw [body_withInstruction]
    split
    · next holds =>
      refine ⟨[func.values.size], by rw [holds.1], ?_⟩
      intro id mem
      rw [List.mem_singleton.mp mem, size_withInstruction, operation_withInstruction, if_pos rfl]
      exact ⟨Nat.le_refl _, Nat.lt_succ_self _, harmless⟩
    · exact ⟨[], (List.append_nil _).symm, fun _ mem => absurd mem List.not_mem_nil⟩

/-- Computations store nothing. -/
theorem Computations.growsAside (fresh : SlotId) (computations : Computations block before after) :
    before.GrowsAside fresh after := by
  induction computations with
  | refl => exact .refl ..
  | tail _ computation ih =>
      apply ih.trans
      cases computation with
      | constant ty number unheld => exact growsAside_withLeaf ..
      | instruction ty pure =>
          apply growsAside_withInstruction
          rintro slot operand rfl
          cases pure

end Function

end RegisterFlow
