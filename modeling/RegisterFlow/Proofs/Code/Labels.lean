import Mathlib
import RegisterFlow.Proofs.Code.Computing
import RegisterFlow.Proofs.Code.References
import RegisterFlow.Proofs.Code.Slots
import RegisterFlow.Proofs.Code.Structure

/-!
# Labelled functions

A function is labelled if its slots have different names, which are those of merges, the addresses
of its slots are written as these names, all other names are those of locations, and constants are
held once. It stays so while it grows by code without names, by slots of merges, and by names for
values that are no addresses. In a labelled function, a reference with its type belongs to one
value, and so does any reference that is not a number.
-/

namespace RegisterFlow

namespace Function

variable {before after func : Function} {added : Value} {block : BlockId} {ty : Ty}
  {operation : Operation}

theorem slot_withName (id : ValueId) (name : String) (slot : SlotId) :
    (func.withName id name).slot slot = func.slot slot :=
  rfl

theorem slot_withSlot (base : String) (slot : SlotId) :
    (func.withSlot ty base).slot slot =
      if slot = func.slots.size then func.nextSlot ty base else func.slot slot := by
  simp only [Function.slot, slots_withSlot_eq, Array.getElem?_push]
  split <;> rfl

theorem operation_withSlot (base : String) (id : ValueId) :
    (func.withSlot ty base).operation id =
      if id = func.values.size then .slotAddress func.slots.size else func.operation id := by
  simp only [Function.operation, value_withSlot]
  split <;> rfl

theorem ty_withSlot (base : String) (id : ValueId) :
    (func.withSlot ty base).ty id = if id = func.values.size then .ptr else func.ty id := by
  simp only [Function.ty, value_withSlot]
  split <;> rfl

/-! ### Labels -/

/-- A slot has the name of a merge, and its address is written as this name. -/
structure SlotLabelled (func : Function) (slot : SlotId) : Prop where
  merges : IsMergeName (func.slot slot).name
  addresses : func.operation (func.slot slot).address = .slotAddress slot
  shown : (func.value (func.slot slot).address).name = some (func.slot slot).name

/-- Names and constants are given as tracking gives them. -/
structure Labelled (func : Function) : Prop extends func.Interned where
  slots : ∀ slot < func.slots.size, func.SlotLabelled slot
  distinct : ∀ first < func.slots.size, ∀ second < func.slots.size,
    (func.slot first).name = (func.slot second).name → first = second
  addresses : ∀ id slot, func.operation id = .slotAddress slot →
    slot < func.slots.size ∧ id = (func.slot slot).address ∧ func.ty id = .ptr
  names : ∀ id name, (func.value id).name = some name →
    (∀ slot, func.operation id ≠ .slotAddress slot) →
    ∃ location : Location, name = location.name

theorem value_empty (name : String) (argumentTypes : List Ty) (blockNames : List String)
    (id : ValueId) :
    (empty name argumentTypes blockNames).value id =
      (argumentTypes[id]?.map fun ty => { ty, operation := .argument id }).getD default := by
  simp only [value, empty, List.getElem?_toArray, List.getElem?_mapIdx]

/-- Arguments have no names. -/
theorem labelled_empty (name : String) (argumentTypes : List Ty) (blockNames : List String) :
    (empty name argumentTypes blockNames).Labelled := by
  have argument_or_none : ∀ id,
      ((empty name argumentTypes blockNames).operation id = .argument id ∨
        (empty name argumentTypes blockNames).operation id = .ret none) ∧
      ((empty name argumentTypes blockNames).value id).name = none := by
    intro id
    rw [operation, value_empty]
    cases argumentTypes[id]? with
    | none => exact ⟨.inr rfl, rfl⟩
    | some ty => exact ⟨.inl rfl, rfl⟩
  have unheld : ∀ id payload,
      (empty name argumentTypes blockNames).operation id ≠ .constant payload := by
    intro id payload held
    rcases (argument_or_none id).1 with computed | computed
    all_goals
      rw [computed] at held
      cases held
  constructor
  · exact ⟨fun first _ payload held => absurd held (unheld first payload),
      fun id _ payload _ held => absurd held (unheld id payload)⟩
  · exact fun slot held => absurd held (Nat.not_lt_zero slot)
  · exact fun first held => absurd held (Nat.not_lt_zero first)
  · intro id slot addresses
    rcases (argument_or_none id).1 with computed | computed
    all_goals
      rw [computed] at addresses
      cases addresses
  · intro id name shown
    rw [(argument_or_none id).2] at shown
    cases shown

namespace Labelled

theorem address_lt (labelled : func.Labelled) {slot : SlotId} (held : slot < func.slots.size) :
    (func.slot slot).address < func.values.size := by
  apply lt_size_of_operation
  rw [(labelled.slots slot held).addresses]
  simp

/-- A further value needs no name, if it is no address and no constant that is held. -/
theorem add (labelled : before.Labelled)
    (value_eq : ∀ id, after.value id = if id = before.values.size then added else before.value id)
    (slots_eq : after.slots = before.slots) (unnamed : added.name = none)
    (plain : ∀ slot, added.operation ≠ .slotAddress slot)
    (admits : before.Admits added) : after.Labelled := by
  have new_value : after.value before.values.size = added := by
    rw [value_eq, if_pos rfl]
  have old_value : ∀ {id}, id ≠ before.values.size → after.value id = before.value id := by
    intro id old
    rw [value_eq, if_neg old]
  have slot_eq : ∀ slot, after.slot slot = before.slot slot := by
    intro slot
    rw [Function.slot, slots_eq, Function.slot]
  refine ⟨labelled.toInterned.add value_eq admits, ?_, ?_, ?_, ?_⟩
  · intro slot held
    rw [slots_eq] at held
    rcases labelled.slots slot held with ⟨merges, addresses, shown⟩
    have old := Nat.ne_of_lt (labelled.address_lt held)
    constructor
    · rwa [slot_eq]
    · rwa [slot_eq, Function.operation, old_value old]
    · rwa [slot_eq, old_value old]
  · simp only [slots_eq, slot_eq]
    exact labelled.distinct
  · intro id slot addresses
    rw [slots_eq, slot_eq]
    by_cases new : id = before.values.size
    · subst new
      rw [Function.operation, new_value] at addresses
      exact absurd addresses (plain slot)
    · rw [Function.operation, old_value new] at addresses
      rw [Function.ty, old_value new]
      exact labelled.addresses id slot addresses
  · intro id name named unaddressed
    by_cases new : id = before.values.size
    · subst new
      rw [new_value, unnamed] at named
      cases named
    · rw [old_value new] at named
      simp only [Function.operation, old_value new] at unaddressed
      exact labelled.names id name named unaddressed

/-- Instructions have no names when they are appended. -/
theorem withInstruction (labelled : func.Labelled) (block : BlockId) (ty : Ty)
    (body : operation.isLeaf = false) : (func.withInstruction block ty operation).Labelled := by
  refine labelled.add (value_withInstruction _ _ _ _) rfl rfl ?_ (admits_of_ne ?_)
  · rintro slot rfl
    cases body
  · rintro payload rfl
    cases body

theorem withTerminator (labelled : func.Labelled) (block : BlockId)
    (ends : operation.isTerminator = true) : (func.withTerminator block operation).Labelled := by
  refine labelled.add (value_withTerminator _ _ _) rfl rfl ?_ (admits_of_ne ?_)
  · rintro slot rfl
    cases ends
  · rintro payload rfl
    cases ends

theorem withConstant (labelled : func.Labelled) (number : UInt64)
    (unheld : Builder.heldConstant? ty (Builder.payloadOf ty number) func = none) :
    (func.withLeaf ty (.constant (Builder.payloadOf ty number)) none).Labelled := by
  refine labelled.add (value_withLeaf _ _ _ _) rfl rfl ?_ (admits_constant unheld)
  simp

/-- What rules compute has no names. -/
theorem computations (labelled : before.Labelled)
    (computations : Computations block before after) : after.Labelled := by
  induction computations with
  | refl => exact labelled
  | tail _ computation ih =>
      cases computation with
      | constant ty number unheld => exact ih.withConstant number unheld
      | @instruction ty operation pure =>
          refine ih.withInstruction block ty ?_
          cases operation <;> first | rfl | cases pure

attribute [local simp] slot_withName in
/-- A value that is no address may be named after a location. -/
theorem withName (labelled : func.Labelled) {id : ValueId} (location : Location)
    (plain : ∀ slot, func.operation id ≠ .slotAddress slot) :
    (func.withName id location.name).Labelled where
  shared first second := by simpa using labelled.shared first second
  fitting other := by simpa using labelled.fitting other
  slots slot held := by
    rcases labelled.slots slot held with ⟨merges, addresses, shown⟩
    have different : (func.slot slot).address ≠ id := by
      intro same
      exact plain slot (same ▸ addresses)
    constructor
    · exact merges
    · simpa using addresses
    · simpa [value_withName, different] using shown
  distinct := labelled.distinct
  addresses other slot := by simpa using labelled.addresses other slot
  names other name := by
    rw [value_withName]
    split
    · intro named _
      exact ⟨location, (Option.some.inj named).symm⟩
    · simpa using labelled.names other name

attribute [local simp] slot_withSlot operation_withSlot ty_withSlot nextSlot in
/-- A slot may be allocated for a merge. -/
theorem withSlot (labelled : func.Labelled) (ty : Ty) (location : Location) :
    (func.withSlot ty (location.name ++ "-merge")).Labelled := by
  rcases Frame.exists_freshName_eq (func.slots.toList.map Slot.name) (location.name ++ "-merge")
    with ⟨index, -, named, -, -⟩
  have unused : ∀ slot < func.slots.size,
      (func.slot slot).name ≠ (func.nextSlot ty (location.name ++ "-merge")).name :=
    fun slot held => name_ne_nextSlot (by simp [Function.slot, held]) ty _
  have old_of_ne : ∀ slot, slot < (func.withSlot ty (location.name ++ "-merge")).slots.size →
      slot ≠ func.slots.size → slot < func.slots.size := by
    intro slot held new
    rw [slotCount_withSlot] at held
    omega
  refine ⟨labelled.toInterned.add (value_withSlot _ _ _) (admits_of_ne (by simp)), ?_, ?_, ?_, ?_⟩
  · intro slot held
    by_cases new : slot = func.slots.size
    · subst new
      constructor
      · exact ⟨location, index, by simpa [nextSlot] using named⟩
      · simp [nextSlot]
      · simp [nextSlot]
    · have old := old_of_ne slot held new
      rcases labelled.slots slot old with ⟨merges, addresses, shown⟩
      have address := Nat.ne_of_lt (labelled.address_lt old)
      constructor
      · simpa [new] using merges
      · simpa [new, address] using addresses
      · simpa [new, address] using shown
  · intro first first_lt second second_lt same
    rw [slot_withSlot, slot_withSlot] at same
    split at same
    · next first_new =>
      split at same
      · next second_new => rw [first_new, second_new]
      · next second_old => exact absurd same.symm (unused second (old_of_ne _ second_lt second_old))
    · next first_old =>
      split at same
      · exact absurd same (unused first (old_of_ne _ first_lt first_old))
      · next second_old =>
        exact labelled.distinct first (old_of_ne _ first_lt first_old) second
          (old_of_ne _ second_lt second_old) same
  · intro id slot addresses
    rw [operation_withSlot] at addresses
    rw [slotCount_withSlot, slot_withSlot, ty_withSlot]
    split at addresses
    · next new =>
      cases addresses
      exact ⟨Nat.lt_succ_self _, by simp [new, nextSlot], by simp [new]⟩
    · next old =>
      rcases labelled.addresses id slot addresses with ⟨held, address, typed⟩
      rw [if_neg (Nat.ne_of_lt held), if_neg old]
      exact ⟨Nat.lt_succ_of_lt held, address, typed⟩
  · intro id name shown plain
    rw [value_withSlot] at shown
    simp only [operation_withSlot] at plain
    split at shown
    · next new => exact absurd (if_pos new) (plain func.slots.size)
    · next old =>
      simp only [if_neg old] at plain
      exact labelled.names id name shown plain

/-! ### What references tell -/

variable {reference : Reference} {first second : ValueId}

theorem proper (labelled : func.Labelled) {id : ValueId} (refers : func.RefersBy id reference) :
    reference.Proper := by
  cases refers with
  | constant held => exact fun _ mem => Ty.isAlphanum_of_mem_constantText mem
  | @slot slot name addresses named =>
      rcases labelled.addresses id slot addresses with ⟨held, rfl, -⟩
      rcases labelled.slots slot held with ⟨merges, -, shown⟩
      cases named.symm.trans shown
      exact merges
  | named unheld elsewhere named => exact labelled.names id _ named elsewhere
  | numbered unheld unnamed => trivial

theorem eq_of_refersBy (labelled : func.Labelled) (refers : func.RefersBy first reference)
    (also : func.RefersBy second reference) (unheld : func.constant? first = none) :
    first = second := by
  cases refers with
  | constant held => exact absurd held (constant?_eq_none_iff.mp unheld _)
  | @slot slot name addresses named =>
      cases also with
      | @slot other _ others shown =>
          rcases labelled.addresses first slot addresses with ⟨held, rfl, -⟩
          rcases labelled.addresses second other others with ⟨other_held, rfl, -⟩
          have first_name := (labelled.slots slot held).shown
          have second_name := (labelled.slots other other_held).shown
          rw [named] at first_name
          rw [shown] at second_name
          rw [labelled.distinct slot held other other_held
            (Option.some.inj (first_name.symm.trans second_name))]
  | named =>
      cases also
      rfl
  | numbered =>
      cases also
      rfl

/-- What a value that is no constant is referred to by belongs to no other value. -/
theorem eq_of_reference_eq (labelled : func.Labelled) (unheld : func.constant? first = none)
    (same : func.reference first = func.reference second) : first = second := by
  rcases func.exists_refersBy first with ⟨reference, refers, text_eq⟩
  rcases func.exists_refersBy second with ⟨other, also, other_eq⟩
  have equal : reference = other := by
    apply (labelled.proper refers).eq_of_text_eq (labelled.proper also)
    rw [← text_eq, same, other_eq]
  subst equal
  exact labelled.eq_of_refersBy refers also unheld

theorem isAlphanum_or_mark (labelled : func.Labelled) {id : ValueId} {char : Char}
    (mem : char ∈ (func.reference id).toList) :
    char.isAlphanum = true ∨ char ∈ ['%', '-', '.'] := by
  rcases func.exists_refersBy id with ⟨reference, refers, text_eq⟩
  rw [text_eq] at mem
  exact (labelled.proper refers).isAlphanum_or_mark mem

theorem space_notMem_reference (labelled : func.Labelled) (id : ValueId) :
    ' ' ∉ (func.reference id).toList := by
  intro mem
  rcases labelled.isAlphanum_or_mark mem with letter | mark
  · exact absurd letter (by decide)
  · exact absurd mark (by decide)

/-- What a value is referred to by after its type belongs to no other value. -/
theorem typedReference_injective (labelled : func.Labelled) :
    Function.Injective func.typedReference := by
  intro first second same
  have unspaced : ' ' ∉ (func.ty first).text.toList :=
    fun mem => absurd (Ty.isAlphanum_of_mem_text mem) (by decide)
  have chars := congrArg String.toList same
  have parts : (func.ty first).text.toList ++ ' ' :: (func.reference first).toList =
      (func.ty second).text.toList ++ ' ' :: (func.reference second).toList := by
    simpa [typedReference] using chars
  rw [List.append_cons_inj_of_notMem unspaced (labelled.space_notMem_reference first)] at parts
  have ty_eq : func.ty first = func.ty second :=
    Ty.text_injective (String.toList_inj.mp parts.1)
  have reference_eq : func.reference first = func.reference second :=
    String.toList_inj.mp parts.2.2
  by_cases unheld : func.constant? first = none
  · exact labelled.eq_of_reference_eq unheld reference_eq
  by_cases others : func.constant? second = none
  · exact (labelled.eq_of_reference_eq others reference_eq.symm).symm
  -- Two constants of one type that are written alike have the same payload.
  simp only [constant?_eq_none_iff, not_forall, not_not] at unheld others
  rcases unheld with ⟨payload, first_operation⟩
  rcases others with ⟨other, second_operation⟩
  have payload_eq : payload = other := by
    apply @Ty.constantText_inj (func.ty first)
    · exact fun typed => labelled.fitting first 1 payload typed first_operation
    · exact fun typed => labelled.fitting second 1 other (ty_eq ▸ typed) second_operation
    · rwa [reference_of_constant first_operation, reference_of_constant second_operation,
        ← ty_eq] at reference_eq
  subst payload_eq
  exact labelled.shared first second payload first_operation second_operation ty_eq

/-- The text that refers to a slot belongs to no other slot. -/
theorem eq_of_slotReference_eq (labelled : func.Labelled) {slot other : SlotId}
    (held : slot < func.slots.size) (other_held : other < func.slots.size)
    (same : func.slotReference slot = func.slotReference other) : slot = other := by
  have addresses := (labelled.slots slot held).addresses
  have unheld : func.constant? (func.slot slot).address = none := by
    rw [constant?_eq_none_iff, addresses]
    simp
  have address_eq := labelled.eq_of_reference_eq unheld same
  rw [address_eq, (labelled.slots other other_held).addresses] at addresses
  exact (Operation.slotAddress.inj addresses).symm

end Labelled

end Function

end RegisterFlow
