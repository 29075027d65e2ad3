import RegisterFlow.Proofs.Tracking.Changes

/-!
# How a function grows in a meeting

Whatever a meeting builds is put together from a few pieces: its slot, stores into that slot, a load
from it, conversions of what is stored and loaded, and the name of what was read. A relation between
functions that each piece respects is respected by the whole meeting, also where it is given up
halfway, and one that stores and conversions respect by the stores that were deferred.
-/

namespace RegisterFlow

/-- A relation between functions that conversions respect, and stores into the given slots. -/
structure RespectsStores (into : SlotId → Prop) (related : Function → Function → Prop) : Prop where
  refl : ∀ func, related func func
  trans : ∀ first second third, related first second → related second third →
    related first third
  cast : ∀ (func : Function) (block : BlockId) (target : Ty) (kind : Conversion) (value : ValueId),
    related func (func.withInstruction block target (.cast kind value))
  store : ∀ (func : Function) (block : BlockId) (slot : SlotId) (value : ValueId), into slot →
    related func (func.withInstruction block .void (.store slot value))

/-- A relation that new slots respect as well, in which definitions of a location meet. -/
structure RespectsSupplies (into : SlotId → Prop) (related : Function → Function → Prop) : Prop
    extends RespectsStores into related where
  allocate : ∀ (func : Function) (location : Location) (ty : Ty),
    related func (func.withSlot ty (location.name ++ "-merge"))

/--
A relation that everything in a meeting respects. What is named after the location is never the
address of a slot.
-/
structure RespectsMeetings (into : SlotId → Prop) (related : Function → Function → Prop) : Prop
    extends RespectsSupplies into related where
  load : ∀ (func : Function) (block : BlockId) (ty : Ty) (slot : SlotId), into slot →
    related func (func.withInstruction block ty (.load slot))
  name : ∀ (func : Function) (location : Location) (value : ValueId),
    (∀ slot, func.operation value ≠ .slotAddress slot) →
    related func (func.withName value location.name)

variable {into : SlotId → Prop} {related : Function → Function → Prop} {graph : FlowGraph}
  {location : Location} {ty target : Ty} {native : Option Ty} {block : BlockId} {slot : SlotId}
  {value converted : ValueId} {hits : List ReachingDefinition}

namespace RespectsStores

variable {before after : Function}

theorem of_converted (respects : RespectsStores into related)
    (converts : Converted before block value target converted after) : related before after := by
  cases converts with
  | same _ => exact respects.refl _
  | cast _ _ => exact respects.cast ..

theorem of_stored (respects : RespectsStores into related)
    (stored : Stored before block slot value after) (held : into slot) : related before after := by
  cases stored with
  | intro converts =>
      exact respects.trans _ _ _ (respects.of_converted converts) (respects.store _ _ _ _ held)

variable {before after : Raising}

/-- Supplying definitions to a slot stores some of them there and defers the others. -/
theorem of_supplied (respects : RespectsStores into related) (held : into slot)
    (chain : Raise.Chain (Supplied location slot) hits before after) :
    related before.func after.func := by
  refine chain.keeps (related before.func ·.func) ?_ (respects.refl _)
  intro hit earlier later supplies grown
  cases supplies with
  | known stores => exact respects.trans _ _ _ grown (respects.of_stored stores held)
  | pending => exact grown

/-- Deferred stores are completed. -/
theorem of_settled {stores : List DeferredStore} (respects : RespectsStores into related)
    (held : ∀ store ∈ stores, into store.slot)
    (chain : Raise.Chain (Settled graph) stores before after) :
    related before.func after.func := by
  induction chain with
  | nil _ => exact respects.refl _
  | cons first _ ih =>
      rw [List.forall_mem_cons] at held
      refine respects.trans _ _ _ ?_ (ih held.2)
      cases first with
      | intro _ stores => exact respects.of_stored stores held.1

end RespectsStores

variable {before after : Raising}

/-- Definitions are supplied to a new slot. -/
theorem RespectsSupplies.of_opened (respects : RespectsSupplies into related) (held : into slot)
    (chain : Raise.Chain (Supplied location slot) hits (before.opened location ty) after) :
    related before.func after.func :=
  respects.trans _ _ _ (respects.allocate ..) (respects.of_supplied held chain)

namespace RespectsMeetings

/-- Then the slot is loaded. -/
theorem of_loaded (respects : RespectsMeetings into related) (held : into slot)
    (chain : Raise.Chain (Supplied location slot) hits (before.opened location ty) after) :
    related before.func (after.func.withInstruction block ty (.load slot)) :=
  respects.trans _ _ _ (respects.of_opened held chain) (respects.load _ _ _ _ held)

/-- What was loaded is converted, and named after the location. -/
theorem of_delivered {func : Function} (respects : RespectsMeetings into related) (held : into slot)
    (chain : Raise.Chain (Supplied location slot) hits (before.opened location ty) after)
    (converts : Converted (after.func.withInstruction block ty (.load slot)) block
      after.func.values.size target value func) :
    related before.func (func.withName value location.name) := by
  have plain : ∀ slot, func.operation value ≠ .slotAddress slot := by
    cases converts with
    | same _ => simp
    | cast _ _ => simp
  have grown := respects.trans _ _ _ (respects.of_loaded held chain) (respects.of_converted converts)
  exact respects.trans _ _ _ grown (respects.name func location value plain)

theorem of_met (respects : RespectsMeetings into related) (held : into before.func.slots.size)
    (met : Met location ty block hits native before value after) :
    related before.func after.func := by
  cases met with
  | intro chain converts _ => exact respects.of_delivered held chain converts

/-- What is built before a meeting is given up respects the relation as well. -/
theorem of_abandoned (respects : RespectsMeetings into related) (held : into before.func.slots.size)
    (abandoned : Abandoned location ty block hits native before after) :
    related before.func after.func := by
  cases abandoned with
  | unsupplied _ chain _ _ _ => exact respects.of_opened held chain
  | unconverted chain _ _ => exact respects.of_loaded held chain
  | unfiled chain converts _ => exact respects.of_delivered held chain converts

end RespectsMeetings

end RegisterFlow
