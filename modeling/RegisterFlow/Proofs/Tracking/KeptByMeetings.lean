import RegisterFlow.Proofs.Code.KeptByBuilding
import RegisterFlow.Proofs.Tracking.FlagLoads
import RegisterFlow.Proofs.Tracking.MergedReads

/-!
# What meetings keep

A meeting names only what the function holds: values that blocks know, the slot that it opened, and
what it appended before. So it keeps whatever building keeps, also where it is given up halfway, and
so does making the stores that were deferred.
-/

namespace RegisterFlow

open RegisterFlow.Function (KeptByBuilding)

section Stores

variable {kept : Function → Prop} {before after : Function} {block : BlockId} {slot : SlotId}
  {value converted : ValueId} {target : Ty}

theorem Converted.keeps (converts : Converted before block value target converted after)
    (building : KeptByBuilding kept) (held : value < before.values.size) (holds : kept before) :
    kept after := by
  cases converts with
  | same _ => exact holds
  | cast _ _ =>
      apply building.instruction _ _ holds
      apply Function.provides_of_operands (by simp)
      simpa [Operation.operands] using held

theorem Stored.keeps (stored : Stored before block slot value after)
    (building : KeptByBuilding kept) (held : value < before.values.size) (holds : kept before) :
    kept after := by
  cases stored with
  | intro converts =>
      apply building.instruction _ _ (converts.keeps building held holds)
      apply Function.provides_of_operands (by simp)
      simpa [Operation.operands] using converts.lt_size held

end Stores

section Meeting

variable {kept : Function → Prop} {graph : FlowGraph} {location : Location} {slot : SlotId}
  {block : BlockId} {hits : List ReachingDefinition} {native : Option Ty} {ty target : Ty}
  {value : ValueId} {before after : Raising}

theorem Raise.Chain.keeps_supplied (chain : Raise.Chain (Supplied location slot) hits before after)
    (building : KeptByBuilding kept) (held : ReachingDefinition.AllHeld hits before.func)
    (holds : kept before.func) : kept after.func := by
  induction chain with
  | nil _ => exact holds
  | @cons hit hits before middle after first rest ih =>
      have holds_still : kept middle.func := by
        cases first with
        | known stored => exact stored.keeps building (held _ List.mem_cons_self _ rfl) holds
        | pending => exact holds
      refine ih (fun later mem value known => ?_) holds_still
      exact Nat.lt_of_lt_of_le (held later (List.mem_cons_of_mem _ mem) value known)
        first.grows.size_le

/-! A meeting, step by step: its slot is opened and supplied, loaded, and what was loaded is named. -/

section Steps

variable {slot : SlotId}
  (chain : Raise.Chain (Supplied location slot) hits (before.opened location ty) after)
  (building : KeptByBuilding kept) (held : ReachingDefinition.AllHeld hits before.func)
  (holds : kept before.func)
include chain building held holds

theorem Raise.Chain.keeps_opened : kept after.func := by
  apply chain.keeps_supplied building
  · intro hit mem value known
    exact Nat.lt_of_lt_of_le (held hit mem value known) (Function.grows_withSlot ..).size_le
  · exact building.slot _ _ holds

theorem Raise.Chain.keeps_loaded (opened : slot < after.func.slots.size) :
    kept (after.func.withInstruction block ty (.load slot)) :=
  building.instruction _ _ (chain.keeps_opened building held holds) (Function.provides_load opened)

theorem Raise.Chain.keeps_delivered {func : Function} (opened : slot < after.func.slots.size)
    (converts : Converted (after.func.withInstruction block ty (.load slot)) block
      after.func.values.size target value func) :
    kept (func.withName value location.name) := by
  have loaded : kept (after.func.withInstruction block ty (.load slot)) :=
    chain.keeps_loaded building held holds opened
  exact building.name _ _ (converts.keeps building (by simp) loaded)

end Steps

theorem Met.keeps (met : Met location ty block hits native before value after)
    (building : KeptByBuilding kept) (held : ReachingDefinition.AllHeld hits before.func)
    (holds : kept before.func) : kept after.func := by
  cases met with
  | intro chain converts _ =>
      exact chain.keeps_delivered building held holds chain.slot_lt_opened converts

/-- What building keeps also holds where a meeting is given up. -/
theorem Abandoned.keeps (abandoned : Abandoned location ty block hits native before after)
    (building : KeptByBuilding kept) (held : ReachingDefinition.AllHeld hits before.func)
    (holds : kept before.func) : kept after.func := by
  cases abandoned with
  | unsupplied split chain _ _ _ =>
      apply chain.keeps_opened building _ holds
      intro hit mem value known
      exact held hit (split ▸ List.mem_append_left _ mem) value known
  | unconverted chain _ _ =>
      exact chain.keeps_loaded building held holds chain.slot_lt_opened
  | unfiled chain converts _ =>
      exact chain.keeps_delivered building held holds chain.slot_lt_opened converts

/-! ### Deferred stores -/

theorem Settled.keeps {store : DeferredStore} (settled : Settled graph store before after)
    (building : KeptByBuilding kept) (ranged : before.Ranged) (holds : kept before.func) :
    kept after.func := by
  cases settled with
  | intro known stored =>
      have held := ranged.lt_size (Tracker.valueIn?_eq_some_iff.mp known)
      exact stored.keeps building held holds

theorem Raise.Chain.keeps_settled {stores : List DeferredStore}
    (chain : Raise.Chain (Settled graph) stores before after) (building : KeptByBuilding kept)
    (ranged : before.Ranged) (holds : kept before.func) : kept after.func := by
  induction chain with
  | nil _ => exact holds
  | cons first _ ih =>
      apply ih _ (first.keeps building ranged holds)
      exact ranged.mono first.grows.toExtends (congrArg _ first.tracker_eq)
        (congrArg _ first.tracker_eq)

end Meeting

/-! ### Reads and drains -/

/-- Flags are known, so all values are held that meet where a flag is read. -/
theorem Raising.Flagged.allHeld {graph : FlowGraph} {flag : Flag} {block : BlockId}
    {before : Raising} (flagged : before.Flagged graph) (closed : graph.Closed) (allPaths : Bool) :
    ReachingDefinition.AllHeld (before.tracker.reaching graph (.flag flag) block allPaths)
      before.func := by
  intro hit mem value known
  rcases flagged.of_mem_reaching closed mem with ⟨truth, same, typed⟩
  rw [known] at same
  cases same
  exact Function.lt_size_of_ty (by simp) typed

/-- The function grew, and it still has a property if it had it. -/
structure Raising.StaysKept (kept : Function → Prop) (before after : Raising) : Prop where
  grown : before.func.Extends after.func
  keeps : kept before.func → kept after.func

section StaysKept

open RegisterFlow.Raising (StaysKept)

variable {kept : Function → Prop} {graph : FlowGraph} {location : Location} {block : BlockId}
  {allPaths asNative : Bool} {before after : Raising}

instance : Std.Refl (StaysKept kept) :=
  ⟨fun _ => ⟨.refl _, id⟩⟩

instance : IsTrans Raising (StaysKept kept) :=
  ⟨fun _ _ _ first second => ⟨first.grown.trans second.grown, second.keeps ∘ first.keeps⟩⟩

theorem Raising.staysKept_of_eq (same : after.func = before.func) : StaysKept kept before after := by
  constructor
  · rw [same]
    exact .refl _
  · rw [same]
    exact id

/-- Reads keep what building keeps, where the values exist that may meet. -/
theorem Raise.leads_readLocation_staysKept (building : KeptByBuilding kept) (native : Ty)
    (held : ReachingDefinition.AllHeld (before.tracker.reaching graph location block allPaths)
      before.func) :
    Leads (StaysKept kept) (Read graph location native block allPaths asNative before)
      (readLocation graph location native block allPaths asNative) before := by
  refine leads_readLocation_of_meetings (fun _ => Raising.staysKept_of_eq rfl) ?_ ?_
  · rintro _ _ _ - rfl - met
    exact ⟨met.grows.toExtends, met.keeps building held⟩
  · rintro _ _ - rfl - abandoned
    exact ⟨abandoned.grows.toExtends, abandoned.keeps building held⟩

/-- So does making all deferred stores, also when one of them fails. -/
theorem Raise.leads_settleAll_staysKept (building : KeptByBuilding kept) (ranged : before.Ranged) :
    Leads (StaysKept kept) (fun _ _ => True) (settleAll graph) before := by
  have released : before.released.Ranged := ranged.mono (.refl _) rfl rfl
  refine leads_settleAll_of_settled (fun _ chain => ?_) fun _ _ _ kept => ⟨kept.grown, kept.keeps⟩
  exact ⟨chain.grows_settled.toExtends, chain.keeps_settled building released⟩

end StaysKept

end RegisterFlow
