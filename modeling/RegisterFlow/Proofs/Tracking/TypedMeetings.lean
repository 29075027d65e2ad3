import RegisterFlow.Proofs.Code.Typing
import RegisterFlow.Proofs.Tracking.Deriving
import RegisterFlow.Proofs.Tracking.Supply
import RegisterFlow.Proofs.Tracking.WordMeetings

/-!
# Meetings keep the code well typed

Definitions meet in slots of integers. What is stored has been converted to the type of the slot, and
what is loaded to the type that is asked for, so whatever a meeting builds obeys the typing rules,
also where it is given up halfway.
-/

namespace RegisterFlow

open RegisterFlow.Function (GrowsTyped)

/-- Definitions meet in slots of integers. -/
theorem exists_meetingTy (func : Function) (fullWidth : Nat) (hits : List ReachingDefinition) :
    ∃ width, meetingTy func fullWidth hits = .int width := by
  unfold meetingTy
  split <;> exact ⟨_, rfl⟩

/-- A map that gives something for every item succeeds. -/
theorem exists_mapM_of_isSome {α β : Type} {step : α → Option β} {items : List α}
    (given : ∀ item ∈ items, (step item).isSome) : ∃ results, items.mapM step = some results := by
  induction items with
  | nil => exact ⟨[], rfl⟩
  | cons first rest ih =>
      rcases Option.isSome_iff_exists.mp (given first List.mem_cons_self) with ⟨result, first_eq⟩
      rcases ih fun item mem => given item (List.mem_cons_of_mem _ mem) with ⟨others, rest_eq⟩
      exact ⟨result :: others, by simp [List.mapM_cons, first_eq, rest_eq]⟩

/--
A slot holds integers. If the definitions that meet there are all known integers, none of them is
wider than the slot.
-/
def Function.Accommodates (func : Function) (slot : SlotId) (opening : Function)
    (hits : List ReachingDefinition) : Prop :=
  ∃ width, func.SlotHasTy slot (.int width) ∧
    ((∀ hit ∈ hits, (hit.integerWidth? opening).isSome) →
      ∀ hit ∈ hits, ∀ bits, hit.integerWidth? opening = some bits → bits ≤ width)

/-- The type in which definitions meet has room for all of them if they are known integers. -/
theorem Function.accommodates_of_meetingTy {func opening : Function} {slot : SlotId}
    {fullWidth : Nat} {hits : List ReachingDefinition}
    (typed : func.SlotHasTy slot (meetingTy opening fullWidth hits)) :
    func.Accommodates slot opening hits := by
  rcases exists_meetingTy opening fullWidth hits with ⟨width, meets⟩
  rw [meets] at typed
  refine ⟨width, typed, fun known hit mem bits given => ?_⟩
  rcases exists_mapM_of_isSome known with ⟨widths, mapped⟩
  rw [meetingTy, mapped] at meets
  cases meets
  rcases (mem_of_mapM_eq_some mapped).1 hit mem with ⟨other, other_mem, same⟩
  rw [given] at same
  cases same
  exact le_foldl_max (Or.inr other_mem)

theorem Function.Accommodates.mono {before after opening : Function} {slot : SlotId}
    {hits : List ReachingDefinition} (accommodates : before.Accommodates slot opening hits)
    (grown : before.Extends after) : after.Accommodates slot opening hits := by
  rcases accommodates with ⟨width, typed, widest⟩
  exact ⟨width, typed.mono grown, widest⟩

section Stores

variable {before after : Function} {block : BlockId} {value converted : ValueId} {target : Ty}
  {slot : SlotId} {width : Nat}

/-- Only values that exist are converted, and only by conversions that suit. -/
theorem Converted.growsTyped (converts : Converted before block value target converted after) :
    before.GrowsTyped after := by
  cases converts with
  | same typed => exact .refl _
  | cast differs convertible =>
      apply Function.growsTyped_withInstruction
      have held := Function.hasTy_of_ne (Conversion.ne_void_of_between? convertible) rfl
      exact ⟨_, held, Conversion.suits_of_between? convertible differs⟩

theorem Converted.hasTy (converts : Converted before block value target converted after)
    (proper : target ≠ .void) : after.HasTy converted target := by
  cases converts with
  | same typed => exact Function.hasTy_of_ne proper typed
  | cast _ _ => exact Function.hasTy_withInstruction

theorem Stored.growsTyped (stored : Stored before block slot value after)
    (typed : before.SlotHasTy slot (.int width)) : before.GrowsTyped after := by
  cases stored with
  | intro converted =>
      have grown := converted.growsTyped
      apply grown.trans
      apply Function.growsTyped_withInstruction
      rw [typed.2] at converted
      exact ⟨.int width, typed.mono grown.toExtends, converted.hasTy (by simp)⟩

end Stores

/-- A merge was made in a state, of the definitions that reached its block, and its slot has room. -/
def Merge.MadeWithRoom (graph : FlowGraph) (merge : Merge) (func : Function) : Prop :=
  ∃ (before after : Raising) (allPaths : Bool) (native : Option Ty),
    let hits := before.tracker.reaching graph merge.location merge.block allPaths
    Met merge.location (before.slotTy graph merge.location hits) merge.block hits native before
      merge.value after ∧
    merge.slot = before.func.slots.size ∧ after.func.Extends func ∧
    func.Accommodates merge.slot before.func hits

theorem Merge.MadeWithRoom.mono {graph : FlowGraph} {merge : Merge} {before after : Function}
    (made : merge.MadeWithRoom graph before) (grown : before.Extends after) :
    merge.MadeWithRoom graph after := by
  rcases made with ⟨opening, closing, allPaths, native, met, slot_eq, extends_before, room⟩
  exact ⟨opening, closing, allPaths, native, met, slot_eq, extends_before.trans grown,
    room.mono grown⟩

namespace Raising

/--
The code is well typed, merges were made in slots with room for what met there, and stores wait for
slots of integers.
-/
structure Typed (graph : FlowGraph) (raising : Raising) : Prop where
  code : raising.func.WellTyped
  merged : ∀ merge ∈ raising.tracker.merges, merge.MadeWithRoom graph raising.func
  waiting : ∀ store ∈ raising.tracker.deferred,
    ∃ width, raising.func.SlotHasTy store.slot (.int width)

/-- The function grew, and if everything was typed before, it is after. -/
structure StaysTyped (graph : FlowGraph) (before after : Raising) : Prop where
  grown : before.func.Extends after.func
  typed : before.Typed graph → after.Typed graph

variable {graph : FlowGraph} {before after : Raising}

instance : Std.Refl (StaysTyped graph) :=
  ⟨fun _ => ⟨.refl _, id⟩⟩

instance : IsTrans Raising (StaysTyped graph) :=
  ⟨fun _ _ _ first second =>
    ⟨first.grown.trans second.grown, second.typed ∘ first.typed⟩⟩

/-- Everything stays typed if the code does and no merge or deferred store is added. -/
theorem staysTyped_of_growsTyped (grown : before.func.GrowsTyped after.func)
    (merges_eq : after.tracker.merges = before.tracker.merges)
    (deferred : after.tracker.deferred ⊆ before.tracker.deferred) :
    StaysTyped graph before after where
  grown := grown.toExtends
  typed typed := {
    code := grown.typed typed.code
    merged := fun merge mem => (typed.merged merge (merges_eq ▸ mem)).mono grown.toExtends
    waiting := by
      intro store mem
      rcases typed.waiting store (deferred mem) with ⟨width, holds⟩
      exact ⟨width, holds.mono grown.toExtends⟩ }

theorem staysTyped_build {func : Function} (grown : before.func.GrowsTyped func) :
    StaysTyped graph before { before with func } :=
  staysTyped_of_growsTyped grown rfl fun _ mem => mem

theorem staysTyped_opened (location : Location) (ty : Ty) :
    StaysTyped graph before (before.opened location ty) :=
  staysTyped_of_growsTyped (Function.growsTyped_withSlot _) rfl fun _ mem => mem

end Raising

section Meeting

open RegisterFlow.Raising (StaysTyped)

variable {graph : FlowGraph} {location : Location} {slot : SlotId} {block : BlockId} {width : Nat}
  {hits : List ReachingDefinition} {native : Option Ty} {allPaths : Bool} {value : ValueId}
  {before after : Raising}

theorem Supplied.staysTyped {hit : ReachingDefinition}
    (supplied : Supplied location slot hit before after)
    (typed : before.func.SlotHasTy slot (.int width)) : StaysTyped graph before after := by
  cases supplied with
  | known stored => exact Raising.staysTyped_build (stored.growsTyped typed)
  | pending =>
      refine ⟨.refl _, fun holds => { holds with waiting := ?_ }⟩
      intro store mem
      rcases List.mem_append.mp mem with old | new
      · exact holds.waiting store old
      · cases List.mem_singleton.mp new
        exact ⟨width, typed⟩

theorem Raise.Chain.staysTyped (chain : Raise.Chain (Supplied location slot) hits before after)
    (typed : before.func.SlotHasTy slot (.int width)) : StaysTyped graph before after := by
  induction chain with
  | nil _ => exact Std.Refl.refl _
  | cons first _ ih =>
      have supplies : StaysTyped graph _ _ := first.staysTyped typed
      exact IsTrans.trans _ _ _ supplies (ih (typed.mono supplies.grown))

theorem Raise.Chain.staysTyped_opened
    (chain : Raise.Chain (Supplied location before.func.slots.size) hits
      (before.opened location (.int width)) after) : StaysTyped graph before after :=
  IsTrans.trans _ _ _ (Raising.staysTyped_opened location (.int width))
    (chain.staysTyped (Function.slotHasTy_withSlot _))

/-- What a meeting loads and converts is well typed. -/
theorem growsTyped_load {func delivered : Function} {ty target : Ty}
    (converted : Converted (func.withInstruction block ty (.load slot)) block func.values.size
      target value delivered) :
    func.GrowsTyped delivered := by
  have loads : func.Types ty (.load slot) := trivial
  exact (Function.growsTyped_withInstruction loads).trans converted.growsTyped

theorem Met.slotHasTy {ty : Ty} (met : Met location ty block hits native before value after) :
    after.func.SlotHasTy before.func.slots.size ty :=
  ⟨met.slot_lt, met.slotTy_eq⟩

/-- The slot is there as well if the meeting was given up. -/
theorem Abandoned.slotHasTy {ty : Ty}
    (abandoned : Abandoned location ty block hits native before after) :
    after.func.SlotHasTy before.func.slots.size ty := by
  rcases abandoned.exists_chain with ⟨done, supplied, -, chain, quiet, -⟩
  constructor
  · rw [quiet.slots_eq]
    exact chain.slot_lt_opened
  · rw [quiet.slotTy_eq _ chain.slot_lt_opened, Raise.slotTy_of_chain chain]

/-- What a meeting reads has the type that was asked for. -/
theorem Met.hasTy {ty : Ty} (met : Met location ty block hits native before value after)
    (proper : native.getD ty ≠ .void) : after.func.HasTy value (native.getD ty) :=
  Function.hasTy_of_ne proper met.computes.ty_eq

/-- Meetings of the definitions that reach a block keep everything typed. -/
theorem Met.staysTyped
    (reached : before.tracker.reaching graph location block allPaths = hits)
    (met : Met location (before.slotTy graph location hits) block hits native before value after) :
    StaysTyped graph before after := by
  rcases exists_meetingTy before.func (graph.convention.fullWidth location) hits with ⟨width, meets⟩
  have integral : before.slotTy graph location hits = .int width := meets
  have room : after.func.Accommodates before.func.slots.size before.func hits :=
    Function.accommodates_of_meetingTy met.slotHasTy
  have made : Merge.MadeWithRoom graph
      { location, block, slot := before.func.slots.size, value } after.func := by
    refine ⟨before, after, allPaths, native, ?_⟩
    rw [reached]
    exact ⟨met, rfl, .refl _, room⟩
  rw [integral] at met
  cases met with
  | @intro supplied _ func table chain converted filed =>
      have supplies : StaysTyped graph before supplied := chain.staysTyped_opened
      have loads : supplied.func.GrowsTyped (func.withName value location.name) :=
        (growsTyped_load converted).trans (Function.growsTyped_withName location.name)
      refine ⟨supplies.grown.trans loads.toExtends, fun typed => ?_⟩
      have kept := supplies.typed typed
      refine ⟨loads.typed kept.code, ?_, ?_⟩
      · intro merge mem
        rcases List.mem_append.mp mem with old | new
        · exact (kept.merged merge old).mono loads.toExtends
        · cases List.mem_singleton.mp new
          exact made
      · intro store mem
        rcases kept.waiting store mem with ⟨width, holds⟩
        exact ⟨width, holds.mono loads.toExtends⟩

/-- So do meetings that are given up. -/
theorem Abandoned.staysTyped
    (abandoned : Abandoned location (before.slotTy graph location hits) block hits native before
      after) : StaysTyped graph before after := by
  rcases exists_meetingTy before.func (graph.convention.fullWidth location) hits with ⟨width, meets⟩
  have integral : before.slotTy graph location hits = .int width := meets
  rw [integral] at abandoned
  cases abandoned with
  | unsupplied split chain _ _ _ => exact chain.staysTyped_opened
  | unconverted chain _ _ =>
      exact IsTrans.trans _ _ _ chain.staysTyped_opened
        (Raising.staysTyped_build (Function.growsTyped_withInstruction trivial))
  | unfiled chain converted _ =>
      exact IsTrans.trans _ _ _ chain.staysTyped_opened
        (Raising.staysTyped_build
          ((growsTyped_load converted).trans (Function.growsTyped_withName _)))

/-- Deferred stores are made at the type of their slots. -/
theorem Settled.staysTyped {store : DeferredStore} (settled : Settled graph store before after)
    (typed : before.func.SlotHasTy store.slot (.int width)) : StaysTyped graph before after := by
  cases settled with
  | intro known stored => exact Raising.staysTyped_build (stored.growsTyped typed)

theorem Raise.Chain.staysTyped_settled {stores : List DeferredStore}
    (chain : Raise.Chain (Settled graph) stores before after)
    (typed : ∀ store ∈ stores, ∃ width, before.func.SlotHasTy store.slot (.int width)) :
    StaysTyped graph before after := by
  induction chain with
  | nil _ => exact Std.Refl.refl _
  | cons first _ ih =>
      rcases typed _ List.mem_cons_self with ⟨width, holds⟩
      have settles : StaysTyped graph _ _ := first.staysTyped holds
      refine IsTrans.trans _ _ _ settles (ih fun store mem => ?_)
      rcases typed store (List.mem_cons_of_mem _ mem) with ⟨width, holds⟩
      exact ⟨width, holds.mono settles.grown⟩

end Meeting

namespace Raise

open RegisterFlow.Raising (StaysTyped)

variable {graph : FlowGraph} {location : Location} {block : BlockId} {allPaths asNative : Bool}
  {before : Raising}

/-- Reads keep everything typed. -/
theorem leads_readLocation_staysTyped (native : Ty) :
    Leads (StaysTyped graph) (Read graph location native block allPaths asNative before)
      (readLocation graph location native block allPaths asNative) before := by
  have counted : ∀ tally, StaysTyped graph before (before.tally tally) := fun tally =>
    Raising.staysTyped_of_growsTyped (.refl _) rfl fun _ mem => mem
  refine leads_readLocation_of_meetings counted ?_ ?_
  · intro _ _ _ _ reached _ met
    exact IsTrans.trans _ _ _ (counted _) (met.staysTyped reached)
  · intro _ _ _ _ _ abandoned
    exact IsTrans.trans _ _ _ (counted _) abandoned.staysTyped

/-- So does making all deferred stores, also when one of them fails. -/
theorem leads_settleAll_staysTyped (typed : before.Typed graph) :
    Leads (StaysTyped graph) (fun _ _ => True) (settleAll graph) before := by
  have released : StaysTyped graph before before.released :=
    Raising.staysTyped_of_growsTyped (.refl _) rfl (List.nil_subset _)
  refine leads_settleAll_of_settled (fun made chain => ?_) fun _ _ _ kept => ?_
  · refine IsTrans.trans _ _ _ released (chain.staysTyped_settled fun store mem => ?_)
    exact typed.waiting store (made.subset mem)
  · exact IsTrans.trans _ _ _ kept
      (Raising.staysTyped_of_growsTyped (.refl _) rfl fun _ mem => mem)

end Raise

end RegisterFlow
