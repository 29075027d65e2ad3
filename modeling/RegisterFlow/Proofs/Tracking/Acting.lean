import RegisterFlow.Proofs.Tracking.Deriving
import RegisterFlow.Proofs.Tracking.FlagSessions

/-!
# What every action respects

Actions are put together from a few steps: values are computed, named and filed, locations are read,
what is pending is dropped, and deferred stores are made. A relation between states that all these
steps respect is respected by every action, whether it succeeds or fails.
-/

namespace RegisterFlow

/-- Whether an action records a definition of a location in a block. -/
def Action.Records (graph : FlowGraph) (location : Location) (block : BlockId) : Action → Prop
  | writeRegister register worked _ =>
    worked = block ∧ graph.convention.locationOf register = .ok location
  | action => ∃ flag, location = .flag flag ∧ action.Sets flag block

/-- Whether an action calls an operation of the tracker, apart from making deferred stores. -/
def Action.isTracking : Action → Bool
  | readRegister .. | readFlag .. | findDefinitions .. | writeRegister .. | deriveFlag ..
  | writeFlag .. | endBlock _ => true
  | drain | constant .. | emit .. | terminate .. | allocate .. | rename .. => false

namespace Raise

/-- Filing leads along a relation that the new table respects. -/
theorem leads_define_of_record {related : Raising → Raising → Prop} [Std.Refl related]
    {location : Location} {block : BlockId} {width : Nat} {value : ValueId} {before : Raising}
    (file : ∀ table, before.tracker.table.record location block width value = .ok table →
      related before { before with tracker := { before.tracker with table } }) :
    Leads related (fun _ _ => True) (define location block width value) before := by
  have run := run_define location block width value before
  cases filed : before.tracker.table.record location block width value with
  | ok table =>
      rw [filed] at run
      exact .of_ok run (file table filed) trivial
  | error failure =>
      rw [filed] at run
      exact .of_error run (Std.Refl.refl _)

section Answers

variable {α β : Type} {related : Raising → Raising → Prop} [Std.Refl related]
  [IsTrans Raising related] {step : Raise α} {before : Raising}

theorem leads_answer (leads : Leads related (fun _ _ => True) step before) (answer : α → β) :
    Leads related (fun _ _ => True) (do return answer (← step)) before :=
  leads.bind fun _ _ _ _ => leads_pure trivial

theorem leads_discard_answer (leads : Leads related (fun _ _ => True) step before) (answer : β) :
    Leads related (fun _ _ => True) (do discard step; return answer) before :=
  leads.discard.bind fun _ _ _ _ => leads_pure trivial

end Answers

/--
That the parts of which an action consists lead along a relation: its reads, its derivation, the
stores that it makes and what it appends, allocates, names and drops itself from the state before
it, and whatever it builds, files and counts on the way.
-/
structure PartsLead (graph : FlowGraph) (related : Raising → Raising → Prop) (action : Action)
    (before : Raising) : Prop where
  tally : ∀ (state : Raising) (statistics : Statistics), related state { state with statistics }
  constant : ∀ (state : Raising) (ty : Ty) (number : UInt64),
    Leads related (fun _ _ => True) (build (Builder.constant ty number)) state
  file : ∀ location block, action.Records graph location block → ∀ width value state,
    Leads related (fun _ _ => True) (define location block width value) state
  /-- Flags are read at one bit. -/
  read : ∀ (location : Location) (native : Ty) (block : BlockId) (allPaths asNative : Bool),
    (location.isFlag → native = .bool ∧ asNative = true) →
    Leads related (fun _ _ => True)
      (readLocation graph location native block allPaths asNative) before
  derive : ∀ flag block family test, action = .deriveFlag flag block family test →
    Leads related (fun _ _ => True) (deriveFlag graph flag block family test) before
  drop : ∀ block, action = .endBlock block → related before
    { before with
      tracker := { before.tracker with table := before.tracker.table.withoutPending block } }
  settle : action = .drain → Leads related (fun _ _ => True) (settleAll graph) before
  emit : ∀ block emission, action = .emit block emission →
    related before { before with
      func := before.func.withInstruction block (emission.ty before.func) emission.operation }
  terminate : ∀ block ending, action = .terminate block ending →
    related before { before with func := before.func.withTerminator block ending.operation }
  allocate : ∀ ty base, action = .allocate ty base →
    related before { before with func := before.func.withSlot ty base }
  rename : ∀ id name, action = .rename id name →
    related before { before with func := before.func.withName id name }

variable {graph : FlowGraph} {related : Raising → Raising → Prop} {before : Raising}
  {action : Action}

/-- An action leads along a relation if its parts do, whether it succeeds or fails. -/
theorem PartsLead.leads_step [Std.Refl related] [IsTrans Raising related]
    (parts : PartsLead graph related action before) :
    Leads related (fun _ _ => True) (action.step graph) before := by
  have counts : ∀ tally state, Leads related (fun _ _ => True) (count tally) state :=
    fun tally state => .of_ok (run_count tally state) (parts.tally state _) trivial
  cases action with
  | readRegister register block allPaths asNative =>
      refine (leads_ofExcept _).bind ?_
      rintro location middle - ⟨located, rfl⟩
      apply parts.read
      intro flagged
      rw [isFlag_of_locationOf located] at flagged
      cases flagged
  | readFlag flag block =>
      refine (leads_ofExcept _).bind ?_
      rintro location middle - ⟨-, rfl⟩
      exact parts.read _ _ _ _ _ fun _ => ⟨rfl, rfl⟩
  | findDefinitions register block allPaths =>
      apply leads_discard_answer
      refine (leads_ofExcept _).bind ?_
      rintro location middle - -
      exact .of_ok rfl (Std.Refl.refl _) trivial
  | writeRegister register block value =>
      refine leads_answer ?_ fun _ => none
      refine (leads_ofExcept _).bind ?_
      rintro location middle - ⟨located, -⟩
      exact (parts.file _ _ ⟨rfl, located⟩ _ _ _).bind fun _ _ _ _ => counts _ _
  | deriveFlag flag block family test =>
      exact leads_answer (parts.derive flag block family test rfl) fun _ => none
  | writeFlag flag block truth =>
      refine leads_answer ?_ fun _ => none
      refine (leads_ofExcept _).bind ?_
      rintro location middle - ⟨tracked, -⟩
      obtain rfl := location_of_ofFlag tracked
      have builds : Leads related (fun _ _ => True) (build (Builder.boolean truth)) middle :=
        parts.constant middle .bool truth.toUInt64
      refine builds.bind ?_
      rintro value middle - -
      exact (parts.file _ _ ⟨_, rfl, rfl, rfl⟩ _ _ _).bind fun _ _ _ _ => counts _ _
  | endBlock block =>
      apply leads_discard_answer
      exact .of_ok rfl (IsTrans.trans _ _ _ (parts.drop block rfl) (parts.tally _ _)) trivial
  | drain => exact leads_discard_answer (parts.settle rfl) none
  | constant ty number => exact leads_answer (parts.constant before ty number) some
  | emit block emission =>
      refine leads_answer (.of_ok (run_build ..) ?_ trivial) some
      rw [Emission.run_build]
      exact parts.emit block emission rfl
  | terminate block ending =>
      refine leads_answer (.of_ok (run_build ..) ?_ trivial) some
      rw [Ending.run_build]
      exact parts.terminate block ending rfl
  | allocate ty base =>
      apply leads_discard_answer
      exact .of_ok (run_build ..) (parts.allocate ty base rfl) trivial
  | rename id name =>
      refine leads_answer ?_ fun _ => none
      exact .of_ok (run_build ..) (parts.rename id name rfl) trivial

/--
A relation between states that the steps respect of which the operations of the tracker consist. It
is left open which definitions are filed and dropped.
-/
structure RespectsTracking (graph : FlowGraph) (related : Raising → Raising → Prop) : Prop where
  tally : ∀ (before : Raising) (statistics : Statistics), related before { before with statistics }
  compute : ∀ (before : Raising) (block : BlockId) (func : Function),
    before.func.Computations block func → related before { before with func }
  rename : ∀ (before : Raising) (id : ValueId) (name : String),
    related before { before with func := before.func.withName id name }
  /-- Flags are read at one bit. -/
  read : ∀ (before : Raising) (location : Location) (native : Ty) (block : BlockId)
    (allPaths asNative : Bool), (location.isFlag → native = .bool ∧ asNative = true) →
    Leads related (fun _ _ => True)
      (readLocation graph location native block allPaths asNative) before

/--
A relation that the steps respect of which all actions consist. It is left open as well what the
driver itself appends and allocates.
-/
structure Respects (graph : FlowGraph) (related : Raising → Raising → Prop) : Prop
    extends RespectsTracking graph related where
  terminate : ∀ (before : Raising) (block : BlockId) (operation : Operation),
    related before { before with func := before.func.withTerminator block operation }
  settle : ∀ before : Raising, Leads related (fun _ _ => True) (settleAll graph) before

namespace RespectsTracking

theorem derives (respects : RespectsTracking graph related) (block : BlockId) :
    Derives graph block related where
  compute before func := respects.compute before block func
  readCarry before := respects.read before _ _ _ _ _ fun _ => ⟨rfl, rfl⟩

theorem constant (respects : RespectsTracking graph related) (state : Raising) (ty : Ty)
    (number : UInt64) : Leads related (fun _ _ => True) (build (Builder.constant ty number)) state :=
  .of_ok (run_build ..) (respects.compute _ 0 _ (Builder.computesIn_constant ..)) trivial

variable [Std.Refl related] [IsTrans Raising related]

theorem deriveFlag {flag : Flag} {block : BlockId} {family : Family} {test : ValueId}
    (respects : RespectsTracking graph related)
    (file : ∀ location worked,
      (Action.deriveFlag flag block family test).Records graph location worked → ∀ width value state,
      Leads related (fun _ _ => True) (define location worked width value) state) :
    Leads related (fun _ _ => True) (deriveFlag graph flag block family test) before := by
  refine (respects.derives block).deriveFlag respects.rename respects.tally ?_ test
  rintro middle set value (rfl | alike)
  · exact file _ _ ⟨_, rfl, rfl, .inl rfl⟩ _ _ _
  · exact file _ _ ⟨_, rfl, rfl, .inr alike⟩ _ _ _

/-- Every operation of the tracker respects such a relation if what it files and drops does. -/
theorem leads_step (respects : RespectsTracking graph related) (tracking : action.isTracking = true)
    (file : ∀ location block, action.Records graph location block → ∀ width value before,
      Leads related (fun _ _ => True) (define location block width value) before)
    (drop : ∀ block, action = .endBlock block → ∀ before : Raising, related before
      { before with
        tracker := { before.tracker with table := before.tracker.table.withoutPending block } }) :
    Leads related (fun _ _ => True) (action.step graph) before := by
  apply PartsLead.leads_step
  exact {
    tally := respects.tally
    constant := respects.constant
    file := file
    read := respects.read before
    derive := by
      rintro flag block family test rfl
      exact respects.deriveFlag file
    drop := fun block ends => drop block ends before
    settle := by
      rintro rfl
      cases tracking
    emit := by
      rintro block emission rfl
      cases tracking
    terminate := by
      rintro block ending rfl
      cases tracking
    allocate := by
      rintro ty base rfl
      cases tracking
    rename := fun id name _ => respects.rename before id name }

end RespectsTracking

namespace Respects

variable [Std.Refl related] [IsTrans Raising related]

/-- Every action respects such a relation if what it files, drops, appends or allocates does. -/
theorem leads_step (respects : Respects graph related)
    (file : ∀ location block, action.Records graph location block → ∀ width value before,
      Leads related (fun _ _ => True) (define location block width value) before)
    (drop : ∀ block, action = .endBlock block → ∀ before : Raising, related before
      { before with
        tracker := { before.tracker with table := before.tracker.table.withoutPending block } })
    (emit : ∀ block emission, action = .emit block emission →
      related before { before with
        func := before.func.withInstruction block (emission.ty before.func) emission.operation })
    (allocate : ∀ ty base, action = .allocate ty base →
      related before { before with func := before.func.withSlot ty base }) :
    Leads related (fun _ _ => True) (action.step graph) before := by
  apply PartsLead.leads_step
  exact {
    tally := respects.tally
    constant := respects.toRespectsTracking.constant
    file := file
    read := respects.read before
    derive := by
      rintro flag block family test rfl
      exact respects.toRespectsTracking.deriveFlag file
    drop := fun block ends => drop block ends before
    settle := fun _ => respects.settle before
    emit := emit
    terminate := fun block ending _ => respects.terminate before block ending.operation
    allocate := allocate
    rename := fun id name _ => respects.rename before id name }

end Respects

end Raise

end RegisterFlow
