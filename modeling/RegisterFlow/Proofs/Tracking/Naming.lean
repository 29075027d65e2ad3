import RegisterFlow.Proofs.Code.Operands
import RegisterFlow.Proofs.Tracking.Acting
import RegisterFlow.Proofs.Tracking.FlagBits
import RegisterFlow.Proofs.Tracking.MeetingGrowth

/-!
# Names that tracking gives

Tracking names what it loads where definitions meet after the location, the slot there after the
location and the meeting, and the values of flags after the flag. It never names the address of a
slot: what it names are loads and their conversions, and bits. Where a driver gives no names itself,
the function is labelled at all times, and its text is unambiguous.
-/

namespace RegisterFlow

open Raise (Leads Keeps)

/-- Whether an action gives a value or a slot a name that the driver chooses. -/
def Action.givesName : Action → Bool
  | allocate .. | rename .. => true
  | _ => false

/-- The function that is built stays labelled. -/
abbrev Raising.KeepsLabels : Raising → Raising → Prop :=
  Keeps fun raising => raising.func.Labelled

/-- A meeting keeps the function labelled: what it names after the location is a load or a cast. -/
theorem Function.respectsMeetings_labelled :
    RespectsMeetings (fun _ => True) fun before after => before.Labelled → after.Labelled where
  refl _ := id
  trans _ _ _ first second := second ∘ first
  cast _ block target _ _ labelled := labelled.withInstruction block target rfl
  store _ block _ _ _ labelled := labelled.withInstruction block .void rfl
  allocate _ location ty labelled := labelled.withSlot ty location
  load _ block ty _ _ labelled := labelled.withInstruction block ty rfl
  name _ location _ plain labelled := labelled.withName location plain

/-! ### Steps -/

namespace Raise

open Raising (KeepsLabels)

variable {graph : FlowGraph} {block : BlockId} {before : Raising}

theorem leads_readLocation_labelled (graph : FlowGraph) (location : Location) (native : Ty)
    (block : BlockId) (allPaths asNative : Bool) (before : Raising) :
    Leads KeepsLabels (fun _ _ => True)
      (readLocation graph location native block allPaths asNative) before := by
  have respects := Function.respectsMeetings_labelled
  refine (leads_readLocation_of_meetings ?_ ?_ ?_).imp fun _ _ _ _ => trivial
  · exact fun _ => id
  · intro _ _ _ _ _ _ met
    have kept := respects.of_met trivial met
    exact kept
  · intro _ _ _ _ _ abandoned
    have kept := respects.of_abandoned trivial abandoned
    exact kept

theorem derives_labelled (graph : FlowGraph) (block : BlockId) :
    Derives graph block KeepsLabels where
  compute _ _ computations labelled := labelled.computations computations
  readCarry _ := leads_readLocation_labelled ..

theorem leads_define_labelled (location : Location) (block : BlockId) (width : Nat)
    (value : ValueId) (before : Raising) :
    Leads KeepsLabels (fun _ _ => True) (define location block width value) before :=
  leads_define_of_record fun _ _ => id

theorem leads_constant_labelled (ty : Ty) (number : UInt64) (before : Raising) :
    Leads KeepsLabels (fun _ _ => True) (build (Builder.constant ty number)) before :=
  .of_ok (run_build ..)
    (fun labelled => labelled.computations (Builder.computesIn_constant ty number before.func :
      Function.Computations 0 _ _))
    trivial

/-- A step that leads along two relations has the answers of both. -/
theorem Leads.answering {α : Type} {related further : Raising → Raising → Prop}
    {good best : α → Raising → Prop} {step : Raise α} (leads : Leads related good step before)
    (answers : Leads further best step before) : Leads related best step before := by
  cases outcome : step.run before with
  | ok answer after => exact .of_ok outcome (leads.ok outcome).1 (answers.ok outcome).2
  | error failure after => exact .of_error outcome (leads.error outcome)

/-- The value of a flag is a bit, so it is not the address of a slot and can be named. -/
theorem leads_deriveFlag_labelled (closed : graph.Closed) (flagged : before.Flagged graph)
    (flag : Flag) (family : Family) (test : ValueId) :
    Leads KeepsLabels (fun _ _ => True) (deriveFlag graph flag block family test) before := by
  apply leads_deriveFlag_of_flagValue
  · exact ((derives_labelled graph block).flagValue test).answering
      (leads_flagValue closed flagged test)
  · rintro value derived ⟨holds, -⟩ labelled
    refine labelled.withName (.flag flag) fun slot addresses => ?_
    have typed := (labelled.addresses value slot addresses).2.2
    rw [holds.ty_eq] at typed
    cases typed
  · exact fun _ _ => id
  · exact fun _ _ _ _ => leads_define_labelled ..

theorem leads_settleAll_labelled (graph : FlowGraph) (before : Raising) :
    Leads KeepsLabels (fun _ _ => True) (settleAll graph) before := by
  have respects := Function.respectsMeetings_labelled
  refine leads_settleAll_of_settled (fun _ chain => ?_) fun _ _ _ kept => kept
  have kept := respects.of_settled (fun _ _ => trivial) chain
  exact kept

end Raise

/-! ### Sessions -/

namespace Session

open Raising (KeepsLabels)

variable {graph : FlowGraph} {session : Session}

/-- Every action that gives no name of its own keeps the function labelled, also when it fails. -/
theorem labelled_perform (closed : graph.Closed) {action : Action}
    (nameless : action.givesName = false) (flagged : session.raising.Flagged graph)
    (labelled : session.raising.func.Labelled) :
    (session.perform graph action).raising.func.Labelled := by
  have leads : Leads KeepsLabels (fun _ _ => True) (action.step graph) session.raising := by
    apply Raise.PartsLead.leads_step
    exact {
      tally := fun _ _ => id
      constant := fun state ty number => Raise.leads_constant_labelled ty number state
      file := fun _ _ _ _ _ _ => Raise.leads_define_labelled ..
      read := fun _ _ _ _ _ _ => Raise.leads_readLocation_labelled ..
      derive := fun flag _ family test _ =>
        Raise.leads_deriveFlag_labelled closed flagged flag family test
      drop := fun _ _ => id
      settle := fun _ => Raise.leads_settleAll_labelled ..
      emit := fun block emission _ labelled =>
        labelled.withInstruction block _ emission.isLeaf_operation
      terminate := fun block ending _ labelled =>
        labelled.withTerminator block ending.isTerminator_operation
      allocate := by
        rintro ty base rfl
        cases nameless
      rename := by
        rintro id name rfl
        cases nameless }
  exact leads.final labelled

theorem labelled_after (closed : graph.Closed) {actions : List Action}
    (nameless : ∀ action ∈ actions, action.givesName = false)
    (bits : session.raising.BitFlags graph) (labelled : session.raising.func.Labelled) :
    (session.after graph actions).raising.func.Labelled := by
  refine (keeps_after (motive := fun later => later.raising.BitFlags graph ∧
    later.raising.func.Labelled) ?_ ⟨bits, labelled⟩).2
  rintro later action mem ⟨bits, labelled⟩
  exact ⟨bitFlags_perform closed action bits,
    labelled_perform closed (nameless action mem) bits.flagged labelled⟩

theorem Starts.labelled (starts : Starts graph session) : session.raising.func.Labelled := by
  rcases starts with ⟨name, argumentTypes, blockNames, tracker, -, -, rfl⟩
  exact Function.labelled_empty ..

end Session

/--
As long as all names come from tracking, whatever else is done and whether it succeeds or fails, two
values that are no constants are referred to differently, and none of them like a constant; with its
type, a reference belongs to one value, constants included; and different slots are referred to
differently. So operations that are written alike read the same values, apart from constants that
are written alike, and load or store into the same slot.
-/
theorem references_unambiguous {graph : FlowGraph} {start : Session} {actions : List Action}
    (closed : graph.Closed) (starts : start.Starts graph)
    (nameless : ∀ action ∈ actions, action.givesName = false) :
    let func := (start.after graph actions).raising.func
    (∀ first second, first ≠ second → func.constant? first = none →
      func.constant? second = none → func.reference first ≠ func.reference second) ∧
    (∀ id other, func.constant? id = none → func.constant? other ≠ none →
      func.reference id ≠ func.reference other) ∧
    Function.Injective func.typedReference ∧
    (∀ slot < func.slots.size, ∀ other < func.slots.size,
      func.slotReference slot = func.slotReference other → slot = other) ∧
    ∀ ty another operation other, (∀ slot ∈ operation.accessed?, slot < func.slots.size) →
      (∀ slot ∈ other.accessed?, slot < func.slots.size) →
      func.operationText ty operation = func.operationText another other →
      List.Forall₂ func.Alike operation.operands other.operands ∧
        operation.accessed? = other.accessed? := by
  intro func
  have labelled : func.Labelled :=
    Session.labelled_after closed nameless (Session.bitFlags_of_start starts.tracker_eq)
      starts.labelled
  refine ⟨?_, ?_, labelled.typedReference_injective, ?_, ?_⟩
  · intro first second different unheld _ same
    exact different (labelled.eq_of_reference_eq unheld same)
  · intro id other unheld held same
    rw [labelled.eq_of_reference_eq unheld same] at unheld
    exact held unheld
  · exact fun slot held other other_held => labelled.eq_of_slotReference_eq held other_held
  · exact fun ty another operation other => labelled.operands_of_operationText_eq

/-- Around a loop, a register meets at the exit and in the header, and a flag in the header. -/
def loopNamings : List Action :=
  [.writeRegister .rax 0 0, .emit 2 (.binary .add 0 0), .writeRegister .rax 2 1,
    .readRegister .rax 3 false true, .readRegister .rax 1 false true,
    .deriveFlag .zero 0 .compare 0, .deriveFlag .zero 2 .compare 1, .readFlag .zero 1]

/-- The second slot of the register has a number behind its name, as the loaded values have. -/
theorem references_unambiguous_loop :
    loopGraph.Closed ∧ loopSession.Starts loopGraph ∧
      (∀ action ∈ loopNamings, action.givesName = false) ∧
      let func := (loopSession.after loopGraph loopNamings).raising.func
      func.slotReference 0 = "%rax-merge" ∧ func.slotReference 1 = "%rax-merge.1" ∧
      func.reference 5 = "%rax.5" ∧ func.reference 9 = "%rax.9" ∧ func.reference 12 = "%zf.12" ∧
      func.reference 1 = "%1" ∧ func.reference 10 = "0" ∧
      (∀ id, id ≠ 9 → func.constant? id = none → func.reference id ≠ "%rax.9") ∧
      func.reference 1 ≠ func.reference 10 := by
  have starts : loopSession.Starts loopGraph := raisesInOrder_loop.starts
  have nameless : ∀ action ∈ loopNamings, action.givesName = false := by
    simp [loopNamings, Action.givesName]
  rcases references_unambiguous closed_loopGraph starts nameless with
    ⟨different, apart, -, -, -⟩
  have ninth : (loopSession.after loopGraph loopNamings).raising.func.reference 9 = "%rax.9" := by
    cbv
  refine ⟨closed_loopGraph, starts, nameless, by cbv, by cbv, by cbv, ninth, by cbv, by cbv, by cbv,
    ?_, ?_⟩
  · intro id other unheld
    rw [← ninth]
    exact different id 9 other unheld (by cbv)
  · have zero : (loopSession.after loopGraph loopNamings).raising.func.constant? 10 = some 0 := by
      cbv
    exact apart 1 10 (by cbv) (by simp [zero])

end RegisterFlow
