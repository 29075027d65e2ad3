import RegisterFlow.Proofs.Tracking.MergePoints
import RegisterFlow.Proofs.Tracking.RuleCode
import RegisterFlow.Proofs.Tracking.TypedMeetings

/-!
# Tracked code is well typed

However a driver calls the operations of the tracker, and also where they fail, a function that was
well typed stays so, as long as the instructions that the driver appends itself are well typed. The
slots in which definitions meet hold integers, wide enough for what meets there if that is known.
-/

namespace RegisterFlow

open RegisterFlow.Raising (StaysTyped)

variable {graph : FlowGraph} {before : Raising} {action : Action}

namespace Raise

/-- Flag rules append well-typed instructions to well-typed functions. -/
theorem respectsRules_staysTyped (graph : FlowGraph) (block : BlockId) :
    RespectsRules graph block Function.WellTyped (StaysTyped graph) where
  grown related := related.grown
  constant _ _ _ := Raising.staysTyped_build (Function.growsTyped_withLeaf rfl)
  binary _ left right :=
    Raising.staysTyped_build (Function.growsTyped_withInstruction ⟨_, left, right⟩)
  compare _ left right :=
    Raising.staysTyped_build (Function.growsTyped_withInstruction ⟨_, left, right⟩)
  select _ ifTrue ifFalse :=
    Raising.staysTyped_build (Function.growsTyped_withInstruction ⟨_, ifTrue, ifFalse⟩)
  check _ typed produced :=
    Raising.staysTyped_build (Function.growsTyped_withInstruction (typed.operands produced))
  compareBack _ typed produced := by
    rcases typed.operands produced with ⟨bits, left, right⟩
    exact Raising.staysTyped_build (Function.growsTyped_withInstruction ⟨bits, right, left⟩)
  readCarry _ := leads_readLocation_staysTyped .bool

theorem leads_define_staysTyped {location : Location} {block : BlockId} {width : Nat}
    {value : ValueId} :
    Leads (StaysTyped graph) (fun _ _ => True) (define location block width value) before :=
  leads_define_of_record fun _ _ => Raising.staysTyped_of_growsTyped (.refl _) rfl fun _ mem => mem

theorem leads_count_staysTyped (tally : Statistics → Statistics) :
    Leads (StaysTyped graph) (fun _ _ => True) (count tally) before :=
  .of_ok (run_count ..) (Raising.staysTyped_of_growsTyped (.refl _) rfl fun _ mem => mem) trivial

theorem leads_deriveFlag_staysTyped (closed : graph.Closed) (flagged : before.Flagged graph)
    (typed : before.func.WellTyped) (flag : Flag) (block : BlockId) (family : Family)
    (test : ValueId) :
    Leads (StaysTyped graph) (fun _ _ => True) (deriveFlag graph flag block family test)
      before := by
  apply leads_deriveFlag_of_flagValue
  · exact (respectsRules_staysTyped graph block).leads_flagValue closed flagged typed
  · exact fun _ _ _ => Raising.staysTyped_build (Function.growsTyped_withName _)
  · exact fun _ _ => Raising.staysTyped_of_growsTyped (.refl _) rfl fun _ mem => mem
  · exact fun _ _ _ _ => leads_define_staysTyped

/-- Every action keeps everything typed, whether it succeeds or fails. -/
theorem leads_step_staysTyped (closed : graph.Closed) (flagged : before.Flagged graph)
    (typed : before.Typed graph)
    (emits : ∀ block emission, action = .emit block emission →
      before.func.Types (emission.ty before.func) emission.operation) :
    Leads (StaysTyped graph) (fun _ _ => True) (action.step graph) before := by
  apply PartsLead.leads_step
  exact {
    tally := fun _ _ => Raising.staysTyped_of_growsTyped (.refl _) rfl fun _ mem => mem
    constant := fun _ ty number =>
      ((respectsRules_staysTyped graph 0).leads_constant ty number).imp fun _ _ _ _ => trivial
    file := fun _ _ _ _ _ _ => leads_define_staysTyped
    read := fun _ _ _ _ _ _ => (leads_readLocation_staysTyped _).imp fun _ _ _ _ => trivial
    derive := fun _ _ _ _ _ => leads_deriveFlag_staysTyped closed flagged typed.code ..
    drop := fun _ _ => Raising.staysTyped_of_growsTyped (.refl _) rfl fun _ mem => mem
    settle := fun _ => leads_settleAll_staysTyped typed
    emit := fun block emission emitted =>
      Raising.staysTyped_build (Function.growsTyped_withInstruction (emits block emission emitted))
    terminate := by
      intro block ending _
      apply Raising.staysTyped_build
      apply Function.growsTyped_withTerminator
      cases ending <;> rfl
    allocate := fun _ _ _ => Raising.staysTyped_build (Function.growsTyped_withSlot _)
    rename := fun _ _ _ => Raising.staysTyped_build (Function.growsTyped_withName _) }

theorem leads_conclude_staysTyped (typed : before.Typed graph) :
    Leads (StaysTyped graph) (fun _ _ => True) (conclude graph) before := by
  refine (leads_settleAll_staysTyped typed).discard.bind ?_
  rintro _ middle - -
  refine (leads_count_staysTyped _).bind ?_
  rintro _ middle - -
  exact .of_ok rfl (Std.Refl.refl _) trivial

end Raise

namespace Session

variable {session start : Session} {actions : List Action}

/-- Every instruction that the driver appends itself is well typed when it is appended. -/
def EmitsTyped (graph : FlowGraph) (session : Session) (actions : List Action) : Prop :=
  ∀ earlier block emission later, actions = earlier ++ .emit block emission :: later →
    let func := (session.after graph earlier).raising.func
    func.Types (emission.ty func) emission.operation

theorem EmitsTyped.tail (emits : EmitsTyped graph session (action :: actions)) :
    EmitsTyped graph (session.perform graph action) actions := by
  rintro earlier block emission later rfl
  exact emits (action :: earlier) block emission later rfl

/-- Nothing has met at the start, and no store waits. -/
theorem typed_of_start
    (starts : Tracker.start graph start.raising.func = .ok start.raising.tracker)
    (typed : start.raising.func.WellTyped) : start.raising.Typed graph := by
  have initial := Tracker.initial_of_start starts
  refine ⟨typed, ?_, ?_⟩
  · rw [initial.merges]
    exact fun _ mem => absurd mem List.not_mem_nil
  · rw [initial.deferred]
    exact fun _ mem => absurd mem List.not_mem_nil

theorem typed_after (closed : graph.Closed) (bits : session.raising.BitFlags graph)
    (typed : session.raising.Typed graph) (emits : EmitsTyped graph session actions) :
    (session.after graph actions).raising.Typed graph := by
  induction actions generalizing session with
  | nil => exact typed
  | cons action actions ih =>
      apply ih (bitFlags_perform closed action bits) _ emits.tail
      have leads : Raise.Leads (StaysTyped graph) (fun _ _ => True) (action.step graph)
          session.raising := by
        apply Raise.leads_step_staysTyped closed bits.flagged typed
        rintro block emission rfl
        exact emits [] block emission actions rfl
      exact leads.final.typed typed

end Session

/-- A read of a location in a block needs a slot for several definitions to meet in. -/
structure Raising.NeedsSlot (graph : FlowGraph) (location : Location) (block : BlockId)
    (allPaths : Bool) (raising : Raising) : Prop where
  unknown : raising.tracker.valueIn? graph location block = none
  several : ReachingDefinition.Several (raising.tracker.reaching graph location block allPaths)

section NeedsSlot

variable {location : Location} {native : Ty} {block : BlockId} {allPaths asNative : Bool}
  {after : Raising} {value : ValueId}

/-- A read that needs a slot opens one with room for what meets there, also if the read fails. -/
theorem Raising.NeedsSlot.accommodates (needs : before.NeedsSlot graph location block allPaths) :
    ((Raise.readLocation graph location native block allPaths asNative).final before).func.Accommodates
      before.func.slots.size before.func
      (before.tracker.reaching graph location block allPaths) := by
  apply Function.accommodates_of_meetingTy
  show Function.SlotHasTy _ _ (before.slotTy graph location _)
  rcases Raise.run_readLocation graph location native block allPaths asNative before with
    ⟨answer, after, read, succeeds⟩ | ⟨failure, after, failed, fails⟩
  · rw [Raise.final_of_ok succeeds]
    cases read with
    | held known => simp [needs.unknown] at known
    | missing _ unreached => exact absurd unreached needs.several.1
    | direct _ reached => exact absurd reached (needs.several.2 _ _)
    | met _ reached _ met =>
        cases reached
        exact met.slotHasTy
  · rw [Raise.final_of_error fails]
    cases failed with
    | intro _ reached _ abandoned =>
        cases reached
        exact abandoned.slotHasTy

/-- What is read from a slot has the type at which the location is read. -/
theorem Raising.NeedsSlot.hasTy (needs : before.NeedsSlot graph location block allPaths)
    (proper : native ≠ .void)
    (run : (Raise.readLocation graph location native block allPaths true).run before =
      .ok (some value) after) : after.func.HasTy value native := by
  cases Raise.read_of_run run with
  | held known => simp [needs.unknown] at known
  | direct _ reached => exact absurd reached (needs.several.2 _ _)
  | met _ _ _ met => exact met.hasTy proper

end NeedsSlot

/--
Tracking keeps a function well typed, whatever is tracked in which order and also where operations
fail, if the driver appends well-typed instructions only. Every merge was made in a slot of integers
with room for the definitions that met there, if all of them were known integers; a read that needs
such a slot opens one, even if it fails; and what it reads of a register, if it is asked for at the
width of the register, is an integer of that width.
-/
theorem tracking_stays_well_typed {start : Session} {actions : List Action} (closed : graph.Closed)
    (starts : Tracker.start graph start.raising.func = .ok start.raising.tracker)
    (typed : start.raising.func.WellTyped) (emits : Session.EmitsTyped graph start actions) :
    let reached := (start.after graph actions).raising
    reached.func.WellTyped ∧
    ((Raise.conclude graph).final reached).func.WellTyped ∧
    (∀ merge ∈ reached.tracker.merges, merge.MadeWithRoom graph reached.func) ∧
    (∀ read location block allPaths, Action.Reads graph location block allPaths read →
      reached.NeedsSlot graph location block allPaths →
      ((read.step graph).final reached).func.Accommodates reached.func.slots.size reached.func
        (reached.tracker.reaching graph location block allPaths)) ∧
    ∀ register location block allPaths value after,
      graph.convention.locationOf register = .ok location →
      reached.NeedsSlot graph location block allPaths →
      (Raise.readRegister graph register block allPaths true).run reached =
        .ok (some value) after →
      after.func.HasTy value (.int (graph.convention.width register)) := by
  have reached_typed : (start.after graph actions).raising.Typed graph :=
    Session.typed_after closed (Session.bitFlags_of_start starts)
      (Session.typed_of_start starts typed) emits
  refine ⟨reached_typed.code, ?_, reached_typed.merged, ?_, ?_⟩
  · exact ((Raise.leads_conclude_staysTyped reached_typed).final.typed reached_typed).code
  · intro read location block allPaths reads needs
    rcases reads.exists_run_eq (start.after graph actions).raising with ⟨native, asNative, run_eq⟩
    rw [Raise.final, run_eq]
    exact needs.accommodates
  · intro register location block allPaths value after located needs run
    rw [Raise.readRegister, located] at run
    exact needs.hasTy (by simp) run

/-- Three arguments of different widths, written to the register in the arms of a fork. -/
def widthsStart : Session :=
  .starting forkGraph "widths" [.int 16, .int 32, .int 8]
    ["entry", "first", "second", "third", "join"]

/-- They meet in a slot of the widest one, and the register is read at its own width. -/
theorem tracking_stays_well_typed_fork :
    forkGraph.Closed ∧
      Tracker.start forkGraph widthsStart.raising.func = .ok widthsStart.raising.tracker ∧
      widthsStart.raising.func.WellTyped ∧
      Session.EmitsTyped forkGraph widthsStart forkWrites ∧
      Action.Reads forkGraph (.register .rax) 4 false forkRead ∧
      forkGraph.convention.locationOf .rax = .ok (.register .rax) ∧
      let reached := (widthsStart.after forkGraph forkWrites).raising
      reached.NeedsSlot forkGraph (.register .rax) 4 false ∧ reached.func.WellTyped ∧
      ((Raise.conclude forkGraph).final reached).func.WellTyped ∧
      let after := (forkRead.step forkGraph).final reached
      (Raise.readRegister forkGraph .rax 4 false true).run reached = .ok (some 10) after ∧
      after.func.HasTy 10 (.int 64) ∧
      after.func.Accommodates reached.func.slots.size reached.func
        (reached.tracker.reaching forkGraph (.register .rax) 4 false) := by
  have starts : Tracker.start forkGraph widthsStart.raising.func =
      .ok widthsStart.raising.tracker := by
    apply Session.Starts.tracker_eq
    apply Session.starts_starting rfl
    decide +kernel
  have typed : widthsStart.raising.func.WellTyped := Function.wellTyped_empty _ _ _
  have emits : Session.EmitsTyped forkGraph widthsStart forkWrites := by
    intro earlier block emission later split
    have mem : Action.emit block emission ∈ forkWrites := by simp [split]
    simp [forkWrites] at mem
  have reads : Action.Reads forkGraph (.register .rax) 4 false forkRead := ⟨rfl, rfl, rfl⟩
  have needs : (widthsStart.after forkGraph forkWrites).raising.NeedsSlot forkGraph
      (.register .rax) 4 false := by
    have count : ((widthsStart.after forkGraph forkWrites).raising.tracker.reaching forkGraph
        (.register .rax) 4 false).length = 3 := by
      cbv
    refine ⟨by cbv, ?_, ?_⟩
    · intro none_reach
      simp [none_reach] at count
    · intro source value single
      simp [single] at count
  have run : (Raise.readRegister forkGraph .rax 4 false true).run
      (widthsStart.after forkGraph forkWrites).raising =
        .ok (some 10) ((forkRead.step forkGraph).final
          (widthsStart.after forkGraph forkWrites).raising) := by
    cbv
  have holds := tracking_stays_well_typed closed_forkGraph starts typed emits
  have delivered := holds.2.2.2.2 _ _ _ _ _ _ rfl needs run
  exact ⟨closed_forkGraph, starts, typed, emits, reads, rfl, needs, holds.1, holds.2.1, run,
    delivered, holds.2.2.2.1 forkRead _ _ _ reads needs⟩

end RegisterFlow
