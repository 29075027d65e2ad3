import RegisterFlow.Proofs.Execution.Aside
import RegisterFlow.Proofs.Tracking.Acting
import RegisterFlow.Proofs.Tracking.FlagReads
import RegisterFlow.Proofs.Tracking.KeptByTracking
import RegisterFlow.Proofs.Tracking.MeetingGrowth

/-!
# The tracker leaves code alone

Whatever the operations of the tracker emit, they emit aside from the code that is there: constants,
computations and loads, and stores into slots that they allocate themselves. This holds whether they
succeed or fail, in any order and on any function. Only the stores that were deferred, which the end
of tracking makes, go into slots that are there already.
-/

namespace RegisterFlow

variable {location : Location} {block : BlockId}

/-! ### Meetings -/

/-- Whatever a meeting emits is aside if its slot is. -/
theorem Function.respectsMeetings_growsAside (fresh : SlotId) :
    RespectsMeetings (fresh ≤ ·) (Function.GrowsAside fresh) where
  refl := .refl fresh
  trans _ _ _ := .trans
  cast func _ _ _ _ := Function.growsAside_withInstruction func _ _ fun _ _ => by simp
  store func _ _ _ above := by
    apply Function.growsAside_withInstruction
    rintro _ _ ⟨rfl, rfl⟩
    exact above
  allocate func _ _ := Function.growsAside_withSlot fresh func _ _
  load func _ _ _ _ := Function.growsAside_withInstruction func _ _ fun _ _ => by simp
  name func _ _ _ := Function.growsAside_withName fresh func _ _

namespace Raising

/-- The function grew aside, and what was appended stores only into slots that are new to it. -/
def GrowsAside (before after : Raising) : Prop :=
  before.func.GrowsAside before.func.slots.size after.func

instance : Std.Refl GrowsAside :=
  ⟨fun _ => .refl ..⟩

instance : IsTrans Raising GrowsAside :=
  ⟨fun _ _ _ left right => left.trans (right.mono left.slotCount_le)⟩

variable {hits : List ReachingDefinition} {native : Option Ty} {ty : Ty} {before after : Raising}

/-- Definitions meet aside. -/
theorem growsAside_of_met {value : ValueId}
    (met : Met location ty block hits native before value after) : before.GrowsAside after :=
  (Function.respectsMeetings_growsAside _).of_met (Nat.le_refl _) met

/-- Locations are read aside. -/
theorem growsAside_of_read {graph : FlowGraph} {native : Ty} {allPaths asNative : Bool}
    {answer : Option ValueId}
    (read : Read graph location native block allPaths asNative before answer after) :
    before.GrowsAside after := by
  cases read with
  | held _ | missing _ _ | direct _ _ => exact Function.GrowsAside.refl ..
  | met _ _ _ met =>
      have aside := growsAside_of_met met
      exact aside

theorem leads_readLocation_growsAside (graph : FlowGraph) (location : Location) (native : Ty)
    (block : BlockId) (allPaths asNative : Bool) (before : Raising) :
    Raise.Leads GrowsAside (fun _ _ => True)
      (Raise.readLocation graph location native block allPaths asNative) before := by
  refine (Raise.leads_readLocation_of_meetings ?_ ?_ ?_).imp fun _ _ _ _ => trivial
  · exact fun _ => Function.GrowsAside.refl ..
  · intro _ _ _ _ _ _ met
    have aside := growsAside_of_met met
    exact aside
  · intro _ _ _ _ _ abandoned
    have aside := (Function.respectsMeetings_growsAside _).of_abandoned (Nat.le_refl _) abandoned
    exact aside

theorem respectsTracking_growsAside (graph : FlowGraph) :
    Raise.RespectsTracking graph GrowsAside where
  tally _ _ := Function.GrowsAside.refl ..
  compute _ _ _ computations := computations.growsAside _
  rename _ _ _ := Function.growsAside_withName ..
  read before location native block allPaths asNative _ :=
    leads_readLocation_growsAside graph location native block allPaths asNative before

end Raising

/-! ### Operations of the tracker -/

namespace Session

variable {graph : FlowGraph}

/-- Every operation of the tracker emits aside, whether it succeeds or fails. -/
theorem growsAside_perform (session : Session) {action : Action}
    (tracking : action.isTracking = true) :
    session.raising.GrowsAside (session.perform graph action).raising := by
  have leads : Raise.Leads Raising.GrowsAside (fun _ _ => True) (action.step graph)
      session.raising := by
    apply (Raising.respectsTracking_growsAside graph).leads_step tracking
    · intro location block _ width value before
      exact Raise.leads_define_of_record fun _ _ => Function.GrowsAside.refl ..
    · exact fun _ _ _ => Function.GrowsAside.refl ..
  exact leads.final

theorem growsAside_after (session : Session) {actions : List Action}
    (tracking : ∀ action ∈ actions, action.isTracking = true) :
    session.raising.GrowsAside (session.after graph actions).raising := by
  refine keeps_after (motive := (session.raising.GrowsAside ·.raising)) ?_ (Std.Refl.refl _)
  intro later action mem aside
  exact IsTrans.trans _ _ _ aside (later.growsAside_perform (tracking action mem))

/--
A driver that names only what exists need not ask whether the function mentions only what it holds:
what returns after operations of the tracker returned the same before them.
-/
theorem Built.exists_run {session : Session} {actions : List Action} {arguments : Array UInt64}
    {fuel : Nat} {result : Option UInt64} {final : EvalState} (built : session.Built graph)
    (closed : graph.Closed) (tracking : ∀ action ∈ actions, action.isTracking = true)
    (returns : ((session.after graph actions).raising.func.run arguments fuel).run {} =
      .ok result final) :
    ∃ state, (session.raising.func.run arguments fuel).run {} = .ok result state ∧
      ∀ id < session.raising.func.values.size, ∀ word,
        session.raising.func.Recalls arguments state id word ↔
          (session.after graph actions).raising.func.Recalls arguments final id word :=
  (session.growsAside_after tracking).exists_run (built.selfContained closed) returns

end Session

/--
Operations of the tracker, successful or not, change nothing of the code that is there but printable
names: they append new values to blocks, which store only into new slots. Hence if the function
returns afterwards, it returned the same before with the same fuel, and its values have the same
words then. This takes a function that mentions only what it holds: what read a value yet to come
would find one afterwards.
-/
theorem tracking_is_inert (graph : FlowGraph) (session : Session) {actions : List Action}
    (tracking : ∀ action ∈ actions, action.isTracking = true) :
    let before := session.raising.func
    let after := (session.after graph actions).raising.func
    before.GrowsAside before.slots.size after ∧
      (before.SelfContained → ∀ arguments fuel result final,
        (after.run arguments fuel).run {} = .ok result final →
        ∃ state, (before.run arguments fuel).run {} = .ok result state ∧
          ∀ id < before.values.size, ∀ word,
            before.Recalls arguments state id word ↔ after.Recalls arguments final id word) := by
  have aside : session.raising.GrowsAside (session.after graph actions).raising :=
    session.growsAside_after tracking
  exact ⟨aside, fun contained _ _ _ _ returns => aside.exists_run contained returns⟩

/-- A loop that counts an argument down in a slot until it is even. -/
def evenSession : Session :=
  loopSession.after loopGraph
    [.allocate (.int 64) "count", .emit 0 (.store 0 0), .terminate 0 (.branch 1),
      .emit 1 (.load 0), .terminate 1 (.branchIf 4 2 3), .constant (.int 64) 1,
      .emit 2 (.binary .sub 4 6), .emit 2 (.store 0 7), .terminate 2 (.branch 1),
      .terminate 3 (.ret (some 4))]

theorem built_evenSession : Session.Built loopGraph evenSession := by
  refine (Session.Built.start (Session.starts_starting rfl ?_)).after ?_ ?_
  · decide +kernel
  · refine ⟨trivial, ?_, trivial, trivial, trivial, trivial, trivial, ?_, trivial, trivial,
      trivial⟩ <;> exact List.mem_singleton_self 0
  · decide +kernel

/-- Flags are set around the loop and read in its header. Reading the parity fails. -/
def evenReads : List Action :=
  [.writeFlag .carry 0 true, .writeFlag .carry 2 false, .readFlag .carry 1, .readFlag .parity 1,
    .endBlock 2]

/-- What a run from 5 leaves, which goes around the loop once. -/
def evenFinal : EvalState :=
  match ((evenSession.after loopGraph evenReads).raising.func.run #[5] 9).run {} with
  | .ok _ final | .error _ final => final

/-- The loop stores into a further slot and loads it, and still returns the same. -/
theorem tracking_is_inert_even :
    (∀ action ∈ evenReads, action.isTracking = true) ∧
      evenSession.raising.func.SelfContained ∧
      let before := evenSession.raising.func
      let after := (evenSession.after loopGraph evenReads).raising.func
      after.body 1 = before.body 1 ++ [16] ∧ after.body 2 = before.body 2 ++ [15] ∧
      ∃ final, (after.run #[5] 9).run {} = .ok (some 4) final ∧ after.Recalls #[5] final 7 4 ∧
        ∃ state, (before.run #[5] 9).run {} = .ok (some 4) state ∧
          ∀ id < before.values.size, ∀ word,
            before.Recalls #[5] state id word ↔ after.Recalls #[5] final id word := by
  have tracking : ∀ action ∈ evenReads, action.isTracking = true := by
    simp [evenReads, Action.isTracking]
  have contained : evenSession.raising.func.SelfContained :=
    built_evenSession.selfContained closed_loopGraph
  have returns : ((evenSession.after loopGraph evenReads).raising.func.run #[5] 9).run {} =
      .ok (some 4) evenFinal := by
    cbv
  have recalls : (evenSession.after loopGraph evenReads).raising.func.Recalls #[5] evenFinal 7
      4 := by
    refine ⟨⟨evenFinal, ?_⟩, evenFinal, ?_⟩ <;> cbv
  have inert := tracking_is_inert loopGraph evenSession tracking
  exact ⟨tracking, contained, by cbv, by cbv, evenFinal, returns, recalls,
    inert.2 contained #[5] 9 (some 4) evenFinal returns⟩

end RegisterFlow
