import RegisterFlow.Proofs.Tracking.Acting
import RegisterFlow.Proofs.Tracking.KeptByMeetings
import RegisterFlow.Proofs.Tracking.RuleCode
import RegisterFlow.Proofs.Tracking.Start

/-!
# What tracking keeps

The operations of the tracker append only what reads values and loads slots that the function holds,
also where they fail. So a session keeps whatever building keeps, as long as the driver itself names
only what exists. In particular its function mentions nothing else.
-/

namespace RegisterFlow

open RegisterFlow.Function (KeptByBuilding)
open RegisterFlow.Raising (StaysKept)

variable {kept : Function → Prop} {graph : FlowGraph} {block : BlockId} {before : Raising}

namespace Raising

variable {operation : Operation}

theorem staysKept_withInstruction (building : KeptByBuilding kept) (ty : Ty)
    (provides : before.func.Provides operation) :
    StaysKept kept before
      { before with func := before.func.withInstruction block ty operation } where
  grown := Function.extends_withInstruction ..
  keeps holds := building.instruction block ty holds provides

/-- An instruction other than a load needs no more than its operands. -/
theorem staysKept_of_operands (building : KeptByBuilding kept) (ty : Ty)
    (loads : ∀ slot, operation ≠ .load slot)
    (held : ∀ operand ∈ operation.operands, operand < before.func.values.size) :
    StaysKept kept before
      { before with func := before.func.withInstruction block ty operation } :=
  staysKept_withInstruction building ty (Function.provides_of_operands loads held)

theorem staysKept_withTerminator (building : KeptByBuilding kept)
    (provides : before.func.Provides operation) :
    StaysKept kept before { before with func := before.func.withTerminator block operation } where
  grown := Function.extends_withTerminator ..
  keeps holds := building.terminator block holds provides

theorem staysKept_withName (building : KeptByBuilding kept) (id : ValueId) (name : String) :
    StaysKept kept before { before with func := before.func.withName id name } where
  grown := Function.extends_withName ..
  keeps holds := building.name id name holds

end Raising

namespace Raise

/-- The rules for flags read values whose types they know, or operands of what they found. -/
theorem respectsRules_staysKept (building : KeptByBuilding kept) (closed : graph.Closed)
    (block : BlockId) : RespectsRules graph block kept (StaysKept kept) where
  grown related := related.grown
  constant _ ty payload := ⟨Function.extends_withLeaf .., building.constant ty payload⟩
  binary _ left right := by
    apply Raising.staysKept_of_operands building _ (by simp)
    simp [Operation.operands, left.1, right.1]
  compare _ left right := by
    apply Raising.staysKept_of_operands building _ (by simp)
    simp [Operation.operands, left.1, right.1]
  select condition ifTrue ifFalse := by
    apply Raising.staysKept_of_operands building _ (by simp)
    simp [Operation.operands, condition.1, ifTrue.1, ifFalse.1]
  check _ holds produced := by
    have held := produced ▸ building.operand_lt holds _
    exact Raising.staysKept_of_operands building _ (by simp) held
  compareBack _ holds produced := by
    have held := produced ▸ building.operand_lt holds _
    apply Raising.staysKept_of_operands building _ (by simp)
    simpa [Operation.operands, and_comm] using held
  readCarry flagged := leads_readLocation_staysKept building .bool (flagged.allHeld closed false)

theorem leads_deriveFlag_staysKept (building : KeptByBuilding kept) (closed : graph.Closed)
    (flagged : before.Flagged graph) (holds : kept before.func) (flag : Flag) (block : BlockId)
    (family : Family) (test : ValueId) :
    Leads (StaysKept kept) (fun _ _ => True) (deriveFlag graph flag block family test) before := by
  apply leads_deriveFlag_of_flagValue
  · exact (respectsRules_staysKept building closed block).leads_flagValue closed flagged holds
  · exact fun _ _ _ => Raising.staysKept_withName building _ _
  · exact fun _ _ => Raising.staysKept_of_eq rfl
  · exact fun _ _ _ _ => leads_define_of_record fun _ _ => Raising.staysKept_of_eq rfl

end Raise

namespace Session

/-- What the driver appends itself names only what exists. -/
def Refers (session : Session) : Action → Prop
  | .emit block emission => (Call.emit block emission).Allowed session.raising.func
  | .terminate block ending => (Call.terminate block ending).Allowed session.raising.func
  | _ => True

instance (session : Session) : DecidablePred session.Refers
  | .emit block emission => inferInstanceAs (Decidable ((Call.emit block emission).Allowed _))
  | .terminate block ending => inferInstanceAs (Decidable ((Call.terminate block ending).Allowed _))
  | .readRegister .. | .readFlag .. | .findDefinitions .. | .writeRegister .. | .deriveFlag ..
  | .writeFlag .. | .endBlock _ | .drain | .constant .. | .allocate .. | .rename .. =>
    isTrue trivial

/-- So does what it appends in every action of a list, when its turn comes. -/
def RefersAll (graph : FlowGraph) : Session → List Action → Prop
  | _, [] => True
  | session, action :: actions =>
    session.Refers action ∧ RefersAll graph (session.perform graph action) actions

instance decidableRefersAll (graph : FlowGraph) : (session : Session) → (actions : List Action) →
    Decidable (RefersAll graph session actions)
  | _, [] => isTrue trivial
  | session, action :: actions =>
    have := decidableRefersAll graph (session.perform graph action) actions
    inferInstanceAs (Decidable (_ ∧ _))

/-- The sessions that a driver can bring about if it names only what exists. -/
inductive Built (graph : FlowGraph) : Session → Prop where
  | start {session : Session} (starts : Starts graph session) : Built graph session
  | perform {session : Session} {action : Action} (built : Built graph session)
      (allowed : session.Allows action) (refers : session.Refers action) :
      Built graph (session.perform graph action)

variable {session : Session} {action : Action}

/-- Every action keeps what building keeps, whether it succeeds or fails. -/
theorem InOrder.kept_perform (ordered : session.InOrder graph) (building : KeptByBuilding kept)
    (closed : graph.Closed) (refers : session.Refers action) (holds : kept session.raising.func) :
    kept (session.perform graph action).raising.func := by
  have leads : Raise.Leads (StaysKept kept) (fun _ _ => True) (action.step graph)
      session.raising := by
    apply Raise.PartsLead.leads_step
    exact {
      tally := fun _ _ => Raising.staysKept_of_eq rfl
      constant := fun _ ty number =>
        ((Raise.respectsRules_staysKept building closed 0).leads_constant ty number).imp
          fun _ _ _ _ => trivial
      file := fun _ _ _ _ _ _ =>
        Raise.leads_define_of_record fun _ _ => Raising.staysKept_of_eq rfl
      read := fun _ native _ allPaths _ _ =>
        (Raise.leads_readLocation_staysKept building native
          (ordered.kept.ranged.allHeld closed allPaths)).imp fun _ _ _ _ => trivial
      derive := fun _ _ _ _ _ =>
        Raise.leads_deriveFlag_staysKept building closed ordered.flagged holds ..
      drop := fun _ _ => Raising.staysKept_of_eq rfl
      settle := fun _ => Raise.leads_settleAll_staysKept building ordered.kept.ranged
      emit := by
        rintro block emission rfl
        exact Raising.staysKept_withInstruction building _ (Call.provides_of_emit refers)
      terminate := by
        rintro block ending rfl
        exact Raising.staysKept_withTerminator building (Call.provides_of_terminate refers)
      allocate := fun ty base _ => ⟨Function.extends_withSlot .., building.slot ty base⟩
      rename := fun id name _ => Raising.staysKept_withName building id name }
  exact leads.final.keeps holds

namespace Built

theorem after {actions : List Action} (built : session.Built graph)
    (allowed : AllowsAll graph session actions) (refers : RefersAll graph session actions) :
    (session.after graph actions).Built graph := by
  induction actions generalizing session with
  | nil => exact built
  | cons action actions ih => exact ih (built.perform allowed.1 refers.1) allowed.2 refers.2

theorem reachable (built : session.Built graph) : session.Reachable graph := by
  induction built with
  | start starts => exact .start starts
  | perform _ allowed _ ih => exact ih.perform allowed

/-- What building keeps holds in all sessions whose driver names only what exists. -/
theorem holds (built : session.Built graph) (building : KeptByBuilding kept)
    (closed : graph.Closed) : kept session.raising.func := by
  induction built with
  | start starts =>
      rcases starts with ⟨name, argumentTypes, blockNames, tracker, -, -, rfl⟩
      exact building.empty name argumentTypes blockNames
  | perform built _ refers ih =>
      exact (built.reachable.inOrder closed).kept_perform building closed refers ih

theorem selfContained (built : session.Built graph) (closed : graph.Closed) :
    session.raising.func.SelfContained :=
  built.holds Function.keptByBuilding_selfContained closed

theorem orderly (built : session.Built graph) (closed : graph.Closed) :
    session.raising.func.Orderly :=
  built.holds Function.keptByBuilding_orderly closed

end Built

end Session

end RegisterFlow
