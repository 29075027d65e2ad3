import RegisterFlow.Proofs.Code.Calls
import RegisterFlow.Proofs.Tracking.FlagRules
import RegisterFlow.Tracking.Deferred

/-!
# Sessions

A session is the raising of one function: a driver calls the operations of the tracker and builds
code itself, in any order. A failing action leaves what it built and noted before, and the session
goes on. The driver stores into slots that it allocated itself, and it records values that exist.
-/

namespace RegisterFlow

open Relation (ReflTransGen)

/-- What a driver does: it calls an operation of the tracker, or it builds something. -/
inductive Action where
  | readRegister (register : Register) (block : BlockId) (allPaths asNative : Bool)
  | readFlag (flag : Flag) (block : BlockId)
  | findDefinitions (register : Register) (block : BlockId) (allPaths : Bool)
  | writeRegister (register : Register) (block : BlockId) (value : ValueId)
  | deriveFlag (flag : Flag) (block : BlockId) (family : Family) (test : ValueId)
  | writeFlag (flag : Flag) (block : BlockId) (truth : Bool)
  | endBlock (block : BlockId)
  | drain
  | constant (ty : Ty) (number : UInt64)
  | emit (block : BlockId) (emission : Emission)
  | terminate (block : BlockId) (ending : Ending)
  | allocate (ty : Ty) (base : String)
  | rename (id : ValueId) (name : String)

/-- The step that an action is, with the value that it answers, if it does. -/
def Action.step (graph : FlowGraph) : Action → Raise (Option ValueId)
  | readRegister register block allPaths asNative =>
    Raise.readRegister graph register block allPaths asNative
  | readFlag flag block => Raise.readFlag graph flag block
  | findDefinitions register block allPaths => do
    discard <| Raise.reachingDefinitions graph register block allPaths
    return none
  | writeRegister register block value => do
    Raise.writeRegister graph register block value
    return none
  | deriveFlag flag block family test => do
    Raise.deriveFlag graph flag block family test
    return none
  | writeFlag flag block truth => do
    Raise.writeFlag flag block truth
    return none
  | endBlock block => do
    discard <| Raise.endBlock block
    return none
  | drain => do
    discard <| Raise.settleAll graph
    return none
  | constant ty number => do
    return some (← Raise.build (Builder.constant ty number))
  | emit block emission => do
    return some (← Raise.build (emission.build block))
  | terminate block ending => do
    return some (← Raise.build (ending.build block))
  | allocate ty base => do
    discard <| Raise.build (Builder.allocate ty base)
    return none
  | rename id name => do
    Raise.build (Builder.rename id name)
    return none

/-- A session: the state of raising, and the slots that the driver allocated. -/
structure Session where
  raising : Raising
  owned : List SlotId := []

namespace Session

/-- The slots that the driver has after an action. -/
def ownedAfter (session : Session) : Action → List SlotId
  | .allocate .. => session.raising.func.slots.size :: session.owned
  | _ => session.owned

/-- The session after an action, which may have failed. -/
def perform (graph : FlowGraph) (session : Session) (action : Action) : Session where
  raising := (action.step graph).final session.raising
  owned := session.ownedAfter action

/-- The session after a list of actions. -/
def after (graph : FlowGraph) (actions : List Action) (session : Session) : Session :=
  actions.foldl (perform graph) session

/-- The driver records values that exist and stores into slots of its own. -/
def Allows (session : Session) : Action → Prop
  | .writeRegister _ _ value => value < session.raising.func.values.size
  | .emit _ (.store slot _) => slot ∈ session.owned
  | _ => True

/-- Every action of a list is allowed when its turn comes. -/
def AllowsAll (graph : FlowGraph) : Session → List Action → Prop
  | _, [] => True
  | session, action :: actions =>
    session.Allows action ∧ AllowsAll graph (session.perform graph action) actions

theorem after_append (graph : FlowGraph) (earlier later : List Action) (session : Session) :
    session.after graph (earlier ++ later) = (session.after graph earlier).after graph later :=
  List.foldl_append

/-- What every action of a list keeps, the list keeps. -/
theorem keeps_after {graph : FlowGraph} {motive : Session → Prop} {actions : List Action}
    {session : Session}
    (perform : ∀ session, ∀ action ∈ actions, motive session →
      motive (session.perform graph action))
    (held : motive session) : motive (session.after graph actions) :=
  actions.foldlRecOn _ held fun session held action mem => perform session action mem held

theorem allowsAll_append {graph : FlowGraph} {earlier later : List Action} {session : Session} :
    AllowsAll graph session (earlier ++ later) ↔
      AllowsAll graph session earlier ∧ AllowsAll graph (session.after graph earlier) later := by
  induction earlier generalizing session with
  | nil => exact ⟨fun allowed => ⟨trivial, allowed⟩, And.right⟩
  | cons action actions ih =>
      rw [List.cons_append, AllowsAll, ih, AllowsAll, and_assoc]
      rfl

/-- The session with which the raising of a function starts. -/
def Starts (graph : FlowGraph) (session : Session) : Prop :=
  ∃ name argumentTypes blockNames tracker,
    blockNames.length = graph.blocks.size ∧
      Tracker.start graph (Function.empty name argumentTypes blockNames) = .ok tracker ∧
      session =
        { raising := { func := Function.empty name argumentTypes blockNames, tracker } }

/-- The session with which raising starts, for an empty function, if its tracker can be made. -/
def starting (graph : FlowGraph) (name : String) (argumentTypes : List Ty)
    (blockNames : List String) : Session where
  raising :=
    { func := Function.empty name argumentTypes blockNames
      tracker := (Tracker.start graph
        (Function.empty name argumentTypes blockNames)).toOption.getD {} }

theorem starts_starting {graph : FlowGraph} {name : String} {argumentTypes : List Ty}
    {blockNames : List String} (count : blockNames.length = graph.blocks.size)
    (succeeds : (Tracker.start graph
      (Function.empty name argumentTypes blockNames)).toOption.isSome = true) :
    Starts graph (starting graph name argumentTypes blockNames) := by
  refine ⟨name, argumentTypes, blockNames, _, count, ?_, rfl⟩
  cases started : Tracker.start graph (Function.empty name argumentTypes blockNames) with
  | ok tracker => rfl
  | error failure =>
      rw [started] at succeeds
      cases succeeds

theorem Starts.tracker_eq {graph : FlowGraph} {session : Session} (starts : Starts graph session) :
    Tracker.start graph session.raising.func = .ok session.raising.tracker := by
  rcases starts with ⟨name, argumentTypes, blockNames, tracker, -, started, rfl⟩
  exact started

/-- The sessions that a driver can bring about. -/
inductive Reachable (graph : FlowGraph) : Session → Prop where
  | start {session : Session} (starts : Starts graph session) : Reachable graph session
  | perform {session : Session} {action : Action} (reachable : Reachable graph session)
      (allowed : session.Allows action) : Reachable graph (session.perform graph action)

theorem Reachable.after {graph : FlowGraph} {session : Session} {actions : List Action}
    (reachable : Reachable graph session) (allowed : AllowsAll graph session actions) :
    Reachable graph (session.after graph actions) := by
  induction actions generalizing session with
  | nil => exact reachable
  | cons action actions ih => exact ih (reachable.perform allowed.1) allowed.2

end Session

end RegisterFlow
