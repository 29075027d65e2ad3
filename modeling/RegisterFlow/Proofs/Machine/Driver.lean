import RegisterFlow.Proofs.Code.Building
import RegisterFlow.Proofs.Tracking.MergePoints

/-!
# Raising one block after the other

A driver raises the entry of a function first and then every other block, each one completely before
the next. In a block it reads whole registers, computes from what it read and from constants, and
records values for exactly the registers that the block writes. Then it ends the block.
-/

namespace RegisterFlow

namespace FlowGraph

/-- Execution starts at an entry without predecessors, from which all blocks can be reached. -/
structure Rooted (graph : FlowGraph) : Prop where
  closed : graph.Closed
  entry_eq : graph.entry = BlockId.entry
  predecessors_entry : graph.predecessors graph.entry = []
  reachable : ∀ block < graph.blocks.size, ∃ visited, graph.Arrives visited block

variable {graph : FlowGraph} {block : BlockId} {visited : List BlockId}

/-- Every way starts at the entry. -/
theorem Arrives.entry_mem (arrives : graph.Arrives visited block) (inner : block ≠ graph.entry) :
    graph.entry ∈ visited := by
  induction visited generalizing block with
  | nil => exact absurd arrives inner
  | cons nearest visited ih =>
      by_cases first : nearest = graph.entry
      · exact first ▸ List.mem_cons_self
      · exact List.mem_cons_of_mem _ (ih arrives.2 first)

theorem Rooted.eq_nil_of_arrives (rooted : graph.Rooted)
    (arrives : graph.Arrives visited graph.entry) : visited = [] := by
  cases visited with
  | nil => rfl
  | cons nearest visited =>
      have edge := arrives.1
      rw [rooted.predecessors_entry] at edge
      cases edge

end FlowGraph

/-- What a driver does to raise one block. -/
structure Part where
  block : BlockId
  work : List Action
  ending : Ending

/-- All that is done for a part: its work, the end of tracking in its block, and a terminator. -/
def Part.actions (part : Part) : List Action :=
  part.work ++ [.endBlock part.block, .terminate part.block part.ending]

namespace Session

/-- The value that an action answers. -/
def answer? (graph : FlowGraph) (session : Session) (action : Action) : Option ValueId :=
  match (action.step graph).run session.raising with
  | .ok answer _ => answer
  | .error .. => none

/-- The actions of a list, each with what it answers when its turn comes. -/
def trace (graph : FlowGraph) : Session → List Action → List (Action × Option ValueId)
  | _, [] => []
  | session, action :: actions =>
    (action, session.answer? graph action) :: trace graph (session.perform graph action) actions

/-- The values that a list of actions answers. -/
def results (graph : FlowGraph) (session : Session) (actions : List Action) : List ValueId :=
  (session.trace graph actions).filterMap Prod.snd

/--
What a driver may do in a block where it has some results: read a whole register, make a constant,
compute from the results, or record one of them for a register that the block writes.
-/
def Permits (graph : FlowGraph) (session : Session) (block : BlockId) (results : List ValueId) :
    Action → Prop
  | .readRegister register worked allPaths _ =>
    worked = block ∧ allPaths = false ∧ register ≠ .null ∧
      graph.convention.canonical register = register ∧ graph.convention.width register = 64
  | .constant ty _ => ty.IsWord
  | .emit worked emission =>
    worked = block ∧ emission.operation.isPure = true ∧
      session.raising.func.Proper (emission.ty session.raising.func) emission.operation ∧
      ∀ operand ∈ emission.operation.operands, operand ∈ results
  | .writeRegister register worked value =>
    worked = block ∧ (block, register) ∈ graph.writes ∧ value ∈ results
  | _ => False

/-- The driver only does what it may do in a block. -/
def WorksIn (graph : FlowGraph) (block : BlockId) : List ValueId → Session → List Action → Prop
  | _, _, [] => True
  | results, session, action :: actions =>
    session.Permits graph block results action ∧
      WorksIn graph block (results ++ (session.answer? graph action).toList)
        (session.perform graph action) actions

/--
Wherever a location is read in a block, it has been written: in the block itself, or on every way to
it. Or it carries an argument.
-/
def Covers (graph : FlowGraph) (session : Session) (block : BlockId) (earlier : List Action)
    (location : Location) : Prop :=
  (session.raising.tracker.bindingAt? location).isSome ∨
    (∃ action ∈ earlier, action.Records graph location block) ∨
      ∀ visited, graph.Arrives visited block → ∃ source ∈ visited, graph.Writes source location

/-- A driver raises a block as its flow graph says. -/
structure RaisesPart (graph : FlowGraph) (session : Session) (part : Part) : Prop where
  works : WorksIn graph part.block [] session part.work
  covers : ∀ earlier register allPaths asNative later,
    part.work = earlier ++ .readRegister register part.block allPaths asNative :: later →
      session.Covers graph part.block earlier (.register register)
  records : ∀ register, (part.block, register) ∈ graph.writes →
    ∃ value, .writeRegister register part.block value ∈ part.work
  operands : ∀ operand ∈ part.ending.operation.operands,
    operand ∈ session.results graph part.work
  follows : ∀ target ∈ part.ending.targets, part.block ∈ graph.predecessors target

/-- A driver raises one block after the other. -/
def RaisesParts (graph : FlowGraph) : Session → List Part → Prop
  | _, [] => True
  | session, part :: parts =>
    session.RaisesPart graph part ∧ RaisesParts graph (session.after graph part.actions) parts

/--
A driver raises a function of words: the entry first, and then every other block once. The known
values of a location are distinct wherever definitions of it meet.
-/
structure RaisesFunction (graph : FlowGraph) (start : Session) (parts : List Part) : Prop where
  starts : Starts graph start
  words : ∀ argument ∈ start.raising.func.arguments, (start.raising.func.ty argument).IsWord
  raises : RaisesParts graph start parts
  first : (parts.map Part.block).head? = some graph.entry
  once : (parts.map Part.block).Perm (List.range graph.blocks.size)
  distinct : ∀ location, start.DistinctMerges graph (parts.flatMap Part.actions) location

/-- An action succeeds, and if it is a read, it has an answer. -/
def SucceedsAt (graph : FlowGraph) (session : Session) (action : Action) : Prop :=
  ∃ answer after, (action.step graph).run session.raising = .ok answer after ∧
    ∀ location block allPaths, action.Reads graph location block allPaths → answer.isSome

/-- Every action of a list succeeds when its turn comes. -/
def SucceedsAll (graph : FlowGraph) : Session → List Action → Prop
  | _, [] => True
  | session, action :: actions =>
    session.SucceedsAt graph action ∧ SucceedsAll graph (session.perform graph action) actions

variable {graph : FlowGraph} {session : Session} {block : BlockId} {action : Action}
  {earlier later work : List Action}

theorem trace_append :
    session.trace graph (earlier ++ later) =
      session.trace graph earlier ++ (session.after graph earlier).trace graph later := by
  induction earlier generalizing session with
  | nil => rfl
  | cons action earlier ih => exact congrArg (_ :: ·) ih

theorem results_append_singleton :
    session.results graph (work ++ [action]) =
      session.results graph work ++ ((session.after graph work).answer? graph action).toList := by
  simp only [results, trace_append, List.filterMap_append]
  cases answer : (session.after graph work).answer? graph action <;> simp [trace, answer]

theorem WorksIn.cons {results : List ValueId} {actions : List Action} {answer : Option ValueId}
    (permits : session.Permits graph block results action)
    (answers : session.answer? graph action = answer)
    (rest : WorksIn graph block (results ++ answer.toList) (session.perform graph action) actions) :
    WorksIn graph block results session (action :: actions) :=
  ⟨permits, answers ▸ rest⟩

/-- What the driver does is permitted when its turn comes. -/
theorem WorksIn.permits {results : List ValueId}
    (works : WorksIn graph block results session (earlier ++ action :: later)) :
    (session.after graph earlier).Permits graph block
      (results ++ session.results graph earlier) action := by
  induction earlier generalizing session results with
  | nil =>
      rw [Session.results, trace, List.filterMap_nil, List.append_nil]
      exact works.1
  | cons first earlier ih =>
      have permitted := ih works.2
      have same : session.results graph (first :: earlier) =
          (session.answer? graph first).toList ++
            (session.perform graph first).results graph earlier := by
        simp only [Session.results, trace]
        cases answer : session.answer? graph first <;> simp
      rw [same, ← List.append_assoc]
      exact permitted

theorem RaisesParts.append {earlier later : List Part}
    (raises : RaisesParts graph session (earlier ++ later)) :
    RaisesParts graph (session.after graph (earlier.flatMap Part.actions)) later := by
  induction earlier generalizing session with
  | nil => exact raises
  | cons part earlier ih =>
      rw [List.flatMap_cons, after_append]
      exact ih raises.2

theorem DistinctMerges.after {location : Location}
    (distinct : session.DistinctMerges graph (earlier ++ later) location) :
    (session.after graph earlier).DistinctMerges graph later location := by
  intro front action back split
  rw [← after_append]
  exact distinct (earlier ++ front) action back (by rw [split, List.append_assoc])

theorem succeedsAll_append {first second : List Action} :
    SucceedsAll graph session (first ++ second) ↔
      SucceedsAll graph session first ∧ SucceedsAll graph (session.after graph first) second := by
  induction first generalizing session with
  | nil => simp [SucceedsAll, after]
  | cons action first ih => simp only [List.cons_append, SucceedsAll, ih, and_assoc]; rfl

theorem succeedsAll_of_forall {actions : List Action}
    (each : ∀ earlier action later, actions = earlier ++ action :: later →
      (session.after graph earlier).SucceedsAt graph action) :
    SucceedsAll graph session actions := by
  induction actions generalizing session with
  | nil => trivial
  | cons action actions ih =>
      refine ⟨each [] action actions rfl, ih fun earlier other later split => ?_⟩
      exact each (action :: earlier) other later (by rw [split, List.cons_append])

end Session

end RegisterFlow
