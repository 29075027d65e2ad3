import Mathlib.Logic.Relation
import RegisterFlow.Proofs.Execution.Inheritance
import RegisterFlow.Proofs.Execution.Runs

/-!
# Points of a run

A run goes from one point to the next: it executes the next instruction of its block or, at the end
of the block, jumps to another one. A run that returns has come to the end of a block and left it
with the result.
-/

namespace RegisterFlow

open Relation (ReflTransGen)

/-- Where a run stands: in a block, with the instructions that are left of it, in a state. -/
structure Point where
  block : BlockId
  remaining : List ValueId
  state : EvalState

namespace Function

/-- The point at which a run starts from a state. -/
def start (func : Function) (state : EvalState) : Point :=
  ⟨BlockId.entry, func.body BlockId.entry, state⟩

/-- A run goes from a point to the next. -/
inductive Step (func : Function) (arguments : Array UInt64) : Point → Point → Prop where
  | instruction {block : BlockId} {id : ValueId} {rest : List ValueId} {before after : EvalState}
      (executes : (func.execute arguments id).run before = .ok () after) :
      Step func arguments ⟨block, id :: rest, before⟩ ⟨block, rest, after⟩
  | jump {block target : BlockId} {before after : EvalState}
      (jumps : (func.leave arguments block).run before = .ok (.jump target) after) :
      Step func arguments ⟨block, [], before⟩ ⟨target, func.body target, after⟩

/-- A run leaves a function at the end of a block, with a result and in a final state. -/
inductive Leaves (func : Function) (arguments : Array UInt64) (result : Option UInt64)
    (final : EvalState) : Point → Prop where
  | intro {block : BlockId} {before : EvalState}
      (leaves : (func.leave arguments block).run before = .ok (.result result) final) :
      Leaves func arguments result final ⟨block, [], before⟩

variable {func : Function} {arguments : Array UInt64} {result : Option UInt64}
  {final : EvalState} {limit : Nat}

/-- A run that returns goes step by step to the point where it leaves. -/
theorem exists_leaves_of_runFrom {fuel jumps : Nat} {block : BlockId} {remaining : List ValueId}
    {state : EvalState}
    (returns : (func.runFrom arguments limit fuel jumps block remaining).run state =
      .ok result final) :
    ∃ last, ReflTransGen (func.Step arguments) ⟨block, remaining, state⟩ last ∧
      func.Leaves arguments result final last := by
  cases remaining with
  | nil =>
      rw [runFrom_nil, EStateM.run_bind] at returns
      cases leaves : (func.leave arguments block).run state with
      | error failure middle =>
          rw [leaves] at returns
          cases returns
      | ok exit middle =>
          rw [leaves] at returns
          cases exit with
          | result word =>
              cases returns
              exact ⟨_, .refl, .intro leaves⟩
          | jump target =>
              cases jumps with
              | zero => cases returns
              | succ jumps =>
                  rcases exists_leaves_of_runFrom returns with ⟨last, path, left⟩
                  exact ⟨last, path.head (.jump leaves), left⟩
  | cons id rest =>
      cases fuel with
      | zero =>
          rw [runFrom_zero_cons] at returns
          cases returns
      | succ fuel =>
          rw [runFrom_succ_cons, EStateM.run_bind] at returns
          cases executes : (func.execute arguments id).run state with
          | error failure middle =>
              rw [executes] at returns
              cases returns
          | ok answer middle =>
              rw [executes] at returns
              rcases exists_leaves_of_runFrom returns with ⟨last, path, left⟩
              exact ⟨last, path.head (.instruction executes), left⟩
termination_by (fuel, jumps)
decreasing_by
  · exact Prod.Lex.right _ (by omega)
  · exact Prod.Lex.left _ _ (by omega)

theorem exists_leaves_of_run {fuel : Nat} {state : EvalState}
    (returns : (func.run arguments fuel).run state = .ok result final) :
    ∃ last, ReflTransGen (func.Step arguments) (func.start state) last ∧
      func.Leaves arguments result final last :=
  exists_leaves_of_runFrom returns

section Inherits

variable {good : ValueId → UInt64 → Prop} {held : SlotId → UInt64 → Prop} {point next last : Point}

theorem Inherits.keeps_of_step (inherits : func.Inherits arguments good held)
    (step : func.Step arguments point next) (keeps : point.state.Keeps good held) :
    next.state.Keeps good held := by
  cases step with
  | instruction executes =>
      exact ((upholds_execute inherits _).of_ok keeps executes).1
  | jump jumps =>
      exact ((upholds_leave inherits _).of_ok keeps jumps).1

theorem Inherits.keeps_of_path (inherits : func.Inherits arguments good held)
    (path : ReflTransGen (func.Step arguments) point last)
    (keeps : point.state.Keeps good held) : last.state.Keeps good held := by
  induction path with
  | refl => exact keeps
  | tail _ step ih => exact inherits.keeps_of_step step ih

end Inherits

end Function

end RegisterFlow
