import RegisterFlow.Code.Operation
import Std.Data.HashMap

/-!
# Evaluation states

The state of an evaluation, the ways in which it can fail and their messages. The state outlives
failures: what was computed before one stays known.
-/

namespace RegisterFlow

/-- Why an evaluation has no result. -/
inductive EvalError where
  | notComputed (value : ValueId)
  | missingArgument (index : Nat)
  | emptySlot (slot : SlotId)
  | notAWord (ty : Ty)
  | unterminated (block : BlockId)
  | noResult (value : ValueId)
  | outOfFuel (limit : Nat)
  /-- A value needs itself. No value built from existing ones does. -/
  | circular (value : ValueId)
  /-- Jumps lead back to a block without any instruction in between, so the run never ends. -/
  | endlessJumps (block : BlockId)
  deriving DecidableEq, Repr

/-- The message of a failure. -/
def EvalError.message : EvalError → String
  | notComputed value => "Value %" ++ toString value ++ " used before it was computed"
  | missingArgument index => "Missing argument " ++ toString index
  | emptySlot slot => "Load from uninitialized " ++ SlotId.text slot
  | notAWord ty => "Cannot evaluate " ++ ty.text ++ " values"
  | unterminated block => "Block " ++ BlockId.text block ++ " has no terminator"
  | noResult value => "Terminator or store %" ++ toString value ++ " has no value"
  | outOfFuel limit => "Execution exceeded " ++ toString limit ++ " steps"
  | circular value => "Value %" ++ toString value ++ " depends on itself"
  | endlessJumps block => "Jumps from block " ++ BlockId.text block ++ " never end"

/-- The values computed so far and the contents of the frame slots. -/
structure EvalState where
  computed : Std.HashMap ValueId UInt64 := ∅
  memory : Std.HashMap SlotId UInt64 := ∅

namespace EvalState

/-- The state after a value was computed. -/
def learn (state : EvalState) (id : ValueId) (word : UInt64) : EvalState :=
  { state with computed := state.computed.insert id word }

/-- The state after a store. -/
def write (state : EvalState) (slot : SlotId) (word : UInt64) : EvalState :=
  { state with memory := state.memory.insert slot word }

end EvalState

/-- An evaluation: it changes the state and may fail. -/
abbrev Eval :=
  EStateM EvalError EvalState

namespace Eval

/-- Returns a value that was computed before, or computes it now and keeps it. -/
def remember (id : ValueId) (compute : Eval UInt64) : Eval UInt64 := do
  match (← get).computed[id]? with
  | some word => pure word
  | none =>
    let word ← compute
    modify (·.learn id word)
    pure word

end Eval

end RegisterFlow
