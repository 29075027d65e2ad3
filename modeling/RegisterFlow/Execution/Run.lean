import RegisterFlow.Execution.Evaluate

/-!
# Running functions

Execution from the entry block to a return. Fuel bounds the number of instructions: one unit is
spent before an instruction executes, and none on terminators. A run that only jumps is cut off when
it has to repeat itself, which is when it enters more blocks than there are without meeting an
instruction.
-/

namespace RegisterFlow

/-- The number of instructions that a run may execute unless it is told otherwise. -/
def Eval.defaultFuel : Nat :=
  100000

/-- Executes one instruction: a store writes its slot, anything else computes its value. -/
def Function.execute (func : Function) (arguments : Array UInt64) (id : ValueId) : Eval Unit := do
  match func.operation id with
  | .store slot operand =>
    let word ← func.operand arguments operand
    modify (·.write slot word)
  | _ =>
    let word ← func.compute arguments (func.operand arguments) id
    modify (·.learn id word)

/-- What follows the instructions of a block. -/
inductive Exit where
  | jump (target : BlockId)
  | result (word : Option UInt64)

/-- Executes the terminator of a block. -/
def Function.leave (func : Function) (arguments : Array UInt64) (block : BlockId) : Eval Exit := do
  match (func.block block).terminator.map func.operation with
  | some (.branch target) => return .jump target
  | some (.branchIf condition ifTrue ifFalse) =>
    let word ← func.operand arguments condition
    return .jump (if word &&& 1 = 1 then ifTrue else ifFalse)
  | some (.ret (some result)) => return .result (some (← func.operand arguments result))
  | some (.ret none) => return .result none
  | _ => throw (.unterminated block)

/--
Runs the remaining instructions of a block and what comes after. Of the fuel `limit`, `fuel` is
left; before the next instruction, `jumps` more jumps can be made.
-/
def Function.runFrom (func : Function) (arguments : Array UInt64) (limit : Nat) :
    (fuel jumps : Nat) → (block : BlockId) → (remaining : List ValueId) → Eval (Option UInt64)
  | 0, _, _, _ :: _ => throw (.outOfFuel limit)
  | fuel + 1, _, block, instruction :: rest => do
    func.execute arguments instruction
    func.runFrom arguments limit fuel func.blocks.size block rest
  | fuel, jumps, block, [] => do
    match ← func.leave arguments block with
    | .result word => pure word
    | .jump target =>
      match jumps with
      | 0 => throw (.endlessJumps block)
      | jumps + 1 =>
        func.runFrom arguments limit fuel jumps target (func.block target).instructions.toList
termination_by fuel jumps => (fuel, jumps)

/-- Runs a function from its entry block until it returns. -/
def Function.run (func : Function) (arguments : Array UInt64) (fuel : Nat) :
    Eval (Option UInt64) :=
  func.runFrom arguments fuel fuel func.blocks.size BlockId.entry
    (func.block BlockId.entry).instructions.toList

end RegisterFlow
