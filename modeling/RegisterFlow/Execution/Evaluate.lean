import RegisterFlow.Code.Function
import RegisterFlow.Execution.Arithmetic
import RegisterFlow.Execution.Basic

/-!
# Evaluating values

What each operation computes, given a way to obtain its operands, and the two ways there are: in the
order of execution, where operands have been computed before (`operand`), and on demand, where they
are computed when they are needed (`demand`).
-/

namespace RegisterFlow

/-- The integer width of a type that words can hold. -/
def Eval.widthOf (ty : Ty) : Eval Nat :=
  match ty.wordBits? with
  | some width => pure width
  | none => throw (.notAWord ty)

/--
Computes a value from its operands, which `read` obtains. The operands are read from left to right,
once the width is known to be one of a word; a selection reads only the arm that it takes.
-/
def Function.compute (func : Function) (arguments : Array UInt64) (read : ValueId → Eval UInt64)
    (id : ValueId) : Eval UInt64 := do
  let ty := func.ty id
  match func.operation id with
  | .argument index =>
    match arguments[index]? with
    | some word => pure (Word.truncate ty.bits word)
    | none => throw (.missingArgument index)
  | .constant payload => pure payload
  | .slotAddress slot => pure (UInt64.ofNat slot)
  | .binary op lhs rhs =>
    let width ← Eval.widthOf ty
    return op.apply width (← read lhs) (← read rhs)
  | .compare comparison lhs rhs =>
    let width ← Eval.widthOf (func.ty lhs)
    return (comparison.holds width (← read lhs) (← read rhs)).toUInt64
  | .select condition ifTrue ifFalse =>
    if (← read condition) &&& 1 = 1 then read ifTrue else read ifFalse
  | .cast kind operand =>
    return kind.convert (func.ty operand).bits ty.bits (← read operand)
  | .overflow check lhs rhs =>
    let width ← Eval.widthOf (func.ty lhs)
    return (check.occurs width (← read lhs) (← read rhs)).toUInt64
  | .funnel direction high low amount =>
    let width ← Eval.widthOf ty
    let high ← read high
    let low ← read low
    let amount ← read amount
    return direction.shift width high low (amount.toNat % width)
  | .load slot =>
    match (← get).memory[slot]? with
    | some word => pure word
    | none => throw (.emptySlot slot)
  | .store .. | .branch _ | .branchIf .. | .ret _ => throw (.noResult id)

/--
Reads an operand in the order of execution: it has been computed before, or it is a leaf, which can
be computed at any time.
-/
def Function.operand (func : Function) (arguments : Array UInt64) (id : ValueId) : Eval UInt64 :=
  Eval.remember id <|
    if (func.operation id).isLeaf then
      func.compute arguments (fun inner => throw (.notComputed inner)) id
    else
      throw (.notComputed id)

/-- Computes a value on demand, with at most `depth` levels of operands below it. -/
def Function.demandWithin (func : Function) (arguments : Array UInt64) :
    (depth : Nat) → ValueId → Eval UInt64
  | 0, id => throw (.circular id)
  | depth + 1, id =>
    Eval.remember id (func.compute arguments (func.demandWithin arguments depth) id)

/--
Computes a value on demand, outside of any execution. Operands have smaller numbers than the values
that read them, so there are at most as many levels below a value as its number says.
-/
def Function.demand (func : Function) (arguments : Array UInt64) (id : ValueId) : Eval UInt64 :=
  func.demandWithin arguments (id + 1) id

end RegisterFlow
