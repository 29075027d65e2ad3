import RegisterFlow.Code.Function
import RegisterFlow.Word

/-!
# Building functions

The operations that extend a function. Each one adds values at the end of the value list, so that
the operands of a value always have smaller numbers than the value itself. New instructions go to
the end of a block, in front of its terminator; a second terminator takes the place of the first.
Constants are shared: a function holds each constant of a type at most once.
-/

namespace RegisterFlow

/-- A computation that extends a function. -/
abbrev Builder :=
  StateM Function

namespace Builder

/-- Adds a value and gives its number. -/
def add (value : Value) : Builder ValueId :=
  modifyGet fun func => (func.values.size, { func with values := func.values.push value })

/-- Adds an instruction at the end of a block. -/
def append (block : BlockId) (ty : Ty) (operation : Operation) : Builder ValueId := do
  let id ← add { ty, operation, block := some block }
  modify fun func => { func with
    blocks := func.blocks.modify block fun body =>
      { body with instructions := body.instructions.push id } }
  pure id

/-- Ends a block with a terminator. -/
def terminate (block : BlockId) (operation : Operation) : Builder ValueId := do
  let id ← add { ty := .void, operation, block := some block }
  modify fun func => { func with
    blocks := func.blocks.modify block fun body => { body with terminator := some id } }
  pure id

/-- Gives a value a printable name. -/
def rename (id : ValueId) (name : String) : Builder Unit :=
  modify fun func => { func with
    values := func.values.modify id fun value => { value with name := some name } }

/-- The type of a value of the function being built. -/
def tyOf (id : ValueId) : Builder Ty :=
  return (← get).ty id

/--
The constant with a number of a type. Integer types keep as many bits of the number as they have;
other types keep all of them.
-/
def constant (ty : Ty) (number : UInt64) : Builder ValueId := do
  let payload := Word.truncate (ty.intBits?.getD 64) number
  let held := (← get).values.findIdx? fun value =>
    value.ty = ty ∧ value.operation = .constant payload
  match held with
  | some id => pure id
  | none => add { ty, operation := .constant payload }

/-- The constant of a truth value. -/
def boolean (truth : Bool) : Builder ValueId :=
  constant .bool truth.toUInt64

/-- Appends arithmetic, which has the type of its left operand. -/
def binary (block : BlockId) (op : BinaryOp) (lhs rhs : ValueId) : Builder ValueId := do
  append block (← tyOf lhs) (.binary op lhs rhs)

/-- Appends a comparison. -/
def compare (block : BlockId) (comparison : Comparison) (lhs rhs : ValueId) : Builder ValueId :=
  append block .bool (.compare comparison lhs rhs)

/-- Appends a selection, which has the type of its first arm. -/
def select (block : BlockId) (condition ifTrue ifFalse : ValueId) : Builder ValueId := do
  append block (← tyOf ifTrue) (.select condition ifTrue ifFalse)

/-- Appends a conversion. -/
def cast (block : BlockId) (kind : Conversion) (operand : ValueId) (target : Ty) :
    Builder ValueId :=
  append block target (.cast kind operand)

/-- Appends an overflow check. -/
def overflow (block : BlockId) (check : OverflowCheck) (lhs rhs : ValueId) : Builder ValueId :=
  append block .bool (.overflow check lhs rhs)

/-- Appends a funnel shift, which has the type of its high operand. -/
def funnel (block : BlockId) (direction : Direction) (high low amount : ValueId) :
    Builder ValueId := do
  append block (← tyOf high) (.funnel direction high low amount)

/-- Appends a load, which has the type of the slot. -/
def load (block : BlockId) (slot : SlotId) : Builder ValueId := do
  append block ((← get).slot slot).ty (.load slot)

/-- Appends a store. -/
def store (block : BlockId) (slot : SlotId) (operand : ValueId) : Builder ValueId :=
  append block .void (.store slot operand)

/-- Ends a block with a jump. -/
def branch (block target : BlockId) : Builder ValueId :=
  terminate block (.branch target)

/-- Ends a block with a conditional jump. -/
def branchIf (block : BlockId) (condition : ValueId) (ifTrue ifFalse : BlockId) :
    Builder ValueId :=
  terminate block (.branchIf condition ifTrue ifFalse)

/-- Ends a block with a return. -/
def ret (block : BlockId) (result : Option ValueId) : Builder ValueId :=
  terminate block (.ret result)

end Builder

end RegisterFlow
