import RegisterFlow.Tracking.Resolve

/-!
# Deriving flags

The flags that an instruction sets follow from the value that it computes. The zero and sign flags
depend on the value alone. Carry and overflow depend on the computation behind the value, which is
looked up through conversions that adjust the width: on the operands of arithmetic, or on the bits
that a shift or rotate moved out. A shift whose count may be zero keeps the carry that reached it.
-/

namespace RegisterFlow.Raise

-- Powers of numbers are those of core, also where other instances are in scope.
attribute [local instance (high)] instPowNat

/-- The width of an integer value that words can hold. -/
def testWidth (flag : Flag) (value : ValueId) : Raise Nat := do
  let ty := (← get).func.ty value
  match ty.wordBits? with
  | some width => return width
  | none => throw (.inconsistentWidth (.flag flag) (.testType ty))

/-- Appends the test whether a value is zero. -/
def deriveZero (block : BlockId) (test : ValueId) : Raise ValueId := do
  discard <| testWidth .zero test
  build do
    let zeros ← Builder.constant (← Builder.tyOf test) 0
    Builder.compare block .eq test zeros

/-- Appends the test whether the top bit of a value is set. -/
def deriveSign (block : BlockId) (test : ValueId) : Raise ValueId := do
  let width ← testWidth .sign test
  build do
    let top ← Builder.constant (← Builder.tyOf test) (UInt64.ofNat (2 ^ (width - 1)))
    let masked ← Builder.binary block .and test top
    Builder.compare block .eq masked top

/-- Appends the test whether a bit of a value is set. -/
def testBit (block : BlockId) (value : ValueId) (index : Nat) : Builder ValueId := do
  let ty ← Builder.tyOf value
  let bit ← Builder.constant ty (UInt64.ofNat (2 ^ index))
  let zeros ← Builder.constant ty 0
  let masked ← Builder.binary block .and value bit
  Builder.compare block .ne masked zeros

/-- What a flag rule calls the arithmetic that it expects. -/
def producerOf : BinaryOp → Producer
  | .sub => .subtract
  | .mul => .multiply
  | _ => .add

/-- The operands of the arithmetic that produced a value. -/
def operandsOf (flag : Flag) (family : Family) (producer : ValueId) (op : BinaryOp) :
    Raise (ValueId × ValueId) := do
  let func := (← get).func
  match func.operation producer with
  | .binary found lhs rhs =>
    if found ≠ op then
      throw (.unexpectedProducer flag family (producerOf op))
    if func.ty lhs ≠ func.ty rhs then
      throw (.inconsistentWidth (.flag flag) (.operandTypes (func.ty lhs) (func.ty rhs)))
    return (lhs, rhs)
  | _ => throw (.unexpectedProducer flag family (producerOf op))

/-- Appends an overflow check of the arithmetic that produced a value. -/
def checkedFlag (flag : Flag) (block : BlockId) (family : Family) (producer : ValueId)
    (op : BinaryOp) (check : OverflowCheck) : Raise ValueId := do
  let (lhs, rhs) ← operandsOf flag family producer op
  build (Builder.overflow block check lhs rhs)

/-- Appends the overflow flag of an instruction. -/
def deriveOverflow (block : BlockId) (family : Family) (test : ValueId) : Raise ValueId := do
  let producer := (← get).func.behindCasts test
  match family with
  | .add => checkedFlag .overflow block family producer .add .sadd
  | .subtract | .compare => checkedFlag .overflow block family producer .sub .ssub
  | .signedMultiply => checkedFlag .overflow block family producer .mul .smul
  | .rotateLeft (some 1) =>
    let width ← testWidth .overflow producer
    build do
      let carry ← testBit block producer 0
      let top ← testBit block producer (width - 1)
      Builder.binary block .xor carry top
  | .rotateRight (some 1) =>
    let width ← testWidth .overflow producer
    if width < 2 then
      throw (.inconsistentWidth (.flag .overflow) .singleBitRotate)
    build do
      let top ← testBit block producer (width - 1)
      let next ← testBit block producer (width - 2)
      Builder.binary block .xor top next
  | .rotateLeft _ | .rotateRight _ => throw (.noFlagRule .overflow family .rotateCount)
  | _ => throw (.noFlagRule .overflow family .noOverflowRule)

/-- The carry that reaches an instruction, which a shift by zero keeps. -/
def incomingCarry (graph : FlowGraph) (block : BlockId) (family : Family) : Raise ValueId := do
  match ← readLocation graph (.flag .carry) .bool block false true with
  | some carry => return carry
  | none => throw (.noFlagRule .carry family .noIncomingCarry)

/-- Appends the test of the last bit of `shifted` that a shift by a `count` above zero moves out. -/
def lastBitOut (block : BlockId) (width : Nat) (shifted count : ValueId)
    (direction : Direction) : Builder ValueId := do
  let ty ← Builder.tyOf shifted
  let one ← Builder.constant ty 1
  let index ← match direction with
    | .left => do
      let bits ← Builder.constant ty (UInt64.ofNat width)
      Builder.binary block .sub bits count
    | .right => Builder.binary block .sub count one
  let bit ← Builder.binary block .shl one index
  let masked ← Builder.binary block .and shifted bit
  let zeros ← Builder.constant ty 0
  Builder.compare block .ne masked zeros

/-- Appends the last bit that a shift moves out, or the carry before it when the count is zero. -/
def shiftCarry (graph : FlowGraph) (block : BlockId) (family : Family)
    (shifted count : ValueId) (direction : Direction) : Raise ValueId := do
  let width ← testWidth .carry shifted
  let func := (← get).func
  let ty := func.ty shifted
  if func.ty count ≠ ty then
    throw (.inconsistentWidth (.flag .carry) (.countType (func.ty count) ty))
  match func.constant? count with
  | some payload =>
    if payload = 0 then incomingCarry graph block family
    else build (lastBitOut block width shifted count direction)
  | none =>
    let carry ← build (lastBitOut block width shifted count direction)
    let previous ← incomingCarry graph block family
    build do
      let nonzero ← Builder.compare block .ne count (← Builder.constant ty 0)
      Builder.select block nonzero carry previous

/-- Appends the carry flag of an instruction. -/
def deriveCarry (graph : FlowGraph) (block : BlockId) (family : Family) (test : ValueId) :
    Raise ValueId := do
  let func := (← get).func
  let producer := func.behindCasts test
  match family with
  | .negate =>
    let (minuend, operand) ← operandsOf .carry family producer .sub
    if func.constant? minuend ≠ some 0 then
      throw (.unexpectedProducer .carry family .subtractFromZero)
    build (Builder.compare block .ne operand minuend)
  | .add => checkedFlag .carry block family producer .add .uadd
  | .subtract | .compare => checkedFlag .carry block family producer .sub .usub
  | .signedMultiply => checkedFlag .carry block family producer .mul .smul
  | .rotateLeft _ =>
    discard <| testWidth .carry producer
    build (testBit block producer 0)
  | .rotateRight _ =>
    let width ← testWidth .carry producer
    build (testBit block producer (width - 1))
  | .shiftLeft =>
    match func.operation producer with
    | .binary .shl shifted count => shiftCarry graph block family shifted count .left
    | _ => throw (.unexpectedProducer .carry family .leftShift)
  | .shiftLeftDouble =>
    match func.operation producer with
    | .funnel .left high _ amount => shiftCarry graph block family high amount .left
    | _ => throw (.unexpectedProducer .carry family .leftFunnel)
  | .shiftRightDouble =>
    match func.operation producer with
    | .funnel .right _ low amount => shiftCarry graph block family low amount .right
    | _ => throw (.unexpectedProducer .carry family .rightFunnel)
  | .other _ => throw (.noFlagRule .carry family .noCarryRule)

/--
The other flag that an instruction sets to the same value: signed products set carry and overflow
alike.
-/
def twin? (flag : Flag) : Family → Option Flag
  | .signedMultiply =>
    match flag with
    | .carry => some .overflow
    | .overflow => some .carry
    | _ => none
  | _ => none

/-- Derives a flag in a block from the value that an instruction of a family computed there. -/
def deriveFlag (graph : FlowGraph) (flag : Flag) (block : BlockId) (family : Family)
    (test : ValueId) : Raise Unit := do
  let location ← ofExcept (Location.ofFlag flag)
  let value ← match flag with
    | .zero => deriveZero block test
    | .sign => deriveSign block test
    | .overflow => deriveOverflow block family test
    | .carry => deriveCarry graph block family test
    | .parity | .adjust | .direction => throw (.untrackedFlag flag)
  build (Builder.rename value flag.name)
  define location block 1 value
  match twin? flag family with
  | some twin => define (.flag twin) block 1 value
  | none => pure ()
  count (Statistics.countFlagDerived family.name)

/-- Gives a flag a constant value in a block. -/
def writeFlag (flag : Flag) (block : BlockId) (truth : Bool) : Raise Unit := do
  let location ← ofExcept (Location.ofFlag flag)
  let value ← build (Builder.boolean truth)
  define location block 1 value
  count Statistics.countFlagSet

/-- Reads a flag in a block. -/
def readFlag (graph : FlowGraph) (flag : Flag) (block : BlockId) : Raise (Option ValueId) := do
  let location ← ofExcept (Location.ofFlag flag)
  readLocation graph location .bool block false true

end RegisterFlow.Raise
