import RegisterFlow.Code.Ty

/-!
# Operations

The operations that produce the values of raised code, with the numbers that name values, blocks and
slots, and the operands that each operation reads.
-/

namespace RegisterFlow

/-- The number of a value in its function. -/
abbrev ValueId :=
  Nat

/-- The number of a block in its function. Execution starts at block 0. -/
abbrev BlockId :=
  Nat

/-- The number of a frame slot in its function. -/
abbrev SlotId :=
  Nat

namespace BlockId

/-- The block at which execution starts. -/
def entry : BlockId :=
  0

/-- The written form of a block number. -/
def text (block : BlockId) : String :=
  "bb" ++ toString block

end BlockId

/-- The written form of a slot number. -/
def SlotId.text (slot : SlotId) : String :=
  "slot" ++ toString slot

/-- Arithmetic on two integers of one width. -/
inductive BinaryOp where
  | add | sub | mul | and | or | xor | shl | lshr | ashr
  deriving DecidableEq, Repr

/-- Comparisons of integers, unsigned (`u`) and signed (`s`). -/
inductive Comparison where
  | eq | ne | ugt | uge | ult | ule | sgt | sge | slt | sle
  deriving DecidableEq, Repr

/-- Conversions between types. -/
inductive Conversion where
  | trunc | zext | sext | bitcast | ptrToInt | intToPtr
  deriving DecidableEq, Repr

/-- Arithmetic of which only the overflow is kept. -/
inductive OverflowCheck where
  | sadd | uadd | ssub | usub | smul
  deriving DecidableEq, Repr

/-- The direction of a funnel shift. -/
inductive Direction where
  | left | right
  deriving DecidableEq, Repr

/--
What a value computes. A left funnel shift gives the high half of `high:low << amount`, a right one
the low half of `high:low >> amount`.
-/
inductive Operation where
  | argument (index : Nat)
  | constant (payload : UInt64)
  | binary (op : BinaryOp) (lhs rhs : ValueId)
  | compare (comparison : Comparison) (lhs rhs : ValueId)
  | select (condition ifTrue ifFalse : ValueId)
  | cast (kind : Conversion) (operand : ValueId)
  | overflow (check : OverflowCheck) (lhs rhs : ValueId)
  | funnel (direction : Direction) (high low amount : ValueId)
  | slotAddress (slot : SlotId)
  | load (slot : SlotId)
  | store (slot : SlotId) (operand : ValueId)
  | branch (target : BlockId)
  | branchIf (condition : ValueId) (ifTrue ifFalse : BlockId)
  | ret (result : Option ValueId)
  deriving DecidableEq, Repr

namespace Operation

instance : Inhabited Operation :=
  ⟨ret none⟩

/-- Operations that end a block. -/
def isTerminator : Operation → Bool
  | branch _ | branchIf .. | ret _ => true
  | _ => false

/-- Operations whose result other operations can read: all but stores and terminators. -/
def hasResult : Operation → Bool
  | store .. => false
  | operation => !operation.isTerminator

/-- Operations that read nothing and belong to no block. -/
def isLeaf : Operation → Bool
  | argument _ | constant _ | slotAddress _ => true
  | _ => false

/-- The values that an operation reads, in the order in which they are written. -/
def operands : Operation → List ValueId
  | argument _ | constant _ | slotAddress _ | load _ | branch _ | ret none => []
  | binary _ lhs rhs | compare _ lhs rhs | overflow _ lhs rhs => [lhs, rhs]
  | select condition ifTrue ifFalse => [condition, ifTrue, ifFalse]
  | cast _ operand | store _ operand => [operand]
  | funnel _ high low amount => [high, low, amount]
  | branchIf condition _ _ => [condition]
  | ret (some result) => [result]

end Operation

/-- The written form of an arithmetic operation. -/
def BinaryOp.text : BinaryOp → String
  | add => "add"
  | sub => "sub"
  | mul => "mul"
  | and => "and"
  | or => "or"
  | xor => "xor"
  | shl => "shl"
  | lshr => "lshr"
  | ashr => "ashr"

/-- The written form of a comparison. -/
def Comparison.text : Comparison → String
  | eq => "eq"
  | ne => "ne"
  | ugt => "ugt"
  | uge => "uge"
  | ult => "ult"
  | ule => "ule"
  | sgt => "sgt"
  | sge => "sge"
  | slt => "slt"
  | sle => "sle"

/-- The written form of a conversion. -/
def Conversion.text : Conversion → String
  | trunc => "trunc"
  | zext => "zext"
  | sext => "sext"
  | bitcast => "bitcast"
  | ptrToInt => "ptrtoint"
  | intToPtr => "inttoptr"

/-- Conversions that only adjust the width of an integer, or keep its bits. -/
def Conversion.adjustsWidth : Conversion → Bool
  | trunc | zext | sext | bitcast => true
  | ptrToInt | intToPtr => false

/-- The written form of an overflow check. -/
def OverflowCheck.text : OverflowCheck → String
  | sadd => "sadd"
  | uadd => "uadd"
  | ssub => "ssub"
  | usub => "usub"
  | smul => "smul"

/-- The written form of a funnel shift. -/
def Direction.text : Direction → String
  | left => "fshl"
  | right => "fshr"

end RegisterFlow
