import RegisterFlow.Code.Operation
import RegisterFlow.Instruction.Family
import RegisterFlow.Location

/-!
# Tracking failures

The ways in which tracking can fail, and their messages.
-/

namespace RegisterFlow

/-- Why a width or a type does not suit a location. -/
inductive WidthFault where
  | zeroWidth
  | wideFlag (width : Nat)
  | testType (ty : Ty)
  | operandTypes (lhs rhs : Ty)
  | countType (count operand : Ty)
  | singleBitRotate
  | conversion (source target : Ty)
  deriving DecidableEq, Repr

/-- The wording of a width fault. -/
def WidthFault.message : WidthFault → String
  | zeroWidth => "zero-width definition"
  | wideFlag width => "flag definition of width " ++ toString width
  | testType ty => "flag test on a " ++ ty.text ++ " value"
  | operandTypes lhs rhs => "operands of type " ++ lhs.text ++ " and " ++ rhs.text
  | countType count operand =>
    "shift count of type " ++ count.text ++ " for a " ++ operand.text ++ " operand"
  | singleBitRotate => "rotate of a single bit"
  | conversion source target => "cannot convert " ++ source.text ++ " to " ++ target.text

/-- Why a family has no rule for a flag. -/
inductive RuleGap where
  | noOverflowRule
  | noCarryRule
  | rotateCount
  | noIncomingCarry
  deriving DecidableEq, Repr

/-- The wording of a missing rule. -/
def RuleGap.message : RuleGap → String
  | noOverflowRule => "no overflow rule"
  | noCarryRule => "no carry rule"
  | rotateCount => "overflow is undefined unless the rotate count is one"
  | noIncomingCarry => "no carry reaches a shift whose count may be zero"

/-- The computation that a flag rule expects behind a test value. -/
inductive Producer where
  | add | subtract | multiply | subtractFromZero | leftShift | leftFunnel | rightFunnel
  deriving DecidableEq, Repr

/-- The wording of an expected computation. -/
def Producer.description : Producer → String
  | add => "an add"
  | subtract => "a subtract"
  | multiply => "a multiply"
  | subtractFromZero => "a subtract from zero"
  | leftShift => "a left shift"
  | leftFunnel => "a left funnel shift"
  | rightFunnel => "a right funnel shift"

/-- Why tracking failed. -/
inductive TrackingError where
  | nullRegister
  | inconsistentWidth (location : Location) (fault : WidthFault)
  | noFlagRule (flag : Flag) (family : Family) (gap : RuleGap)
  | untrackedFlag (flag : Flag)
  | unexpectedProducer (flag : Flag) (family : Family) (expected : Producer)
  | unmetStore (location : Location) (block : BlockId) (slot : SlotId)
  deriving DecidableEq, Repr

/-- The message of a failure. -/
def TrackingError.message : TrackingError → String
  | nullRegister => "Operation on the null register"
  | inconsistentWidth location fault =>
    "Inconsistent width for " ++ location.name ++ ": " ++ fault.message
  | noFlagRule flag family gap =>
    "No " ++ flag.name ++ " derivation for " ++ family.name ++ ": " ++ gap.message
  | untrackedFlag flag => "Unsupported EFLAGS bit " ++ flag.name
  | unexpectedProducer flag family expected =>
    flag.name ++ " test value for " ++ family.name ++ " is not produced by " ++
      expected.description
  | unmetStore location block slot =>
    "Deferred store of " ++ location.name ++ " from block " ++ BlockId.text block ++
      " into slot " ++ SlotId.text slot ++ " was never completed"

/-- The location of a flag, if it is tracked. -/
def Location.ofFlag (flag : Flag) : Except TrackingError Location :=
  if flag.isTracked then .ok (.flag flag) else .error (.untrackedFlag flag)

end RegisterFlow
