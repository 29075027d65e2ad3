import RegisterFlow.Code.Operation
import RegisterFlow.Word

/-!
# Arithmetic of operations

What the arithmetic operations of raised code do to words at a width from 1 to 64 bits. The overflow
checks are decided on the unbounded sum, difference or product.
-/

namespace RegisterFlow

open Word

/-- The result of an arithmetic operation. Shifts by the width or more give zero. -/
def BinaryOp.apply (op : BinaryOp) (width : Nat) (lhs rhs : UInt64) : UInt64 :=
  truncate width <| match op with
    | add => lhs + rhs
    | sub => lhs - rhs
    | mul => lhs * rhs
    | and => lhs &&& rhs
    | or => lhs ||| rhs
    | xor => lhs ^^^ rhs
    | shl => if rhs.toNat < width then lhs <<< rhs else 0
    | lshr => if rhs.toNat < width then lhs >>> rhs else 0
    | ashr => if rhs.toNat < width then UInt64.ofInt (signed width lhs >>> rhs.toNat) else 0

/-- Whether a comparison holds. -/
def Comparison.holds (comparison : Comparison) (width : Nat) (lhs rhs : UInt64) : Bool :=
  match comparison with
  | eq => lhs = rhs
  | ne => lhs ≠ rhs
  | ugt => rhs < lhs
  | uge => rhs ≤ lhs
  | ult => lhs < rhs
  | ule => lhs ≤ rhs
  | sgt => signed width rhs < signed width lhs
  | sge => signed width rhs ≤ signed width lhs
  | slt => signed width lhs < signed width rhs
  | sle => signed width lhs ≤ signed width rhs

/-- Whether the exact result lies outside the range of the width. -/
def OverflowCheck.occurs (check : OverflowCheck) (width : Nat) (lhs rhs : UInt64) : Bool :=
  match check with
  | uadd => (mask width).toNat < lhs.toNat + rhs.toNat
  | usub => lhs < rhs
  | sadd => ¬ FitsSigned width (signed width lhs + signed width rhs)
  | ssub => ¬ FitsSigned width (signed width lhs - signed width rhs)
  | smul => ¬ FitsSigned width (signed width lhs * signed width rhs)

/-- The result of a funnel shift by an amount below the width. -/
def Direction.shift (direction : Direction) (width : Nat) (high low : UInt64) (amount : Nat) :
    UInt64 :=
  let kept := UInt64.ofNat amount
  let moved := UInt64.ofNat (width - amount)
  match direction with
  | left => if amount = 0 then high else truncate width (high <<< kept ||| low >>> moved)
  | right => if amount = 0 then low else truncate width (low >>> kept ||| high <<< moved)

/-- The result of a conversion from one width to another. -/
def Conversion.convert (kind : Conversion) (source target : Nat) (word : UInt64) : UInt64 :=
  truncate target <| match kind with
    | sext => signExtend source word
    | _ => word

end RegisterFlow
