import Mathlib.Data.BitVec
import RegisterFlow.Flag
import RegisterFlow.Proofs.Execution.Exact

/-!
# Comparisons and the flags of differences

A difference says how its operands compare. The four flags that it sets, whether it is zero, its
sign, and whether it overflows without and with a sign, decide every comparison of the operands.
-/

namespace RegisterFlow

open Word (ofBits)

namespace Flag

/-- What a flag says about the difference of two bit vectors. -/
def ofDifference {width : Nat} (flag : Flag) (first second : BitVec width) : Bool :=
  match flag with
  | .zero => first - second == 0
  | .sign => (first - second).msb
  | .carry => first.usubOverflow second
  | .overflow => first.ssubOverflow second
  | .parity | .adjust | .direction => false

variable {width : Nat} {first second : BitVec width}

theorem zero_ofDifference : zero.ofDifference first second = (first == second) := by
  rw [ofDifference, beq_eq_decide, beq_eq_decide]
  exact decide_eq_decide.mpr sub_eq_zero

/-- A number in twice the range of signed words wraps around where it does not fit. -/
theorem bmod_eq_of_double (positive : 1 ≤ width) {number : Int} (above : -2 ^ width < number)
    (below : number < 2 ^ width) :
    number.bmod (2 ^ width) =
      if number ≥ 2 ^ (width - 1) then number - 2 ^ width
      else if number < -2 ^ (width - 1) then number + 2 ^ width
      else number := by
  have modulus : ((2 ^ width : Nat) : Int) = 2 ^ width := by
    push_cast
    rfl
  have half : (2 ^ width : Int) = 2 * 2 ^ (width - 1) := by
    rw [← pow_succ', Nat.sub_add_cancel positive]
  split
  · next great =>
    rw [← Int.sub_bmod_right, modulus]
    apply Int.bmod_eq_of_le <;> rw [modulus] <;> omega
  · split
    · next small =>
      rw [← Int.add_bmod_right, modulus]
      apply Int.bmod_eq_of_le <;> rw [modulus] <;> omega
    · apply Int.bmod_eq_of_le <;> rw [modulus] <;> omega

/-- The sign of a difference is that of the exact one, unless it overflows. -/
theorem sign_bne_overflow_ofDifference (positive : 1 ≤ width) :
    (sign.ofDifference first second != overflow.ofDifference first second) =
      first.slt second := by
  have half : (2 ^ width : Int) = 2 * 2 ^ (width - 1) := by
    rw [← pow_succ', Nat.sub_add_cancel positive]
  have first_ge := @BitVec.le_toInt width first
  have first_lt := @BitVec.toInt_lt width first
  have second_ge := @BitVec.le_toInt width second
  have second_lt := @BitVec.toInt_lt width second
  rw [ofDifference, ofDifference, BitVec.msb_eq_toInt, BitVec.toInt_sub,
    bmod_eq_of_double positive (by omega) (by omega), BitVec.ssubOverflow, BitVec.slt,
    ← Bool.decide_or]
  by_cases great : first.toInt - second.toInt ≥ 2 ^ (width - 1)
  · have wraps : first.toInt - second.toInt - 2 ^ width < 0 := by omega
    have above : ¬ first.toInt < second.toInt := by omega
    simp [great, wraps, above]
  · by_cases small : first.toInt - second.toInt < -2 ^ (width - 1)
    · have wraps : ¬ first.toInt - second.toInt + 2 ^ width < 0 := by omega
      have below : first.toInt < second.toInt := by omega
      simp only [great, small, wraps, below, if_true, if_false, or_true, decide_true, decide_false]
      rfl
    · simp only [great, small, if_false, or_false, decide_false, Bool.bne_false]
      apply decide_eq_decide.mpr
      omega

end Flag

namespace Comparison

/-- Whether flags satisfy the condition that stands for a comparison. -/
def condition (comparison : Comparison) (zero sign carry overflow : Bool) : Bool :=
  match comparison with
  | .eq => zero
  | .ne => !zero
  | .ult => carry
  | .uge => !carry
  | .ule => carry || zero
  | .ugt => !(carry || zero)
  | .slt => sign != overflow
  | .sge => sign == overflow
  | .sle => zero || sign != overflow
  | .sgt => !zero && sign == overflow

variable {width : Nat}

/-- The flags of a difference satisfy the conditions of the comparisons that hold. -/
theorem condition_ofDifference (positive : 1 ≤ width) (narrow : width ≤ 64)
    (comparison : Comparison) (first second : BitVec width) :
    comparison.condition (Flag.zero.ofDifference first second)
      (Flag.sign.ofDifference first second) (Flag.carry.ofDifference first second)
      (Flag.overflow.ofDifference first second) =
        comparison.holds width (ofBits first) (ofBits second) := by
  have zero : Flag.zero.ofDifference first second = true ↔ first = second := by
    rw [Flag.zero_ofDifference, beq_iff_eq]
  have carry : Flag.carry.ofDifference first second = true ↔ first.toNat < second.toNat :=
    decide_eq_true_iff
  have same : Flag.sign.ofDifference first second = Flag.overflow.ofDifference first second ↔
      ¬ first.toInt < second.toInt := by
    rw [← not_iff_not, not_not, ← ne_eq, ← bne_iff_ne, Flag.sign_bne_overflow_ofDifference positive,
      BitVec.slt, decide_eq_true_iff]
  have natural : first = second ↔ first.toNat = second.toNat := BitVec.toNat_inj.symm
  have signed : first = second ↔ first.toInt = second.toInt := BitVec.toInt_inj.symm
  rw [Bool.eq_iff_iff]
  cases comparison with
  | eq | ne =>
      simp only [condition, holds, Bool.not_eq_true', Bool.eq_false_iff, ne_eq, decide_eq_true_iff,
        zero, Word.ofBits_inj narrow]
  | ult | ule | ugt | uge =>
      simp only [condition, holds, Bool.or_eq_true, Bool.not_eq_true', Bool.eq_false_iff, ne_eq,
        decide_eq_true_iff, zero, carry, natural, UInt64.lt_iff_toNat_lt, UInt64.le_iff_toNat_le,
        Word.toNat_ofBits narrow]
      all_goals omega
  | slt | sle | sgt | sge =>
      simp only [condition, holds, Bool.or_eq_true, Bool.and_eq_true, Bool.not_eq_true',
        Bool.eq_false_iff, bne_iff_ne, beq_iff_eq, ne_eq, decide_eq_true_iff, zero, same, signed,
        Word.signed_ofBits positive narrow]
      all_goals omega

end Comparison

end RegisterFlow
