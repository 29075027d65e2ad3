import Mathlib.Algebra.Group.Int.Defs
import Mathlib.Algebra.Group.Nat.Defs
import Mathlib.Tactic.Common
import RegisterFlow.Execution.Arithmetic

/-!
# Arithmetic on bit vectors

A word holds a bit vector of up to 64 bits. On words that do, the overflow checks and the test of
the top bit say what bit vectors say of themselves.
-/

namespace RegisterFlow

open Word

namespace Word

/-- The word that holds a bit vector. -/
def ofBits {width : Nat} (bits : BitVec width) : UInt64 :=
  UInt64.ofNat bits.toNat

variable {width : Nat} {first second : BitVec width}

theorem toNat_ofBits (narrow : width ≤ 64) (bits : BitVec width) :
    (ofBits bits).toNat = bits.toNat := by
  have bound : 2 ^ width ≤ 2 ^ 64 := Nat.pow_le_pow_right (by omega) narrow
  rw [ofBits, UInt64.toNat_ofNat']
  exact Nat.mod_eq_of_lt (Nat.lt_of_lt_of_le bits.isLt bound)

theorem ofBits_inj (narrow : width ≤ 64) : ofBits first = ofBits second ↔ first = second := by
  rw [← UInt64.toNat_inj, toNat_ofBits narrow, toNat_ofBits narrow, BitVec.toNat_inj]

theorem ofBits_zero : ofBits (0 : BitVec width) = 0 := by
  simp [ofBits]

/-- The signed reading of a word is that of the bit vector. -/
theorem signed_ofBits (positive : 1 ≤ width) (narrow : width ≤ 64) (bits : BitVec width) :
    signed width (ofBits bits) = bits.toInt := by
  rw [signed, toNat_ofBits narrow, if_neg (by omega), Nat.min_eq_left narrow,
    BitVec.toInt_eq_toNat_bmod]

theorem truncate_ofBits (narrow : width ≤ 64) (bits : BitVec width) :
    truncate width (ofBits bits) = ofBits bits := by
  apply truncate_of_lt
  rw [toNat_ofBits narrow, Nat.min_eq_left narrow]
  exact bits.isLt

theorem ofBits_twoPow {index : Nat} (below : index < width) :
    ofBits (BitVec.twoPow width index) = UInt64.ofNat (2 ^ index) := by
  rw [ofBits, BitVec.toNat_twoPow_of_lt below]

/-- Numbers outside of a two's complement range are too great or too small. -/
theorem not_fitsSigned_iff {number : Int} :
    ¬ FitsSigned width number ↔ number ≥ 2 ^ (width - 1) ∨ number < -2 ^ (width - 1) := by
  rw [FitsSigned, signedMin, signedMax]
  push_cast
  omega

end Word

namespace Comparison

variable {width : Nat}

theorem holds_eq (narrow : width ≤ 64) (first second : BitVec width) :
    eq.holds width (ofBits first) (ofBits second) = (first == second) := by
  rw [holds, beq_eq_decide]
  exact decide_eq_decide.mpr (ofBits_inj narrow)

theorem holds_ne (narrow : width ≤ 64) (first second : BitVec width) :
    ne.holds width (ofBits first) (ofBits second) = (first != second) := by
  rw [holds, bne, beq_eq_decide, ← decide_not]
  exact decide_eq_decide.mpr (ofBits_inj narrow).not

end Comparison

namespace OverflowCheck

variable {width : Nat}

theorem occurs_uadd (narrow : width ≤ 64) (first second : BitVec width) :
    uadd.occurs width (ofBits first) (ofBits second) = first.uaddOverflow second := by
  have positive : 0 < 2 ^ width := Nat.two_pow_pos width
  rw [occurs, BitVec.uaddOverflow, toNat_ofBits narrow, toNat_ofBits narrow, toNat_mask,
    Nat.min_eq_left narrow]
  apply decide_eq_decide.mpr
  omega

theorem occurs_usub (narrow : width ≤ 64) (first second : BitVec width) :
    usub.occurs width (ofBits first) (ofBits second) = first.usubOverflow second := by
  rw [occurs, BitVec.usubOverflow]
  apply decide_eq_decide.mpr
  rw [UInt64.lt_iff_toNat_lt, toNat_ofBits narrow, toNat_ofBits narrow]

theorem occurs_sadd (positive : 1 ≤ width) (narrow : width ≤ 64) (first second : BitVec width) :
    sadd.occurs width (ofBits first) (ofBits second) = first.saddOverflow second := by
  rw [occurs, BitVec.saddOverflow, signed_ofBits positive narrow, signed_ofBits positive narrow,
    ← Bool.decide_or]
  exact decide_eq_decide.mpr not_fitsSigned_iff

theorem occurs_ssub (positive : 1 ≤ width) (narrow : width ≤ 64) (first second : BitVec width) :
    ssub.occurs width (ofBits first) (ofBits second) = first.ssubOverflow second := by
  rw [occurs, BitVec.ssubOverflow, signed_ofBits positive narrow, signed_ofBits positive narrow,
    ← Bool.decide_or]
  exact decide_eq_decide.mpr not_fitsSigned_iff

theorem occurs_smul (positive : 1 ≤ width) (narrow : width ≤ 64) (first second : BitVec width) :
    smul.occurs width (ofBits first) (ofBits second) = first.smulOverflow second := by
  rw [occurs, BitVec.smulOverflow, signed_ofBits positive narrow, signed_ofBits positive narrow,
    ← Bool.decide_or]
  exact decide_eq_decide.mpr not_fitsSigned_iff

end OverflowCheck

theorem BinaryOp.apply_and {width : Nat} (narrow : width ≤ 64) (first second : BitVec width) :
    and.apply width (ofBits first) (ofBits second) = ofBits (first &&& second) := by
  have masked : ofBits first &&& ofBits second = ofBits (first &&& second) := by
    rw [← UInt64.toNat_inj, UInt64.toNat_and, toNat_ofBits narrow, toNat_ofBits narrow,
      toNat_ofBits narrow, BitVec.toNat_and]
  rw [apply, masked, truncate_ofBits narrow]

/-- The top bit of a bit vector is set if it is left under a mask of that bit. -/
theorem and_top_beq_top {width : Nat} (positive : 1 ≤ width) (bits : BitVec width) :
    (bits &&& BitVec.twoPow width (width - 1) == BitVec.twoPow width (width - 1)) = bits.msb := by
  have below : width - 1 < width := Nat.sub_lt positive Nat.one_pos
  have proper : (0 : BitVec width) ≠ BitVec.twoPow width (width - 1) := by
    intro zero
    have toNat_eq := congrArg BitVec.toNat zero
    rw [BitVec.toNat_twoPow_of_lt below] at toNat_eq
    exact absurd toNat_eq (Nat.ne_of_lt (Nat.two_pow_pos _))
  rw [BitVec.msb_eq_getLsbD_last, BitVec.and_twoPow]
  cases bits.getLsbD (width - 1) with
  | false => exact beq_eq_false_iff_ne.mpr proper
  | true => exact beq_self_eq_true _

end RegisterFlow
