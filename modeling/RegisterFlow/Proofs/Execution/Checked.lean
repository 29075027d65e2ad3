import RegisterFlow.Proofs.Execution.Numbers

/-!
# Machine arithmetic

The same operations in steps of a machine: shifts of 64-bit words by less than 64, differences that
stay above zero, remainders by something other than zero, sums and products of 128 bits. A step that
leaves its type has no result. No operation takes such a step at a width from 1 to 64.
-/

namespace RegisterFlow

open Word

namespace Checked

/-- An unsigned difference, which has no result below zero. -/
def difference (lhs rhs : Nat) : Option Nat :=
  if rhs ≤ lhs then some (lhs - rhs) else none

/-- An unsigned remainder, which has no result for the divisor zero. -/
def remainder (lhs rhs : Nat) : Option Nat :=
  if rhs = 0 then none else some (lhs % rhs)

/-- A shift of a word to the left, by fewer than 64 places. -/
def raise (word : UInt64) (count : Nat) : Option UInt64 :=
  if count < 64 then some (word <<< UInt64.ofNat count) else none

/-- A shift of a word to the right, by fewer than 64 places. -/
def lower (word : UInt64) (count : Nat) : Option UInt64 :=
  if count < 64 then some (word >>> UInt64.ofNat count) else none

/-- A shift of a signed word to the right, by fewer than 64 places. -/
def lowerSigned (number : Int64) (count : Nat) : Option Int64 :=
  if count < 64 then some (number >>> Int64.ofNat count) else none

/-- A number of an unsigned type of 128 bits. -/
def wideUnsigned (number : Nat) : Option Nat :=
  if number < 2 ^ 128 then some number else none

/-- A number of a signed type of 128 bits. -/
def wide (number : Int) : Option Int :=
  if -2 ^ 127 ≤ number ∧ number < 2 ^ 127 then some number else none

/-- One in a signed type of 128 bits, shifted to the left by fewer than 128 places. -/
def wideUnit (count : Nat) : Option Int :=
  if count < 128 then some (Int.bmod (2 ^ count) (2 ^ 128)) else none

/-- The word whose low bits are set, all of them from width 64 on. -/
def mask (width : Nat) : Option UInt64 :=
  if 64 ≤ width then
    some (UInt64.ofNat (2 ^ 64 - 1))
  else do
    let unit ← raise 1 width
    return UInt64.ofNat (← difference unit.toNat 1)

/-- Shifts the sign bit of a width to the top and back. -/
def signExtend (width : Nat) (word : UInt64) : Option UInt64 :=
  if width = 0 ∨ 64 ≤ width then
    some word
  else do
    let count ← difference 64 width
    let raised ← raise word count
    return (← lowerSigned raised.toInt64 count).toUInt64

end Checked

open Checked

def BinaryOp.checked (op : BinaryOp) (width : Nat) (lhs rhs : UInt64) : Option UInt64 := do
  let mask ← Checked.mask width
  let result ← match op with
    | add => some (lhs + rhs)
    | sub => some (lhs - rhs)
    | mul => some (lhs * rhs)
    | and => some (lhs &&& rhs)
    | or => some (lhs ||| rhs)
    | xor => some (lhs ^^^ rhs)
    | shl => if rhs.toNat < width then raise lhs rhs.toNat else some 0
    | lshr => if rhs.toNat < width then lower lhs rhs.toNat else some 0
    | ashr =>
      if rhs.toNat < width then do
        let extended ← Checked.signExtend width lhs
        let lowered ← lowerSigned extended.toInt64 rhs.toNat
        pure lowered.toUInt64
      else
        some 0
  return result &&& mask

def Comparison.checked (comparison : Comparison) (width : Nat) (lhs rhs : UInt64) :
    Option Bool := do
  let signedLhs := (← Checked.signExtend width lhs).toInt64
  let signedRhs := (← Checked.signExtend width rhs).toInt64
  return match comparison with
    | eq => lhs = rhs
    | ne => lhs ≠ rhs
    | ugt => lhs > rhs
    | uge => lhs ≥ rhs
    | ult => lhs < rhs
    | ule => lhs ≤ rhs
    | sgt => signedLhs > signedRhs
    | sge => signedLhs ≥ signedRhs
    | slt => signedLhs < signedRhs
    | sle => signedLhs ≤ signedRhs

def OverflowCheck.checked (check : OverflowCheck) (width : Nat) (lhs rhs : UInt64) :
    Option Bool := do
  let signedLhs := (← Checked.signExtend width lhs).toInt64.toInt
  let signedRhs := (← Checked.signExtend width rhs).toInt64.toInt
  let unit ← wideUnit (← difference width 1)
  let least ← wide (-unit)
  let greatest ← wide (unit - 1)
  match check with
  | uadd => return (← Checked.mask width).toNat < (← wideUnsigned (lhs.toNat + rhs.toNat))
  | usub => return lhs.toNat < rhs.toNat
  | sadd =>
    let sum ← wide (signedLhs + signedRhs)
    return ¬ (least ≤ sum ∧ sum ≤ greatest)
  | ssub =>
    let rest ← wide (signedLhs - signedRhs)
    return ¬ (least ≤ rest ∧ rest ≤ greatest)
  | smul =>
    let product ← wide (signedLhs * signedRhs)
    return ¬ (least ≤ product ∧ product ≤ greatest)

def Direction.checked (direction : Direction) (width : Nat) (high low amount : UInt64) :
    Option UInt64 := do
  let count ← remainder amount.toNat width
  if count = 0 then
    return match direction with
      | left => high
      | right => low
  let mask ← Checked.mask width
  let rest ← difference width count
  match direction with
  | left => return ((← raise high count) ||| (← lower low rest)) &&& mask
  | right => return ((← lower low count) ||| (← raise high rest)) &&& mask

def Conversion.checked (kind : Conversion) (source target : Nat) (word : UInt64) :
    Option UInt64 := do
  let mask ← Checked.mask target
  match kind with
  | sext => return (← Checked.signExtend source word) &&& mask
  | _ => return word &&& mask

section Steps

variable {width count : Nat}

theorem Checked.mask_eq (width : Nat) : Checked.mask width = some (Word.mask width) := by
  unfold Checked.mask Word.mask
  split
  · next wide => rw [Nat.min_eq_right wide]
  · next narrow =>
    have below : width < 64 := Nat.lt_of_not_le narrow
    have fits : 2 ^ width < 2 ^ 64 := Nat.pow_lt_pow_right (by omega) below
    have unit : ((1 : UInt64) <<< UInt64.ofNat width).toNat = 2 ^ width := by
      rw [toNat_shiftLeft_ofNat _ below, UInt64.toNat_one, Nat.one_shiftLeft, Nat.mod_eq_of_lt fits]
    have positive := Nat.two_pow_pos width
    simp only [raise, below, if_true, difference, unit, Option.bind_eq_bind, Option.bind_some]
    rw [if_pos (by omega), Nat.min_eq_left (Nat.le_of_lt below)]
    rfl

/-- A remainder of a shift count of a signed word, of which only the low bits are read. -/
theorem Word.toNat_smod_ofNat :
    ∀ count < 64, ((Int64.ofNat count).toBitVec.smod 64).toNat = count := by
  decide

theorem Word.toInt_shiftRight (number : Int64) (below : count < 64) :
    (number >>> Int64.ofNat count).toInt = number.toInt >>> count := by
  rw [← Int64.toInt_toBitVec, Int64.toBitVec_shiftRight, BitVec.sshiftRight',
    BitVec.toInt_sshiftRight, toNat_smod_ofNat count below, Int64.toInt_toBitVec]

theorem Word.toInt_eq_bmod (number : Int64) :
    number.toInt = (number.toUInt64.toNat : Int).bmod (2 ^ 64) :=
  BitVec.toInt_eq_toNat_bmod _

theorem Word.ofInt_toInt (number : Int64) : UInt64.ofInt number.toInt = number.toUInt64 := by
  have below := number.toUInt64.toNat_lt
  rw [← UInt64.toNat_inj, UInt64.ofInt, UInt64.toNat_ofNat', toInt_eq_bmod]
  have whole : (2 : Int) ^ 64 = ((2 ^ 64 : Nat) : Int) := rfl
  rw [whole, Int.bmod_emod]
  omega

/-- Shifting the sign bit of a width to the top and back gives the signed reading. -/
theorem Word.signed_shift (positive : 1 ≤ width) (narrow : width < 64) (word : UInt64) :
    Int.bmod (word.toNat <<< (64 - width) : Nat) (2 ^ 64) >>> (64 - width) = signed width word := by
  have whole : 2 ^ 64 = 2 ^ (64 - width) * 2 ^ width := by
    rw [Nat.pow_sub_mul_pow 2 (Nat.le_of_lt narrow)]
  have unit_pos := Nat.two_pow_pos (64 - width)
  -- Both balanced remainders are decided by the same half, once with the factor and once without.
  rw [signed, if_neg (by omega), Nat.min_eq_left (Nat.le_of_lt narrow), Nat.shiftLeft_eq, whole,
    Nat.mul_comm word.toNat, two_pow_eq positive, Int.shiftRight_eq_div_pow, Int.bmod_def,
    Int.bmod_def]
  generalize 2 ^ (64 - width) = unit at unit_pos
  generalize 2 ^ (width - 1) = half
  have unit_pos_int : (0 : Int) < unit := by exact_mod_cast unit_pos
  push_cast
  rw [Int.mul_emod_mul_of_pos _ _ unit_pos_int]
  generalize (word.toNat : Int) % (2 * half) = rest
  have doubled : (unit : Int) * (2 * half) = 2 * (unit * half) := Int.mul_left_comm ..
  have above : (2 * (half : Int) + 1) / 2 = half := by omega
  have above_unit : (2 * ((unit : Int) * half) + 1) / 2 = unit * half := by omega
  have scaled : (unit : Int) * rest < unit * half ↔ rest < half :=
    Int.mul_lt_mul_left unit_pos_int
  rw [doubled, above, above_unit, ← doubled]
  by_cases small : rest < half
  · rw [if_pos small, if_pos (scaled.mpr small),
      Int.mul_ediv_cancel_left _ (Int.ne_of_gt unit_pos_int)]
  · rw [if_neg small, if_neg (fun less => small (scaled.mp less)), ← Int.mul_sub,
      Int.mul_ediv_cancel_left _ (Int.ne_of_gt unit_pos_int)]

theorem Checked.signExtend_eq (width : Nat) (word : UInt64) :
    Checked.signExtend width word = some (Word.signExtend width word) := by
  unfold Checked.signExtend Word.signExtend
  split
  · next whole =>
    have bits : (if width = 0 then 64 else min width 64) = 64 := by
      split <;> omega
    rw [signed, bits, ← UInt64.toUInt64_toInt64 word, ← toInt_eq_bmod, ofInt_toInt]
  · next narrow =>
    have below : 64 - width < 64 := by omega
    simp only [difference, raise, lowerSigned, below, if_true, Option.bind_eq_bind,
      Option.bind_some, if_pos (show width ≤ 64 by omega)]
    rw [← ofInt_toInt, toInt_shiftRight _ below, toInt_eq_bmod, UInt64.toUInt64_toInt64,
      toNat_shiftLeft_ofNat _ below]
    have reduced : ((word.toNat <<< (64 - width) % 2 ^ 64 : Nat) : Int).bmod (2 ^ 64) =
        Int.bmod (word.toNat <<< (64 - width) : Nat) (2 ^ 64) := by
      rw [Int.natCast_emod, Int.emod_bmod]
    rw [reduced, signed_shift (by omega) (by omega)]
    rfl

/-- The signed readings of a width are numbers of that width. -/
theorem Word.signed_bounds (positive : 1 ≤ width) (narrow : width ≤ 64) (word : UInt64) :
    -2 ^ 63 ≤ signed width word ∧ signed width word < 2 ^ 63 := by
  have even := two_pow_eq positive
  have half_le : 2 ^ (width - 1) ≤ 2 ^ 63 := Nat.pow_le_pow_right (by omega) (by omega)
  rw [signed, if_neg (by omega), Nat.min_eq_left narrow]
  have least := Int.le_bmod (x := word.toNat) (Nat.two_pow_pos width)
  have greatest := Int.bmod_lt (x := word.toNat) (Nat.two_pow_pos width)
  rw [even] at least greatest ⊢
  generalize 2 ^ (width - 1) = half at *
  push_cast at *
  omega

theorem Word.toInt_signExtend (positive : 1 ≤ width) (narrow : width ≤ 64) (word : UInt64) :
    (signExtend width word).toInt64.toInt = signed width word := by
  have bounds := signed_bounds positive narrow word
  rw [signExtend, toInt_eq_bmod, UInt64.toUInt64_toInt64, UInt64.ofInt, UInt64.toNat_ofNat']
  generalize signed width word = number at *
  have nonneg : 0 ≤ number % 2 ^ 64 := by omega
  rw [Nat.mod_eq_of_lt (by omega), Int.toNat_of_nonneg nonneg]
  have whole : (2 : Int) ^ 64 = ((2 ^ 64 : Nat) : Int) := rfl
  rw [whole, Int.emod_bmod]
  exact Int.bmod_eq_of_le_mul_two (by omega) (by omega)

end Steps

section Results

variable {width : Nat}

theorem BinaryOp.checked_eq (op : BinaryOp) (positive : 1 ≤ width) (narrow : width ≤ 64)
    (lhs rhs : UInt64) : op.checked width lhs rhs = some (op.apply width lhs rhs) := by
  have extended := toInt_signExtend positive narrow lhs
  unfold checked apply truncate
  rw [mask_eq]
  cases op with
  | add | sub | mul | and | or | xor => rfl
  | shl =>
      by_cases below : rhs.toNat < width
      · simp [below, raise, Nat.lt_of_lt_of_le below narrow]
      · simp [below]
  | lshr =>
      by_cases below : rhs.toNat < width
      · simp [below, lower, Nat.lt_of_lt_of_le below narrow]
      · simp [below]
  | ashr =>
      by_cases below : rhs.toNat < width
      · have count_lt : rhs.toNat < 64 := Nat.lt_of_lt_of_le below narrow
        simp [below, lowerSigned, count_lt, signExtend_eq, ← ofInt_toInt,
          toInt_shiftRight _ count_lt, extended]
      · simp [below]

theorem Comparison.checked_eq (comparison : Comparison) (positive : 1 ≤ width)
    (narrow : width ≤ 64) (lhs rhs : UInt64) :
    comparison.checked width lhs rhs = some (comparison.holds width lhs rhs) := by
  have extendedLhs := toInt_signExtend positive narrow lhs
  have extendedRhs := toInt_signExtend positive narrow rhs
  cases comparison <;>
    simp [checked, holds, signExtend_eq, Int64.lt_iff_toInt_lt, Int64.le_iff_toInt_le,
      extendedLhs, extendedRhs]

theorem Checked.wide_of_bounds (number : Int) (least : -2 ^ 127 ≤ number)
    (greatest : number < 2 ^ 127) : wide number = some number :=
  if_pos ⟨least, greatest⟩

theorem Checked.wideUnit_of_lt {count : Nat} (below : count < 64) :
    wideUnit count = some ((2 ^ count : Nat) : Int) := by
  have unit_le : 2 ^ count ≤ 2 ^ 63 := Nat.pow_le_pow_right (by omega) (by omega)
  have cast_eq : (2 : Int) ^ count = (2 ^ count : Nat) := by push_cast; rfl
  rw [wideUnit, if_pos (by omega), cast_eq]
  generalize 2 ^ count = unit at unit_le
  rw [Int.bmod_eq_of_le_mul_two (by omega) (by omega)]

/-- The bounds of a signed range fit 128 bits. -/
theorem Checked.wide_bounds {count : Nat} (below : count < 64) :
    wide (-(2 ^ count : Nat)) = some (-(2 ^ count : Nat) : Int) ∧
      wide ((2 ^ count : Nat) - 1) = some ((2 ^ count : Nat) - 1 : Int) := by
  have unit_le : 2 ^ count ≤ 2 ^ 63 := Nat.pow_le_pow_right (by omega) (by omega)
  generalize 2 ^ count = unit at unit_le
  exact ⟨wide_of_bounds _ (by omega) (by omega), wide_of_bounds _ (by omega) (by omega)⟩

/-- The product of two signed words fits 128 bits. -/
theorem Word.signed_mul_bounds (positive : 1 ≤ width) (narrow : width ≤ 64) (lhs rhs : UInt64) :
    -2 ^ 127 ≤ signed width lhs * signed width rhs ∧
      signed width lhs * signed width rhs < 2 ^ 127 := by
  have lhs_bounds := signed_bounds positive narrow lhs
  have rhs_bounds := signed_bounds positive narrow rhs
  have product_le : (signed width lhs).natAbs * (signed width rhs).natAbs ≤ 2 ^ 63 * 2 ^ 63 :=
    Nat.mul_le_mul (by omega) (by omega)
  rw [← Int.natAbs_mul] at product_le
  omega

/-- The bounds of the signed range and the results of signed arithmetic fit 128 bits. -/
theorem OverflowCheck.checked_eq (check : OverflowCheck) (positive : 1 ≤ width)
    (narrow : width ≤ 64) (lhs rhs : UInt64) :
    check.checked width lhs rhs = some (check.occurs width lhs rhs) := by
  have lhs_bounds := signed_bounds positive narrow lhs
  have rhs_bounds := signed_bounds positive narrow rhs
  have product_bounds := signed_mul_bounds positive narrow lhs rhs
  have lhs_lt := lhs.toNat_lt
  have rhs_lt := rhs.toNat_lt
  have below : width - 1 < 64 := by omega
  have ⟨least, greatest⟩ := wide_bounds below
  simp only [checked, signExtend_eq, toInt_signExtend positive narrow, difference, if_pos positive,
    Option.bind_eq_bind, Option.bind_some, wideUnit_of_lt below, least, greatest]
  cases check with
  | uadd =>
      have sum : wideUnsigned (lhs.toNat + rhs.toNat) = some (lhs.toNat + rhs.toNat) :=
        if_pos (by omega)
      simp [sum, mask_eq, occurs]
  | usub => rfl
  | sadd =>
      have sum := wide_of_bounds (signed width lhs + signed width rhs) (by omega) (by omega)
      rw [sum]
      rfl
  | ssub =>
      have rest := wide_of_bounds (signed width lhs - signed width rhs) (by omega) (by omega)
      rw [rest]
      rfl
  | smul =>
      rw [wide_of_bounds _ product_bounds.1 product_bounds.2]
      rfl

theorem Direction.checked_eq (direction : Direction) (positive : 1 ≤ width) (narrow : width ≤ 64)
    (high low amount : UInt64) :
    direction.checked width high low amount =
      some (direction.shift width high low (amount.toNat % width)) := by
  have below : amount.toNat % width < width := Nat.mod_lt _ positive
  simp only [checked, remainder, if_neg (Nat.ne_of_gt positive), mask_eq]
  by_cases still : amount.toNat % width = 0
  · cases direction <;> simp [still, shift]
  · have rest_lt : width - amount.toNat % width < 64 := by omega
    cases direction <;>
      simp [still, shift, difference, Nat.le_of_lt below, raise, lower, rest_lt, truncate,
        Nat.lt_of_lt_of_le below narrow]

theorem Conversion.checked_eq (kind : Conversion) (source target : Nat) (word : UInt64) :
    kind.checked source target word = some (kind.convert source target word) := by
  cases kind <;> simp [checked, convert, truncate, mask_eq, signExtend_eq]

end Results

end RegisterFlow
