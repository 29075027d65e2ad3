import RegisterFlow.Proofs.Execution.Shifts

/-!
# Numbers of operations

What operations give in unbounded arithmetic, on the numbers of their operands. A word of some width
stands for its number, and in two's complement for a balanced one. At every width that a word can
hold, the operations on words give these numbers.
-/

namespace RegisterFlow

open Word

/-- The two's complement number that a number below `2 ^ width` stands for. -/
def Word.balanced (width number : Nat) : Int :=
  if number < 2 ^ (width - 1) then number else number - 2 ^ width

/-- The number that an arithmetic operation gives. -/
def BinaryOp.number (op : BinaryOp) (width lhs rhs : Nat) : Nat :=
  match op with
  | add => (lhs + rhs) % 2 ^ width
  | sub => ((lhs - rhs : Int) % 2 ^ width).toNat
  | mul => lhs * rhs % 2 ^ width
  | and => lhs &&& rhs
  | or => lhs ||| rhs
  | xor => lhs ^^^ rhs
  | shl => if rhs < width then lhs * 2 ^ rhs % 2 ^ width else 0
  | lshr => if rhs < width then lhs / 2 ^ rhs else 0
  | ashr => if rhs < width then (balanced width lhs / 2 ^ rhs % 2 ^ width).toNat else 0

/-- Whether a comparison holds between numbers. -/
def Comparison.HoldsFor (comparison : Comparison) (width lhs rhs : Nat) : Prop :=
  match comparison with
  | eq => lhs = rhs
  | ne => lhs ≠ rhs
  | ugt => lhs > rhs
  | uge => lhs ≥ rhs
  | ult => lhs < rhs
  | ule => lhs ≤ rhs
  | sgt => balanced width lhs > balanced width rhs
  | sge => balanced width lhs ≥ balanced width rhs
  | slt => balanced width lhs < balanced width rhs
  | sle => balanced width lhs ≤ balanced width rhs

/-- Whether the result of unbounded arithmetic fits the width, without or with a sign. -/
def OverflowCheck.FitsFor (check : OverflowCheck) (width lhs rhs : Nat) : Prop :=
  match check with
  | uadd => lhs + rhs < 2 ^ width
  | usub => (0 : Int) ≤ lhs - rhs
  | sadd => FitsSigned width (balanced width lhs + balanced width rhs)
  | ssub => FitsSigned width (balanced width lhs - balanced width rhs)
  | smul => FitsSigned width (balanced width lhs * balanced width rhs)

/-- The half of a number of twice the width that a funnel shift gives. -/
def Direction.number (direction : Direction) (width high low amount : Nat) : Nat :=
  match direction with
  | left => (high * 2 ^ width + low) * 2 ^ (amount % width) % 2 ^ (2 * width) / 2 ^ width
  | right => (high * 2 ^ width + low) / 2 ^ (amount % width) % 2 ^ width

/-- The number that a conversion gives. -/
def Conversion.number (kind : Conversion) (source target number : Nat) : Nat :=
  match kind with
  | sext => (balanced source number % 2 ^ target).toNat
  | zext => number
  | trunc | bitcast | ptrToInt | intToPtr => number % 2 ^ target

section Balanced

variable {width : Nat} {word lhs rhs : UInt64}

theorem Word.two_pow_eq (positive : 1 ≤ width) : 2 ^ width = 2 * 2 ^ (width - 1) := by
  rw [← Nat.pow_succ', Nat.succ_eq_add_one, Nat.sub_add_cancel positive]

/-- The signed reading of a word of a width is its two's complement number. -/
theorem Word.signed_eq_balanced (positive : 1 ≤ width) (narrow : width ≤ 64)
    (fits : word.toNat < 2 ^ width) : signed width word = balanced width word.toNat := by
  have whole := two_pow_eq positive
  rw [signed, if_neg (by omega), Nat.min_eq_left narrow, Int.bmod_def, balanced,
    Int.emod_eq_of_lt (by omega) (by exact_mod_cast fits)]
  have whole_int : (2 : Int) ^ width = 2 * ((2 ^ (width - 1) : Nat) : Int) := by
    exact_mod_cast whole
  rw [whole_int, whole]
  generalize 2 ^ (width - 1) = half
  push_cast
  split <;> split <;> omega

/-- The low bits of the word of an integer are those of the integer. -/
theorem Word.toNat_ofInt_mod (narrow : width ≤ 64) (number : Int) :
    (UInt64.ofInt number).toNat % 2 ^ width = (number % 2 ^ width).toNat := by
  have wider : 2 ^ width ∣ 2 ^ 64 := Nat.pow_dvd_pow 2 narrow
  have wider_int : (2 : Int) ^ width ∣ 2 ^ 64 := by exact_mod_cast wider
  have whole_nonneg : 0 ≤ number % 2 ^ 64 := Int.emod_nonneg _ (by decide)
  have modulus_ne : (2 : Int) ^ width ≠ 0 := by exact_mod_cast Nat.ne_of_gt (Nat.two_pow_pos width)
  have nonneg : 0 ≤ number % 2 ^ width := Int.emod_nonneg _ modulus_ne
  rw [UInt64.ofInt, UInt64.toNat_ofNat', Nat.mod_mod_of_dvd _ wider, ← Int.natCast_inj,
    Int.natCast_emod, Int.toNat_of_nonneg whole_nonneg, Int.toNat_of_nonneg nonneg]
  exact_mod_cast Int.emod_emod_of_dvd number wider_int

theorem Word.sub_eq_ofInt (lhs rhs : UInt64) :
    lhs - rhs = UInt64.ofInt (lhs.toNat - rhs.toNat) := by
  have lhs_lt := lhs.toNat_lt
  have rhs_lt := rhs.toNat_lt
  rw [← UInt64.toNat_inj, UInt64.toNat_sub, UInt64.ofInt, UInt64.toNat_ofNat']
  omega

theorem BinaryOp.toNat_apply (op : BinaryOp) (positive : 1 ≤ width) (narrow : width ≤ 64)
    (lhs_fits : lhs.toNat < 2 ^ width) (rhs_fits : rhs.toNat < 2 ^ width) :
    (op.apply width lhs rhs).toNat = op.number width lhs.toNat rhs.toNat := by
  have wider : 2 ^ width ∣ 2 ^ 64 := Nat.pow_dvd_pow 2 narrow
  have rhs_lt := rhs.toNat_lt
  unfold apply
  rw [toNat_truncate, Nat.min_eq_left narrow]
  cases op with
  | add => simp only [number, UInt64.toNat_add, Nat.mod_mod_of_dvd _ wider]
  | sub => simp only [number, sub_eq_ofInt, toNat_ofInt_mod narrow]
  | mul => simp only [number, UInt64.toNat_mul, Nat.mod_mod_of_dvd _ wider]
  | and => simp [number, Nat.mod_eq_of_lt (Nat.and_lt_two_pow _ rhs_fits)]
  | or => simp [number, Nat.mod_eq_of_lt (Nat.or_lt_two_pow lhs_fits rhs_fits)]
  | xor => simp [number, Nat.mod_eq_of_lt (Nat.xor_lt_two_pow lhs_fits rhs_fits)]
  | shl =>
      simp only [number]
      split
      · next below =>
        rw [UInt64.toNat_shiftLeft, Nat.mod_mod_of_dvd _ wider, Nat.shiftLeft_eq,
          Nat.mod_eq_of_lt (a := rhs.toNat) (by omega)]
      · simp
  | lshr =>
      simp only [number]
      split
      · next below =>
        rw [UInt64.toNat_shiftRight, Nat.shiftRight_eq_div_pow,
          Nat.mod_eq_of_lt (a := rhs.toNat) (by omega),
          Nat.mod_eq_of_lt (Nat.lt_of_le_of_lt (Nat.div_le_self ..) lhs_fits)]
      · simp
  | ashr =>
      simp only [number]
      split
      · next below =>
        rw [signed_eq_balanced positive narrow lhs_fits, Int.shiftRight_eq_div_pow,
          toNat_ofInt_mod narrow]
        simp
      · simp

theorem Comparison.holds_iff (comparison : Comparison) (positive : 1 ≤ width) (narrow : width ≤ 64)
    (lhs_fits : lhs.toNat < 2 ^ width) (rhs_fits : rhs.toNat < 2 ^ width) :
    comparison.holds width lhs rhs = true ↔ comparison.HoldsFor width lhs.toNat rhs.toNat := by
  have lhs_eq := signed_eq_balanced positive narrow lhs_fits
  have rhs_eq := signed_eq_balanced positive narrow rhs_fits
  cases comparison <;>
    simp [holds, HoldsFor, lhs_eq, rhs_eq, UInt64.lt_iff_toNat_lt, UInt64.le_iff_toNat_le,
      ← UInt64.toNat_inj]

theorem OverflowCheck.occurs_iff (check : OverflowCheck) (positive : 1 ≤ width)
    (narrow : width ≤ 64) (lhs_fits : lhs.toNat < 2 ^ width) (rhs_fits : rhs.toNat < 2 ^ width) :
    check.occurs width lhs rhs = true ↔ ¬ check.FitsFor width lhs.toNat rhs.toNat := by
  have lhs_eq := signed_eq_balanced positive narrow lhs_fits
  have rhs_eq := signed_eq_balanced positive narrow rhs_fits
  have whole := Nat.two_pow_pos width
  cases check with
  | uadd =>
      simp only [occurs, FitsFor, toNat_mask, Nat.min_eq_left narrow, decide_eq_true_iff]
      omega
  | usub =>
      simp only [occurs, FitsFor, UInt64.lt_iff_toNat_lt, decide_eq_true_iff]
      omega
  | sadd | ssub | smul => simp [occurs, FitsFor, lhs_eq, rhs_eq]

theorem Conversion.toNat_convert (kind : Conversion) {target : Nat} (positive : 1 ≤ width)
    (narrow : width ≤ 64) (target_narrow : target ≤ 64) (fits : word.toNat < 2 ^ width)
    (widens : kind = .zext → width ≤ target) :
    (kind.convert width target word).toNat = kind.number width target word.toNat := by
  cases kind with
  | sext =>
      simp only [convert, number, signExtend, toNat_truncate, Nat.min_eq_left target_narrow,
        signed_eq_balanced positive narrow fits, toNat_ofInt_mod target_narrow]
  | zext =>
      have wider : 2 ^ width ≤ 2 ^ target := Nat.pow_le_pow_right (by omega) (widens rfl)
      simp only [convert, number, toNat_truncate, Nat.min_eq_left target_narrow]
      exact Nat.mod_eq_of_lt (Nat.lt_of_lt_of_le fits wider)
  | trunc | bitcast | ptrToInt | intToPtr =>
      simp only [convert, number, toNat_truncate, Nat.min_eq_left target_narrow]

/-- What is shifted up and what is shifted down by the rest of the width come together as a sum. -/
theorem Word.toNat_truncate_shifted {upper lower : UInt64} {up down : Nat} (narrow : width ≤ 64)
    (whole : up + down = width) (up_lt : up < 64) (down_lt : down < 64)
    (fits : lower.toNat < 2 ^ width) :
    (truncate width (upper <<< UInt64.ofNat up ||| lower >>> UInt64.ofNat down)).toNat =
      (upper.toNat * 2 ^ up + lower.toNat / 2 ^ down) % 2 ^ width := by
  have wider : 2 ^ width ∣ 2 ^ 64 := Nat.pow_dvd_pow 2 narrow
  have small : lower.toNat / 2 ^ down < 2 ^ up := by
    rwa [Nat.div_lt_iff_lt_mul (Nat.two_pow_pos down), ← Nat.pow_add, whole]
  rw [toNat_truncate, Nat.min_eq_left narrow, UInt64.toNat_or, toNat_shiftLeft_ofNat _ up_lt,
    toNat_shiftRight_ofNat _ down_lt, Nat.or_mod_two_pow, Nat.mod_mod_of_dvd _ wider,
    ← Nat.or_mod_two_pow, Nat.shiftRight_eq_div_pow, ← Nat.shiftLeft_add_eq_or_of_lt small,
    Nat.shiftLeft_eq]

theorem Direction.number_left {high low amount : Nat} (below : amount % width < width) :
    left.number width high low amount =
      (high * 2 ^ (amount % width) + low / 2 ^ (width - amount % width)) % 2 ^ width := by
  simp only [number]
  generalize amount % width = count at *
  have whole := (Nat.pow_sub_mul_pow 2 (Nat.le_of_lt below)).symm
  have moved : (high * 2 ^ width + low) * 2 ^ count =
      low * 2 ^ count + high * 2 ^ count * 2 ^ width := by
    rw [Nat.add_mul, Nat.mul_right_comm, Nat.add_comm]
  have parts : low * 2 ^ count / 2 ^ width = low / 2 ^ (width - count) := by
    rw [whole, Nat.mul_div_mul_right _ _ (Nat.two_pow_pos count)]
  rw [Nat.two_mul, Nat.pow_add, Nat.mod_mul_right_div_self, moved,
    Nat.add_mul_div_right _ _ (Nat.two_pow_pos width), parts, Nat.add_comm]

theorem Direction.number_right {high low amount : Nat} (below : amount % width < width) :
    right.number width high low amount =
      (high * 2 ^ (width - amount % width) + low / 2 ^ (amount % width)) % 2 ^ width := by
  simp only [number]
  generalize amount % width = count at *
  have whole := (Nat.pow_sub_mul_pow 2 (Nat.le_of_lt below)).symm
  have moved : high * 2 ^ width + low = low + high * 2 ^ (width - count) * 2 ^ count := by
    rw [Nat.mul_assoc, ← whole, Nat.add_comm]
  rw [moved, Nat.add_mul_div_right _ _ (Nat.two_pow_pos count), Nat.add_comm]

theorem Direction.toNat_shift (direction : Direction) {high low : UInt64} (amount : UInt64)
    (positive : 1 ≤ width) (narrow : width ≤ 64) (high_fits : high.toNat < 2 ^ width)
    (low_fits : low.toNat < 2 ^ width) :
    (direction.shift width high low (amount.toNat % width)).toNat =
      direction.number width high.toNat low.toNat amount.toNat := by
  have below : amount.toNat % width < width := Nat.mod_lt _ positive
  cases direction with
  | left =>
      rw [number_left below]
      by_cases still : amount.toNat % width = 0
      · simp [shift, still, Nat.div_eq_of_lt low_fits, Nat.mod_eq_of_lt high_fits]
      · simp only [shift, still, if_false]
        exact toNat_truncate_shifted narrow (by omega) (by omega) (by omega) low_fits
  | right =>
      rw [number_right below]
      by_cases still : amount.toNat % width = 0
      · simp [shift, still, Nat.mod_eq_of_lt low_fits]
      · simp only [shift, still, if_false]
        rw [UInt64.or_comm]
        exact toNat_truncate_shifted narrow (by omega) (by omega) (by omega) low_fits

end Balanced

end RegisterFlow
