import RegisterFlow.Proofs.Execution.Exact

/-!
# Shifts and rotations of bit vectors

On words that hold bit vectors, differences and shifts are those of bit vectors, and a funnel shift
of a word with itself is a rotation. The bit that a mask of one bit leaves is the last bit that a
shift moves out when the mask is shifted to its place. A rotation puts this bit back in last.
-/

namespace RegisterFlow

open Word

section Operations

variable {width : Nat}

theorem BinaryOp.apply_sub (narrow : width ≤ 64) (first second : BitVec width) :
    sub.apply width (ofBits first) (ofBits second) = ofBits (first - second) := by
  have fits : 2 ^ width ∣ 2 ^ 64 := Nat.pow_dvd_pow 2 narrow
  have first_lt := first.isLt
  have second_lt := second.isLt
  have wider : 2 ^ width ≤ 2 ^ 64 := Nat.pow_le_pow_right (by omega) narrow
  rw [← UInt64.toNat_inj, apply, toNat_truncate, UInt64.toNat_sub, toNat_ofBits narrow,
    toNat_ofBits narrow, toNat_ofBits narrow, BitVec.toNat_sub, Nat.min_eq_left narrow,
    Nat.mod_mod_of_dvd _ fits]
  rcases fits with ⟨_ | factor, power⟩
  · simp at power
  rw [Nat.mul_succ] at power
  have split : 2 ^ 64 - second.toNat + first.toNat =
      2 ^ width - second.toNat + first.toNat + 2 ^ width * factor := by
    omega
  rw [split, Nat.add_mul_mod_self_left]

theorem BinaryOp.apply_xor_truths (first second : Bool) :
    xor.apply 1 first.toUInt64 second.toUInt64 = (first ^^ second).toUInt64 := by
  cases first <;> cases second <;> rfl

/-- A shift to the left by the width or more gives zero, as for bit vectors. -/
theorem BinaryOp.apply_shl (narrow : width ≤ 64) (bits amount : BitVec width) :
    shl.apply width (ofBits bits) (ofBits amount) = ofBits (bits <<< amount) := by
  have fits : 2 ^ width ∣ 2 ^ 64 := Nat.pow_dvd_pow 2 narrow
  rw [← UInt64.toNat_inj, apply, toNat_truncate, toNat_ofBits narrow, toNat_ofBits narrow,
    Nat.min_eq_left narrow, BitVec.shiftLeft_eq', BitVec.toNat_shiftLeft]
  by_cases below : amount.toNat < width
  · rw [if_pos below, UInt64.toNat_shiftLeft, toNat_ofBits narrow, toNat_ofBits narrow,
      Nat.mod_mod_of_dvd _ fits, Nat.mod_eq_of_lt (Nat.lt_of_lt_of_le below narrow)]
  · have vanishes : 2 ^ width ∣ bits.toNat <<< amount.toNat := by
      rw [Nat.shiftLeft_eq]
      exact Nat.dvd_mul_left_of_dvd (Nat.pow_dvd_pow 2 (Nat.le_of_not_lt below)) _
    rw [if_neg below, Nat.mod_eq_zero_of_dvd vanishes]
    simp

theorem Word.toNat_shiftLeft_ofNat (word : UInt64) {amount : Nat} (below : amount < 64) :
    (word <<< UInt64.ofNat amount).toNat = word.toNat <<< amount % 2 ^ 64 := by
  rw [UInt64.toNat_shiftLeft, UInt64.toNat_ofNat', Nat.mod_eq_of_lt (a := amount) (by omega),
    Nat.mod_eq_of_lt (a := amount) below]

theorem Word.toNat_shiftRight_ofNat (word : UInt64) {amount : Nat} (below : amount < 64) :
    (word >>> UInt64.ofNat amount).toNat = word.toNat >>> amount := by
  rw [UInt64.toNat_shiftRight, UInt64.toNat_ofNat', Nat.mod_eq_of_lt (a := amount) (by omega),
    Nat.mod_eq_of_lt (a := amount) below]

/-- What is shifted up and what is shifted down come together as bit vectors. -/
theorem Word.truncate_shifted (narrow : width ≤ 64) (upper lower : BitVec width) {up down : Nat}
    (up_lt : up < 64) (down_lt : down < 64) :
    truncate width (ofBits upper <<< UInt64.ofNat up ||| ofBits lower >>> UInt64.ofNat down) =
      ofBits (upper <<< up ||| lower >>> down) := by
  have fits : 2 ^ width ∣ 2 ^ 64 := Nat.pow_dvd_pow 2 narrow
  have small : lower.toNat >>> down < 2 ^ width :=
    Nat.lt_of_le_of_lt (Nat.shiftRight_le ..) lower.isLt
  rw [← UInt64.toNat_inj, toNat_truncate, toNat_ofBits narrow, Nat.min_eq_left narrow,
    BitVec.toNat_or, BitVec.toNat_shiftLeft, BitVec.toNat_ushiftRight, UInt64.toNat_or,
    toNat_shiftLeft_ofNat _ up_lt, toNat_shiftRight_ofNat _ down_lt, toNat_ofBits narrow,
    toNat_ofBits narrow, Nat.or_mod_two_pow, Nat.mod_mod_of_dvd _ fits, Nat.mod_eq_of_lt small]

/-- The rotation of a bit vector in a direction. -/
def Direction.rotate (direction : Direction) (bits : BitVec width) (amount : Nat) : BitVec width :=
  match direction with
  | .left => bits.rotateLeft amount
  | .right => bits.rotateRight amount

theorem Direction.rotate_zero (direction : Direction) (bits : BitVec width) :
    direction.rotate bits 0 = bits := by
  apply BitVec.eq_of_getLsbD_eq
  intro index below
  cases direction <;> simp [rotate, below]

/-- A funnel shift of a word with itself is a rotation. -/
theorem Direction.shift_self {amount : Nat} (direction : Direction) (narrow : width ≤ 64)
    (bits : BitVec width) (below : amount < width) :
    direction.shift width (ofBits bits) (ofBits bits) amount =
      ofBits (direction.rotate bits amount) := by
  by_cases zero : amount = 0
  · subst zero
    rw [rotate_zero]
    cases direction <;> rfl
  · cases direction with
    | left =>
        simp only [shift, zero, if_false]
        rw [truncate_shifted narrow bits bits (by omega) (by omega), rotate, BitVec.rotateLeft,
          Nat.mod_eq_of_lt below, BitVec.rotateLeftAux]
    | right =>
        simp only [shift, zero, if_false]
        rw [UInt64.or_comm, truncate_shifted narrow bits bits (by omega) (by omega), rotate,
          BitVec.rotateRight, Nat.mod_eq_of_lt below, BitVec.rotateRightAux, BitVec.or_comm]

end Operations

section Bits

variable {width : Nat}

/-- A mask of one bit leaves something if and only if the bit is set. -/
theorem and_twoPow_ne_zero (bits : BitVec width) (index : Nat) :
    (bits &&& BitVec.twoPow width index != 0) = bits.getLsbD index := by
  rw [BitVec.and_twoPow]
  cases set : bits.getLsbD index with
  | false => simp
  | true =>
      have below : index < width := BitVec.lt_of_getLsbD set
      rw [if_pos rfl, bne_iff_ne]
      intro zero
      have toNat_eq := congrArg BitVec.toNat zero
      rw [BitVec.toNat_twoPow_of_lt below] at toNat_eq
      exact absurd toNat_eq (Nat.ne_of_gt (Nat.two_pow_pos _))

/-- The last bit that a shift by a positive amount moves out. -/
def lastBit (direction : Direction) (bits amount : BitVec width) : Bool :=
  match direction with
  | .left => (bits.toNat * 2 ^ amount.toNat).testBit width
  | .right => bits.toNat.testBit (amount.toNat - 1)

/-- To the left, the last bit moved out stands as far below the width as the shift goes. -/
theorem lastBit_left (bits amount : BitVec width) (moves : amount ≠ 0) :
    bits.getLsbD (BitVec.ofNat width width - amount).toNat = lastBit .left bits amount := by
  have amount_lt := amount.isLt
  have positive : 0 < amount.toNat := by
    apply Nat.pos_of_ne_zero
    intro zero
    exact moves (BitVec.eq_of_toNat_eq zero)
  have width_lt : width < 2 ^ width := Nat.lt_two_pow_self
  rw [lastBit, Nat.testBit_mul_two_pow, BitVec.getLsbD, BitVec.toNat_sub, BitVec.toNat_ofNat,
    Nat.mod_eq_of_lt width_lt]
  by_cases within : amount.toNat ≤ width
  · have index : (2 ^ width - amount.toNat + width) % 2 ^ width = width - amount.toNat := by
      have split : 2 ^ width - amount.toNat + width = width - amount.toNat + 2 ^ width := by omega
      rw [split, Nat.add_mod_right, Nat.mod_eq_of_lt (by omega)]
    simp [index, within]
  · -- The index wraps around to a place above the width, where no bit is set.
    have index : (2 ^ width - amount.toNat + width) % 2 ^ width =
        2 ^ width - amount.toNat + width := by
      apply Nat.mod_eq_of_lt
      omega
    have above : width ≤ 2 ^ width - amount.toNat + width := Nat.le_add_left ..
    have unset : bits.toNat.testBit (2 ^ width - amount.toNat + width) = false :=
      Nat.testBit_lt_two_pow (Nat.lt_of_lt_of_le bits.isLt (Nat.pow_le_pow_right (by omega) above))
    simp [index, within, unset]

/-- To the right, the last bit moved out stands just below the place where the shift goes. -/
theorem lastBit_right (bits amount : BitVec width) (moves : amount ≠ 0) :
    bits.getLsbD (amount - 1).toNat = lastBit .right bits amount := by
  have amount_lt := amount.isLt
  have positive : 0 < amount.toNat := by
    apply Nat.pos_of_ne_zero
    intro zero
    exact moves (BitVec.eq_of_toNat_eq zero)
  have one : (1 : BitVec width).toNat = 1 := by
    rw [BitVec.ofNat_eq_ofNat, BitVec.toNat_ofNat]
    exact Nat.mod_eq_of_lt (Nat.lt_of_le_of_lt positive amount_lt)
  have index : (2 ^ width - 1 + amount.toNat) % 2 ^ width = amount.toNat - 1 := by
    have split : 2 ^ width - 1 + amount.toNat = amount.toNat - 1 + 2 ^ width := by omega
    rw [split, Nat.add_mod_right, Nat.mod_eq_of_lt (by omega)]
  rw [lastBit, BitVec.getLsbD, BitVec.toNat_sub, one, index]

/-- The place at which a rotation in a direction puts bits back in: the lowest, or the top one. -/
def Direction.edge (width : Nat) : Direction → Nat
  | .left => 0
  | .right => width - 1

/-- The bit that a rotation puts in last is the last one that a shift by the amount moves out. -/
theorem Direction.getLsbD_edge_rotate {amount : Nat} (direction : Direction) (bits : BitVec width)
    (moves : 0 < amount) (below : amount < width) :
    (direction.rotate bits amount).getLsbD (direction.edge width) =
      lastBit direction bits (BitVec.ofNat width amount) := by
  have amount_mod : amount % width = amount := Nat.mod_eq_of_lt below
  have fits : (BitVec.ofNat width amount).toNat = amount := by
    rw [BitVec.toNat_ofNat, Nat.mod_eq_of_lt (Nat.lt_trans below Nat.lt_two_pow_self)]
  cases direction with
  | left =>
      rw [rotate, edge, lastBit, fits, BitVec.getLsbD_rotateLeft, amount_mod,
        Nat.testBit_mul_two_pow]
      simp [BitVec.getLsbD, moves, Nat.le_of_lt below]
  | right =>
      have beyond : ¬ width - 1 < width - amount := by omega
      have inside : width - 1 < width := by omega
      have place : width - 1 - (width - amount) = amount - 1 := by omega
      rw [rotate, edge, lastBit, fits, BitVec.getLsbD_rotateRight, amount_mod, place]
      simp [BitVec.getLsbD, beyond, inside]

end Bits

end RegisterFlow
