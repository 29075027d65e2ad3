/-!
# Words

A number of up to 64 bits is held in a 64-bit word. This file defines the two readings of a word at
a width, unsigned (`truncate`) and signed (`signed`), and says what they are as numbers: reduction
modulo a power of two, and the balanced remainder of that power.
-/

namespace RegisterFlow.Word

-- Powers of numbers are those of core, also where other instances are in scope.
attribute [local instance (high)] instPowNat

/-- The word whose low `width` bits are set. From width 64 on, every bit is. -/
def mask (width : Nat) : UInt64 :=
  UInt64.ofNat (2 ^ min width 64 - 1)

/-- The low `width` bits of a word. -/
def truncate (width : Nat) (word : UInt64) : UInt64 :=
  word &&& mask width

theorem toNat_mask (width : Nat) : (mask width).toNat = 2 ^ min width 64 - 1 := by
  have bound : 2 ^ min width 64 ≤ 2 ^ 64 := Nat.pow_le_pow_right (by omega) (Nat.min_le_right _ _)
  have positive : 0 < 2 ^ min width 64 := Nat.two_pow_pos _
  unfold mask
  rw [UInt64.toNat_ofNat']
  exact Nat.mod_eq_of_lt (by omega)

/-- Truncation is reduction modulo a power of two. -/
theorem toNat_truncate (width : Nat) (word : UInt64) :
    (truncate width word).toNat = word.toNat % 2 ^ min width 64 := by
  rw [truncate, UInt64.toNat_and, toNat_mask, Nat.and_two_pow_sub_one_eq_mod]

theorem truncate_lt (width : Nat) (word : UInt64) :
    (truncate width word).toNat < 2 ^ min width 64 := by
  rw [toNat_truncate]
  exact Nat.mod_lt _ (Nat.two_pow_pos _)

/-- A word that fits the width is its own truncation. -/
theorem truncate_of_lt {width : Nat} {word : UInt64} (fits : word.toNat < 2 ^ min width 64) :
    truncate width word = word := by
  rw [← UInt64.toNat_inj, toNat_truncate, Nat.mod_eq_of_lt fits]

/--
The low `width` bits of a word as a two's complement number. Width 0 and the widths above 64 read
the whole word.
-/
def signed (width : Nat) (word : UInt64) : Int :=
  (word.toNat : Int).bmod (2 ^ if width = 0 then 64 else min width 64)

/-- The 64-bit word with the signed reading of another word. -/
def signExtend (width : Nat) (word : UInt64) : UInt64 :=
  UInt64.ofInt (signed width word)

/-- The least number of a two's complement range. -/
def signedMin (width : Nat) : Int :=
  -(2 ^ (width - 1) : Nat)

/-- The greatest number of a two's complement range. -/
def signedMax (width : Nat) : Int :=
  (2 ^ (width - 1) : Nat) - 1

/-- Whether a number has a two's complement form of `width` bits. -/
def FitsSigned (width : Nat) (number : Int) : Prop :=
  signedMin width ≤ number ∧ number ≤ signedMax width

instance (width : Nat) (number : Int) : Decidable (FitsSigned width number) :=
  inferInstanceAs (Decidable (_ ∧ _))

end RegisterFlow.Word
