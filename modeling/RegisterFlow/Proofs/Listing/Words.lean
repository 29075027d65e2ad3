import RegisterFlow.Proofs.Listing.Layout
import RegisterFlow.Proofs.Listing.Scanning

/-!
# Words of listings

What the words of a listing consist of, and that bytes and types are read from the words that stand
for them.
-/

namespace RegisterFlow

/-! ### Bytes -/

namespace Hexadecimal

theorem toLower_cases (char : Char) :
    char.toLower = char ∨ ∃ position : Fin 26, char = Char.ofNat (65 + position) := by
  by_cases upper : 65 ≤ char.toNat ∧ char.toNat ≤ 90
  · refine Or.inr ⟨⟨char.toNat - 65, by omega⟩, ?_⟩
    rw [show 65 + (char.toNat - 65) = char.toNat by omega, Char.ofNat_toNat]
  · refine Or.inl ?_
    unfold Char.toLower
    rw [dif_neg]
    simpa [UInt32.le_iff_toNat_le] using upper

theorem isDigit_toLower (char : Char) : isDigit char.toLower = isDigit char := by
  rcases toLower_cases char with same | ⟨position, rfl⟩
  · rw [same]
  · revert position
    decide

theorem digitValue_toLower {char : Char} (digit : isDigit char = true) :
    digitValue char.toLower = digitValue char := by
  rcases toLower_cases char with same | ⟨position, rfl⟩
  · rw [same]
  · revert position
    decide

theorem byte?_map_toLower (pair : List Char) : byte? (pair.map Char.toLower) = byte? pair := by
  match pair with
  | [] | [_] | _ :: _ :: _ :: _ => rfl
  | [high, low] =>
    simp only [List.map_cons, List.map_nil, byte?, isDigit_toLower]
    split
    · next digits =>
      rw [Bool.and_eq_true] at digits
      rw [digitValue_toLower digits.1, digitValue_toLower digits.2]
    · rfl

theorem isWordChar_of_isDigit {char : Char} (digit : isDigit char = true) :
    Cursor.isWordChar char = true := by
  have classes : isDigit char =
      ((decide ('0'.val ≤ char.val) && decide (char.val ≤ '9'.val)) ||
        (decide ('a'.val ≤ char.val) && decide (char.val ≤ 'f'.val)) ||
        (decide ('A'.val ≤ char.val) && decide (char.val ≤ 'F'.val))) := rfl
  rw [classes] at digit
  simp only [Bool.or_eq_true, Bool.and_eq_true, decide_eq_true_eq, UInt32.le_iff_toNat_le] at digit
  have value : char.val.toNat = char.toNat := rfl
  rw [Cursor.isWordChar_iff]
  simp at digit
  omega

theorem exists_of_byte? {pair : List Char} {byte : UInt8} (read : byte? pair = some byte) :
    ∃ high low, pair = [high, low] ∧ Cursor.isWordChar high = true ∧
      Cursor.isWordChar low = true := by
  unfold byte? at read
  split at read
  · next high low =>
    split at read
    · next digits =>
      rw [Bool.and_eq_true] at digits
      exact ⟨high, low, rfl, isWordChar_of_isDigit digits.1, isWordChar_of_isDigit digits.2⟩
    · cases read
  · cases read

end Hexadecimal

/-- A byte is read from the digits that stand for it, and they make a word. -/
theorem SpellsByte.exists_digits {byte : UInt8} {pair : List Char} (spells : SpellsByte byte pair) :
    ∃ high low, pair = [high, low] ∧ Hexadecimal.byte? [high, low] = some byte ∧
      Cursor.isWordChar high = true ∧ [high, low].all Cursor.isWordChar = true := by
  have read : Hexadecimal.byte? pair = some byte := by
    rw [← Hexadecimal.byte?_map_toLower, spells, Hexadecimal.byte?_digits]
  rcases Hexadecimal.exists_of_byte? read with ⟨high, low, rfl, first, second⟩
  exact ⟨high, low, rfl, read, first, by simp [first, second]⟩

/-! ### Identifiers and types -/

theorem exists_of_isIdentifier {name : String} (named : isIdentifier name = true) :
    ∃ first rest, name.toList = first :: rest ∧ (first.isAlpha || first = '_') = true ∧
      Cursor.isWordChar first = true ∧ (first :: rest).all Cursor.isWordChar = true := by
  unfold isIdentifier at named
  split at named
  · cases named
  · next first rest chars =>
    rw [Bool.and_eq_true] at named
    have wordChar : Cursor.isWordChar first = true := by
      have letter := named.1
      simp only [Bool.or_eq_true, decide_eq_true_eq] at letter
      rcases letter with alpha | rfl
      · simp [Cursor.isWordChar, Char.isAlphanum, alpha]
      · decide
    refine ⟨first, rest, chars, named.1, wordChar, ?_⟩
    rw [List.all_cons, wordChar, named.2, Bool.true_and]

theorem decimal?_toDigits (number : Nat) : decimal? (Nat.toDigits 10 number) = some number := by
  have digits : (Nat.toDigits 10 number).all Char.isDigit = true := by
    rw [List.all_eq_true]
    intro char mem
    exact Nat.isDigit_of_mem_toDigits (by decide) (by decide) mem
  unfold decimal?
  rw [if_pos ⟨Nat.toDigits_ne_nil, digits⟩]
  refine congrArg some ?_
  calc
    _ = Nat.ofDigitChars 10 (Nat.toDigits 10 number) 0 := by
      unfold Nat.ofDigitChars
      simp only [Nat.mul_comm]
    _ = number := Nat.ofDigitChars_ten_toDigits

namespace Ty

theorem toList_text_int (bits : Nat) : (int bits).text.toList = 'i' :: Nat.toDigits 10 bits := by
  simp [text]

/-- The type of an argument is read from its text. -/
theorem argumentTy?_text {ty : Ty} (argument : ty.IsArgument) : argumentTy? ty.text = some ty := by
  cases ty with
  | void => cases argument
  | ptr | f32 | f64 => decide
  | int bits =>
      have fits : 0 < bits ∧ bits < UInt32.size := argument
      unfold argumentTy?
      rw [toList_text_int]
      simp [decimal?_toDigits, fits]

theorem isIdentifier_text (ty : Ty) : isIdentifier ty.text = true := by
  cases ty with
  | void | ptr | f32 | f64 => decide
  | int bits =>
      have digits : (Nat.toDigits 10 bits).all Cursor.isWordChar = true := by
        rw [List.all_eq_true]
        intro char mem
        have digit := @Nat.isDigit_of_mem_toDigits 10 bits char (by decide) (by decide) mem
        simp [Cursor.isWordChar, Char.isAlphanum, digit]
      have letter : 'i'.isAlpha = true := by decide
      unfold isIdentifier
      rw [toList_text_int]
      simp [digits, letter]

end Ty

end RegisterFlow
