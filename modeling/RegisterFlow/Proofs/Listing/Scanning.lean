import Mathlib.Data.List.TakeWhile
import RegisterFlow.Listing.Body

/-!
# Blanks and words

At which characters skipping stops, and which text the readers of blanks and words leave.
-/

namespace RegisterFlow.Cursor

variable {cursor : Cursor} {char : Char} {rest : List Char}

/-! ### Where skipping stops -/

/-- A character at which skipping stops: it is no blank and starts no comment. -/
structure IsSolid (char : Char) : Prop where
  inLine : char ≠ '\n'
  noBlank : Text.isBlank char = false
  noComment : char ≠ ';'

instance : DecidablePred IsSolid := fun char =>
  decidable_of_iff (char ≠ '\n' ∧ Text.isBlank char = false ∧ char ≠ ';')
    ⟨fun ⟨inLine, noBlank, noComment⟩ => ⟨inLine, noBlank, noComment⟩,
      fun solid => ⟨solid.inLine, solid.noBlank, solid.noComment⟩⟩

theorem isWordChar_iff :
    isWordChar char = true ↔ 65 ≤ char.toNat ∧ char.toNat ≤ 90 ∨
      97 ≤ char.toNat ∧ char.toNat ≤ 122 ∨ 48 ≤ char.toNat ∧ char.toNat ≤ 57 ∨
        char = '_' ∨ char = '.' := by
  have classes : isWordChar char =
      (decide ('A'.val ≤ char.val ∧ char.val ≤ 'Z'.val) ||
        (decide ('a'.val ≤ char.val) && decide (char.val ≤ 'z'.val)) ||
        (decide ('0'.val ≤ char.val) && decide (char.val ≤ '9'.val)) ||
        decide (char = '_') || decide (char = '.')) := rfl
  rw [classes]
  simp only [Bool.or_eq_true, Bool.and_eq_true, decide_eq_true_eq, UInt32.le_iff_toNat_le, or_assoc]
  rfl

theorem isSolid_of_isWordChar (wordChar : isWordChar char = true) : IsSolid char := by
  have range : 46 ≤ char.toNat ∧ char.toNat ≤ 122 ∧ char.toNat ≠ 59 := by
    rcases isWordChar_iff.mp wordChar with upper | lower | digit | rfl | rfl
    · omega
    · omega
    · omega
    · decide
    · decide
  refine ⟨?_, ?_, ?_⟩
  · rintro rfl
    revert range
    decide
  · simp [Text.isBlank, Text.blankRanges]
    omega
  · rintro rfl
    revert range
    decide

theorem skip_eq_self (solid : IsSolid char) (starts : cursor.rest = char :: rest)
    (acrossLines : Bool) : cursor.skip acrossLines = cursor := by
  rcases cursor with ⟨text, line, address⟩
  cases starts
  simp [skip, skipBlanks, solid.inLine, solid.noBlank, solid.noComment]

theorem isBlank_of_isInnerBlank (blank : isInnerBlank char = true) :
    char ≠ '\n' ∧ Text.isBlank char = true := by
  simp only [isInnerBlank, Bool.or_eq_true, decide_eq_true_eq] at blank
  rcases blank with (rfl | rfl) | rfl <;> decide

theorem skip_skipInner (cursor : Cursor) (acrossLines : Bool) :
    cursor.skipInner.skip acrossLines = cursor.skip acrossLines := by
  rcases cursor with ⟨text, line, address⟩
  induction text with
  | nil => rfl
  | cons char rest ih =>
      by_cases blank : isInnerBlank char = true
      · rcases isBlank_of_isInnerBlank blank with ⟨inLine, isBlank⟩
        simpa [skipInner, skip, skipBlanks, blank, inLine, isBlank] using ih
      · simp [skipInner, blank]

/-- Where skipping within a line comes to the end of the text, so does skipping across lines. -/
theorem rest_skip_true (nothing : (cursor.skip false).rest = []) :
    (cursor.skip true).rest = [] := by
  have ends : ∀ (inComment : Bool) (text : List Char) (line : Nat),
      (skipBlanks false inComment text line).1 = [] →
        (skipBlanks true inComment text line).1 = [] := by
    intro inComment text line
    fun_induction skipBlanks false inComment text line <;> simp_all [skipBlanks]
  exact ends _ _ _ nothing

/-! ### What words start with -/

theorem exists_isWordChar_of_byte {byte : UInt8}
    (isByte : Hexadecimal.byte? cursor.word.1.toList = some byte) :
    ∃ char rest, cursor.rest = char :: rest ∧ isWordChar char = true := by
  have shorter := remaining_word_lt_of_byte isByte
  cases starts : cursor.rest with
  | nil => simp [word, remaining, starts] at shorter
  | cons char rest =>
      refine ⟨char, rest, rfl, ?_⟩
      by_contra noWordChar
      simp [word, remaining, starts, noWordChar] at shorter

end RegisterFlow.Cursor
