import RegisterFlow.Listing.Error
import RegisterFlow.Text.Blank

/-!
# Reading listings character by character

A cursor stands at a place in the text of a listing. It knows the text that is left, the number of
the line and the address of the next instruction byte. Reading moves it forwards: what is left after
a step is never longer than before, and it is shorter after a step that reads something.
-/

namespace RegisterFlow

/-- A place in the text of a listing. -/
structure Cursor where
  rest : List Char
  line : Nat := 1
  address : Nat := 0x1000
  deriving DecidableEq, Repr

namespace Cursor

/-- The number of characters left. -/
def remaining (cursor : Cursor) : Nat :=
  cursor.rest.length

/-- The next character. -/
def peek? (cursor : Cursor) : Option Char :=
  cursor.rest.head?

/-- Fails at the place of a cursor. -/
def malformed {α : Type} (cursor : Cursor) (malformation : Malformation) :
    Except ListingError α :=
  .error (.malformed cursor.line malformation)

/--
The text after blanks and comments, and the number of its line. A comment runs from a semicolon to
the end of the line. Without `acrossLines`, nothing after the end of the line is skipped.
-/
def skipBlanks (acrossLines inComment : Bool) : List Char → (line : Nat) → List Char × Nat
  | [], line => ([], line)
  | char :: rest, line =>
    if char = '\n' then
      if acrossLines then skipBlanks acrossLines false rest (line + 1) else (char :: rest, line)
    else if inComment || Text.isBlank char then skipBlanks acrossLines inComment rest line
    else if char = ';' then skipBlanks acrossLines true rest line
    else (char :: rest, line)

/-- Skips blanks and comments. -/
def skip (cursor : Cursor) (acrossLines : Bool) : Cursor :=
  let (rest, line) := skipBlanks acrossLines false cursor.rest cursor.line
  { cursor with rest, line }

/-- Reads a mark, if it comes next after blanks and comments. The blanks are skipped anyway. -/
def accept (cursor : Cursor) (mark : Char) : Bool × Cursor :=
  let cursor := cursor.skip true
  match cursor.rest with
  | [] => (false, cursor)
  | char :: rest => if char = mark then (true, { cursor with rest }) else (false, cursor)

/-- Reads a mark that has to come next after blanks and comments. -/
def expect (cursor : Cursor) (mark : Char) : Except ListingError Cursor :=
  match cursor.accept mark with
  | (true, next) => .ok next
  | (false, next) => next.malformed (.expectedMark mark next.peek?)

/-- Characters that words consist of. -/
def isWordChar (char : Char) : Bool :=
  char.isAlphanum || char = '_' || char = '.'

/-- Reads the longest word that comes next, which may be empty. -/
def word (cursor : Cursor) : String × Cursor :=
  (String.ofList (cursor.rest.takeWhile isWordChar),
    { cursor with rest := cursor.rest.dropWhile isWordChar })

/-- Reads a word that does not start with a digit or dot, after blanks and comments. -/
def identifier (cursor : Cursor) : Except ListingError (String × Cursor) :=
  let cursor := cursor.skip true
  match cursor.rest with
  | [] => cursor.malformed (.expectedIdentifier none)
  | char :: _ =>
    if char.isAlpha || char = '_' then .ok cursor.word
    else cursor.malformed (.expectedIdentifier (some char))

/-! ### Reading moves forwards -/

theorem length_skipBlanks_le (acrossLines inComment : Bool) (text : List Char) (line : Nat) :
    (skipBlanks acrossLines inComment text line).1.length ≤ text.length := by
  fun_induction skipBlanks acrossLines inComment text line <;> grind

theorem remaining_skip_le (cursor : Cursor) (acrossLines : Bool) :
    (cursor.skip acrossLines).remaining ≤ cursor.remaining :=
  length_skipBlanks_le ..

theorem remaining_accept_le (cursor : Cursor) (mark : Char) :
    (cursor.accept mark).2.remaining ≤ cursor.remaining := by
  have skipped := remaining_skip_le cursor true
  unfold accept
  grind [remaining]

theorem remaining_expect_lt {cursor next : Cursor} {mark : Char}
    (read : cursor.expect mark = .ok next) : next.remaining < cursor.remaining := by
  have skipped := remaining_skip_le cursor true
  unfold expect accept malformed at read
  grind [remaining]

theorem remaining_word_le (cursor : Cursor) : cursor.word.2.remaining ≤ cursor.remaining :=
  (List.dropWhile_sublist isWordChar).length_le

theorem remaining_word_lt {cursor : Cursor} {char : Char} {rest : List Char}
    (starts : cursor.rest = char :: rest) (wordChar : isWordChar char = true) :
    cursor.word.2.remaining < cursor.remaining := by
  have shorter := (List.dropWhile_sublist isWordChar (l := rest)).length_le
  simp only [word, remaining, starts, List.dropWhile_cons, wordChar, if_true, List.length_cons]
  omega

theorem remaining_word_lt_of_ne_empty {cursor : Cursor} (nonempty : cursor.word.1 ≠ "") :
    cursor.word.2.remaining < cursor.remaining := by
  cases starts : cursor.rest with
  | nil => exact absurd (by simp [word, starts]) nonempty
  | cons char rest =>
    refine remaining_word_lt starts ?_
    cases wordChar : isWordChar char with
    | true => rfl
    | false => exact absurd (by simp [word, starts, wordChar]) nonempty

theorem remaining_identifier_lt {cursor next : Cursor} {name : String}
    (read : cursor.identifier = .ok (name, next)) : next.remaining < cursor.remaining := by
  have skipped := remaining_skip_le cursor true
  simp only [identifier] at read
  split at read
  · simp [malformed] at read
  · next char rest starts =>
    split at read
    · next letter =>
      have wordChar : isWordChar char = true := by
        simp only [Bool.or_eq_true, decide_eq_true_eq] at letter
        simp only [isWordChar, Char.isAlphanum, Bool.or_eq_true, decide_eq_true_eq]
        exact letter.elim (fun alpha => .inl (.inl (.inl alpha))) (fun low => .inl (.inr low))
      have shorter := remaining_word_lt starts wordChar
      have same : (cursor.skip true).word.2 = next := by
        injection read with pair
        rw [pair]
      rw [same] at shorter
      omega
    · simp [malformed] at read

end Cursor

end RegisterFlow
