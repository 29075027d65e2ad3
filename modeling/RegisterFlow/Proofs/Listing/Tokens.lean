import RegisterFlow.Proofs.Listing.Equations
import RegisterFlow.Proofs.Listing.Words

/-!
# Reading what is written

Before the parts of an item, every reader of marks, names, types and bytes reads its part and leaves
the parts after it. Before items, skipping comes to the next item.
-/

namespace RegisterFlow

/-- Items that start with a word or a brace. -/
def Item.Proper : Item → Prop
  | header name _ | label name => isIdentifier name = true
  | code bytes => bytes ≠ []
  | jump _ | close => True

/-- An item with which a block ends: the next block, or the end of the routine. -/
def Item.IsBoundary : Item → Prop
  | label _ | close => True
  | header .. | code _ | jump _ => False

/--
The parts that are still to come on a line, and then the items on the lines after it. Readers take
parts from the front, so that this says what is left of a line of a layout.
-/
inductive Ahead (items : List Item) : List (List Char) → List Char → Prop
  | nil {rest : List Char} :
      (∀ item ∈ items, item.Proper) → Layout true items rest → Ahead items [] rest
  | cons {spacing part rest : List Char} {parts : List (List Char)} :
      IsSpacing spacing → (part.all Cursor.isWordChar = true → WordEnds rest) →
      Ahead items parts rest → Ahead items (part :: parts) (spacing ++ part ++ rest)

/-- Where a line ends: with the text, or before the next line. -/
def IsEnding (text : List Char) : Prop :=
  text = [] ∨ ∃ rest, text = '\n' :: rest

section Skipping

open Cursor

variable {spacing comment ending rest : List Char} {char : Char} {line : Nat}
  {acrossLines inComment : Bool}

theorem skipBlanks_spacing (isSpacing : IsSpacing spacing) :
    skipBlanks acrossLines false (spacing ++ rest) line =
      skipBlanks acrossLines false rest line := by
  induction spacing with
  | nil => rfl
  | cons char spacing ih =>
      have blank : char ≠ '\n' ∧ Text.isBlank char = true := by
        rcases isSpacing char List.mem_cons_self with rfl | rfl <;> decide
      rw [← ih fun other mem => isSpacing other (List.mem_cons_of_mem _ mem)]
      simp [skipBlanks, blank]

theorem skipBlanks_inComment {words : List Char} (inLine : '\n' ∉ words)
    (isEnding : IsEnding ending) :
    skipBlanks acrossLines true (words ++ ending) line =
      skipBlanks acrossLines false ending line := by
  induction words with
  | nil =>
      rcases isEnding with rfl | ⟨rest, rfl⟩
      · rfl
      · cases acrossLines <;> simp [skipBlanks]
  | cons char words ih =>
      have differs : char ≠ '\n' := fun same => inLine (same ▸ List.mem_cons_self)
      rw [← ih fun mem => inLine (List.mem_cons_of_mem _ mem)]
      simp [skipBlanks, differs]

/-- Spacing and a comment at the end of a line are skipped. -/
theorem skipBlanks_ending (acrossLines : Bool) (line : Nat) (isSpacing : IsSpacing spacing)
    (isComment : IsComment comment) (isEnding : IsEnding ending) :
    skipBlanks acrossLines false (spacing ++ comment ++ ending) line =
      skipBlanks acrossLines false ending line := by
  rw [List.append_assoc, skipBlanks_spacing isSpacing]
  rcases isComment with rfl | ⟨words, rfl, inLine⟩
  · rfl
  · rw [← skipBlanks_inComment inLine isEnding]
    have inner : Text.isBlank ';' = false := by decide
    simp [skipBlanks, inner]

theorem skip_of_spacing {cursor : Cursor} (isSpacing : IsSpacing spacing) (solid : IsSolid char)
    (starts : cursor.rest = spacing ++ char :: rest) :
    cursor.skip acrossLines = { cursor with rest := char :: rest } := by
  simp [skip, starts, skipBlanks_spacing isSpacing, skipBlanks, solid.inLine, solid.noBlank,
    solid.noComment]

end Skipping

/-! ### Lines -/

section Lines

variable {spacing rest text line : List Char} {items : List Item} {parts : List (List Char)}
  {inside : Bool}

theorem wordEnds_spacing (isSpacing : IsSpacing spacing) (ends : WordEnds rest) :
    WordEnds (spacing ++ rest) := by
  cases spacing with
  | nil => exact ends
  | cons char spacing =>
      intro first isFirst
      cases isFirst
      rcases isSpacing char List.mem_cons_self with rfl | rfl <;> decide

theorem head_of_ending {comment ending : List Char} (isComment : IsComment comment)
    (isEnding : IsEnding ending) :
    ∀ char ∈ (comment ++ ending).head?, char = '\n' ∨ char = ';' := by
  intro char isFirst
  rcases isComment with rfl | ⟨words, rfl, -⟩
  · rcases isEnding with rfl | ⟨rest, rfl⟩
    · cases isFirst
    · cases isFirst
      exact Or.inl rfl
  · cases isFirst
    exact Or.inr rfl

/-- The rest of a line after its item. -/
theorem Layout.exists_ending (layout : Layout true items text) :
    ∃ spacing comment ending, text = spacing ++ (comment ++ ending) ∧ IsSpacing spacing ∧
      IsComment comment ∧ IsEnding ending := by
  cases layout with
  | done isSpacing isComment => exact ⟨_, _, [], by simp, isSpacing, isComment, Or.inl rfl⟩
  | newline isSpacing isComment =>
      exact ⟨_, _, _, by rw [List.append_assoc], isSpacing, isComment, Or.inr ⟨_, rfl⟩⟩

theorem Layout.wordEnds (layout : Layout true items text) : WordEnds text := by
  rcases layout.exists_ending with ⟨spacing, comment, ending, rfl, isSpacing, isComment, isEnding⟩
  apply wordEnds_spacing isSpacing
  intro char isFirst
  rcases head_of_ending isComment isEnding char isFirst with rfl | rfl <;> decide

theorem Ahead.of_spaced (proper : ∀ item ∈ items, item.Proper) (spaced : Spaced parts line)
    (layout : Layout true items rest) : Ahead items parts (line ++ rest) := by
  induction spaced with
  | nil => exact .nil proper layout
  | cons isSpacing apart _ ih =>
      rw [List.append_assoc]
      refine .cons isSpacing ?_ ih
      intro isWord first isFirst
      rename_i line _ _
      cases line with
      | nil => exact layout.wordEnds first isFirst
      | cons char line => exact apart isWord first isFirst

end Lines

/-! ### Items -/

/-- A character with which an item may start. -/
def StartsItem (char : Char) : Prop :=
  Cursor.isWordChar char = true ∨ char = '\x7d'

theorem StartsItem.isSolid {char : Char} (starts : StartsItem char) : Cursor.IsSolid char := by
  rcases starts with wordChar | rfl
  · exact Cursor.isSolid_of_isWordChar wordChar
  · decide

/-- The first part of an item starts with a character that items may start with. -/
theorem Item.Spelled.starts {item : Item} {parts : List (List Char)} (spelled : item.Spelled parts)
    (proper : item.Proper) :
    ∃ char part others, parts = (char :: part) :: others ∧ StartsItem char := by
  have of_identifier : ∀ {name : String}, isIdentifier name = true →
      ∃ char part, name.toList = char :: part ∧ StartsItem char := by
    intro name named
    rcases exists_of_isIdentifier named with ⟨first, rest, chars, -, wordChar, -⟩
    exact ⟨first, rest, chars, Or.inl wordChar⟩
  cases spelled with
  | header name types =>
      rcases of_identifier proper with ⟨char, part, chars, starts⟩
      exact ⟨char, part, _, by rw [chars], starts⟩
  | label name =>
      rcases of_identifier proper with ⟨char, part, chars, starts⟩
      exact ⟨char, part, _, by rw [chars], starts⟩
  | code pairs =>
      cases pairs with
      | nil => exact absurd rfl proper
      | cons spelled _ =>
          rcases spelled.exists_digits with ⟨high, low, rfl, -, wordChar, -⟩
          exact ⟨high, [low], _, rfl, Or.inl wordChar⟩
  | jump targets => exact ⟨'j', ['u', 'm', 'p'], _, rfl, Or.inl (by decide)⟩
  | close => exact ⟨'\x7d', [], [], rfl, Or.inr rfl⟩

/-- What a text looks like where skipping comes to the next item or to the end. -/
inductive Reached : List Item → List Char → Prop
  | done : Reached [] []
  | item {item : Item} {items : List Item} {parts : List (List Char)} {text : List Char} :
      item.Proper → item.Spelled parts → Ahead items parts text → Reached (item :: items) text

namespace Cursor

/-- The cursor stands before items, after blanks and comments. -/
def Before (items : List Item) (cursor : Cursor) : Prop :=
  Reached items (cursor.skip true).rest

theorem skip_skip (cursor : Cursor) (acrossLines : Bool) :
    (cursor.skip acrossLines).skip acrossLines = cursor.skip acrossLines := by
  have again : ∀ (inComment : Bool) (text : List Char) (line : Nat),
      skipBlanks acrossLines false (skipBlanks acrossLines inComment text line).1
        (skipBlanks acrossLines inComment text line).2 =
      skipBlanks acrossLines inComment text line := by
    intro inComment text line
    fun_induction skipBlanks acrossLines inComment text line <;> simp_all [skipBlanks]
  simp [skip, again]

section Parts

variable {items : List Item} {parts : List (List Char)} (cursor : Cursor) {char mark : Char}
  {part : List Char}

/-- Skipping comes to the next part. -/
theorem skip_of_ahead (ahead : Ahead items ((char :: part) :: parts) cursor.rest)
    (solid : IsSolid char) (acrossLines : Bool) :
    ∃ rest, cursor.skip acrossLines = { cursor with rest := char :: part ++ rest } ∧
      Ahead items ((char :: part) :: parts) (char :: part ++ rest) ∧
      ((char :: part).all isWordChar = true → WordEnds rest) ∧ Ahead items parts rest := by
  generalize same : cursor.rest = text at ahead
  cases ahead with
  | cons isSpacing apart ahead =>
      rename_i spacing rest
      refine ⟨rest, skip_of_spacing isSpacing solid (by simp [same]), ?_, apart, ahead⟩
      exact @Ahead.cons items [] _ _ _ (fun _ mem => nomatch mem) apart ahead

theorem accept_of_ahead (ahead : Ahead items ([mark] :: parts) cursor.rest)
    (solid : IsSolid mark) :
    ∃ rest, cursor.accept mark = (true, { cursor with rest }) ∧ Ahead items parts rest := by
  rcases skip_of_ahead cursor ahead solid true with ⟨rest, skipped, -, -, ahead⟩
  refine ⟨rest, ?_, ahead⟩
  simp [accept, skipped]

theorem refuse_of_ahead (mark : Char)
    (ahead : Ahead items ((char :: part) :: parts) cursor.rest)
    (solid : IsSolid char) (differs : char ≠ mark) :
    ∃ rest, cursor.accept mark = (false, { cursor with rest }) ∧
      Ahead items ((char :: part) :: parts) rest ∧ rest.head? = some char := by
  rcases skip_of_ahead cursor ahead solid true with ⟨rest, skipped, ahead, -, -⟩
  refine ⟨char :: part ++ rest, ?_, ahead, rfl⟩
  simp [accept, skipped, differs]

theorem expect_of_ahead (ahead : Ahead items ([mark] :: parts) cursor.rest)
    (solid : IsSolid mark) :
    ∃ rest, cursor.expect mark = .ok { cursor with rest } ∧ Ahead items parts rest := by
  rcases accept_of_ahead cursor ahead solid with ⟨rest, accepted, ahead⟩
  refine ⟨rest, ?_, ahead⟩
  simp [expect, accepted]

theorem word_of_append {rest : List Char} (starts : cursor.rest = part ++ rest)
    (wordChars : part.all isWordChar = true) (ends : WordEnds rest) :
    cursor.word = (String.ofList part, { cursor with rest }) := by
  rw [List.all_eq_true] at wordChars
  have taken : rest.takeWhile isWordChar = [] ∧ rest.dropWhile isWordChar = rest := by
    cases rest with
    | nil => simp
    | cons char rest => simp [ends char rfl]
  simp [word, starts, List.takeWhile_append_of_pos wordChars,
    List.dropWhile_append_of_pos wordChars, taken]

theorem identifier_of_ahead {name : String} (named : isIdentifier name = true)
    (ahead : Ahead items (name.toList :: parts) cursor.rest) :
    ∃ rest, cursor.identifier = .ok (name, { cursor with rest }) ∧ Ahead items parts rest := by
  rcases exists_of_isIdentifier named with ⟨first, others, chars, letter, wordChar, wordChars⟩
  rw [chars] at ahead
  rcases skip_of_ahead cursor ahead (isSolid_of_isWordChar wordChar) true with
    ⟨rest, skipped, -, ends, ahead⟩
  refine ⟨rest, ?_, ahead⟩
  have word_eq := word_of_append { cursor with rest := first :: others ++ rest } rfl wordChars
    (ends wordChars)
  rw [← chars, String.ofList_toList] at word_eq
  unfold identifier
  rw [skipped]
  simp only [List.cons_append, letter, if_true] at word_eq ⊢
  rw [← word_eq, chars]
  rfl

end Parts

/-! ### Before items -/

@[simp]
theorem accept_skip (cursor : Cursor) (mark : Char) :
    (cursor.skip true).accept mark = cursor.accept mark := by
  unfold accept
  rw [skip_skip]

@[simp]
theorem before_skip {items : List Item} {cursor : Cursor} :
    (cursor.skip true).Before items ↔ cursor.Before items := by
  unfold Before
  rw [skip_skip]

theorem rest_of_before {cursor : Cursor} (before : cursor.Before []) :
    (cursor.skip true).rest = [] := by
  unfold Before at before
  generalize (cursor.skip true).rest = text at before ⊢
  cases before
  rfl

theorem exists_of_before {item : Item} {items : List Item} {cursor : Cursor}
    (before : cursor.Before (item :: items)) :
    item.Proper ∧ ∃ parts, item.Spelled parts ∧ Ahead items parts (cursor.skip true).rest := by
  unfold Before at before
  generalize (cursor.skip true).rest = text at before ⊢
  cases before with
  | item proper spelled ahead => exact ⟨proper, _, spelled, ahead⟩

/-- Skipping comes to the first character of the next item. -/
theorem rest_of_before_cons {item : Item} {items : List Item} {cursor : Cursor}
    (before : cursor.Before (item :: items)) :
    ∃ char rest, (cursor.skip true).rest = char :: rest ∧ StartsItem char := by
  rcases exists_of_before before with ⟨proper, parts, spelled, ahead⟩
  rcases spelled.starts proper with ⟨first, part, others, rfl, starts⟩
  rcases skip_of_ahead _ ahead starts.isSolid true with ⟨rest, skipped, -, -, -⟩
  rw [skip_skip] at skipped
  exact ⟨first, part ++ rest, congrArg Cursor.rest skipped, starts⟩

theorem rest_ne_nil_of_before {item : Item} {items : List Item} {cursor : Cursor}
    (before : cursor.Before (item :: items)) : (cursor.skip true).rest ≠ [] := by
  rcases rest_of_before_cons before with ⟨char, rest, starts, -⟩
  rw [starts]
  exact List.cons_ne_nil char rest

/-- Skipping comes to a character with which items start, or to the end. -/
theorem startsItem_of_before {items : List Item} {cursor : Cursor} {char : Char}
    {rest : List Char} (before : cursor.Before items)
    (isNext : (cursor.skip true).rest = char :: rest) : StartsItem char := by
  cases items with
  | nil =>
      rw [rest_of_before before] at isNext
      cases isNext
  | cons item items =>
      rcases rest_of_before_cons before with ⟨first, others, same, starts⟩
      rw [same] at isNext
      cases isNext
      exact starts

theorem refuse_of_before {items : List Item} {cursor : Cursor} {mark : Char}
    (before : cursor.Before items) (differs : ¬ StartsItem mark) :
    cursor.accept mark = (false, cursor.skip true) := by
  unfold accept
  dsimp only
  split
  · rfl
  · next char rest starts =>
    have other : char ≠ mark := by
      rintro rfl
      exact differs (startsItem_of_before before starts)
    exact if_neg other

/-! ### Coming to the next item -/

theorem before_of_layout {inside : Bool} {items : List Item} {cursor : Cursor}
    (proper : ∀ item ∈ items, item.Proper) (layout : Layout inside items cursor.rest) :
    cursor.Before items := by
  have reaches : ∀ text line, Layout inside items text →
      Reached items (skipBlanks true false text line).1 := by
    clear layout
    intro text line layout
    induction layout generalizing line with
    | done isSpacing isComment =>
        have ended := skipBlanks_ending true line isSpacing isComment (Or.inl rfl)
        rw [List.append_nil] at ended
        rw [ended]
        exact .done
    | newline isSpacing isComment _ ih =>
        rw [skipBlanks_ending true line isSpacing isComment (Or.inr ⟨_, rfl⟩)]
        simpa [skipBlanks] using ih proper (line + 1)
    | item spelled spaced layout _ =>
        rename_i rest
        have first := proper _ List.mem_cons_self
        rcases spelled.starts first with ⟨char, part, others, rfl, starts⟩
        have ahead := Ahead.of_spaced (fun item mem => proper item (List.mem_cons_of_mem _ mem))
          spaced layout
        rcases skip_of_ahead { rest := _, line } ahead starts.isSolid true with
          ⟨rest, skipped, ahead, -, -⟩
        have rest_eq : (skipBlanks true false _ line).1 = char :: part ++ rest :=
          congrArg Cursor.rest skipped
        rw [rest_eq]
        exact .item first spelled ahead
  exact reaches _ _ layout

theorem before_of_ahead {items : List Item} (cursor : Cursor) (ahead : Ahead items [] cursor.rest) :
    cursor.Before items := by
  generalize same : cursor.rest = text at ahead
  cases ahead with
  | nil proper layout => exact before_of_layout proper (same ▸ layout)

end Cursor

end RegisterFlow
