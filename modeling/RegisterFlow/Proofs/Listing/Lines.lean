import RegisterFlow.Proofs.Listing.Tokens

/-!
# Reading written lines

The lists of types, targets and bytes on a line are read as they are written, and so are the lines
of a block up to the next block or the end of the routine.
-/

namespace RegisterFlow

/-! ### Lists with commas -/

theorem listed_singleton (group : List (List Char)) : listed [group] = group := by
  simp [listed]

theorem listed_cons_cons (first second : List (List Char)) (groups : List (List (List Char))) :
    listed (first :: second :: groups) = first ++ [','] :: listed (second :: groups) := by
  simp [listed]

namespace Cursor

variable {items : List Item} {parts : List (List Char)} (cursor : Cursor)

/-- A name is no mark. -/
theorem refuse_of_identifier {name : String} (mark : Char) (named : isIdentifier name = true)
    (noWord : isWordChar mark = false) (ahead : Ahead items (name.toList :: parts) cursor.rest) :
    ∃ rest, cursor.accept mark = (false, { cursor with rest }) ∧
      Ahead items (name.toList :: parts) rest := by
  rcases exists_of_isIdentifier named with ⟨first, others, chars, -, wordChar, -⟩
  rw [chars] at ahead ⊢
  have differs : first ≠ mark := by
    rintro rfl
    rw [noWord] at wordChar
    cases wordChar
  rcases refuse_of_ahead cursor mark ahead (isSolid_of_isWordChar wordChar) differs with
    ⟨rest, refused, ahead, -⟩
  exact ⟨rest, refused, ahead⟩

theorem readTy_of_ahead {ty : Ty} (argument : ty.IsArgument)
    (ahead : Ahead items (ty.text.toList :: parts) cursor.rest) :
    ∃ rest, cursor.readTy = .ok (ty, { cursor with rest }) ∧ Ahead items parts rest := by
  rcases identifier_of_ahead cursor ty.isIdentifier_text ahead with ⟨rest, named, ahead⟩
  refine ⟨rest, ?_, ahead⟩
  unfold readTy
  rw [named]
  simp [Ty.argumentTy?_text argument]

theorem readArguments_of_ahead {types : List Ty} (arguments : ∀ ty ∈ types, ty.IsArgument)
    (ahead : Ahead items (listed (types.map fun ty => [ty.text.toList]) ++ [')'] :: parts)
      cursor.rest) :
    ∃ rest, cursor.readArguments = .ok (types, { cursor with rest }) ∧ Ahead items parts rest := by
  induction types generalizing cursor with
  | nil =>
      rcases accept_of_ahead cursor ahead (by decide) with ⟨rest, accepted, ahead⟩
      refine ⟨rest, ?_, ahead⟩
      rw [readArguments_eq, accepted]
      rfl
  | cons ty types ih =>
      have types_arguments : ∀ other ∈ types, other.IsArgument :=
        fun other mem => arguments other (List.mem_cons_of_mem _ mem)
      have first : ∀ {others : List (List Char)},
          Ahead items (ty.text.toList :: others) cursor.rest → ∃ start rest,
            cursor.accept ')' = (false, { cursor with rest := start }) ∧
            readTy { cursor with rest := start } = .ok (ty, { cursor with rest }) ∧
            Ahead items others rest := by
        intro others ahead
        rcases refuse_of_identifier cursor ')' ty.isIdentifier_text (by decide) ahead with
          ⟨start, refused, ahead⟩
        rcases readTy_of_ahead { cursor with rest := start } (arguments ty List.mem_cons_self)
          ahead with ⟨rest, read, ahead⟩
        exact ⟨start, rest, refused, read, ahead⟩
      cases types with
      | nil =>
          rw [List.map_singleton, listed_singleton, List.singleton_append] at ahead
          rcases first ahead with ⟨start, middle, refused, read, ahead⟩
          rcases refuse_of_ahead { cursor with rest := middle } ',' ahead (by decide)
            (by decide) with ⟨place, separated, ahead, isNext⟩
          rcases ih { cursor with rest := place } types_arguments ahead with
            ⟨rest, rest_read, ahead⟩
          refine ⟨rest, ?_, ahead⟩
          rw [readArguments_eq, refused]
          simp only [Bool.false_eq_true, if_false, read, separated, peek?, isNext, or_true, if_true,
            rest_read]
          rfl
      | cons second types =>
          rw [List.map_cons, List.map_cons, listed_cons_cons, List.singleton_append,
            List.cons_append] at ahead
          rcases first ahead with ⟨start, middle, refused, read, ahead⟩
          rcases accept_of_ahead { cursor with rest := middle } ahead (by decide) with
            ⟨place, separated, ahead⟩
          rcases ih { cursor with rest := place } types_arguments ahead with
            ⟨rest, rest_read, ahead⟩
          refine ⟨rest, ?_, ahead⟩
          rw [readArguments_eq, refused]
          simp only [Bool.false_eq_true, if_false, read, separated, true_or, if_true, rest_read]
          rfl

theorem exists_listed_targets {targets : List String} (nonempty : targets ≠ []) :
    ∃ others, listed (targets.map fun target => [['^'], target.toList]) = ['^'] :: others := by
  match targets with
  | [target] => exact ⟨_, rfl⟩
  | first :: second :: targets =>
    rw [List.map_cons, List.map_cons, listed_cons_cons]
    exact ⟨_, rfl⟩

/-- The names after a jump are read, and then comes the next item. -/
theorem readTargets_of_ahead {targets : List String} (nonempty : targets ≠ [])
    (named : ∀ target ∈ targets, isIdentifier target = true)
    (ahead : Ahead items (listed (targets.map fun target => [['^'], target.toList])) cursor.rest) :
    ∃ next, cursor.readTargets = .ok (targets, next) ∧ next.Before items ∧
      next.address = cursor.address := by
  induction targets generalizing cursor with
  | nil => exact absurd rfl nonempty
  | cons target targets ih =>
      have first : ∀ {others : List (List Char)},
          Ahead items (['^'] :: target.toList :: others) cursor.rest → ∃ start rest,
            cursor.expect '^' = .ok { cursor with rest := start } ∧
            identifier { cursor with rest := start } = .ok (target, { cursor with rest }) ∧
            Ahead items others rest := by
        intro others ahead
        rcases expect_of_ahead cursor ahead (by decide) with ⟨start, expected, ahead⟩
        rcases identifier_of_ahead { cursor with rest := start } (named target List.mem_cons_self)
          ahead with ⟨rest, read, ahead⟩
        exact ⟨start, rest, expected, read, ahead⟩
      cases targets with
      | nil =>
          rw [List.map_singleton, listed_singleton] at ahead
          rcases first ahead with ⟨start, middle, expected, read, ahead⟩
          have before := before_of_ahead { cursor with rest := middle } ahead
          have noItem : ¬ StartsItem ',' := by
            rintro (wordChar | brace)
            · cases wordChar
            · cases brace
          refine ⟨_, ?_, before_skip.mpr before, rfl⟩
          rw [readTargets_eq, expected]
          simp only [read]
          rw [refuse_of_before before noItem]
          rfl
      | cons second targets =>
          rw [List.map_cons, List.map_cons, listed_cons_cons] at ahead
          rcases first ahead with ⟨start, middle, expected, read, ahead⟩
          rcases accept_of_ahead { cursor with rest := middle } ahead (by decide) with
            ⟨place, separated, ahead⟩
          rcases ih { cursor with rest := place } (List.cons_ne_nil second targets)
            (fun other mem => named other (List.mem_cons_of_mem _ mem)) ahead with
            ⟨next, rest_read, before, address_eq⟩
          refine ⟨next, ?_, before, address_eq⟩
          rw [readTargets_eq, expected]
          simp only [read, separated, if_true, rest_read]
          rfl

/-! ### Bytes -/

/-- Blanks within a line lead to the end of the line or to the next part. -/
theorem skipInner_of_spacing {spacing rest : List Char} (isSpacing : IsSpacing spacing)
    (stops : ∀ char ∈ rest.head?, isInnerBlank char = false)
    (starts : cursor.rest = spacing ++ rest) :
    cursor.skipInner = { cursor with rest } := by
  have blank : ∀ char ∈ spacing, isInnerBlank char = true := by
    intro char mem
    rcases isSpacing char mem with rfl | rfl <;> decide
  have stopped : rest.dropWhile isInnerBlank = rest := by
    cases rest with
    | nil => rfl
    | cons char rest => simp [stops char rfl]
  rw [skipInner, starts, List.dropWhile_append_of_pos blank, stopped]

theorem atLineEnd_of_layout (layout : Layout true items cursor.rest) :
    cursor.skipInner.atLineEnd = true := by
  rcases layout.exists_ending with
    ⟨spacing, comment, ending, starts, isSpacing, isComment, isEnding⟩
  have isEnd := head_of_ending isComment isEnding
  have stops : ∀ char ∈ (comment ++ ending).head?, isInnerBlank char = false := by
    intro char isFirst
    rcases isEnd char isFirst with rfl | rfl <;> decide
  rw [skipInner_of_spacing cursor isSpacing stops starts, atLineEnd, peek?]
  dsimp only
  cases isFirst : (comment ++ ending).head? with
  | none => rfl
  | some char => simpa using isEnd char isFirst

/-- The bytes of a line are read, and then comes the next item. -/
theorem readBytes_of_ahead {bytes : List UInt8} {pairs : List (List Char)}
    (spelled : List.Forall₂ SpellsByte bytes pairs)
    (ahead : Ahead items pairs cursor.rest) :
    ∃ next, cursor.readBytes = .ok (bytes, next) ∧ next.Before items := by
  induction spelled generalizing cursor with
  | nil =>
      refine ⟨cursor.skipInner, ?_, ?_⟩
      · rw [readBytes_eq]
        generalize same : cursor.rest = text at ahead
        cases ahead with
        | nil _ layout => exact if_pos (atLineEnd_of_layout cursor (same ▸ layout))
      · unfold Before
        rw [skip_skipInner]
        exact before_of_ahead cursor ahead
  | cons spelled _ ih =>
      rcases spelled.exists_digits with ⟨high, low, rfl, read, wordChar, wordChars⟩
      generalize same : cursor.rest = text at ahead
      cases ahead with
      | cons isSpacing ends ahead =>
          rename_i rest
          have solid := isSolid_of_isWordChar wordChar
          have stops : ∀ char ∈ ([high, low] ++ rest).head?, isInnerBlank char = false := by
            intro char isFirst
            cases isFirst
            by_contra blank
            have isBlank := (isBlank_of_isInnerBlank (by simpa using blank)).2
            rw [solid.noBlank] at isBlank
            cases isBlank
          have start_eq := skipInner_of_spacing cursor isSpacing stops (by simp [same])
          have word_eq := word_of_append { cursor with rest := [high, low] ++ rest } rfl wordChars
            (ends wordChars)
          rcases ih { cursor with rest } ahead with ⟨next, rest_read, before⟩
          refine ⟨next, ?_, before⟩
          have inside : atLineEnd { cursor with rest := [high, low] ++ rest } = false := by
            simp [atLineEnd, peek?, solid.inLine, solid.noComment]
          rw [readBytes_eq, start_eq, inside, word_eq]
          simp only [Bool.false_eq_true, if_false, String.toList_ofList, read, rest_read]
          rfl

section Lines

variable {decode : Decoder} {block : String}

theorem readInstructions_of_ahead {byte : UInt8} {bytes : List UInt8} {pairs : List (List Char)}
    {instructions : List Instruction}
    (spelled : List.Forall₂ SpellsByte bytes pairs)
    (ahead : Ahead items pairs cursor.rest)
    (decoded : decode cursor.address (byte :: bytes) = some instructions) :
    ∃ next, cursor.readInstructions decode byte = .ok (instructions, next) ∧ next.Before items ∧
      next.address = cursor.address + (byte :: bytes).length := by
  rcases readBytes_of_ahead cursor spelled ahead with ⟨next, read, before⟩
  refine ⟨{ next with address := cursor.address + (byte :: bytes).length }, ?_, before, rfl⟩
  unfold readInstructions
  rw [read]
  simp only [decoded]

/-- The next part, if there is one on the line, is no colon. -/
def NoColon (parts : List (List Char)) : Prop :=
  ∀ part ∈ parts.head?, ∃ char rest, part = char :: rest ∧ IsSolid char ∧ char ≠ ':'

/-- Looking ahead stays within the line, so that it cannot find the colon of a later line. -/
theorem peek?_skip_false_ne_colon (ahead : Ahead items parts cursor.rest)
    (noColon : NoColon parts) : (cursor.skip false).peek? ≠ some ':' := by
  cases parts with
  | nil =>
      generalize same : cursor.rest = text at ahead
      cases ahead with
      | nil _ layout =>
          rcases layout.exists_ending with
            ⟨spacing, comment, ending, rfl, isSpacing, isComment, isEnding⟩
          rw [← List.append_assoc] at same
          simp only [skip, same, skipBlanks_ending false _ isSpacing isComment isEnding]
          rcases isEnding with rfl | ⟨rest, rfl⟩
          · simp [skipBlanks, peek?]
          · simp [skipBlanks, peek?]
  | cons part parts =>
      rcases noColon part rfl with ⟨char, others, rfl, solid, differs⟩
      rcases skip_of_ahead cursor ahead solid false with ⟨rest, skipped, -, -, -⟩
      simpa [skipped, peek?] using differs

/-- The first word of a line is read as it is written. -/
theorem lineWord_of_ahead {char : Char} {part : List Char}
    (ahead : Ahead items ((char :: part) :: parts) (cursor.skip true).rest)
    (wordChars : (char :: part).all isWordChar = true) :
    ∃ rest, (cursor.skip true).rest = char :: part ++ rest ∧
      cursor.lineWord = (String.ofList (char :: part), { cursor.skip true with rest }) ∧
      Ahead items parts rest := by
  have solid : IsSolid char := by
    rw [List.all_cons, Bool.and_eq_true] at wordChars
    exact isSolid_of_isWordChar wordChars.1
  rcases skip_of_ahead _ ahead solid true with ⟨rest, skipped, -, ends, ahead⟩
  rw [skip_skip] at skipped
  have starts : (cursor.skip true).rest = char :: part ++ rest := congrArg Cursor.rest skipped
  exact ⟨rest, starts, word_of_append _ starts wordChars (ends wordChars), ahead⟩

theorem endsBlock_of_before {item : Item} (boundary : item.IsBoundary)
    (before : cursor.Before (item :: items)) : cursor.EndsBlock := by
  rcases exists_of_before before with ⟨proper, parts, spelled, ahead⟩
  cases spelled with
  | header | code | jump => cases boundary
  | label name =>
      rcases exists_of_isIdentifier proper with ⟨first, others, chars, -, -, wordChars⟩
      rw [chars] at ahead
      rcases lineWord_of_ahead cursor ahead wordChars with ⟨rest, -, word_eq, ahead⟩
      rcases skip_of_ahead { cursor.skip true with rest } ahead (by decide) false with
        ⟨final, skipped, -, -, -⟩
      refine Or.inr (Or.inr ?_)
      rw [word_eq, skipped]
      rfl
  | close =>
      rcases skip_of_ahead _ ahead (by decide) true with ⟨rest, skipped, -, -, -⟩
      rw [skip_skip] at skipped
      refine Or.inr (Or.inl ?_)
      rw [skipped]
      rfl

theorem noColon_of_pairs {bytes : List UInt8} {pairs : List (List Char)}
    (spelled : List.Forall₂ SpellsByte bytes pairs) : NoColon pairs := by
  intro pair isFirst
  cases spelled with
  | nil => cases isFirst
  | cons spelled _ =>
      cases isFirst
      rcases spelled.exists_digits with ⟨high, low, rfl, -, wordChar, -⟩
      refine ⟨high, [low], rfl, isSolid_of_isWordChar wordChar, ?_⟩
      rintro rfl
      cases wordChar

theorem not_endsBlock_of_ahead {char : Char} {part : List Char}
    (ahead : Ahead items ((char :: part) :: parts) (cursor.skip true).rest)
    (wordChars : (char :: part).all isWordChar = true)
    (noColon : NoColon parts) : ¬ cursor.EndsBlock := by
  rcases lineWord_of_ahead cursor ahead wordChars with ⟨rest, starts, word_eq, ahead⟩
  have following := peek?_skip_false_ne_colon { cursor.skip true with rest } ahead noColon
  rintro (nothing | brace | colon)
  · rw [starts] at nothing
    cases nothing
  · rw [peek?, starts] at brace
    cases brace
    rw [List.all_cons, Bool.and_eq_true] at wordChars
    cases wordChars.1
  · rw [word_eq] at colon
    exact following colon

theorem readBody_of_code {bytes : List UInt8} {instructions : List Instruction}
    (decoded : decode cursor.address bytes = some instructions)
    (before : cursor.Before (.code bytes :: items)) :
    ∃ next : Cursor, cursor.readBody decode block =
        prepend (fun (others, targets) => (instructions ++ others, targets))
          (next.readBody decode block) ∧
      next.Before items ∧ next.address = cursor.address + bytes.length := by
  rcases exists_of_before before with ⟨proper, parts, spelled, ahead⟩
  cases spelled with
  | code pairs =>
      cases pairs with
      | nil => exact absurd rfl proper
      | cons spelled pairs_spelled =>
          rcases spelled.exists_digits with ⟨high, low, rfl, isByte, -, wordChars⟩
          have inside :=
            not_endsBlock_of_ahead cursor ahead wordChars (noColon_of_pairs pairs_spelled)
          rcases lineWord_of_ahead cursor ahead wordChars with ⟨rest, -, word_eq, ahead⟩
          rcases readInstructions_of_ahead { cursor.skip true with rest } pairs_spelled ahead
            decoded with ⟨next, read, before, address_eq⟩
          refine ⟨next, ?_, before, address_eq⟩
          have noJump : String.ofList [high, low] ≠ "jump" := by
            intro same
            have chars : [high, low] = "jump".toList := by rw [← same, String.toList_ofList]
            have lengths : 2 = "jump".toList.length := congrArg List.length chars
            exact absurd lengths (by decide)
          rw [readBody_of_line block inside (by rw [word_eq]; exact noJump), word_eq]
          simp only [String.toList_ofList, isByte, read]

theorem readBody_of_jumps {targets : List String} (nonempty : targets ≠ [])
    (named : ∀ target ∈ targets, isIdentifier target = true)
    (before : cursor.Before (.jump targets :: items)) :
    ∃ next : Cursor, cursor.readBody decode block =
        prepend (fun (instructions, others) => (instructions, targets ++ others))
          (next.readBody decode block) ∧
      next.Before items ∧ next.address = cursor.address := by
  rcases exists_of_before before with ⟨-, parts, spelled, ahead⟩
  cases spelled with
  | jump targets =>
      rcases exists_listed_targets nonempty with ⟨others, listed_eq⟩
      have wordChars : "jump".toList.all isWordChar = true := by decide
      have noColon : NoColon (listed (targets.map fun target => [['^'], target.toList])) := by
        rw [listed_eq]
        rintro part ⟨⟩
        exact ⟨'^', [], rfl, by decide, by decide⟩
      have inside := not_endsBlock_of_ahead cursor ahead wordChars noColon
      rcases lineWord_of_ahead cursor ahead wordChars with ⟨rest, -, word_eq, ahead⟩
      rw [listed_eq] at ahead
      rcases skip_of_ahead { cursor.skip true with rest } ahead (by decide) false with
        ⟨middle, skipped, ahead, -, -⟩
      rw [← listed_eq] at ahead
      rcases readTargets_of_ahead { cursor.skip true with rest := '^' :: [] ++ middle } nonempty
        named ahead with ⟨next, read, before, address_eq⟩
      refine ⟨next, ?_, before, address_eq⟩
      rw [readBody_of_jump block inside (by rw [word_eq]; rfl), word_eq]
      simp only [skipped, read]

/-- A line is read, and then comes the next item. -/
theorem readBody_of_cons {line : SourceLine} {names : List String}
    {instructions : List Instruction} (named : ∀ name ∈ names, isIdentifier name = true)
    (proper : line.Proper names)
    (assembled : line.assemble decode cursor.address = some instructions)
    (before : cursor.Before (line.item :: items)) :
    ∃ next : Cursor, cursor.readBody decode block =
        prepend (fun (others, targets) => (instructions ++ others, line.targets ++ targets))
          (next.readBody decode block) ∧
      next.Before items ∧ next.address = cursor.address + line.byteCount := by
  cases line with
  | code bytes => exact readBody_of_code cursor assembled before
  | jump targets =>
      cases assembled
      exact readBody_of_jumps cursor proper.1 (fun target mem => named target (proper.2 target mem))
        before

/-- The lines of a block are read up to the item with which it ends. -/
theorem readBody_of_before {lines : List SourceLine} {names : List String} {last : Item}
    {instructions : List (List Instruction)} (boundary : last.IsBoundary)
    (named : ∀ name ∈ names, isIdentifier name = true)
    (proper : ∀ line ∈ lines, line.Proper names)
    (assembled : assembleFrom SourceLine.byteCount (SourceLine.assemble decode) cursor.address
      lines = some instructions)
    (before : cursor.Before (lines.map SourceLine.item ++ last :: items)) :
    ∃ next, cursor.readBody decode block =
        .ok ((instructions.flatten, lines.flatMap SourceLine.targets), next) ∧
      next.Before (last :: items) ∧
      next.address = cursor.address + (lines.map SourceLine.byteCount).sum := by
  induction lines generalizing cursor instructions with
  | nil =>
      cases assembled
      refine ⟨cursor.skip true, ?_, before_skip.mpr before, rfl⟩
      exact readBody_of_ends block (endsBlock_of_before cursor boundary before)
  | cons line lines ih =>
      rcases exists_of_assembleFrom assembled with ⟨first, others, decoded, rest_assembled, rfl⟩
      rcases readBody_of_cons cursor named (proper line List.mem_cons_self) decoded before with
        ⟨middle, step, middle_before, address_eq⟩
      rcases ih middle (fun other mem => proper other (List.mem_cons_of_mem _ mem))
        (by rwa [address_eq]) middle_before with ⟨next, rest_read, next_before, rest_address⟩
      refine ⟨next, ?_, next_before, ?_⟩
      · rw [step, rest_read]
        rfl
      · rw [rest_address, address_eq, List.map_cons, List.sum_cons, Nat.add_assoc]

end Lines

end Cursor

end RegisterFlow
