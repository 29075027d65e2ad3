import RegisterFlow.Proofs.Listing.Advances
import RegisterFlow.Proofs.Listing.Equations
import RegisterFlow.Proofs.Listing.Scanning

/-!
# Reading a text that goes on

A reader that stops before the end of a text reads the same of a longer text. A reader that stops at
a mark does so wherever the mark is.
-/

namespace RegisterFlow.Cursor

/-- The cursor before a text that goes on. -/
def followedBy (tail : List Char) (cursor : Cursor) : Cursor :=
  { cursor with rest := cursor.rest ++ tail }

variable {tail : List Char} {cursor next : Cursor} {mark : Char} {name : String}

@[simp]
theorem rest_followedBy : (cursor.followedBy tail).rest = cursor.rest ++ tail :=
  rfl

theorem peek?_followedBy (more : cursor.rest ≠ []) :
    (cursor.followedBy tail).peek? = cursor.peek? := by
  simp [peek?, List.head?_append_of_ne_nil _ more]

theorem peek?_ne_some (nothing : cursor.rest = []) {char : Char} : cursor.peek? ≠ some char := by
  simp [peek?, nothing]

/-! ### Blanks, marks and words -/

theorem skipBlanks_append (tail : List Char) {acrossLines inComment : Bool} {text : List Char}
    {line : Nat} (more : (skipBlanks acrossLines inComment text line).1 ≠ []) :
    skipBlanks acrossLines inComment (text ++ tail) line =
      ((skipBlanks acrossLines inComment text line).1 ++ tail,
        (skipBlanks acrossLines inComment text line).2) := by
  fun_induction skipBlanks acrossLines inComment text line <;> simp_all [skipBlanks]

theorem skip_followedBy {acrossLines : Bool} (more : (cursor.skip acrossLines).rest ≠ []) :
    (cursor.followedBy tail).skip acrossLines = (cursor.skip acrossLines).followedBy tail := by
  have appended := skipBlanks_append tail more
  simp [skip, followedBy, appended]

theorem accept_followedBy (more : (cursor.skip true).rest ≠ []) :
    (cursor.followedBy tail).accept mark =
      ((cursor.accept mark).1, (cursor.accept mark).2.followedBy tail) := by
  unfold accept
  rw [skip_followedBy more]
  dsimp only
  cases starts : (cursor.skip true).rest with
  | nil => exact absurd starts more
  | cons char rest =>
      rw [rest_followedBy, starts, List.cons_append]
      dsimp only
      split <;> rfl

theorem rest_skip_of_accepted (accepted : cursor.accept mark = (true, next)) :
    (cursor.skip true).rest ≠ [] := by
  rw [(rest_eq_of_accept accepted).1]
  apply List.cons_ne_nil

/-- Where text is left after a mark was looked for, there was text before. -/
theorem rest_skip_of_accept (more : (cursor.accept mark).2.rest ≠ []) :
    (cursor.skip true).rest ≠ [] := by
  cases accepted : (cursor.accept mark).1 with
  | true => exact rest_skip_of_accepted (Prod.ext accepted rfl)
  | false => rwa [eq_skip_of_accept accepted] at more

theorem accept_followedBy_of_accepted (accepted : cursor.accept mark = (true, next)) :
    (cursor.followedBy tail).accept mark = (true, next.followedBy tail) := by
  rw [accept_followedBy (rest_skip_of_accepted accepted), accepted]

theorem expect_followedBy (read : cursor.expect mark = .ok next) :
    (cursor.followedBy tail).expect mark = .ok (next.followedBy tail) :=
  expect_eq_ok_iff.mpr (accept_followedBy_of_accepted (expect_eq_ok_iff.mp read))

theorem word_followedBy (more : cursor.word.2.rest ≠ []) :
    (cursor.followedBy tail).word = (cursor.word.1, cursor.word.2.followedBy tail) := by
  have stops : cursor.rest.dropWhile isWordChar ≠ [] := more
  have taken : (cursor.rest.takeWhile isWordChar).length ≠ cursor.rest.length := by
    intro whole
    apply stops
    have lengths := congrArg List.length
      (@List.takeWhile_append_dropWhile _ isWordChar cursor.rest)
    rw [List.length_append, whole] at lengths
    exact List.eq_nil_of_length_eq_zero (by omega)
  simp [word, followedBy, List.takeWhile_append, List.dropWhile_append, stops, taken]

theorem rest_skip_of_identifier (read : cursor.identifier = .ok (name, next)) :
    (cursor.skip true).rest ≠ [] := by
  rcases word_eq_of_identifier read with ⟨char, rest, starts, -, -⟩
  rw [starts]
  apply List.cons_ne_nil

theorem identifier_followedBy (read : cursor.identifier = .ok (name, next))
    (more : next.rest ≠ []) :
    (cursor.followedBy tail).identifier = .ok (name, next.followedBy tail) := by
  rcases word_eq_of_identifier read with ⟨char, rest, starts, letter, word_eq⟩
  have stops : (cursor.skip true).word.2.rest ≠ [] := by
    rw [word_eq]
    exact more
  unfold identifier
  rw [skip_followedBy (rest_skip_of_identifier read)]
  dsimp only
  rw [rest_followedBy, starts, List.cons_append]
  dsimp only
  rw [if_pos letter, word_followedBy stops, word_eq]

theorem readTy_followedBy {ty : Ty} (read : cursor.readTy = .ok (ty, next))
    (more : next.rest ≠ []) :
    (cursor.followedBy tail).readTy = .ok (ty, next.followedBy tail) := by
  rcases identifier_of_readTy read with ⟨word, named, typed⟩
  unfold readTy
  rw [identifier_followedBy named more]
  simp [typed]

theorem readArguments_followedBy {types : List Ty}
    (read : cursor.readArguments = .ok (types, next)) :
    (cursor.followedBy tail).readArguments = .ok (types, next.followedBy tail) := by
  fun_induction readArguments cursor generalizing types next with
  | case1 cursor closing =>
    rename_i closed
    cases read
    have accepted : cursor.accept ')' = (true, closing.2) := Prod.ext closed rfl
    rw [readArguments_eq, accept_followedBy_of_accepted accepted]
    rfl
  | case2 | case4 => cases read
  | case3 cursor closing inside ty afterTy tyRead separated =>
    rename_i goesOn ih
    rcases exists_of_prepend read with ⟨others, rest_read, rfl⟩
    rcases identifier_of_readTy tyRead with ⟨word, named, -⟩
    have closing_more : closing.2.rest ≠ [] :=
      (skims_skip _ true).rest_ne_nil (rest_skip_of_identifier named)
    have separated_more : (afterTy.skip true).rest ≠ [] := by
      rcases goesOn with comma | parenthesis
      · exact rest_skip_of_accepted (Prod.ext comma rfl)
      · exact rest_skip_of_accept fun nothing => peek?_ne_some nothing parenthesis
    have afterTy_more : afterTy.rest ≠ [] := (skims_skip _ true).rest_ne_nil separated_more
    rw [readArguments_eq, accept_followedBy (rest_skip_of_accept closing_more), if_neg inside,
      readTy_followedBy tyRead afterTy_more]
    dsimp only
    rw [accept_followedBy separated_more, if_pos, ih rest_read]
    · rfl
    · refine goesOn.imp_right fun parenthesis => ?_
      rw [← parenthesis]
      exact peek?_followedBy fun nothing => peek?_ne_some nothing parenthesis

theorem readTargets_followedBy {targets : List String}
    (read : cursor.readTargets = .ok (targets, next)) (more : next.rest ≠ []) :
    (cursor.followedBy tail).readTargets = .ok (targets, next.followedBy tail) := by
  fun_induction readTargets cursor generalizing targets next with
  | case1 | case2 => cases read
  | case3 cursor afterMark marked target afterTarget named separated goesOn =>
    rename_i ih
    rcases exists_of_prepend read with ⟨others, rest_read, rfl⟩
    have accepted : afterTarget.accept ',' = (true, separated.2) := Prod.ext goesOn rfl
    have target_more : afterTarget.rest ≠ [] :=
      (skims_skip _ true).rest_ne_nil (rest_skip_of_accepted accepted)
    rw [readTargets_eq, expect_followedBy marked]
    dsimp only
    rw [identifier_followedBy named target_more]
    dsimp only
    rw [accept_followedBy_of_accepted accepted, if_pos rfl, ih rest_read more]
    rfl
  | case4 cursor afterMark marked target afterTarget named separated =>
    rename_i ended
    cases read
    have separated_more : (afterTarget.skip true).rest ≠ [] := rest_skip_of_accept more
    have target_more : afterTarget.rest ≠ [] := (skims_skip _ true).rest_ne_nil separated_more
    rw [readTargets_eq, expect_followedBy marked]
    dsimp only
    rw [identifier_followedBy named target_more]
    dsimp only
    rw [accept_followedBy separated_more, if_neg ended]

/-! ### Lines of instructions -/

theorem skipInner_followedBy (more : cursor.skipInner.rest ≠ []) :
    (cursor.followedBy tail).skipInner = cursor.skipInner.followedBy tail := by
  have stops : cursor.rest.dropWhile isInnerBlank ≠ [] := more
  simp [skipInner, followedBy, List.dropWhile_append, stops]

theorem atLineEnd_followedBy (more : cursor.rest ≠ []) :
    (cursor.followedBy tail).atLineEnd = cursor.atLineEnd := by
  unfold atLineEnd
  rw [peek?_followedBy more]

theorem readBytes_followedBy {bytes : List UInt8} (read : cursor.readBytes = .ok (bytes, next))
    (more : next.rest ≠ []) :
    (cursor.followedBy tail).readBytes = .ok (bytes, next.followedBy tail) := by
  fun_induction readBytes cursor generalizing bytes next with
  | case1 cursor start =>
    rename_i ended
    cases read
    rw [readBytes_eq, skipInner_followedBy more, atLineEnd_followedBy more]
    exact if_pos ended
  | case2 => cases read
  | case3 cursor start inside byte isByte =>
    rename_i ih
    rcases exists_of_prepend read with ⟨others, rest_read, rfl⟩
    have word_more : start.word.2.rest ≠ [] :=
      (skims_readBytes rest_read).toAdvances.rest_ne_nil more
    have start_more : start.rest ≠ [] := (skims_word start).toAdvances.rest_ne_nil word_more
    rw [readBytes_eq, skipInner_followedBy start_more, atLineEnd_followedBy start_more,
      word_followedBy word_more]
    refine (if_neg inside).trans ?_
    rw [isByte]
    dsimp only
    rw [ih rest_read more]
    rfl

/-- Where nothing but blanks and comments is left, no bytes are read. -/
theorem rest_skip_of_readBytes {bytes : List UInt8} (read : cursor.readBytes = .ok (bytes, next))
    (blank : (cursor.skip true).rest = []) : (next.skip true).rest = [] := by
  rw [← skip_skipInner] at blank
  rw [readBytes_eq] at read
  split at read
  · cases read
    exact blank
  · split at read
    · cases read
    · next byte isByte =>
      rcases exists_isWordChar_of_byte isByte with ⟨char, rest, starts, wordChar⟩
      rw [skip_eq_self (isSolid_of_isWordChar wordChar) starts, starts] at blank
      cases blank

variable {decode : Decoder} {block function : String} {earlier : List String}

theorem readInstructions_followedBy {byte : UInt8} {instructions : List Instruction}
    (read : cursor.readInstructions decode byte = .ok (instructions, next))
    (more : next.rest ≠ []) :
    (cursor.followedBy tail).readInstructions decode byte =
      .ok (instructions, next.followedBy tail) := by
  rcases decode_of_readInstructions read with ⟨others, last, bytesRead, decoded, rfl⟩
  unfold readInstructions
  rw [readBytes_followedBy bytesRead more]
  have same : (cursor.followedBy tail).address = cursor.address := rfl
  simp only [same, decoded]
  rfl

theorem rest_skip_of_readInstructions {byte : UInt8} {instructions : List Instruction}
    (read : cursor.readInstructions decode byte = .ok (instructions, next))
    (blank : (cursor.skip true).rest = []) : (next.skip true).rest = [] := by
  rcases decode_of_readInstructions read with ⟨others, last, bytesRead, -, rfl⟩
  have nothing := rest_skip_of_readBytes bytesRead blank
  exact nothing

/-! ### Blocks and routines -/

theorem lineWord_followedBy (tail : List Char) (more : cursor.lineWord.2.rest ≠ []) :
    (cursor.followedBy tail).lineWord =
      (cursor.lineWord.1, cursor.lineWord.2.followedBy tail) := by
  have start_more : (cursor.skip true).rest ≠ [] := (skims_word _).toAdvances.rest_ne_nil more
  unfold lineWord
  rw [skip_followedBy start_more, word_followedBy more]

/-- A block ends at a place where more text is left, however the text goes on. -/
theorem EndsBlock.followedBy (ends : cursor.EndsBlock) (more : (cursor.skip true).rest ≠ []) :
    (cursor.followedBy tail).EndsBlock := by
  rcases ends with nothing | brace | colon
  · exact absurd nothing more
  · refine Or.inr (Or.inl ?_)
    rw [skip_followedBy more, peek?_followedBy more, brace]
  · have following_more : (cursor.lineWord.2.skip false).rest ≠ [] :=
      fun nothing => peek?_ne_some nothing colon
    have word_more := (skims_skip _ false).toAdvances.rest_ne_nil following_more
    refine Or.inr (Or.inr ?_)
    rw [lineWord_followedBy tail word_more, skip_followedBy following_more,
      peek?_followedBy following_more, colon]

/-- A block goes on with a line after whose first word more text is left. -/
theorem not_endsBlock_followedBy (inside : ¬ cursor.EndsBlock)
    (more : (cursor.lineWord.2.skip false).rest ≠ []) :
    ¬ (cursor.followedBy tail).EndsBlock := by
  have word_more := (skims_skip _ false).toAdvances.rest_ne_nil more
  have start_more : (cursor.skip true).rest ≠ [] := (skims_word _).toAdvances.rest_ne_nil word_more
  unfold EndsBlock
  rw [skip_followedBy start_more, peek?_followedBy start_more,
    lineWord_followedBy tail word_more,
    skip_followedBy more, peek?_followedBy more]
  rintro (nothing | brace | colon)
  · simp [start_more] at nothing
  · exact inside (Or.inr (Or.inl brace))
  · exact inside (Or.inr (Or.inr colon))

theorem readBody_followedBy {body : List Instruction × List String}
    (read : cursor.readBody decode block = .ok (body, next)) (more : next.rest ≠ []) :
    (cursor.followedBy tail).readBody decode block = .ok (body, next.followedBy tail) := by
  fun_induction readBody decode block cursor generalizing body next with
  | case1 cursor start afterWord =>
    rename_i ended
    cases read
    rw [readBody_of_ends block (EndsBlock.followedBy ended more), skip_followedBy more]
  | case2 | case4 | case5 => cases read
  | case3 cursor start word afterWord following inside jumps targets last =>
    rename_i targetsRead ih
    rcases exists_of_prepend read with ⟨others, rest_read, rfl⟩
    have last_more : last.rest ≠ [] := (advances_readBody rest_read).rest_ne_nil more
    have following_more : (cursor.lineWord.2.skip false).rest ≠ [] :=
      (skims_readTargets targetsRead).toAdvances.rest_ne_nil last_more
    have word_more := (skims_skip _ false).toAdvances.rest_ne_nil following_more
    have word_eq := lineWord_followedBy tail word_more
    have targets_eq : (cursor.lineWord.2.skip false).readTargets = .ok (targets, last) :=
      targetsRead
    rw [readBody_of_jump block (not_endsBlock_followedBy inside following_more)
      (by rw [word_eq]; exact jumps), word_eq, skip_followedBy following_more,
      readTargets_followedBy targets_eq last_more]
    dsimp only
    rw [ih rest_read more]
    rfl
  | case6 cursor start word afterWord following inside noJump byte isByte instructions last =>
    rename_i instructionsRead ih
    rcases exists_of_prepend read with ⟨others, rest_read, rfl⟩
    have last_more : last.rest ≠ [] := (advances_readBody rest_read).rest_ne_nil more
    have word_more : cursor.lineWord.2.rest ≠ [] :=
      (advances_readInstructions instructionsRead).rest_ne_nil last_more
    have following_more : (cursor.lineWord.2.skip false).rest ≠ [] := by
      intro blank
      -- The bytes end at a comment with which the text ends, where nothing more is read.
      have nothing := rest_skip_of_readInstructions instructionsRead (rest_skip_true blank)
      rw [readBody_of_ends block (Or.inl nothing)] at rest_read
      cases rest_read
      exact more nothing
    have word_eq := lineWord_followedBy tail word_more
    have byte_eq : Hexadecimal.byte? cursor.lineWord.1.toList = some byte := isByte
    have read_eq : cursor.lineWord.2.readInstructions decode byte = .ok (instructions, last) :=
      instructionsRead
    rw [readBody_of_line block (not_endsBlock_followedBy inside following_more)
      (by rw [word_eq]; exact noJump), word_eq]
    dsimp only
    rw [byte_eq]
    dsimp only
    rw [readInstructions_followedBy read_eq last_more]
    dsimp only
    rw [ih rest_read more]
    rfl

theorem readBlock_followedBy {draft : BlockDraft}
    (read : cursor.readBlock decode function earlier = .ok (draft, next))
    (more : next.rest ≠ []) :
    (cursor.followedBy tail).readBlock decode function earlier =
      .ok (draft, next.followedBy tail) := by
  rcases steps_of_readBlock read with ⟨afterName, afterColon, named, marked, new, bodyRead⟩
  have name_more : afterName.rest ≠ [] :=
    (skims_skip _ true).toAdvances.rest_ne_nil (rest_skip_of_accepted (expect_eq_ok_iff.mp marked))
  unfold readBlock
  rw [identifier_followedBy named name_more, ok_bind]
  dsimp only
  rw [expect_followedBy marked, ok_bind, if_neg new, readBody_followedBy bodyRead more]
  rfl

theorem rest_skip_of_readBlocks {drafts : List BlockDraft}
    (read : cursor.readBlocks decode function earlier = .ok (drafts, next)) :
    (cursor.skip true).rest ≠ [] := by
  rw [readBlocks_eq] at read
  split at read
  · next closed => exact rest_skip_of_accepted (Prod.ext closed rfl)
  · split at read
    · cases read
    · next more => exact rest_skip_of_accept more

theorem readBlocks_followedBy {drafts : List BlockDraft}
    (read : cursor.readBlocks decode function earlier = .ok (drafts, next)) :
    (cursor.followedBy tail).readBlocks decode function earlier =
      .ok (drafts, next.followedBy tail) := by
  fun_induction readBlocks decode function earlier cursor generalizing drafts next with
  | case1 earlier cursor closing =>
    rename_i closed
    cases read
    have accepted : cursor.accept '\x7d' = (true, closing.2) := Prod.ext closed rfl
    rw [readBlocks_eq, accept_followedBy_of_accepted accepted]
    rfl
  | case2 | case3 => cases read
  | case4 earlier cursor closing inside more draft last =>
    rename_i draftRead ih
    rcases exists_of_prepend read with ⟨others, rest_read, rfl⟩
    have last_more : last.rest ≠ [] :=
      (skims_skip _ true).toAdvances.rest_ne_nil (rest_skip_of_readBlocks rest_read)
    have goesOn : (closing.2.followedBy tail).rest ≠ [] := List.append_ne_nil_of_left_ne_nil more _
    rw [readBlocks_eq, accept_followedBy (rest_skip_of_accept more), if_neg inside]
    refine (if_neg goesOn).trans ?_
    rw [readBlock_followedBy draftRead last_more]
    dsimp only
    rw [ih rest_read]
    rfl

theorem readRoutine_followedBy {routine : Routine}
    (read : cursor.readRoutine decode = .ok (routine, next)) :
    (cursor.followedBy tail).readRoutine decode = .ok (routine, next.followedBy tail) := by
  rcases steps_of_readRoutine read with
    ⟨afterName, afterOpening, afterArguments, afterBrace, drafts, named, opened, typesRead, braced,
      draftsRead, nonempty, linked⟩
  have name_more : afterName.rest ≠ [] :=
    (skims_skip _ true).toAdvances.rest_ne_nil (rest_skip_of_accepted (expect_eq_ok_iff.mp opened))
  unfold readRoutine
  rw [identifier_followedBy named name_more, ok_bind]
  dsimp only
  rw [expect_followedBy opened, ok_bind, readArguments_followedBy typesRead, ok_bind]
  dsimp only
  rw [expect_followedBy braced, ok_bind, readBlocks_followedBy draftsRead, ok_bind]
  dsimp only
  rw [if_neg (by simpa using nonempty), linked]
  rfl

end RegisterFlow.Cursor
