import Mathlib.Data.List.TakeWhile
import RegisterFlow.Listing.Parse

/-!
# Reading advances

Whatever a reader reads, it leaves a suffix of the text and counts the line ends in between. Only the
bytes of instructions move the address, and they move it up.
-/

namespace RegisterFlow

namespace Cursor

variable {cursor next : Cursor} {mark : Char} {name : String}

/-! ### What the readers of marks and words read -/

theorem expect_eq_ok_iff : cursor.expect mark = .ok next ↔ cursor.accept mark = (true, next) := by
  unfold expect malformed
  split <;> simp_all

/-- A mark that was read is the first character after blanks and comments. -/
theorem rest_eq_of_accept (accepted : cursor.accept mark = (true, next)) :
    (cursor.skip true).rest = mark :: next.rest ∧
      next = { cursor.skip true with rest := next.rest } := by
  unfold accept at accepted
  dsimp only at accepted
  split at accepted
  · cases accepted
  · next char rest starts =>
    split at accepted
    · next same =>
      cases accepted
      exact ⟨by rw [starts, same], rfl⟩
    · cases accepted

theorem eq_skip_of_accept (refused : (cursor.accept mark).1 = false) :
    (cursor.accept mark).2 = cursor.skip true := by
  unfold accept at refused ⊢
  dsimp only at refused ⊢
  split
  · rfl
  · next char rest starts =>
    by_cases same : char = mark
    · simp [starts, same] at refused
    · simp [same]

/-- An identifier is the word that comes next, and it starts with a letter or an underscore. -/
theorem word_eq_of_identifier (read : cursor.identifier = .ok (name, next)) :
    ∃ char rest, (cursor.skip true).rest = char :: rest ∧
      (char.isAlpha || char = '_') = true ∧ (cursor.skip true).word = (name, next) := by
  unfold identifier malformed at read
  dsimp only at read
  split at read
  · cases read
  · next char rest starts =>
    split at read
    · next letter =>
      injection read with same
      exact ⟨char, rest, starts, letter, same⟩
    · cases read

/-! ### The text that is left and its lines -/

/-- A cursor moved on in its text, counted the lines and did not lower the address. -/
structure Advances (before after : Cursor) : Prop where
  suffix : after.rest <:+ before.rest
  lines : after.line + after.rest.count '\n' = before.line + before.rest.count '\n'
  address_le : before.address ≤ after.address

/-- A cursor moved on without reading the bytes of instructions. -/
structure Skims (before after : Cursor) : Prop extends Advances before after where
  address_eq : after.address = before.address

namespace Advances

variable {first second third : Cursor}

protected theorem trans (left : Advances first second) (right : Advances second third) :
    Advances first third :=
  ⟨right.suffix.trans left.suffix, right.lines.trans left.lines,
    left.address_le.trans right.address_le⟩

/-- Where text is left now, there was text before. -/
theorem rest_ne_nil (advances : Advances first second) (more : second.rest ≠ []) :
    first.rest ≠ [] := by
  intro nothing
  have suffix := advances.suffix
  rw [nothing, List.suffix_nil] at suffix
  exact more suffix

end Advances

namespace Skims

variable {first second third : Cursor}

protected theorem trans (left : Skims first second) (right : Skims second third) :
    Skims first third :=
  ⟨left.toAdvances.trans right.toAdvances, right.address_eq.trans left.address_eq⟩

end Skims

/-- The text goes on behind characters of which none is a line end. -/
theorem skims_dropWhile {skipped : Char → Bool} (inLine : skipped '\n' = false) :
    Skims cursor { cursor with rest := cursor.rest.dropWhile skipped } := by
  refine ⟨⟨List.dropWhile_suffix _, ?_, Nat.le_refl _⟩, rfl⟩
  have none_skipped : (cursor.rest.takeWhile skipped).count '\n' = 0 := by
    apply List.count_eq_zero_of_not_mem
    intro mem
    rw [List.mem_takeWhile_imp mem] at inLine
    cases inLine
  have split := congrArg (List.count '\n') (@List.takeWhile_append_dropWhile _ skipped cursor.rest)
  rw [List.count_append, none_skipped] at split
  dsimp only
  omega

theorem skims_word (cursor : Cursor) : Skims cursor cursor.word.2 :=
  skims_dropWhile (by decide)

theorem skims_skipInner (cursor : Cursor) : Skims cursor cursor.skipInner :=
  skims_dropWhile (by decide)

theorem skims_rest_tail {char : Char} {rest : List Char} (starts : cursor.rest = char :: rest)
    (inLine : char ≠ '\n') : Skims cursor { cursor with rest } := by
  refine ⟨⟨?_, ?_, Nat.le_refl _⟩, rfl⟩
  · rw [starts]
    exact List.suffix_cons ..
  · simp [starts, inLine]

theorem suffix_skipBlanks (acrossLines inComment : Bool) (text : List Char) (line : Nat) :
    (skipBlanks acrossLines inComment text line).1 <:+ text := by
  fun_induction skipBlanks acrossLines inComment text line with
  | case1 | case3 | case6 => exact List.suffix_refl _
  | case2 | case4 | case5 =>
    rename_i ih
    exact ih.trans (List.suffix_cons ..)

theorem lines_skipBlanks (acrossLines inComment : Bool) (text : List Char) (line : Nat) :
    (skipBlanks acrossLines inComment text line).2 +
        (skipBlanks acrossLines inComment text line).1.count '\n' =
      line + text.count '\n' := by
  fun_induction skipBlanks acrossLines inComment text line <;> grind

theorem skims_skip (cursor : Cursor) (acrossLines : Bool) : Skims cursor (cursor.skip acrossLines) :=
  ⟨⟨suffix_skipBlanks .., lines_skipBlanks .., Nat.le_refl _⟩, rfl⟩

theorem skims_of_accept (lineMark : mark ≠ '\n') (accepted : cursor.accept mark = (true, next)) :
    Skims cursor next := by
  rcases rest_eq_of_accept accepted with ⟨starts, same⟩
  rw [same]
  exact (skims_skip cursor true).trans (skims_rest_tail starts lineMark)

theorem skims_accept (lineMark : mark ≠ '\n') : Skims cursor (cursor.accept mark).2 := by
  cases accepted : (cursor.accept mark).1 with
  | true => exact skims_of_accept lineMark (Prod.ext accepted rfl)
  | false =>
    rw [eq_skip_of_accept accepted]
    exact skims_skip ..

theorem skims_expect (lineMark : mark ≠ '\n') (read : cursor.expect mark = .ok next) :
    Skims cursor next :=
  skims_of_accept lineMark (expect_eq_ok_iff.mp read)

theorem skims_identifier (read : cursor.identifier = .ok (name, next)) : Skims cursor next := by
  rcases word_eq_of_identifier read with ⟨_, _, _, _, word_eq⟩
  have skims := (skims_skip cursor true).trans (skims_word _)
  rwa [word_eq] at skims

/-- A type that was read is what its word stands for. -/
theorem identifier_of_readTy {ty : Ty} (read : cursor.readTy = .ok (ty, next)) :
    ∃ word, cursor.identifier = .ok (word, next) ∧ argumentTy? word = some ty := by
  unfold readTy malformed at read
  split at read
  · cases read
  · next word last named =>
    split at read
    · next typed =>
      cases read
      exact ⟨word, named, typed⟩
    · cases read

theorem skims_readTy {ty : Ty} (read : cursor.readTy = .ok (ty, next)) : Skims cursor next := by
  rcases identifier_of_readTy read with ⟨word, named, -⟩
  exact skims_identifier named

theorem skims_readArguments {types : List Ty} (read : cursor.readArguments = .ok (types, next)) :
    Skims cursor next := by
  fun_induction readArguments cursor generalizing types next with
  | case1 cursor closing =>
    cases read
    exact skims_accept (by decide)
  | case2 | case4 => cases read
  | case3 cursor closing inside ty afterTy tyRead separated =>
    rename_i ih
    rcases exists_of_prepend read with ⟨others, read, -⟩
    have first : Skims cursor closing.2 := skims_accept (by decide)
    have third : Skims afterTy separated.2 := skims_accept (by decide)
    exact ((first.trans (skims_readTy tyRead)).trans third).trans (ih read)

theorem skims_readTargets {targets : List String} (read : cursor.readTargets = .ok (targets, next)) :
    Skims cursor next := by
  fun_induction readTargets cursor generalizing targets next with
  | case1 | case2 => cases read
  | case3 cursor afterMark marked target afterTarget named separated more =>
    rename_i ih
    rcases exists_of_prepend read with ⟨others, read, -⟩
    have first := (skims_expect (by decide) marked).trans (skims_identifier named)
    have second : Skims afterTarget separated.2 := skims_accept (by decide)
    exact (first.trans second).trans (ih read)
  | case4 cursor afterMark marked target afterTarget named separated =>
    have first := (skims_expect (by decide) marked).trans (skims_identifier named)
    have second : Skims afterTarget separated.2 := skims_accept (by decide)
    cases read
    exact first.trans second

theorem skims_readBytes {bytes : List UInt8} (read : cursor.readBytes = .ok (bytes, next)) :
    Skims cursor next := by
  fun_induction readBytes cursor generalizing bytes next with
  | case1 cursor start =>
    cases read
    exact skims_skipInner _
  | case2 => cases read
  | case3 cursor start inside byte isByte =>
    rename_i ih
    rcases exists_of_prepend read with ⟨others, read, -⟩
    have first : Skims cursor start := skims_skipInner _
    exact (first.trans (skims_word start)).trans (ih read)

/-! ### Readers that come across instructions -/

section Instructions

variable {decode : Decoder} {block function : String} {earlier : List String}

/-- What was read of a line is decoded at the current address, and the address moves past it. -/
theorem decode_of_readInstructions {byte : UInt8} {instructions : List Instruction}
    (read : cursor.readInstructions decode byte = .ok (instructions, next)) :
    ∃ others last, cursor.readBytes = .ok (others, last) ∧
      decode cursor.address (byte :: others) = some instructions ∧
      next = { last with address := cursor.address + (byte :: others).length } := by
  unfold readInstructions at read
  split at read
  · cases read
  · next others last bytesRead =>
    dsimp only at read
    split at read
    · cases read
    · next decoded =>
      cases read
      exact ⟨others, last, bytesRead, decoded, rfl⟩

theorem advances_readInstructions {byte : UInt8} {instructions : List Instruction}
    (read : cursor.readInstructions decode byte = .ok (instructions, next)) :
    Advances cursor next := by
  rcases decode_of_readInstructions read with ⟨others, last, bytesRead, -, rfl⟩
  have skims := skims_readBytes bytesRead
  exact ⟨skims.suffix, skims.lines, Nat.le_add_right ..⟩

theorem advances_readBody {body : List Instruction × List String}
    (read : cursor.readBody decode block = .ok (body, next)) : Advances cursor next := by
  fun_induction readBody decode block cursor generalizing body next with
  | case1 cursor start =>
    cases read
    exact (skims_skip cursor true).toAdvances
  | case2 | case4 | case5 => cases read
  | case3 cursor start word afterWord following inside isJump targets last =>
    rename_i targetsRead ih
    rcases exists_of_prepend read with ⟨others, read, -⟩
    have first : Skims cursor afterWord := (skims_skip cursor true).trans (skims_word _)
    have second := (skims_skip afterWord false).trans (skims_readTargets targetsRead)
    exact (first.trans second).toAdvances.trans (ih read)
  | case6 cursor start word afterWord following inside noJump byte isByte instructions last =>
    rename_i instructionsRead ih
    rcases exists_of_prepend read with ⟨others, read, -⟩
    have first : Skims cursor afterWord := (skims_skip cursor true).trans (skims_word _)
    exact (first.toAdvances.trans (advances_readInstructions instructionsRead)).trans (ih read)

/-- The steps in which a block is read. -/
theorem steps_of_readBlock {draft : BlockDraft}
    (read : cursor.readBlock decode function earlier = .ok (draft, next)) :
    ∃ afterName afterColon, cursor.identifier = .ok (draft.name, afterName) ∧
      afterName.expect ':' = .ok afterColon ∧ draft.name ∉ earlier ∧
      afterColon.readBody decode draft.name =
        .ok ((draft.instructions, draft.targets), next) := by
  rcases exists_of_bind read with ⟨⟨name, afterName⟩, named, read⟩
  rcases exists_of_bind read with ⟨afterColon, marked, read⟩
  dsimp only at read
  split at read
  · cases read
  · next new =>
    rcases exists_of_bind read with ⟨⟨⟨instructions, targets⟩, last⟩, bodyRead, read⟩
    cases read
    exact ⟨afterName, afterColon, named, marked, new, bodyRead⟩

theorem advances_readBlock {draft : BlockDraft}
    (read : cursor.readBlock decode function earlier = .ok (draft, next)) :
    Advances cursor next := by
  rcases steps_of_readBlock read with ⟨afterName, afterColon, named, marked, -, bodyRead⟩
  have first := (skims_identifier named).trans (skims_expect (by decide) marked)
  exact first.toAdvances.trans (advances_readBody bodyRead)

theorem advances_readBlocks {drafts : List BlockDraft}
    (read : cursor.readBlocks decode function earlier = .ok (drafts, next)) :
    Advances cursor next := by
  fun_induction readBlocks decode function earlier cursor generalizing drafts next with
  | case1 earlier cursor closing =>
    cases read
    exact (skims_accept (by decide)).toAdvances
  | case2 | case3 => cases read
  | case4 earlier cursor closing inside more draft last =>
    rename_i draftRead ih
    rcases exists_of_prepend read with ⟨others, read, -⟩
    have first : Skims cursor closing.2 := skims_accept (by decide)
    exact (first.toAdvances.trans (advances_readBlock draftRead)).trans (ih read)

/-- The steps in which a routine is read. -/
theorem steps_of_readRoutine {routine : Routine}
    (read : cursor.readRoutine decode = .ok (routine, next)) :
    ∃ afterName afterOpening afterArguments afterBrace drafts,
      cursor.identifier = .ok (routine.name, afterName) ∧
      afterName.expect '(' = .ok afterOpening ∧
      afterOpening.readArguments = .ok (routine.argumentTypes, afterArguments) ∧
      afterArguments.expect '\x7b' = .ok afterBrace ∧
      afterBrace.readBlocks decode routine.name [] = .ok (drafts, next) ∧ drafts ≠ [] ∧
      drafts.mapM (BlockDraft.link routine.name (drafts.map BlockDraft.name)) =
        .ok routine.blocks := by
  rcases exists_of_bind read with ⟨⟨name, afterName⟩, named, read⟩
  rcases exists_of_bind read with ⟨afterOpening, opened, read⟩
  rcases exists_of_bind read with ⟨⟨types, afterArguments⟩, typesRead, read⟩
  rcases exists_of_bind read with ⟨afterBrace, braced, read⟩
  rcases exists_of_bind read with ⟨⟨drafts, last⟩, draftsRead, read⟩
  dsimp only at read
  split at read
  · cases read
  · next nonempty =>
    rcases exists_of_bind read with ⟨blocks, linked, read⟩
    cases read
    refine ⟨afterName, afterOpening, afterArguments, afterBrace, drafts, named, opened, typesRead,
      braced, draftsRead, ?_, linked⟩
    simpa using nonempty

theorem advances_readRoutine {routine : Routine}
    (read : cursor.readRoutine decode = .ok (routine, next)) : Advances cursor next := by
  rcases steps_of_readRoutine read with
    ⟨afterName, afterOpening, afterArguments, afterBrace, drafts, named, opened, typesRead, braced,
      draftsRead, -, -⟩
  have header := (skims_identifier named).trans (skims_expect (by decide) opened)
  have arguments := header.trans (skims_readArguments typesRead)
  have brace := arguments.trans (skims_expect (by decide) braced)
  exact brace.toAdvances.trans (advances_readBlocks draftsRead)

theorem advances_readRoutines {routines : List Routine}
    (read : cursor.readRoutines decode = .ok (routines, next)) : Advances cursor next := by
  fun_induction readRoutines decode cursor generalizing routines next with
  | case1 cursor start =>
    cases read
    exact (skims_skip cursor true).toAdvances
  | case2 => cases read
  | case3 cursor start more routine last =>
    rename_i routineRead ih
    rcases exists_of_prepend read with ⟨others, read, -⟩
    have first : Skims cursor start := skims_skip ..
    exact (first.toAdvances.trans (advances_readRoutine routineRead)).trans (ih read)

end Instructions

end Cursor

/-- What is parsed is what is read from the start of the text. -/
theorem Routine.exists_of_parseWith {decode : Decoder} {text : String} {routines : List Routine}
    (parsed : parseWith decode text = .ok routines) :
    ∃ last, Cursor.readRoutines decode { rest := text.toList } = .ok (routines, last) := by
  unfold parseWith at parsed
  cases read : Cursor.readRoutines decode { rest := text.toList } with
  | error failure =>
      rw [read] at parsed
      cases parsed
  | ok result =>
      rw [read] at parsed
      cases parsed
      exact ⟨result.2, rfl⟩

end RegisterFlow
