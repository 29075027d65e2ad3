import RegisterFlow.Proofs.Listing.Advances
import RegisterFlow.Proofs.Listing.Decoders
import RegisterFlow.Proofs.Listing.Equations

/-!
# Reading further down

What is read does not depend on the line or on the address at which reading starts, except that lines
in errors and addresses of instructions count from there.
-/

namespace RegisterFlow

/-- The error for the same text, further down by a number of lines. -/
def ListingError.moved (lines : Nat) : ListingError → ListingError
  | malformed line malformation => malformed (line + lines) malformation
  | undecodable line bytes => undecodable (line + lines) bytes
  | unknownBlock function name => unknownBlock function name
  | duplicateBlock function name => duplicateBlock function name
  | noBlocks function => noBlocks function

def RoutineBlock.moved (bytes : Nat) (block : RoutineBlock) : RoutineBlock :=
  { block with instructions := block.instructions.map (Instruction.moved bytes) }

def BlockDraft.moved (bytes : Nat) (draft : BlockDraft) : BlockDraft :=
  { draft with instructions := draft.instructions.map (Instruction.moved bytes) }

/-- The routine with its instructions at addresses that are higher by a number of bytes. -/
def Routine.moved (bytes : Nat) (routine : Routine) : Routine :=
  { routine with blocks := routine.blocks.map (RoutineBlock.moved bytes) }

namespace Cursor

/-- The cursor before the same text, but further down by lines and bytes of instructions. -/
def moved (lines bytes : Nat) (cursor : Cursor) : Cursor :=
  { cursor with line := cursor.line + lines, address := cursor.address + bytes }

variable {lines bytes : Nat} {α β : Type}

/-- What is read further down, where answers differ by a change. -/
def movedResult (lines bytes : Nat) (change : α → α) :
    Except ListingError (α × Cursor) → Except ListingError (α × Cursor)
  | .error failure => .error (failure.moved lines)
  | .ok (answer, next) => .ok (change answer, next.moved lines bytes)

@[simp]
theorem movedResult_ok (change : α → α) (answer : α) (next : Cursor) :
    movedResult lines bytes change (.ok (answer, next)) =
      .ok (change answer, next.moved lines bytes) :=
  rfl

theorem prepend_movedResult {change : α → α} {whole : β → β} {combine later : α → β}
    (result : Except ListingError (α × Cursor))
    (same : ∀ answer, later (change answer) = whole (combine answer)) :
    prepend later (movedResult lines bytes change result) =
      movedResult lines bytes whole (prepend combine result) := by
  rcases result with failure | ⟨answer, next⟩
  · rfl
  · simp [prepend, movedResult, same]

/-- A sequence of readers moves as its parts do. -/
theorem bind_moved {change : α → α} {whole : β → β} {first : Except ListingError (α × Cursor)}
    {next : α × Cursor → Except ListingError (β × Cursor)} (later : ∀ answer middle,
      next (change answer, middle.moved lines bytes) =
        movedResult lines bytes whole (next (answer, middle))) :
    (movedResult lines bytes change first >>= next) =
      movedResult lines bytes whole (first >>= next) := by
  rcases first with failure | ⟨answer, middle⟩
  · rfl
  · exact later answer middle

section Marks

variable (cursor : Cursor) (mark : Char)

@[simp]
theorem rest_moved : (cursor.moved lines bytes).rest = cursor.rest :=
  rfl

@[simp]
theorem peek?_moved : (cursor.moved lines bytes).peek? = cursor.peek? :=
  rfl

theorem skipBlanks_moved (acrossLines inComment : Bool) (text : List Char) (line lines : Nat) :
    skipBlanks acrossLines inComment text (line + lines) =
      ((skipBlanks acrossLines inComment text line).1,
        (skipBlanks acrossLines inComment text line).2 + lines) := by
  fun_induction skipBlanks acrossLines inComment text line <;>
    simp_all [skipBlanks, Nat.add_right_comm]

@[simp]
theorem skip_moved (acrossLines : Bool) :
    (cursor.moved lines bytes).skip acrossLines = (cursor.skip acrossLines).moved lines bytes := by
  simp [skip, moved, skipBlanks_moved]

@[simp]
theorem accept_moved :
    (cursor.moved lines bytes).accept mark =
      ((cursor.accept mark).1, (cursor.accept mark).2.moved lines bytes) := by
  unfold accept
  simp only [skip_moved, rest_moved]
  split
  · rfl
  · split <;> rfl

@[simp]
theorem word_moved :
    (cursor.moved lines bytes).word = (cursor.word.1, cursor.word.2.moved lines bytes) :=
  rfl

theorem expect_moved :
    (cursor.moved lines bytes).expect mark =
      match cursor.expect mark with
      | .error failure => .error (failure.moved lines)
      | .ok next => .ok (next.moved lines bytes) := by
  unfold expect
  rw [accept_moved]
  rcases cursor.accept mark with ⟨found, next⟩
  cases found <;> rfl

theorem expect_bind_moved {whole : β → β}
    {next : Cursor → Except ListingError (β × Cursor)} (later : ∀ middle,
      next (middle.moved lines bytes) = movedResult lines bytes whole (next middle)) :
    ((cursor.moved lines bytes).expect mark >>= next) =
      movedResult lines bytes whole (cursor.expect mark >>= next) := by
  rw [expect_moved]
  cases cursor.expect mark with
  | error failure => rfl
  | ok middle => exact later middle

theorem identifier_moved :
    (cursor.moved lines bytes).identifier = movedResult lines bytes id cursor.identifier := by
  unfold identifier
  simp only [skip_moved, rest_moved]
  split
  · rfl
  · split <;> rfl

theorem readTy_moved :
    (cursor.moved lines bytes).readTy = movedResult lines bytes id cursor.readTy := by
  unfold readTy
  rw [identifier_moved]
  rcases cursor.identifier with failure | ⟨word, next⟩
  · rfl
  · simp only [movedResult, id]
    cases argumentTy? word <;> rfl

theorem readArguments_moved :
    (cursor.moved lines bytes).readArguments = movedResult lines bytes id cursor.readArguments := by
  fun_induction readArguments cursor with
  | case1 cursor closing closed =>
    rw [readArguments_eq, accept_moved, if_pos closed]
    rfl
  | case2 cursor closing inside failure tyRead =>
    rw [readArguments_eq, accept_moved, if_neg inside, readTy_moved, tyRead]
    rfl
  | case3 cursor closing inside ty afterTy tyRead separated more ih =>
    rw [readArguments_eq, accept_moved, if_neg inside, readTy_moved, tyRead, movedResult_ok]
    dsimp only
    rw [accept_moved, peek?_moved, if_pos more, ih]
    exact prepend_movedResult _ fun _ => rfl
  | case4 cursor closing inside ty afterTy tyRead separated wrong =>
    rw [readArguments_eq, accept_moved, if_neg inside, readTy_moved, tyRead, movedResult_ok]
    dsimp only
    rw [accept_moved, peek?_moved, if_neg wrong]
    rfl

theorem readTargets_moved :
    (cursor.moved lines bytes).readTargets = movedResult lines bytes id cursor.readTargets := by
  fun_induction readTargets cursor with
  | case1 cursor failure marked =>
    rw [readTargets_eq, expect_moved, marked]
    rfl
  | case2 cursor afterMark marked failure named =>
    rw [readTargets_eq, expect_moved, marked]
    dsimp only
    rw [identifier_moved, named]
    rfl
  | case3 cursor afterMark marked target afterTarget named separated more ih =>
    rw [readTargets_eq, expect_moved, marked]
    dsimp only
    rw [identifier_moved, named, movedResult_ok]
    dsimp only
    rw [accept_moved, if_pos more, ih]
    exact prepend_movedResult _ fun _ => rfl
  | case4 cursor afterMark marked target afterTarget named separated last =>
    rw [readTargets_eq, expect_moved, marked]
    dsimp only
    rw [identifier_moved, named, movedResult_ok]
    dsimp only
    rw [accept_moved, if_neg last]
    rfl

theorem readBytes_moved :
    (cursor.moved lines bytes).readBytes = movedResult lines bytes id cursor.readBytes := by
  have skipped : ∀ cursor : Cursor,
      (cursor.moved lines bytes).skipInner = cursor.skipInner.moved lines bytes := fun _ => rfl
  fun_induction readBytes cursor with
  | case1 cursor start ended =>
    rw [readBytes_eq, skipped]
    exact if_pos ended
  | case2 cursor start more noByte =>
    rw [readBytes_eq, skipped, word_moved]
    refine (if_neg more).trans ?_
    rw [noByte]
    rfl
  | case3 cursor start more byte isByte ih =>
    rw [readBytes_eq, skipped, word_moved]
    refine (if_neg more).trans ?_
    rw [isByte]
    dsimp only
    rw [ih]
    exact prepend_movedResult _ fun _ => rfl

end Marks

section Instructions

variable {decode : Decoder} (relative : decode.Relative) (cursor : Cursor)
  (block function : String) (earlier : List String)

include relative

theorem readInstructions_moved (byte : UInt8) :
    (cursor.moved lines bytes).readInstructions decode byte =
      movedResult lines bytes (List.map (Instruction.moved bytes))
        (cursor.readInstructions decode byte) := by
  unfold readInstructions
  rw [readBytes_moved]
  rcases cursor.readBytes with failure | ⟨others, next⟩
  · rfl
  · simp only [movedResult_ok, id, moved, relative cursor.address]
    cases decode cursor.address (byte :: others) with
    | none => rfl
    | some instructions => simp [moved, Nat.add_right_comm]

theorem readBody_moved :
    (cursor.moved lines bytes).readBody decode block =
      movedResult lines bytes (Prod.map (List.map (Instruction.moved bytes)) id)
        (cursor.readBody decode block) := by
  have ends : ∀ cursor : Cursor, (cursor.moved lines bytes).EndsBlock ↔ cursor.EndsBlock := by
    intro cursor
    simp [EndsBlock, lineWord]
  have starts : ∀ cursor : Cursor, (cursor.moved lines bytes).lineWord =
      (cursor.lineWord.1, cursor.lineWord.2.moved lines bytes) := by
    intro cursor
    simp [lineWord]
  have stays : ∀ cursor : Cursor, ¬ cursor.EndsBlock → ¬ (cursor.moved lines bytes).EndsBlock :=
    fun cursor inside ended => inside ((ends cursor).mp ended)
  fun_induction readBody decode block cursor with
  | case1 cursor start afterWord following ended =>
    rw [readBody_of_ends block ((ends cursor).mpr ended), skip_moved]
    rfl
  | case2 cursor start word afterWord following inside jumps failure read =>
    have targets : (cursor.lineWord.2.skip false).readTargets = .error failure := read
    rw [readBody_of_jump block (stays cursor inside) (by rw [starts]; exact jumps), starts,
      skip_moved, readTargets_moved, targets]
    rfl
  | case3 cursor start word afterWord following inside jumps targets last read ih =>
    have read : (cursor.lineWord.2.skip false).readTargets = .ok (targets, last) := read
    rw [readBody_of_jump block (stays cursor inside) (by rw [starts]; exact jumps), starts,
      skip_moved, readTargets_moved, read, movedResult_ok]
    dsimp only
    rw [ih]
    exact prepend_movedResult _ fun _ => rfl
  | case4 cursor start word afterWord following inside noJump noByte =>
    have noByte : Hexadecimal.byte? cursor.lineWord.1.toList = none := noByte
    rw [readBody_of_line block (stays cursor inside) (by rw [starts]; exact noJump), starts,
      skip_moved, noByte]
    rfl
  | case5 cursor start word afterWord following inside noJump byte isByte failure read =>
    have isByte : Hexadecimal.byte? cursor.lineWord.1.toList = some byte := isByte
    have read : cursor.lineWord.2.readInstructions decode byte = .error failure := read
    rw [readBody_of_line block (stays cursor inside) (by rw [starts]; exact noJump), starts, isByte]
    dsimp only
    rw [readInstructions_moved relative, read]
    rfl
  | case6 cursor start word afterWord following inside noJump byte isByte instructions last read
      ih =>
    have isByte : Hexadecimal.byte? cursor.lineWord.1.toList = some byte := isByte
    have read : cursor.lineWord.2.readInstructions decode byte = .ok (instructions, last) := read
    rw [readBody_of_line block (stays cursor inside) (by rw [starts]; exact noJump), starts, isByte]
    dsimp only
    rw [readInstructions_moved relative, read, movedResult_ok]
    dsimp only
    rw [ih]
    exact prepend_movedResult _ fun _ => by simp

theorem readBlock_moved :
    (cursor.moved lines bytes).readBlock decode function earlier =
      movedResult lines bytes (BlockDraft.moved bytes)
        (cursor.readBlock decode function earlier) := by
  unfold readBlock
  rw [identifier_moved]
  apply bind_moved
  intro name afterName
  apply expect_bind_moved
  intro afterColon
  dsimp only [id]
  split
  · rfl
  · rw [readBody_moved relative]
    exact bind_moved fun _ _ => rfl

theorem readBlocks_moved :
    (cursor.moved lines bytes).readBlocks decode function earlier =
      movedResult lines bytes (List.map (BlockDraft.moved bytes))
        (cursor.readBlocks decode function earlier) := by
  fun_induction readBlocks decode function earlier cursor with
  | case1 earlier cursor closing closed =>
    rw [readBlocks_eq, accept_moved, if_pos closed]
    rfl
  | case2 earlier cursor closing inside ended =>
    rw [readBlocks_eq, accept_moved, if_neg inside, rest_moved, if_pos ended]
    rfl
  | case3 earlier cursor closing inside more failure read =>
    rw [readBlocks_eq, accept_moved, if_neg inside, rest_moved, if_neg more,
      readBlock_moved relative, read]
    rfl
  | case4 earlier cursor closing inside more draft last read ih =>
    rw [readBlocks_eq, accept_moved, if_neg inside, rest_moved, if_neg more,
      readBlock_moved relative, read, movedResult_ok]
    dsimp only
    rw [show (draft.moved bytes).name = draft.name from rfl, ih]
    exact prepend_movedResult _ fun _ => rfl

omit relative in
theorem mapM_link_moved (names : List String) (drafts : List BlockDraft) :
    (drafts.map (BlockDraft.moved bytes)).mapM (BlockDraft.link function names) =
      (drafts.mapM (BlockDraft.link function names)).map (List.map (RoutineBlock.moved bytes)) := by
  have link_moved : ∀ draft : BlockDraft, (draft.moved bytes).link function names =
      (draft.link function names).map (RoutineBlock.moved bytes) := by
    intro draft
    simp only [BlockDraft.link, BlockDraft.moved]
    generalize draft.targets.mapM (fun target => (_ : Except ListingError BlockId)) = linked
    cases linked <;> rfl
  induction drafts with
  | nil => rfl
  | cons draft drafts ih =>
      rw [List.map_cons, List.mapM_cons, List.mapM_cons, link_moved, ih]
      cases draft.link function names with
      | error failure => rfl
      | ok block => cases drafts.mapM (BlockDraft.link function names) <;> rfl

omit relative in
/-- Errors about the names of blocks tell no line. -/
theorem moved_of_mapM_link {names : List String} {drafts : List BlockDraft} {failure : ListingError}
    (fails : drafts.mapM (BlockDraft.link function names) = .error failure) :
    failure.moved lines = failure := by
  rcases exists_of_mapM_error fails with ⟨draft, -, unlinked⟩
  rcases error_of_bind unlinked with unfound | ⟨successors, -, finished⟩
  · rcases exists_of_mapM_error unfound with ⟨target, -, unnamed⟩
    split at unnamed
    · cases unnamed
    · cases unnamed
      rfl
  · cases finished

theorem readRoutine_moved :
    (cursor.moved lines bytes).readRoutine decode =
      movedResult lines bytes (Routine.moved bytes) (cursor.readRoutine decode) := by
  unfold readRoutine
  rw [identifier_moved]
  apply bind_moved
  intro name afterName
  apply expect_bind_moved
  intro afterOpening
  rw [readArguments_moved]
  apply bind_moved
  intro types afterArguments
  apply expect_bind_moved
  intro afterBrace
  rw [readBlocks_moved relative]
  apply bind_moved
  intro drafts next
  have names : (drafts.map (BlockDraft.moved bytes)).map BlockDraft.name =
      drafts.map BlockDraft.name := by
    simp [BlockDraft.moved, Function.comp_def]
  dsimp only [id]
  rw [List.isEmpty_map, names, mapM_link_moved]
  split
  · rfl
  · cases linked : drafts.mapM (BlockDraft.link name (drafts.map BlockDraft.name)) with
    | error failure => exact congrArg Except.error (moved_of_mapM_link name linked).symm
    | ok blocks => rfl

theorem readRoutines_moved :
    (cursor.moved lines bytes).readRoutines decode =
      movedResult lines bytes (List.map (Routine.moved bytes)) (cursor.readRoutines decode) := by
  fun_induction readRoutines decode cursor with
  | case1 cursor start ended =>
    rw [readRoutines_eq, skip_moved, rest_moved, if_pos ended]
    rfl
  | case2 cursor start more failure read =>
    rw [readRoutines_eq, skip_moved, rest_moved, if_neg more, readRoutine_moved relative, read]
    rfl
  | case3 cursor start more routine last read ih =>
    rw [readRoutines_eq, skip_moved, rest_moved, if_neg more, readRoutine_moved relative, read,
      movedResult_ok]
    dsimp only
    rw [ih]
    exact prepend_movedResult _ fun _ => rfl

end Instructions

end Cursor

end RegisterFlow
