import RegisterFlow.Listing.Body

/-!
# Reading listings

A listing is a text of routines. A routine has a name, the types of its arguments in parentheses,
and at least one block in braces. A block has a name with a colon, and then its lines. The blocks
that a jump names may come later, so that names are replaced by numbers when the routine ends.
-/

namespace RegisterFlow

/-- A block whose successors are known by name only. -/
structure BlockDraft where
  name : String
  instructions : List Instruction
  targets : List String
  deriving DecidableEq, Repr

namespace BlockDraft

/-- The block with its successors by number, given the names of all blocks of its routine. -/
def link (function : String) (names : List String) (draft : BlockDraft) :
    Except ListingError RoutineBlock := do
  let successors ← draft.targets.mapM fun target =>
    match names.findIdx? (· == target) with
    | some id => .ok id
    | none => .error (.unknownBlock function target)
  return { name := draft.name, instructions := draft.instructions, successors }

end BlockDraft

namespace Cursor

/-- Reads a block whose name is not among those of the blocks before it. -/
def readBlock (decode : Decoder) (function : String) (earlier : List String) (cursor : Cursor) :
    Except ListingError (BlockDraft × Cursor) := do
  let (name, afterName) ← cursor.identifier
  let afterColon ← afterName.expect ':'
  if name ∈ earlier then
    .error (.duplicateBlock function name)
  else
    let ((instructions, targets), next) ← afterColon.readBody decode name
    .ok ({ name, instructions, targets }, next)

theorem remaining_readBlock_lt {decode : Decoder} {function : String} {earlier : List String}
    {cursor next : Cursor} {draft : BlockDraft}
    (read : cursor.readBlock decode function earlier = .ok (draft, next)) :
    next.remaining < cursor.remaining := by
  obtain ⟨⟨name, afterName⟩, nameRead, read⟩ := exists_of_bind read
  obtain ⟨afterColon, colonRead, read⟩ := exists_of_bind read
  have first := remaining_identifier_lt nameRead
  have second := remaining_expect_lt colonRead
  dsimp only at read
  split at read
  · cases read
  · obtain ⟨⟨body, last⟩, bodyRead, read⟩ := exists_of_bind read
    have third := remaining_readBody_le bodyRead
    cases read
    dsimp only
    omega

/-- Reads the blocks of a routine up to the closing brace. -/
def readBlocks (decode : Decoder) (function : String) (earlier : List String) (cursor : Cursor) :
    Except ListingError (List BlockDraft × Cursor) :=
  let closing := cursor.accept '}'
  if closing.1 then .ok ([], closing.2)
  else if closing.2.rest = [] then closing.2.malformed (.unterminatedFunction function)
  else
    match _ : closing.2.readBlock decode function earlier with
    | .error failure => .error failure
    | .ok (draft, next) =>
      prepend (draft :: ·) (next.readBlocks decode function (draft.name :: earlier))
termination_by cursor.remaining
decreasing_by
  rename_i read
  have first : closing.2.remaining ≤ _ := cursor.remaining_accept_le '}'
  have second := remaining_readBlock_lt read
  omega

theorem remaining_readBlocks_le {decode : Decoder} {function : String} {earlier : List String}
    {cursor next : Cursor} {drafts : List BlockDraft}
    (read : cursor.readBlocks decode function earlier = .ok (drafts, next)) :
    next.remaining ≤ cursor.remaining := by
  fun_induction readBlocks decode function earlier cursor generalizing drafts next with
  | case1 earlier cursor closing =>
    cases read
    exact remaining_accept_le ..
  | case2 => cases read
  | case3 => cases read
  | case4 earlier cursor closing inside more draft last =>
    rename_i draftRead ih
    obtain ⟨others, read, -⟩ := exists_of_prepend read
    have first : closing.2.remaining ≤ _ := remaining_accept_le ..
    have second := remaining_readBlock_lt draftRead
    have third := ih read
    omega

/-- Reads a routine. -/
def readRoutine (decode : Decoder) (cursor : Cursor) : Except ListingError (Routine × Cursor) := do
  let (name, afterName) ← cursor.identifier
  let (argumentTypes, afterArguments) ← (← afterName.expect '(').readArguments
  let (drafts, next) ← (← afterArguments.expect '\x7b').readBlocks decode name []
  if drafts.isEmpty then
    .error (.noBlocks name)
  else
    let blocks ← drafts.mapM (BlockDraft.link name (drafts.map BlockDraft.name))
    .ok ({ name, argumentTypes, blocks }, next)

theorem remaining_readRoutine_lt {decode : Decoder} {cursor next : Cursor} {routine : Routine}
    (read : cursor.readRoutine decode = .ok (routine, next)) : next.remaining < cursor.remaining := by
  obtain ⟨⟨name, afterName⟩, nameRead, read⟩ := exists_of_bind read
  obtain ⟨afterOpening, openingRead, read⟩ := exists_of_bind read
  obtain ⟨⟨types, afterArguments⟩, typesRead, read⟩ := exists_of_bind read
  obtain ⟨afterBrace, braceRead, read⟩ := exists_of_bind read
  obtain ⟨⟨drafts, last⟩, draftsRead, read⟩ := exists_of_bind read
  have first := remaining_identifier_lt nameRead
  have second := remaining_expect_lt openingRead
  have third := remaining_readArguments_le typesRead
  have fourth := remaining_expect_lt braceRead
  have fifth := remaining_readBlocks_le draftsRead
  dsimp only at read
  split at read
  · cases read
  · obtain ⟨blocks, _, read⟩ := exists_of_bind read
    cases read
    omega

/-- Reads routines up to the end of the text. -/
def readRoutines (decode : Decoder) (cursor : Cursor) :
    Except ListingError (List Routine × Cursor) :=
  let start := cursor.skip true
  if start.rest = [] then .ok ([], start)
  else
    match _ : start.readRoutine decode with
    | .error failure => .error failure
    | .ok (routine, next) => prepend (routine :: ·) (next.readRoutines decode)
termination_by cursor.remaining
decreasing_by
  rename_i read
  have first : start.remaining ≤ _ := cursor.remaining_skip_le true
  have second := remaining_readRoutine_lt read
  omega

end Cursor

namespace Routine

/--
The routines of a listing, given a decoder of instructions. Instruction addresses run through the
whole text.
-/
def parseWith (decode : Decoder) (text : String) : Except ListingError (List Routine) :=
  (Cursor.readRoutines decode { rest := text.toList }).map Prod.fst

/-- The routines of a listing of known instructions. -/
def parse (text : String) : Except ListingError (List Routine) :=
  parseWith Encoding.decode? text

end Routine

end RegisterFlow
