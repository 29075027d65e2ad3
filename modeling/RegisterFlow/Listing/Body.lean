import RegisterFlow.Listing.Cursor
import RegisterFlow.Listing.Routine

/-!
# Reading arguments and block bodies

The types of a routine's arguments, separated by commas, and the lines of a block: the bytes of
instructions as pairs of hexadecimal digits, or `jump` and the blocks that may follow, each after a
caret.

The decoder of instructions is a parameter of the readers that come across bytes. Every reader says
what it read and where the text goes on. A reader that repeats itself goes on at a
place where less text is left, which is why it ends.
-/

namespace RegisterFlow

/-- The number that decimal digits stand for; there is none without a digit. -/
def decimal? (digits : List Char) : Option Nat :=
  if digits ≠ [] ∧ digits.all Char.isDigit then
    some (digits.foldl (fun number digit => number * 10 + (digit.toNat - '0'.toNat)) 0)
  else
    none

/-- The type of an argument. Integers have at least one bit, and their width has to fit 32 bits. -/
def argumentTy? (word : String) : Option Ty :=
  match word.toList with
  | ['p', 't', 'r'] => some .ptr
  | ['f', '3', '2'] => some .f32
  | ['f', '6', '4'] => some .f64
  | 'i' :: digits =>
    (decimal? digits).bind fun bits =>
      if 0 < bits ∧ bits < UInt32.size then some (.int bits) else none
  | _ => none

namespace Cursor

/-- What was read and where the text goes on, after what was read before it. -/
def prepend {α β : Type} (combine : α → β) :
    Except ListingError (α × Cursor) → Except ListingError (β × Cursor)
  | .error failure => .error failure
  | .ok (others, next) => .ok (combine others, next)

theorem exists_of_prepend {α β : Type} {combine : α → β}
    {result : Except ListingError (α × Cursor)} {all : β} {next : Cursor}
    (succeeds : prepend combine result = .ok (all, next)) :
    ∃ others, result = .ok (others, next) ∧ combine others = all := by
  rcases result with failure | ⟨others, last⟩
  · cases succeeds
  · cases succeeds
    exact ⟨others, rfl, rfl⟩

theorem exists_of_bind {α β : Type} {first : Except ListingError α}
    {rest : α → Except ListingError β} {result : β} (succeeds : first >>= rest = .ok result) :
    ∃ value, first = .ok value ∧ rest value = .ok result := by
  rcases first with failure | value
  · cases succeeds
  · exact ⟨value, rfl, succeeds⟩

/-- Reads the type of an argument. -/
def readTy (cursor : Cursor) : Except ListingError (Ty × Cursor) :=
  match cursor.identifier with
  | .error failure => .error failure
  | .ok (word, next) =>
    match argumentTy? word with
    | some ty => .ok (ty, next)
    | none => next.malformed (.unknownType word)

theorem remaining_readTy_lt {cursor next : Cursor} {ty : Ty}
    (read : cursor.readTy = .ok (ty, next)) : next.remaining < cursor.remaining := by
  unfold readTy malformed at read
  grind [→ remaining_identifier_lt]

/-- Reads the types of arguments up to the closing parenthesis. A comma may follow the last one. -/
def readArguments (cursor : Cursor) : Except ListingError (List Ty × Cursor) :=
  let closing := cursor.accept ')'
  if closing.1 then .ok ([], closing.2)
  else
    match _ : closing.2.readTy with
    | .error failure => .error failure
    | .ok (ty, afterTy) =>
      let separated := afterTy.accept ','
      if separated.1 ∨ separated.2.peek? = some ')' then
        prepend (ty :: ·) separated.2.readArguments
      else
        separated.2.malformed .argumentSeparator
termination_by cursor.remaining
decreasing_by
  rename_i read _
  have first : closing.2.remaining ≤ _ := cursor.remaining_accept_le ')'
  have second := remaining_readTy_lt read
  have third := afterTy.remaining_accept_le ','
  omega

theorem remaining_readArguments_le {cursor next : Cursor} {types : List Ty}
    (read : cursor.readArguments = .ok (types, next)) : next.remaining ≤ cursor.remaining := by
  fun_induction readArguments cursor generalizing types next with
  | case1 cursor closing =>
    cases read
    exact remaining_accept_le ..
  | case2 => cases read
  | case3 cursor closing inside ty afterTy tyRead separated =>
    rename_i ih
    obtain ⟨others, read, -⟩ := exists_of_prepend read
    have first : closing.2.remaining ≤ _ := remaining_accept_le ..
    have second := remaining_readTy_lt tyRead
    have third : separated.2.remaining ≤ _ := remaining_accept_le ..
    have fourth := ih read
    omega
  | case4 => cases read

/-- Reads the names of the blocks that a jump may lead to. -/
def readTargets (cursor : Cursor) : Except ListingError (List String × Cursor) :=
  match _ : cursor.expect '^' with
  | .error failure => .error failure
  | .ok afterMark =>
    match _ : afterMark.identifier with
    | .error failure => .error failure
    | .ok (target, afterTarget) =>
      let separated := afterTarget.accept ','
      if separated.1 then
        prepend (target :: ·) separated.2.readTargets
      else
        .ok ([target], separated.2)
termination_by cursor.remaining
decreasing_by
  rename_i marked named _
  have first := remaining_expect_lt marked
  have second := remaining_identifier_lt named
  have third := afterTarget.remaining_accept_le ','
  omega

theorem remaining_readTargets_lt {cursor next : Cursor} {targets : List String}
    (read : cursor.readTargets = .ok (targets, next)) : next.remaining < cursor.remaining := by
  fun_induction readTargets cursor generalizing targets next with
  | case1 | case2 => cases read
  | case3 cursor afterMark marked target afterTarget named separated more =>
    rename_i ih
    obtain ⟨others, read, -⟩ := exists_of_prepend read
    have first := remaining_expect_lt marked
    have second := remaining_identifier_lt named
    have third : separated.2.remaining ≤ _ := remaining_accept_le ..
    have fourth := ih read
    omega
  | case4 cursor afterMark marked target afterTarget named separated =>
    have first := remaining_expect_lt marked
    have second := remaining_identifier_lt named
    have third : separated.2.remaining ≤ _ := remaining_accept_le ..
    cases read
    omega

/-- Blanks between the bytes of a line. -/
def isInnerBlank (char : Char) : Bool :=
  char = ' ' || char = '\t' || char = '\r'

/-- The place after the blanks between two bytes of a line. -/
def skipInner (cursor : Cursor) : Cursor :=
  { cursor with rest := cursor.rest.dropWhile isInnerBlank }

/-- Whether no more bytes follow on a line: it ends, or a comment starts. -/
def atLineEnd (cursor : Cursor) : Bool :=
  match cursor.peek? with
  | none => true
  | some char => char = '\n' || char = ';'

theorem remaining_skipInner_le (cursor : Cursor) :
    cursor.skipInner.remaining ≤ cursor.remaining :=
  (List.dropWhile_sublist isInnerBlank).length_le

theorem remaining_word_lt_of_byte {cursor : Cursor} {byte : UInt8}
    (isByte : Hexadecimal.byte? cursor.word.1.toList = some byte) :
    cursor.word.2.remaining < cursor.remaining := by
  apply remaining_word_lt_of_ne_empty
  intro isEmpty
  simp [isEmpty, Hexadecimal.byte?] at isByte

/-- Reads the bytes that are left on a line. -/
def readBytes (cursor : Cursor) : Except ListingError (List UInt8 × Cursor) :=
  let start := cursor.skipInner
  if start.atLineEnd then .ok ([], start)
  else
    match _ : Hexadecimal.byte? start.word.1.toList with
    | none => start.word.2.malformed (.expectedByte start.word.1)
    | some byte => prepend (byte :: ·) start.word.2.readBytes
termination_by cursor.remaining
decreasing_by
  rename_i isByte
  have first := cursor.remaining_skipInner_le
  have second : cursor.skipInner.word.2.remaining < _ := remaining_word_lt_of_byte isByte
  omega

theorem remaining_readBytes_le {cursor next : Cursor} {bytes : List UInt8}
    (read : cursor.readBytes = .ok (bytes, next)) : next.remaining ≤ cursor.remaining := by
  fun_induction readBytes cursor generalizing bytes next with
  | case1 cursor start =>
    cases read
    exact remaining_skipInner_le _
  | case2 => cases read
  | case3 cursor start inside byte isByte =>
    rename_i ih
    obtain ⟨others, read, -⟩ := exists_of_prepend read
    have first : start.remaining ≤ _ := remaining_skipInner_le _
    have second := remaining_word_lt_of_byte isByte
    have third := ih read
    omega

/--
Reads the rest of a line of instructions after its first byte and decodes the whole line. The
instructions take the addresses from the current one on.
-/
def readInstructions (decode : Decoder) (cursor : Cursor) (first : UInt8) :
    Except ListingError (List Instruction × Cursor) :=
  match cursor.readBytes with
  | .error failure => .error failure
  | .ok (others, next) =>
    let bytes := first :: others
    match decode cursor.address bytes with
    | none => .error (.undecodable cursor.line bytes)
    | some instructions =>
      .ok (instructions, { next with address := cursor.address + bytes.length })

theorem remaining_readInstructions_le {decode : Decoder} {cursor next : Cursor} {first : UInt8}
    {instructions : List Instruction}
    (read : cursor.readInstructions decode first = .ok (instructions, next)) :
    next.remaining ≤ cursor.remaining := by
  unfold readInstructions at read
  split at read
  · cases read
  · next bytesRead =>
    have shorter := remaining_readBytes_le bytesRead
    dsimp only at read
    split at read
    · cases read
    · cases read
      exact shorter

/--
Reads the lines of a block, up to the name of the next block or the end of the routine: all
instructions, and the names of all successors.
-/
def readBody (decode : Decoder) (block : String) (cursor : Cursor) :
    Except ListingError ((List Instruction × List String) × Cursor) :=
  let start := cursor.skip true
  let word := start.word.1
  let afterWord := start.word.2
  let following := afterWord.skip false
  if start.rest = [] ∨ start.peek? = some '}' ∨ following.peek? = some ':' then
    .ok (([], []), start)
  else if word = "jump" then
    match _ : following.readTargets with
    | .error failure => .error failure
    | .ok (targets, next) =>
      prepend (fun (instructions, others) => (instructions, targets ++ others))
        (next.readBody decode block)
  else
    match _ : Hexadecimal.byte? word.toList with
    | none => following.malformed (.unexpectedWord word block)
    | some byte =>
      match _ : afterWord.readInstructions decode byte with
      | .error failure => .error failure
      | .ok (instructions, next) =>
        prepend (fun (others, targets) => (instructions ++ others, targets))
          (next.readBody decode block)
termination_by cursor.remaining
decreasing_by
  · rename_i read
    have first := cursor.remaining_skip_le true
    have second := (cursor.skip true).remaining_word_le
    have third : following.remaining ≤ _ := (cursor.skip true).word.2.remaining_skip_le false
    have fourth := remaining_readTargets_lt read
    omega
  · rename_i isByte read
    have first := cursor.remaining_skip_le true
    have second : afterWord.remaining < (cursor.skip true).remaining :=
      remaining_word_lt_of_byte isByte
    have third := remaining_readInstructions_le read
    omega

theorem remaining_readBody_le {decode : Decoder} {block : String} {cursor next : Cursor}
    {body : List Instruction × List String}
    (read : cursor.readBody decode block = .ok (body, next)) :
    next.remaining ≤ cursor.remaining := by
  fun_induction readBody decode block cursor generalizing body next with
  | case1 cursor start =>
    cases read
    exact remaining_skip_le ..
  | case2 => cases read
  | case3 cursor start word afterWord following inside isJump targets last =>
    rename_i targetsRead ih
    obtain ⟨others, read, -⟩ := exists_of_prepend read
    have first : start.remaining ≤ _ := remaining_skip_le ..
    have second : afterWord.remaining ≤ _ := remaining_word_le _
    have third : following.remaining ≤ _ := remaining_skip_le ..
    have fourth := remaining_readTargets_lt targetsRead
    have fifth := ih read
    omega
  | case4 => cases read
  | case5 => cases read
  | case6 cursor start word afterWord following inside noJump byte isByte instructions
      last =>
    rename_i instructionsRead ih
    obtain ⟨others, read, -⟩ := exists_of_prepend read
    have first : start.remaining ≤ _ := remaining_skip_le ..
    have second : afterWord.remaining ≤ _ := remaining_word_le _
    have third := remaining_readInstructions_le instructionsRead
    have fourth := ih read
    omega

end Cursor

end RegisterFlow
