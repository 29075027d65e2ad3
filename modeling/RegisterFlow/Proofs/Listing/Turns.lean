import RegisterFlow.Proofs.Listing.Equations
import RegisterFlow.Proofs.Listing.Scanning

/-!
# Loops of the readers

The readers that repeat themselves are loops over one cursor: over the routines of a text, the
arguments and the blocks of a routine, the lines of a block, the targets of a jump and the bytes of
a line. Here each loop is taken apart into its turns. A turn says to which places the cursor is moved,
backwards as well, which loops are entered on the way, and whether the loop stops or goes round
again. The turns of a loop read what its reader reads.
-/

namespace RegisterFlow

open Cursor

/-- The loops of the readers, by what they read. -/
inductive Loop : Type → Type where
  | routines : Loop (List Routine)
  | arguments : Loop (List Ty)
  | blocks (function : String) (earlier : List String) : Loop (List BlockDraft)
  | lines (block : String) : Loop (List Instruction × List String)
  | targets : Loop (List String)
  | bytes : Loop (List UInt8)

/-- What is left of a turn of a loop that reads an `α`. -/
inductive Turn (α : Type) : Type 1 where
  | stop (result : Except ListingError (α × Cursor))
  /-- The loop goes round again, and what it reads from now on is combined with what it read. -/
  | again (loop : Loop α) (next : Cursor) (combine : α → α)
  | move (place : Cursor) (turn : Turn α)
  /-- Another loop is entered; the turn goes on where that loop ends. -/
  | enter {β : Type} (inner : Loop β) (start : Cursor) (resume : β → Cursor → Turn α)

/-- What a loop reads from a cursor on. -/
def Loop.read (decode : Decoder) :
    {α : Type} → Loop α → Cursor → Except ListingError (α × Cursor)
  | _, .routines, cursor => cursor.readRoutines decode
  | _, .arguments, cursor => cursor.readArguments
  | _, .blocks function earlier, cursor => cursor.readBlocks decode function earlier
  | _, .lines block, cursor => cursor.readBody decode block
  | _, .targets, cursor => cursor.readTargets
  | _, .bytes, cursor => cursor.readBytes

namespace Turn

variable {α : Type}

/-- A turn that reads a mark before it goes on. -/
def marked (cursor : Cursor) (mark : Char) (next : Cursor → Turn α) : Turn α :=
  .move (cursor.accept mark).2 <|
    match cursor.expect mark with
    | .error failure => .stop (.error failure)
    | .ok afterMark => next afterMark

/-- A turn that reads a name before it goes on. -/
def named (cursor : Cursor) (next : String → Cursor → Turn α) : Turn α :=
  .move (cursor.skip true) <|
    match cursor.identifier with
    | .error failure => .stop (.error failure)
    | .ok (name, afterName) => .move afterName (next name afterName)

/-- A turn over the routines reads one routine: its name, its arguments and its blocks. -/
def ofRoutines (cursor : Cursor) : Turn (List Routine) :=
  let start := cursor.skip true
  .move start <|
    if start.rest = [] then .stop (.ok ([], start))
    else
      .named start fun name afterName =>
      .marked afterName '(' fun afterOpening =>
      .enter .arguments afterOpening fun argumentTypes afterArguments =>
      .marked afterArguments '\x7b' fun afterBrace =>
      .enter (.blocks name []) afterBrace fun drafts next =>
        if drafts.isEmpty then .stop (.error (.noBlocks name))
        else
          match drafts.mapM (BlockDraft.link name (drafts.map BlockDraft.name)) with
          | .error failure => .stop (.error failure)
          | .ok blocks => .again .routines next ({ name, argumentTypes, blocks } :: ·)

def ofArguments (cursor : Cursor) : Turn (List Ty) :=
  let closing := cursor.accept ')'
  .move closing.2 <|
    if closing.1 then .stop (.ok ([], closing.2))
    else
      .named closing.2 fun word afterTy =>
        match argumentTy? word with
        | none => .stop (afterTy.malformed (.unknownType word))
        | some ty =>
          let separated := afterTy.accept ','
          .move separated.2 <|
            if separated.1 ∨ separated.2.peek? = some ')' then
              .again .arguments separated.2 (ty :: ·)
            else
              .stop (separated.2.malformed .argumentSeparator)

def ofBlocks (function : String) (earlier : List String) (cursor : Cursor) :
    Turn (List BlockDraft) :=
  let closing := cursor.accept '}'
  .move closing.2 <|
    if closing.1 then .stop (.ok ([], closing.2))
    else if closing.2.rest = [] then .stop (closing.2.malformed (.unterminatedFunction function))
    else
      .named closing.2 fun name afterName =>
      .marked afterName ':' fun afterColon =>
        if name ∈ earlier then .stop (.error (.duplicateBlock function name))
        else
          .enter (.lines name) afterColon fun (instructions, targets) next =>
            .again (.blocks function (name :: earlier)) next
              ({ name, instructions, targets } :: ·)

/--
A turn over the lines of a block reads one line. Before a colon, it goes back to the start of the
word that it read, since that word names the next block; before the bytes of instructions, it goes
back as well, since the word is the first of them.
-/
def ofLines (decode : Decoder) (block : String) (cursor : Cursor) :
    Turn (List Instruction × List String) :=
  let start := cursor.skip true
  .move start <|
    if start.rest = [] ∨ start.peek? = some '}' then .stop (.ok (([], []), start))
    else
      let word := start.word.1
      let following := start.word.2.skip false
      .move start.word.2 <| .move following <|
        if following.peek? = some ':' then .move start (.stop (.ok (([], []), start)))
        else if word = "jump" then
          .enter .targets following fun targets next =>
            .again (.lines block) next
              fun (instructions, others) => (instructions, targets ++ others)
        else
          match Hexadecimal.byte? word.toList with
          | none => .stop (following.malformed (.unexpectedWord word block))
          | some _ =>
            .move start <| .enter .bytes start fun bytes next =>
              match decode start.address bytes with
              | none => .stop (.error (.undecodable start.line bytes))
              | some instructions =>
                .again (.lines block) { next with address := start.address + bytes.length }
                  fun (others, targets) => (instructions ++ others, targets)

def ofTargets (cursor : Cursor) : Turn (List String) :=
  .marked cursor '^' fun afterMark =>
  .named afterMark fun target afterTarget =>
    let separated := afterTarget.accept ','
    .move separated.2 <|
      if separated.1 then .again .targets separated.2 (target :: ·)
      else .stop (.ok ([target], separated.2))

def ofBytes (cursor : Cursor) : Turn (List UInt8) :=
  let start := cursor.skipInner
  .move start <|
    if start.atLineEnd then .stop (.ok ([], start))
    else
      .move start.word.2 <|
        match Hexadecimal.byte? start.word.1.toList with
        | none => .stop (start.word.2.malformed (.expectedByte start.word.1))
        | some byte => .again .bytes start.word.2 (byte :: ·)

end Turn

/-- What a loop does at a cursor. -/
def Loop.turn (decode : Decoder) : {α : Type} → Loop α → Cursor → Turn α
  | _, .routines => .ofRoutines
  | _, .arguments => .ofArguments
  | _, .blocks function earlier => .ofBlocks function earlier
  | _, .lines block => .ofLines decode block
  | _, .targets => .ofTargets
  | _, .bytes => .ofBytes

/-! ### Turns read what the readers read -/

namespace Turn

variable {α β : Type} {decode : Decoder}

/-- What a turn comes to if the loops that it enters read what their readers read. -/
def result (decode : Decoder) : Turn α → Except ListingError (α × Cursor)
  | .stop result => result
  | .again loop next combine => prepend combine (loop.read decode next)
  | .move _ turn => turn.result decode
  | .enter inner start resume =>
    match inner.read decode start with
    | .error failure => .error failure
    | .ok (value, next) => (resume value next).result decode

@[simp]
theorem result_again (loop : Loop α) (next : Cursor) (combine : α → α) :
    (again loop next combine).result decode = prepend combine (loop.read decode next) :=
  rfl

@[simp]
theorem result_move (place : Cursor) (turn : Turn α) :
    (move place turn).result decode = turn.result decode :=
  rfl

@[simp]
theorem result_enter (inner : Loop β) (start : Cursor) (resume : β → Cursor → Turn α) :
    (enter inner start resume).result decode =
      inner.read decode start >>= fun (value, next) => (resume value next).result decode := by
  rw [result]
  rcases inner.read decode start with failure | ⟨value, next⟩ <;> rfl

@[simp]
theorem result_marked (cursor : Cursor) (mark : Char) (next : Cursor → Turn α) :
    (marked cursor mark next).result decode =
      cursor.expect mark >>= fun afterMark => (next afterMark).result decode := by
  rw [marked, result]
  cases cursor.expect mark <;> rfl

@[simp]
theorem result_named (cursor : Cursor) (next : String → Cursor → Turn α) :
    (named cursor next).result decode =
      cursor.identifier >>= fun (name, afterName) => (next name afterName).result decode := by
  rw [named, result]
  rcases cursor.identifier with failure | ⟨name, afterName⟩ <;> rfl

theorem result_ofRoutines (cursor : Cursor) :
    (ofRoutines cursor).result decode = cursor.readRoutines decode := by
  rw [readRoutines_eq, ofRoutines, result_move]
  split
  · rfl
  · rw [readRoutine, result_named]
    rcases (cursor.skip true).identifier with failure | ⟨name, afterName⟩
    · rfl
    · simp only [ok_bind, result_marked]
      cases afterName.expect '(' with
      | error failure => rfl
      | ok afterOpening =>
          simp only [ok_bind, result_enter, Loop.read]
          rcases afterOpening.readArguments with failure | ⟨argumentTypes, afterArguments⟩
          · rfl
          · simp only [ok_bind, result_marked]
            cases afterArguments.expect '\x7b' with
            | error failure => rfl
            | ok afterBrace =>
                simp only [ok_bind, result_enter, Loop.read]
                rcases afterBrace.readBlocks decode name [] with failure | ⟨drafts, next⟩
                · rfl
                · simp only [ok_bind]
                  split
                  · rfl
                  · cases drafts.mapM (BlockDraft.link name (drafts.map BlockDraft.name)) <;> rfl

theorem result_ofArguments (cursor : Cursor) :
    (ofArguments cursor).result decode = cursor.readArguments := by
  rw [readArguments_eq, ofArguments, result_move]
  split
  · rfl
  · rw [readTy, result_named]
    rcases (cursor.accept ')').2.identifier with failure | ⟨word, afterTy⟩
    · rfl
    · simp only [ok_bind]
      cases argumentTy? word with
      | none => rfl
      | some ty =>
          dsimp only
          rw [result_move]
          split <;> rfl

theorem result_ofBlocks (function : String) (earlier : List String) (cursor : Cursor) :
    (ofBlocks function earlier cursor).result decode =
      cursor.readBlocks decode function earlier := by
  rw [readBlocks_eq, ofBlocks, result_move]
  split
  · rfl
  · split
    · rfl
    · rw [readBlock, result_named]
      rcases (cursor.accept '}').2.identifier with failure | ⟨name, afterName⟩
      · rfl
      · simp only [ok_bind, result_marked]
        cases afterName.expect ':' with
        | error failure => rfl
        | ok afterColon =>
            simp only [ok_bind]
            split
            · rfl
            · rw [result_enter, Loop.read]
              rcases afterColon.readBody decode name with failure | ⟨⟨instructions, targets⟩, next⟩
                <;> rfl

theorem result_ofTargets (cursor : Cursor) :
    (ofTargets cursor).result decode = cursor.readTargets := by
  rw [readTargets_eq, ofTargets, result_marked]
  cases cursor.expect '^' with
  | error failure => rfl
  | ok afterMark =>
      simp only [ok_bind, result_named]
      rcases afterMark.identifier with failure | ⟨target, afterTarget⟩
      · rfl
      · simp only [ok_bind, result_move]
        split <;> rfl

theorem result_ofBytes (cursor : Cursor) :
    (ofBytes cursor).result decode = cursor.readBytes := by
  rw [readBytes_eq, ofBytes, result_move]
  split
  · rfl
  · rw [result_move]
    cases Hexadecimal.byte? cursor.skipInner.word.1.toList <;> rfl

/-- Where a byte comes next, it is the first of the bytes that are left on the line. -/
theorem readBytes_of_byte {cursor : Cursor} {byte : UInt8}
    (isByte : Hexadecimal.byte? cursor.word.1.toList = some byte) :
    cursor.readBytes = prepend (byte :: ·) cursor.word.2.readBytes := by
  rcases exists_isWordChar_of_byte isByte with ⟨char, rest, starts, wordChar⟩
  have solid := isSolid_of_isWordChar wordChar
  have inside : isInnerBlank char = false := by
    by_contra blank
    rw [Bool.not_eq_false] at blank
    have isBlank := (isBlank_of_isInnerBlank blank).2
    rw [solid.noBlank] at isBlank
    cases isBlank
  have start_eq : cursor.skipInner = cursor := by
    rcases cursor with ⟨text, line, address⟩
    cases starts
    simp [skipInner, inside]
  have more : cursor.atLineEnd = false := by
    simp [atLineEnd, peek?, starts, solid.inLine, solid.noComment]
  rw [readBytes_eq, start_eq, more, isByte]
  rfl

theorem result_ofLines (block : String) (cursor : Cursor) :
    (ofLines decode block cursor).result decode = cursor.readBody decode block := by
  rw [ofLines, result_move]
  split
  · next ends =>
    rw [readBody_of_ends block (or_assoc.mp (.inl ends))]
    rfl
  · next more =>
    rw [result_move, result_move]
    split
    · next colon =>
      rw [readBody_of_ends block (.inr (.inr colon))]
      rfl
    · next noColon =>
      have inside : ¬ cursor.EndsBlock := fun ends =>
        (or_assoc.mpr ends).elim more noColon
      split
      · next jumps =>
        rw [readBody_of_jump block inside jumps, result_enter, Loop.read, lineWord]
        rcases ((cursor.skip true).word.2.skip false).readTargets with failure | ⟨targets, next⟩
          <;> rfl
      · next noJump =>
        -- The turn reads the first byte once more, which the reader takes from the word.
        rw [readBody_of_line block inside noJump, lineWord]
        cases isByte : Hexadecimal.byte? (cursor.skip true).word.1.toList with
        | none => rfl
        | some byte =>
            dsimp only
            rw [result_move, result_enter, Loop.read, readBytes_of_byte isByte, readInstructions]
            rcases (cursor.skip true).word.2.readBytes with failure | ⟨others, next⟩
            · rfl
            · simp only [prepend, ok_bind]
              have place : (cursor.skip true).word.2.address = (cursor.skip true).address := rfl
              rw [place]
              cases decode (cursor.skip true).address (byte :: others) <;> rfl

/-- A turn of a loop reads what the loop reads. -/
theorem result_turn (loop : Loop α) (cursor : Cursor) :
    (loop.turn decode cursor).result decode = loop.read decode cursor := by
  cases loop with
  | routines => exact result_ofRoutines cursor
  | arguments => exact result_ofArguments cursor
  | blocks function earlier => exact result_ofBlocks function earlier cursor
  | lines block => exact result_ofLines block cursor
  | targets => exact result_ofTargets cursor
  | bytes => exact result_ofBytes cursor

/-! ### Runs of turns -/

/-- Where the loop goes round again after a turn, unless it stops. -/
def next? (decode : Decoder) : Turn α → Option Cursor
  | .stop _ => none
  | .again _ next _ => some next
  | .move _ turn => turn.next? decode
  | .enter inner start resume =>
    match inner.read decode start with
    | .error _ => none
    | .ok (value, next) => (resume value next).next? decode

/--
How a loop ends that is in the middle of a turn, and how many turns begin until then, with those of
the loops that are entered on the way.
-/
inductive Ends (decode : Decoder) :
    {α : Type} → Turn α → (turns : Nat) → Except ListingError (α × Cursor) → Prop where
  | stop {α : Type} (result : Except ListingError (α × Cursor)) :
      Ends decode (.stop result) 0 result
  | again {α : Type} {loop : Loop α} {next : Cursor} {combine : α → α} {turns : Nat}
      {result : Except ListingError (α × Cursor)}
      (later : Ends decode (loop.turn decode next) turns result) :
      Ends decode (.again loop next combine) (turns + 1) (prepend combine result)
  | move {α : Type} {place : Cursor} {turn : Turn α} {turns : Nat}
      {result : Except ListingError (α × Cursor)} (later : Ends decode turn turns result) :
      Ends decode (.move place turn) turns result
  | fail {α β : Type} {inner : Loop β} {start : Cursor} {resume : β → Cursor → Turn α}
      {turns : Nat} {failure : ListingError}
      (within : Ends decode (inner.turn decode start) turns (.error failure)) :
      Ends decode (.enter inner start resume) (turns + 1) (.error failure)
  | resume {α β : Type} {inner : Loop β} {start : Cursor} {resume : β → Cursor → Turn α}
      {turns more : Nat} {value : β} {next : Cursor} {result : Except ListingError (α × Cursor)}
      (within : Ends decode (inner.turn decode start) turns (.ok (value, next)))
      (later : Ends decode (resume value next) more result) :
      Ends decode (.enter inner start resume) (turns + 1 + more) result

/-- The cursor comes to a place before the loop ends, in this turn or in one that begins later. -/
inductive Passes (decode : Decoder) (place : Cursor) : {α : Type} → Turn α → Prop where
  | here {α : Type} {turn : Turn α} : Passes decode place (.move place turn)
  | move {α : Type} {other : Cursor} {turn : Turn α} (later : Passes decode place turn) :
      Passes decode place (.move other turn)
  | next {α : Type} {loop : Loop α} {combine : α → α} :
      Passes decode place (.again loop place combine)
  | again {α : Type} {loop : Loop α} {next : Cursor} {combine : α → α}
      (later : Passes decode place (loop.turn decode next)) :
      Passes decode place (.again loop next combine)
  | start {α β : Type} {inner : Loop β} {resume : β → Cursor → Turn α} :
      Passes decode place (.enter inner place resume)
  | within {α β : Type} {inner : Loop β} {start : Cursor} {resume : β → Cursor → Turn α}
      (within : Passes decode place (inner.turn decode start)) :
      Passes decode place (.enter inner start resume)
  | resume {α β : Type} {inner : Loop β} {start : Cursor} {resume : β → Cursor → Turn α}
      {value : β} {next : Cursor} (read : inner.read decode start = .ok (value, next))
      (later : Passes decode place (resume value next)) :
      Passes decode place (.enter inner start resume)

/-- A loop ends with what it reads. -/
theorem Ends.result_eq {turn : Turn α} {turns : Nat} {read : Except ListingError (α × Cursor)}
    (ends : turn.Ends decode turns read) : turn.result decode = read := by
  induction ends with
  | stop => rfl
  | again _ ih => rw [result_again, ← result_turn, ih]
  | move _ ih => exact ih
  | fail _ ih =>
      rw [result_enter, ← result_turn, ih]
      rfl
  | resume _ _ ih later_ih =>
      rw [result_enter, ← result_turn, ih]
      exact later_ih

/-- There is one way in which a loop ends. -/
theorem Ends.turns_eq {turn : Turn α} {turns others : Nat}
    {read otherRead : Except ListingError (α × Cursor)} (ends : turn.Ends decode turns read)
    (otherEnds : turn.Ends decode others otherRead) : turns = others := by
  induction ends generalizing others with
  | stop =>
      cases otherEnds
      rfl
  | again _ ih =>
      cases otherEnds with
      | again later => rw [ih later]
  | move _ ih =>
      cases otherEnds with
      | move later => exact ih later
  | fail within ih =>
      cases otherEnds with
      | fail otherWithin => rw [ih otherWithin]
      | resume otherWithin =>
          cases within.result_eq.symm.trans otherWithin.result_eq
  | resume within _ ih later_ih =>
      cases otherEnds with
      | fail otherWithin =>
          cases within.result_eq.symm.trans otherWithin.result_eq
      | resume otherWithin later =>
          cases within.result_eq.symm.trans otherWithin.result_eq
          rw [ih otherWithin, later_ih later]

end Turn

end RegisterFlow
