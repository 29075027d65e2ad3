import RegisterFlow.Proofs.Listing.Advances
import RegisterFlow.Proofs.Listing.Turns

/-!
# Reading ends

Every loop of the readers has an allowance of turns, by the characters that are left where it goes
round. A turn never overdraws it: what the loops that are entered use up, and what is left for the
next turn, is less than what the turn began with. The place of the cursor alone would not do, since
the bytes of a line are read from the place to which the line goes back.
-/

namespace RegisterFlow

open Cursor

variable {α : Type} {decode : Decoder}

/-- The turns that a loop is allowed for each character. -/
def Loop.rate : Loop α → Nat
  | .bytes => 1
  | _ => 3

/-- The turns that a loop is allowed from a cursor on. -/
def Loop.allowance (loop : Loop α) (cursor : Cursor) : Nat :=
  loop.rate * cursor.remaining

/-- A loop moves the cursor on. -/
theorem Loop.advances_read {loop : Loop α} {cursor next : Cursor} {value : α}
    (read : loop.read decode cursor = .ok (value, next)) : Advances cursor next := by
  cases loop with
  | routines => exact advances_readRoutines read
  | arguments => exact (skims_readArguments read).toAdvances
  | blocks function earlier => exact advances_readBlocks read
  | lines block => exact advances_readBody read
  | targets => exact (skims_readTargets read).toAdvances
  | bytes => exact (skims_readBytes read).toAdvances

/-- What is left of an allowance where a loop has ended. -/
def Turn.left (rate : Nat) : Except ListingError (α × Cursor) → Nat
  | .error _ => 0
  | .ok (_, next) => rate * next.remaining

theorem Turn.left_prepend (rate : Nat) (combine : α → α) (read : Except ListingError (α × Cursor)) :
    left rate (prepend combine read) = left rate read := by
  rcases read with failure | ⟨others, next⟩ <;> rfl

namespace Turn

/--
A turn stays in a text and within an allowance, given what its loop is allowed for each character. A
loop that was entered has used up the difference between what it is allowed at its start and at its
end.
-/
def Forward (decode : Decoder) (text : List Char) (rate : Nat) :
    (allowance : Nat) → Turn α → Prop
  | allowance, .stop result => left rate result ≤ allowance
  | allowance, .again loop next _ =>
    loop.rate = rate ∧ next.rest <:+ text ∧ rate * next.remaining < allowance
  | allowance, .move place turn => place.rest <:+ text ∧ turn.Forward decode text rate allowance
  | allowance, .enter inner start resume =>
    start.rest <:+ text ∧ inner.allowance start < allowance ∧
      ∀ value next, inner.read decode start = .ok (value, next) →
        (resume value next).Forward decode text rate
          (allowance - (inner.allowance start - inner.allowance next + 1))

variable {text : List Char} {rate allowance : Nat} {cursor : Cursor}

theorem forward_marked {mark : Char} {next : Cursor → Turn α} (within : cursor.rest <:+ text)
    (lineMark : mark ≠ '\n')
    (forward : ∀ afterMark, afterMark.rest <:+ text → afterMark.remaining < cursor.remaining →
      (next afterMark).Forward decode text rate allowance) :
    (marked cursor mark next).Forward decode text rate allowance := by
  refine ⟨(skims_accept lineMark).suffix.trans within, ?_⟩
  cases read : cursor.expect mark with
  | error failure => exact Nat.zero_le _
  | ok afterMark =>
      exact forward afterMark ((skims_expect lineMark read).suffix.trans within)
        (remaining_expect_lt read)

theorem forward_named {next : String → Cursor → Turn α} (within : cursor.rest <:+ text)
    (forward : ∀ name afterName, afterName.rest <:+ text →
      afterName.remaining < cursor.remaining →
        (next name afterName).Forward decode text rate allowance) :
    (named cursor next).Forward decode text rate allowance := by
  refine ⟨(skims_skip cursor true).suffix.trans within, ?_⟩
  cases read : cursor.identifier with
  | error failure => exact Nat.zero_le _
  | ok pair =>
      rcases pair with ⟨name, afterName⟩
      have suffix := (skims_identifier read).suffix.trans within
      exact ⟨suffix, forward name afterName suffix (remaining_identifier_lt read)⟩

theorem forward_enter {β : Type} {inner : Loop β} {start : Cursor} {resume : β → Cursor → Turn α}
    (innerRate : Nat) (same : inner.rate = innerRate) (within : start.rest <:+ text)
    (allowed : innerRate * start.remaining < allowance)
    (forward : ∀ value next, inner.read decode start = .ok (value, next) → next.rest <:+ text →
      next.remaining ≤ start.remaining →
        (resume value next).Forward decode text rate
          (allowance - (innerRate * start.remaining - innerRate * next.remaining + 1))) :
    (enter inner start resume).Forward decode text rate allowance := by
  subst same
  refine ⟨within, allowed, fun value next read => ?_⟩
  have suffix := (Loop.advances_read read).suffix
  exact forward value next read (suffix.trans within) suffix.length_le

theorem forward_ofRoutines (within : cursor.rest <:+ text) :
    (ofRoutines cursor).Forward decode text 3 (3 * cursor.remaining) := by
  have skipped := cursor.remaining_skip_le true
  have start_within := (skims_skip cursor true).suffix.trans within
  refine ⟨start_within, ?_⟩
  split
  · exact Nat.mul_le_mul_left 3 skipped
  · refine forward_named start_within fun name afterName name_within name_lt => ?_
    refine forward_marked name_within (by decide) fun afterOpening opening_within opening_lt => ?_
    refine forward_enter 3 rfl opening_within (by omega)
      fun argumentTypes afterArguments _ arguments_within arguments_le => ?_
    refine forward_marked arguments_within (by decide) fun afterBrace brace_within brace_lt => ?_
    refine forward_enter 3 rfl brace_within (by omega)
      fun drafts next _ next_within next_le => ?_
    split
    · exact Nat.zero_le _
    · split
      · exact Nat.zero_le _
      · exact ⟨rfl, next_within, by omega⟩

theorem forward_ofArguments (within : cursor.rest <:+ text) :
    (ofArguments cursor).Forward decode text 3 (3 * cursor.remaining) := by
  have closing_le := cursor.remaining_accept_le ')'
  have closing_within : (cursor.accept ')').2.rest <:+ text :=
    (skims_accept (by decide)).suffix.trans within
  refine ⟨closing_within, ?_⟩
  split
  · exact Nat.mul_le_mul_left 3 closing_le
  · refine forward_named closing_within fun word afterTy ty_within ty_lt => ?_
    split
    · exact Nat.zero_le _
    · have separated_le := afterTy.remaining_accept_le ','
      have separated_within : (afterTy.accept ',').2.rest <:+ text :=
        (skims_accept (by decide)).suffix.trans ty_within
      refine ⟨separated_within, ?_⟩
      split
      · exact ⟨rfl, separated_within, by omega⟩
      · exact Nat.zero_le _

theorem forward_ofBlocks (function : String) (earlier : List String)
    (within : cursor.rest <:+ text) :
    (ofBlocks function earlier cursor).Forward decode text 3 (3 * cursor.remaining) := by
  have closing_le := cursor.remaining_accept_le '}'
  have closing_within : (cursor.accept '}').2.rest <:+ text :=
    (skims_accept (by decide)).suffix.trans within
  refine ⟨closing_within, ?_⟩
  split
  · exact Nat.mul_le_mul_left 3 closing_le
  · split
    · exact Nat.zero_le _
    · refine forward_named closing_within fun name afterName name_within name_lt => ?_
      refine forward_marked name_within (by decide) fun afterColon colon_within colon_lt => ?_
      split
      · exact Nat.zero_le _
      · refine forward_enter 3 rfl colon_within (by omega)
          fun body next _ next_within next_le => ⟨rfl, next_within, by omega⟩

theorem forward_ofTargets (within : cursor.rest <:+ text) :
    (ofTargets cursor).Forward decode text 3 (3 * cursor.remaining) := by
  refine forward_marked within (by decide) fun afterMark mark_within mark_lt => ?_
  refine forward_named mark_within fun target afterTarget target_within target_lt => ?_
  have separated_le := afterTarget.remaining_accept_le ','
  have separated_within : (afterTarget.accept ',').2.rest <:+ text :=
    (skims_accept (by decide)).suffix.trans target_within
  refine ⟨separated_within, ?_⟩
  split
  · exact ⟨rfl, separated_within, by omega⟩
  · have spent : 3 * (afterTarget.accept ',').2.remaining ≤ 3 * cursor.remaining := by omega
    exact spent

theorem forward_ofBytes (within : cursor.rest <:+ text) :
    (ofBytes cursor).Forward decode text 1 (1 * cursor.remaining) := by
  have start_le := cursor.remaining_skipInner_le
  have start_within := (skims_skipInner cursor).suffix.trans within
  refine ⟨start_within, ?_⟩
  split
  · exact Nat.mul_le_mul_left 1 start_le
  · have word_within := (skims_word cursor.skipInner).suffix.trans start_within
    refine ⟨word_within, ?_⟩
    split
    · exact Nat.zero_le _
    · next isByte =>
      have word_lt := remaining_word_lt_of_byte isByte
      exact ⟨rfl, word_within, by omega⟩

/-- The bytes of a line end after the first of them. -/
theorem remaining_readBytes_lt {cursor next : Cursor} {byte : UInt8} {bytes : List UInt8}
    (isByte : Hexadecimal.byte? cursor.word.1.toList = some byte)
    (read : cursor.readBytes = .ok (bytes, next)) : next.remaining < cursor.remaining := by
  rw [readBytes_of_byte isByte] at read
  rcases exists_of_prepend read with ⟨others, read, -⟩
  exact (remaining_readBytes_le read).trans_lt (remaining_word_lt_of_byte isByte)

theorem forward_ofLines (block : String) (within : cursor.rest <:+ text) :
    (ofLines decode block cursor).Forward decode text 3 (3 * cursor.remaining) := by
  have start_le := cursor.remaining_skip_le true
  have start_within := (skims_skip cursor true).suffix.trans within
  have stops_allowed : 3 * (cursor.skip true).remaining ≤ 3 * cursor.remaining :=
    Nat.mul_le_mul_left 3 start_le
  refine ⟨start_within, ?_⟩
  split
  · exact stops_allowed
  · have word_within := (skims_word (cursor.skip true)).suffix.trans start_within
    have following_le := (cursor.skip true).word.2.remaining_skip_le false
    have following_within :=
      (skims_skip (cursor.skip true).word.2 false).suffix.trans word_within
    refine ⟨word_within, following_within, ?_⟩
    split
    -- Going back before a colon costs nothing, since the loop stops there.
    · exact ⟨start_within, stops_allowed⟩
    · split
      · next jumps =>
        have word_lt : (cursor.skip true).word.2.remaining < (cursor.skip true).remaining :=
          remaining_word_lt_of_ne_empty (by rw [jumps]; decide)
        refine forward_enter 3 rfl following_within (by omega)
          fun targets next _ next_within next_le => ⟨rfl, next_within, by omega⟩
      · split
        · exact Nat.zero_le _
        · next isByte =>
          have word_lt := remaining_word_lt_of_byte isByte
          -- The bytes begin where the line does: only the lower rate leaves room to enter them.
          refine ⟨start_within, forward_enter 1 rfl start_within (by omega) ?_⟩
          intro bytes next read next_within _
          have next_lt := remaining_readBytes_lt isByte read
          dsimp only
          split
          · exact Nat.zero_le _
          · refine ⟨rfl, next_within, ?_⟩
            change 3 * next.remaining < _
            omega

/-- A turn of a loop stays within what the loop is allowed where the turn begins. -/
theorem forward_turn (loop : Loop α) (within : cursor.rest <:+ text) :
    (loop.turn decode cursor).Forward decode text loop.rate (loop.allowance cursor) := by
  cases loop with
  | routines => exact forward_ofRoutines within
  | arguments => exact forward_ofArguments within
  | blocks function earlier => exact forward_ofBlocks function earlier within
  | lines block => exact forward_ofLines block within
  | targets => exact forward_ofTargets within
  | bytes => exact forward_ofBytes within

/-! ### What turns that stay within their allowance come to -/

/-- A loop that goes round again does so at a later place. -/
theorem Forward.next {turn : Turn α} {next : Cursor}
    (forward : turn.Forward decode text rate allowance) (goes : turn.next? decode = some next) :
    next.rest <:+ text ∧ rate * next.remaining < allowance := by
  induction turn generalizing allowance with
  | stop result => cases goes
  | again loop place combine =>
      cases goes
      exact forward.2
  | move place turn ih => exact ih forward.2 goes
  | enter inner start resume ih =>
      rw [next?] at goes
      split at goes
      · cases goes
      · next value last read =>
        have ⟨suffix, spent⟩ := ih value last (forward.2.2 value last read) goes
        exact ⟨suffix, by omega⟩

/-- The cursor never leaves the text. -/
theorem Forward.suffix_of_passes {turn : Turn α} {place : Cursor}
    (passes : turn.Passes decode place)
    (forward : turn.Forward decode text rate allowance) : place.rest <:+ text := by
  induction passes generalizing rate allowance with
  | here => exact forward.1
  | move _ ih => exact ih forward.2
  | next => exact forward.2.1
  | again _ ih => exact ih (forward_turn _ forward.2.1)
  | start => exact forward.1
  | within _ ih => exact ih (forward_turn _ forward.1)
  | resume read _ ih => exact ih (forward.2.2 _ _ read)

/-- A loop ends within its allowance, and what is left is what the cursor allows where it ends. -/
def EndsWithin (decode : Decoder) (rate allowance : Nat) (turn : Turn α) : Prop :=
  ∃ turns, turn.Ends decode turns (turn.result decode) ∧
    turns + left rate (turn.result decode) ≤ allowance

theorem Forward.endsWithin {turn : Turn α} (forward : turn.Forward decode text rate allowance)
    (smaller : ∀ {β : Type} (loop : Loop β) (start : Cursor), loop.allowance start < allowance →
      (loop.turn decode start).EndsWithin decode loop.rate (loop.allowance start)) :
    turn.EndsWithin decode rate allowance := by
  induction turn generalizing allowance with
  | stop result => exact ⟨0, .stop result, (Nat.zero_add _).trans_le forward⟩
  | again loop next combine =>
      rcases forward with ⟨rfl, -, spent⟩
      rcases smaller loop next spent with ⟨turns, ends, within⟩
      rw [result_turn] at ends within
      refine ⟨turns + 1, .again ends, ?_⟩
      rw [result_again, left_prepend]
      change _ ≤ loop.rate * next.remaining at within
      omega
  | move place turn ih =>
      rcases ih forward.2 smaller with ⟨turns, ends, within⟩
      exact ⟨turns, .move ends, within⟩
  | enter inner start resume ih =>
      rcases forward with ⟨-, spent, resumes⟩
      rcases smaller inner start spent with ⟨turns, ends, within⟩
      rw [result_turn] at ends within
      cases read : inner.read decode start with
      | error failure =>
          rw [read] at ends
          refine ⟨turns + 1, ?_⟩
          rw [result_enter, read]
          exact ⟨.fail ends, (Nat.add_le_add_right (Nat.le_of_add_right_le within) 1).trans spent⟩
      | ok pair =>
          rcases pair with ⟨value, next⟩
          rw [read] at ends within
          change turns + inner.allowance next ≤ _ at within
          rcases ih value next (resumes value next read)
              (fun loop place less => smaller loop place (by omega)) with
            ⟨more, later, left_within⟩
          refine ⟨turns + 1 + more, ?_⟩
          rw [result_enter, read]
          refine ⟨.resume ends later, ?_⟩
          change _ + left rate ((resume value next).result decode) ≤ _
          omega

/-- Every loop ends. -/
theorem endsWithin_turn (decode : Decoder) (loop : Loop α) (cursor : Cursor) :
    (loop.turn decode cursor).EndsWithin decode loop.rate (loop.allowance cursor) := by
  -- The allowance falls where a loop goes round again, and where another loop is entered.
  induction bound : loop.allowance cursor using Nat.strong_induction_on generalizing α cursor with
  | _ allowance ih =>
      subst bound
      exact (forward_turn loop (List.suffix_refl _)).endsWithin
        fun inner start less => ih _ less inner start rfl

end Turn

/-- There is one way in which a loop ends: with what it reads, within its allowance. -/
theorem Loop.exists_ends (decode : Decoder) (loop : Loop α) (cursor : Cursor) :
    ∃ turns ≤ loop.allowance cursor, ∀ others read,
      (loop.turn decode cursor).Ends decode others read ↔
        others = turns ∧ read = loop.read decode cursor := by
  rcases Turn.endsWithin_turn decode loop cursor with ⟨turns, ends, within⟩
  rw [Turn.result_turn] at ends
  refine ⟨turns, (Nat.le_add_right ..).trans within, fun others read => ⟨fun otherEnds => ?_, ?_⟩⟩
  · exact ⟨otherEnds.turns_eq ends, otherEnds.result_eq.symm.trans ends.result_eq⟩
  · rintro ⟨rfl, rfl⟩
    exact ends

/-! ### Decoding one instruction at a time -/

/--
The instructions that are found one after the other by a decoder of one instruction, if that takes
no more than a number of turns. There are none if some of the bytes are no instruction.
-/
def Decoder.within (one : Nat → List UInt8 → Option Instruction) :
    (limit address : Nat) → List UInt8 → Option (Option (List Instruction))
  | _, _, [] => some (some [])
  | 0, _, _ :: _ => none
  | limit + 1, address, first :: rest =>
    match one address (first :: rest) with
    | none => some none
    | some instruction =>
      (within one limit (address + instruction.length)
        ((first :: rest).drop instruction.length)).map (Option.map (instruction :: ·))

/-- Decodes one instruction after the other until no byte is left. -/
def Decoder.repeating (one : Nat → List UInt8 → Option Instruction) : Decoder :=
  fun address bytes => (within one bytes.length address bytes).join

theorem length_drop_le {number : Nat} (positive : 0 < number) (first : UInt8) (rest : List UInt8) :
    ((first :: rest).drop number).length ≤ rest.length := by
  simp only [List.length_drop, List.length_cons]
  omega

section Decoding

variable {one : Nat → List UInt8 → Option Instruction}

theorem Decoder.exists_within (consumes : ∀ address bytes instruction,
      one address bytes = some instruction → 0 < instruction.length)
    (address : Nat) (bytes : List UInt8) :
    ∃ answer, ∀ limit, bytes.length ≤ limit → within one limit address bytes = some answer := by
  induction size : bytes.length using Nat.strong_induction_on generalizing address bytes with
  | _ number ih =>
      subst size
      cases bytes with
      | nil => exact ⟨some [], fun limit _ => by cases limit <;> rfl⟩
      | cons first rest =>
          cases found : one address (first :: rest) with
          | none =>
              refine ⟨none, fun limit enough => ?_⟩
              cases limit with
              | zero => cases enough
              | succ limit => rw [within, found]
          | some instruction =>
              have shorter := length_drop_le (consumes _ _ _ found) first rest
              rcases ih _ (Nat.lt_succ_of_le shorter) (address + instruction.length) _ rfl with
                ⟨answer, ends⟩
              refine ⟨answer.map (instruction :: ·), fun limit enough => ?_⟩
              cases limit with
              | zero => cases enough
              | succ limit =>
                  rw [within, found]
                  dsimp only
                  rw [ends limit (shorter.trans (Nat.le_of_succ_le_succ enough))]
                  rfl

/-- Where no instruction is empty, there are at most as many turns as bytes. -/
theorem Decoder.within_eq (consumes : ∀ address bytes instruction,
      one address bytes = some instruction → 0 < instruction.length)
    (address : Nat) {bytes : List UInt8} {limit : Nat} (enough : bytes.length ≤ limit) :
    within one limit address bytes = some (repeating one address bytes) := by
  rcases exists_within consumes address bytes with ⟨answer, ends⟩
  rw [ends limit enough, repeating, ends bytes.length (Nat.le_refl _)]
  rfl

theorem Decoder.repeating_cons (consumes : ∀ address bytes instruction,
      one address bytes = some instruction → 0 < instruction.length)
    (address : Nat) (first : UInt8) (rest : List UInt8) :
    repeating one address (first :: rest) =
      (one address (first :: rest)).bind fun instruction =>
        (repeating one (address + instruction.length)
          ((first :: rest).drop instruction.length)).map (instruction :: ·) := by
  rw [repeating, List.length_cons, within]
  cases found : one address (first :: rest) with
  | none => rfl
  | some instruction =>
      dsimp only
      rw [within_eq consumes _ (length_drop_le (consumes _ _ _ found) first rest)]
      rfl

end Decoding

namespace Encoding

/-- The known instruction at an address. -/
def decodeFirst? (address : Nat) (bytes : List UInt8) : Option Instruction :=
  (first? bytes).map ({ address, encoding := · })

theorem length_pos_of_decodeFirst? {address : Nat} {bytes : List UInt8} {instruction : Instruction}
    (found : decodeFirst? address bytes = some instruction) : 0 < instruction.length := by
  rcases Option.map_eq_some_iff.mp found with ⟨encoding, first, rfl⟩
  exact length_pos (List.mem_of_find?_eq_some first)

/-- Known instructions are decoded one after the other. -/
theorem repeating_decodeFirst? : Decoder.repeating decodeFirst? = decode? := by
  funext address bytes
  fun_induction decode? address bytes with
  | case1 address bytes nothing =>
      rw [List.isEmpty_iff.mp nothing]
      rfl
  | case2 address bytes more missing =>
      cases bytes with
      | nil => exact absurd rfl more
      | cons first rest =>
          rw [Decoder.repeating_cons fun _ _ _ => length_pos_of_decodeFirst?, decodeFirst?, missing]
          rfl
  | case3 address bytes more encoding found ih =>
      cases bytes with
      | nil => exact absurd rfl more
      | cons first rest =>
          rw [Decoder.repeating_cons fun _ _ _ => length_pos_of_decodeFirst?, decodeFirst?, found]
          change (Decoder.repeating decodeFirst? (address + encoding.length)
            ((first :: rest).drop encoding.length)).map _ = _
          rw [ih]

end Encoding

/-! ### Reading ends inside the text -/

/-- The place is at a boundary between two characters of a text, or at one of its ends. -/
def Cursor.OnBoundary (text : String) (place : Cursor) : Prop :=
  ∃ before : String, text = before ++ String.ofList place.rest ∧ before.rawEndPos.IsValid text

theorem Cursor.onBoundary_of_suffix {text : String} {place : Cursor}
    (suffix : place.rest <:+ text.toList) : place.OnBoundary text := by
  rcases suffix with ⟨before, all⟩
  have split : text = String.ofList before ++ String.ofList place.rest := by
    rw [← String.ofList_append, all, String.ofList_toList]
  exact ⟨String.ofList before, split,
    String.Pos.Raw.isValid_iff_exists_append.mpr ⟨_, _, split, rfl⟩⟩

/--
Whatever the text, reading it ends in one way, after at most three turns for each character. Where a
loop goes round again, less text is left than where the turn began, even if the cursor went back in
between, and the cursor is always between two characters of the text or at one of its ends. The loop
over the bytes of a line ends as well, as long as no instruction is empty.
-/
theorem Routine.parseWith_ends {one : Nat → List UInt8 → Option Instruction}
    (consumes : ∀ address bytes instruction,
      one address bytes = some instruction → 0 < instruction.length) (text : String) :
    (∃ turns ≤ 3 * text.length, ∃ result,
        (∀ others read, (Loop.routines.turn (Decoder.repeating one) { rest := text.toList }).Ends
          (Decoder.repeating one) others read ↔ others = turns ∧ read = result) ∧
        parseWith (Decoder.repeating one) text = result.map Prod.fst) ∧
      (∀ {α : Type} (loop : Loop α) (cursor next : Cursor),
        (loop.turn (Decoder.repeating one) cursor).next? (Decoder.repeating one) = some next →
          next.rest <:+ cursor.rest ∧ next.remaining < cursor.remaining) ∧
      (∀ place, (Loop.routines.turn (Decoder.repeating one) { rest := text.toList }).Passes
        (Decoder.repeating one) place → place.OnBoundary text) ∧
      ∀ address bytes limit, bytes.length ≤ limit →
        Decoder.within one limit address bytes = some (Decoder.repeating one address bytes) := by
  refine ⟨?_, ?_, ?_, fun address bytes limit => Decoder.within_eq consumes address⟩
  · rcases Loop.exists_ends (Decoder.repeating one) .routines { rest := text.toList } with
      ⟨turns, few, ends⟩
    exact ⟨turns, by rwa [← String.length_toList], _, ends, rfl⟩
  · intro α loop cursor next goes
    have ⟨suffix, spent⟩ := (Turn.forward_turn loop (List.suffix_refl cursor.rest)).next goes
    exact ⟨suffix, Nat.lt_of_mul_lt_mul_left spent⟩
  · intro place passes
    exact onBoundary_of_suffix
      ((Turn.forward_turn Loop.routines (List.suffix_refl _)).suffix_of_passes passes)

/-- A block with a comment, and a colon without a name where the next block begins. -/
def loneColon : String :=
  "r() \x7ba: ;é\n : \x7d"

theorem Routine.parseWith_ends_loneColon :
    (∀ address bytes instruction,
        Encoding.decodeFirst? address bytes = some instruction → 0 < instruction.length) ∧
      parse loneColon = .error (.malformed 2 (.expectedIdentifier (some ':'))) ∧
      ∃ turns ≤ 3 * loneColon.length, ∃ last,
        (Loop.routines.turn Encoding.decode? { rest := loneColon.toList }).Ends Encoding.decode?
          turns last ∧ parse loneColon = last.map Prod.fst := by
  have consumes : ∀ address bytes instruction,
      Encoding.decodeFirst? address bytes = some instruction → 0 < instruction.length :=
    fun _ _ _ => Encoding.length_pos_of_decodeFirst?
  rcases parseWith_ends consumes loneColon with ⟨⟨turns, few, result, ends, parsed⟩, -⟩
  rw [Encoding.repeating_decodeFirst?] at ends parsed
  refine ⟨consumes, ?_, turns, few, result, (ends turns result).mpr ⟨rfl, rfl⟩, parsed⟩
  decide +kernel

end RegisterFlow
