import RegisterFlow.Proofs.Listing.Appending
import RegisterFlow.Proofs.Listing.Moving
import RegisterFlow.Proofs.Listing.WellFormed

/-!
# Listings one after the other

A listing of whole lines can be put before any text. What is parsed of the text stays the same, and
so does the error if there is one; only addresses and line numbers count from further down.
-/

namespace RegisterFlow

/-- A text is empty or ends with a line end. -/
def EndsLine (text : List Char) : Prop :=
  text = [] ∨ text.getLast? = some '\n'

theorem EndsLine.of_suffix {text rest : List Char} (endsLine : EndsLine text)
    (suffix : rest <:+ text) : EndsLine rest := by
  rcases suffix with ⟨front, rfl⟩
  cases rest with
  | nil => exact Or.inl rfl
  | cons char rest =>
      rcases endsLine with nothing | newline
      · simp at nothing
      · refine Or.inr ?_
        rwa [List.getLast?_append_of_ne_nil _ (List.cons_ne_nil char rest)] at newline

/-- After a character that is no line end, such a text goes on. -/
theorem EndsLine.rest_ne_nil {char : Char} {rest : List Char} (endsLine : EndsLine (char :: rest))
    (inLine : char ≠ '\n') : rest ≠ [] := by
  rintro rfl
  rcases endsLine with nothing | newline
  · cases nothing
  · exact inLine (Option.some.inj newline)

namespace Cursor

variable {decode : Decoder} {cursor last : Cursor} {tail : List Char}

theorem skipBlanks_append_of_blank (tail : List Char) {inComment : Bool} {text : List Char}
    {line : Nat}
    (endsLine : EndsLine text) (outside : text = [] → inComment = false)
    (blank : (skipBlanks true inComment text line).1 = []) :
    skipBlanks true inComment (text ++ tail) line =
      skipBlanks true false tail (skipBlanks true inComment text line).2 := by
  have later : ∀ {char : Char} {rest : List Char}, EndsLine (char :: rest) → EndsLine rest :=
    fun endsLine => endsLine.of_suffix (List.suffix_cons ..)
  fun_induction skipBlanks true inComment text line with
  | case1 inComment line =>
    rw [outside rfl]
    rfl
  | case2 inComment line rest =>
    rename_i ih
    simp only [List.cons_append, skipBlanks, if_true]
    exact ih (later endsLine) (fun _ => rfl) blank
  | case3 => contradiction
  | case4 inComment line char rest inLine skipped ih =>
    have rest_ne_nil := endsLine.rest_ne_nil inLine
    simp only [List.cons_append, skipBlanks, inLine, skipped, if_true, if_false]
    exact ih (later endsLine) (fun nothing => absurd nothing rest_ne_nil) blank
  | case5 inComment line rest inLine skipped ih =>
    have rest_ne_nil := endsLine.rest_ne_nil inLine
    simp only [List.cons_append, skipBlanks, inLine, skipped, if_true, if_false]
    exact ih (later endsLine) (fun nothing => absurd nothing rest_ne_nil) blank
  | case6 => cases blank

theorem skip_followedBy_of_blank (endsLine : EndsLine cursor.rest)
    (blank : (cursor.skip true).rest = []) :
    (cursor.followedBy tail).skip true = ((cursor.skip true).followedBy tail).skip true := by
  have front := skipBlanks_append_of_blank tail endsLine (fun _ => rfl) blank
  unfold followedBy
  rw [blank]
  simp [skip, front]

theorem prepend_id {α : Type} (result : Except ListingError (α × Cursor)) :
    prepend id result = result := by
  rcases result with failure | ⟨answer, next⟩ <;> rfl

theorem prepend_prepend {α β γ : Type} (outer : β → γ) (inner : α → β)
    (result : Except ListingError (α × Cursor)) :
    prepend outer (prepend inner result) = prepend (outer ∘ inner) result := by
  rcases result with failure | ⟨answer, next⟩ <;> rfl

theorem rest_of_readRoutines {routines : List Routine}
    (read : cursor.readRoutines decode = .ok (routines, last)) : last.rest = [] := by
  fun_induction readRoutines decode cursor generalizing routines last with
  | case1 cursor start =>
    rename_i ended
    cases read
    exact ended
  | case2 => cases read
  | case3 cursor start more routine next =>
    rename_i ih
    rcases exists_of_prepend read with ⟨others, rest_read, -⟩
    exact ih rest_read

/-- After the last routine of a text of whole lines, reading goes on with the text that follows. -/
theorem readRoutines_followedBy {routines : List Routine} (endsLine : EndsLine cursor.rest)
    (read : cursor.readRoutines decode = .ok (routines, last)) :
    (cursor.followedBy tail).readRoutines decode =
      prepend (routines ++ ·) ((last.followedBy tail).readRoutines decode) := by
  fun_induction readRoutines decode cursor generalizing routines last with
  | case1 cursor start =>
    rename_i ended
    cases read
    rw [readRoutines_eq, skip_followedBy_of_blank endsLine ended, ← readRoutines_eq]
    exact (prepend_id _).symm
  | case2 => cases read
  | case3 cursor start more routine next =>
    rename_i routineRead ih
    rcases exists_of_prepend read with ⟨others, rest_read, rfl⟩
    have next_endsLine : EndsLine next.rest :=
      endsLine.of_suffix ((advances_readRoutine routineRead).suffix.trans (suffix_skipBlanks ..))
    have goesOn : (start.followedBy tail).rest ≠ [] := List.append_ne_nil_of_left_ne_nil more _
    rw [readRoutines_eq, skip_followedBy more]
    refine (if_neg goesOn).trans ?_
    rw [readRoutine_followedBy routineRead]
    dsimp only
    rw [ih next_endsLine rest_read, prepend_prepend]
    rfl

end Cursor

/--
Before any text, a listing of whole lines that can be read adds its routines, and what is read of the
text only moves: the instructions by the number of instruction bytes before it, and the error, if
there is one, by the number of lines.
-/
theorem parse_append_of_lines {decode : Decoder} {front : String} {routines : List Routine}
    (relative : decode.Relative) (endsLine : EndsLine front.toList)
    (parsed : Routine.parseWith decode front = .ok routines) :
    (decode.Exact → Routine.codeBytes decode front =
      Instruction.totalLength (routines.flatMap Routine.instructions)) ∧
    ∀ back : String, Routine.parseWith decode (front ++ back) =
      match Routine.parseWith decode back with
      | .ok others =>
        .ok (routines ++ others.map (Routine.moved (Routine.codeBytes decode front)))
      | .error failure => .error (failure.moved (front.toList.count '\n')) := by
  rcases Routine.exists_of_parseWith parsed with ⟨last, read⟩
  have bytes_eq := Routine.codeBytes_of_readRoutines read
  have advances := Cursor.advances_readRoutines read
  have rest_eq := Cursor.rest_of_readRoutines read
  refine ⟨?_, ?_⟩
  · intro exactly
    have covers := Cursor.covers_readRoutines exactly read
    rw [bytes_eq, covers.address_eq, Nat.add_sub_cancel_left]
  · intro back
    have start_eq : (Cursor.mk (front ++ back).toList 1 0x1000) =
        Cursor.followedBy back.toList { rest := front.toList } := by
      simp [Cursor.followedBy]
    have last_eq : last.followedBy back.toList =
        Cursor.moved (front.toList.count '\n') (Routine.codeBytes decode front)
          { rest := back.toList } := by
      have lines := advances.lines
      have address_le := advances.address_le
      rw [rest_eq] at lines
      simp [Cursor.followedBy, Cursor.moved, rest_eq, bytes_eq] at lines address_le ⊢
      omega
    unfold Routine.parseWith
    rw [start_eq, Cursor.readRoutines_followedBy endsLine read, last_eq,
      Cursor.readRoutines_moved relative]
    rcases Cursor.readRoutines decode { rest := back.toList } with failure | ⟨others, final⟩ <;> rfl

theorem parse_append_of_lines_two :
    Decoder.Relative Encoding.decode? ∧ EndsLine twoRoutines.toList ∧
      ∃ routines, Routine.parseWith Encoding.decode? twoRoutines = .ok routines ∧
        routines.length = 2 ∧ Routine.codeBytes Encoding.decode? twoRoutines = 7 ∧
        Instruction.totalLength (routines.flatMap Routine.instructions) = 7 ∧
        ∀ back : String, Routine.parseWith Encoding.decode? (twoRoutines ++ back) =
          match Routine.parseWith Encoding.decode? back with
          | .ok others => .ok (routines ++ others.map (Routine.moved 7))
          | .error failure => .error (failure.moved 11) := by
  have lengths : (Routine.parseWith Encoding.decode? twoRoutines).map List.length = .ok 2 := by
    decide +kernel
  have endsLine : EndsLine twoRoutines.toList := Or.inr (by decide +kernel)
  have bytes : Routine.codeBytes Encoding.decode? twoRoutines = 7 := by
    decide +kernel
  have lines : twoRoutines.toList.count '\n' = 11 := by
    decide +kernel
  cases parsed : Routine.parseWith Encoding.decode? twoRoutines with
  | error failure =>
      rw [parsed] at lengths
      cases lengths
  | ok routines =>
      rw [parsed] at lengths
      have appends := parse_append_of_lines Encoding.relative_decode? endsLine parsed
      rw [bytes, lines] at appends
      refine ⟨Encoding.relative_decode?, endsLine, routines, rfl, ?_, bytes,
        (appends.1 Encoding.exact_decode?).symm, appends.2⟩
      injection lengths

/-- The second text starts three lines and two bytes further down. -/
example :
    Routine.parseWith Encoding.decode? ("f() \x7b\na: 31 c0\n\x7d\n" ++ "g() \x7b\nb: xy") =
      .error (.malformed 5 (.unexpectedWord "xy" "b")) := by
  decide +kernel

end RegisterFlow
