import Mathlib.Data.List.Forall2
import RegisterFlow.Listing.Parse

/-!
# Equations of the readers

What the readers that repeat themselves do first, and how they go on. The equations leave out what
the definitions say in order to be seen to end.
-/

namespace RegisterFlow

/-! ### Maps that may fail -/

/-- What a successful map gives, it gives item by item. -/
theorem forall₂_of_mapM {ε α β : Type} {step : α → Except ε β} {items : List α} {results : List β}
    (mapped : items.mapM step = .ok results) :
    List.Forall₂ (fun item result => step item = .ok result) items results := by
  induction items generalizing results with
  | nil =>
      cases mapped
      exact .nil
  | cons first rest ih =>
      rw [List.mapM_cons] at mapped
      cases first_eq : step first with
      | error failure =>
          rw [first_eq] at mapped
          cases mapped
      | ok result =>
          rw [first_eq] at mapped
          cases rest_eq : rest.mapM step with
          | error failure =>
              rw [rest_eq] at mapped
              cases mapped
          | ok others =>
              rw [rest_eq] at mapped
              cases mapped
              exact .cons first_eq (ih rest_eq)

theorem exists_of_mem_mapM {ε α β : Type} {step : α → Except ε β} {items : List α}
    {results : List β} {result : β} (mapped : items.mapM step = .ok results)
    (mem : result ∈ results) : ∃ item ∈ items, step item = .ok result := by
  have pairs := forall₂_of_mapM mapped
  clear mapped
  induction pairs with
  | nil => cases mem
  | cons given _ ih =>
      rcases List.mem_cons.mp mem with rfl | mem
      · exact ⟨_, List.mem_cons_self, given⟩
      · rcases ih mem with ⟨item, item_mem, item_given⟩
        exact ⟨item, List.mem_cons_of_mem _ item_mem, item_given⟩

/-- A map that fails does so for one of the items. -/
theorem exists_of_mapM_error {ε α β : Type} {step : α → Except ε β} {items : List α} {failure : ε}
    (fails : items.mapM step = .error failure) : ∃ item ∈ items, step item = .error failure := by
  induction items with
  | nil => cases fails
  | cons first rest ih =>
      rw [List.mapM_cons] at fails
      cases first_eq : step first with
      | error early =>
          rw [first_eq] at fails
          cases fails
          exact ⟨first, List.mem_cons_self, first_eq⟩
      | ok result =>
          rw [first_eq] at fails
          cases rest_eq : rest.mapM step with
          | error late =>
              rw [rest_eq] at fails
              cases fails
              rcases ih rest_eq with ⟨item, mem, item_fails⟩
              exact ⟨item, List.mem_cons_of_mem _ mem, item_fails⟩
          | ok others =>
              rw [rest_eq] at fails
              cases fails

namespace Cursor

theorem ok_bind {α β : Type} (value : α) (rest : α → Except ListingError β) :
    (Except.ok value >>= rest) = rest value :=
  rfl

theorem error_of_bind {α β : Type} {first : Except ListingError α}
    {rest : α → Except ListingError β} {failure : ListingError}
    (fails : first >>= rest = .error failure) :
    first = .error failure ∨ ∃ value, first = .ok value ∧ rest value = .error failure := by
  rcases first with early | value
  · cases fails
    exact Or.inl rfl
  · exact Or.inr ⟨value, rfl, fails⟩

/-! ### Readers -/

variable {decode : Decoder}

theorem readArguments_eq (cursor : Cursor) :
    cursor.readArguments =
      if (cursor.accept ')').1 then .ok ([], (cursor.accept ')').2)
      else
        match (cursor.accept ')').2.readTy with
        | .error failure => .error failure
        | .ok (ty, afterTy) =>
          if (afterTy.accept ',').1 ∨ (afterTy.accept ',').2.peek? = some ')' then
            prepend (ty :: ·) (afterTy.accept ',').2.readArguments
          else
            (afterTy.accept ',').2.malformed .argumentSeparator := by
  rw [readArguments]
  dsimp only
  split
  · rfl
  · split <;> simp_all

theorem readTargets_eq (cursor : Cursor) :
    cursor.readTargets =
      match cursor.expect '^' with
      | .error failure => .error failure
      | .ok afterMark =>
        match afterMark.identifier with
        | .error failure => .error failure
        | .ok (target, afterTarget) =>
          if (afterTarget.accept ',').1 then
            prepend (target :: ·) (afterTarget.accept ',').2.readTargets
          else
            .ok ([target], (afterTarget.accept ',').2) := by
  rw [readTargets]
  split
  · simp_all
  · split <;> simp_all

theorem readBytes_eq (cursor : Cursor) :
    cursor.readBytes =
      if cursor.skipInner.atLineEnd then .ok ([], cursor.skipInner)
      else
        match Hexadecimal.byte? cursor.skipInner.word.1.toList with
        | none => cursor.skipInner.word.2.malformed (.expectedByte cursor.skipInner.word.1)
        | some byte => prepend (byte :: ·) cursor.skipInner.word.2.readBytes := by
  rw [readBytes]
  split
  · rfl
  · split <;> simp_all

/-- The word with which a line of a block starts. -/
def lineWord (cursor : Cursor) : String × Cursor :=
  (cursor.skip true).word

/-- Whether a block ends: with the text, with its routine, or where the next block is named. -/
def EndsBlock (cursor : Cursor) : Prop :=
  (cursor.skip true).rest = [] ∨ (cursor.skip true).peek? = some '}' ∨
    (cursor.lineWord.2.skip false).peek? = some ':'

theorem readBody_of_ends (block : String) {cursor : Cursor} (ends : cursor.EndsBlock) :
    cursor.readBody decode block = .ok (([], []), cursor.skip true) := by
  rw [readBody]
  exact if_pos ends

theorem readBody_of_jump (block : String) {cursor : Cursor} (inside : ¬ cursor.EndsBlock)
    (jumps : cursor.lineWord.1 = "jump") :
    cursor.readBody decode block =
      match (cursor.lineWord.2.skip false).readTargets with
      | .error failure => .error failure
      | .ok (targets, next) =>
        prepend (fun (instructions, others) => (instructions, targets ++ others))
          (next.readBody decode block) := by
  rw [readBody]
  refine (if_neg inside).trans ((if_pos jumps).trans ?_)
  unfold lineWord
  split <;> simp_all

theorem readBody_of_line (block : String) {cursor : Cursor} (inside : ¬ cursor.EndsBlock)
    (noJump : cursor.lineWord.1 ≠ "jump") :
    cursor.readBody decode block =
      match Hexadecimal.byte? cursor.lineWord.1.toList with
      | none => (cursor.lineWord.2.skip false).malformed (.unexpectedWord cursor.lineWord.1 block)
      | some byte =>
        match cursor.lineWord.2.readInstructions decode byte with
        | .error failure => .error failure
        | .ok (instructions, next) =>
          prepend (fun (others, targets) => (instructions ++ others, targets))
            (next.readBody decode block) := by
  rw [readBody]
  refine (if_neg inside).trans ((if_neg noJump).trans ?_)
  unfold lineWord
  split
  · simp_all
  · split <;> simp_all

theorem readBlocks_eq (function : String) (earlier : List String) (cursor : Cursor) :
    cursor.readBlocks decode function earlier =
      if (cursor.accept '}').1 then .ok ([], (cursor.accept '}').2)
      else if (cursor.accept '}').2.rest = [] then
        (cursor.accept '}').2.malformed (.unterminatedFunction function)
      else
        match (cursor.accept '}').2.readBlock decode function earlier with
        | .error failure => .error failure
        | .ok (draft, next) =>
          prepend (draft :: ·) (next.readBlocks decode function (draft.name :: earlier)) := by
  rw [readBlocks]
  split
  · rfl
  · split
    · rfl
    · split <;> simp_all

theorem readRoutines_eq (cursor : Cursor) :
    cursor.readRoutines decode =
      if (cursor.skip true).rest = [] then .ok ([], cursor.skip true)
      else
        match (cursor.skip true).readRoutine decode with
        | .error failure => .error failure
        | .ok (routine, next) => prepend (routine :: ·) (next.readRoutines decode) := by
  rw [readRoutines]
  split
  · rfl
  · split <;> simp_all

end Cursor

end RegisterFlow
