import RegisterFlow.Proofs.Code.Labels

/-!
# Operands in the text of operations

In the text of an operation of a labelled function, the words that are written like references are
the operands of the operation in order, and then the slot that it accesses. Hence operations with
the same text have the same operands, apart from constants of different types that are written
alike, and access the same slot.
-/

namespace RegisterFlow

/-- The slot that an operation loads or stores into. -/
def Operation.accessed? : Operation → Option SlotId
  | load slot | store slot _ => some slot
  | _ => none

/-! ### Words -/

/-- The words of a text after the start of one: spaces stand between words, commas behind them. -/
def wordsFrom (word : List Char) : List Char → List (List Char)
  | [] => [word]
  | ' ' :: rest => word :: wordsFrom [] rest
  | ',' :: rest => wordsFrom word rest
  | char :: rest => wordsFrom (word ++ [char]) rest

/-- Whether a word is written like a reference. -/
def isReferenceWord : List Char → Bool
  | [] => false
  | first :: rest =>
    first = '%' || first.isDigit || first :: rest = "true".toList || first :: rest = "false".toList

/-- The first words of operations without operands. -/
def leafWords : List (List Char) :=
  ["arg".toList, "const".toList, "slot".toList]

/-- The first words of operations whose last reference is to a slot. -/
def accessWords : List (List Char) :=
  ["load".toList, "store".toList]

/-- The word in front of the name of a block. -/
def labelWord : List Char :=
  "label".toList

/--
The references to operands and to the slot in the words of an operation. What a jump goes to is no
reference.
-/
def referencesAmong : List (List Char) → List String × Option String
  | [] => ([], none)
  | keyword :: words =>
    let references :=
      ((words.takeWhile (· ≠ labelWord)).filter isReferenceWord).map String.ofList
    if keyword ∈ leafWords then ([], none)
    else if keyword ∈ accessWords then (references.dropLast, references.getLast?)
    else (references, none)

/-- The references to operands and to the slot in the text of an operation. -/
def referencesIn (text : String) : List String × Option String :=
  referencesAmong (wordsFrom [] text.toList)

/-- A word has neither spaces nor commas. -/
def IsToken (word : List Char) : Prop :=
  ' ' ∉ word ∧ ',' ∉ word

instance (word : List Char) : Decidable (IsToken word) :=
  inferInstanceAs (Decidable (_ ∧ _))

theorem wordsFrom_append {token : List Char} (plain : IsToken token) (word rest : List Char) :
    wordsFrom word (token ++ rest) = wordsFrom (word ++ token) rest := by
  induction token generalizing word with
  | nil => simp
  | cons char token ih =>
      rcases plain with ⟨unspaced, uncommaed⟩
      rw [List.mem_cons, not_or] at unspaced uncommaed
      rw [List.cons_append, wordsFrom, ih ⟨unspaced.2, uncommaed.2⟩]
      · simp
      · rintro rfl
        exact unspaced.1 rfl
      · rintro rfl
        exact uncommaed.1 rfl

theorem wordsFrom_token {token : List Char} (plain : IsToken token) (word : List Char) :
    wordsFrom word token = [word ++ token] := by
  simpa [wordsFrom] using wordsFrom_append plain word []

theorem isToken_of_isAlphanum {word : List Char} (letters : ∀ char ∈ word, char.isAlphanum = true) :
    IsToken word :=
  ⟨fun mem => absurd (letters ' ' mem) (by decide), fun mem => absurd (letters ',' mem) (by decide)⟩

/-! ### Words of operations -/

/-- A first word of operations that refer to operands only. -/
structure IsKeyword (word : List Char) : Prop where
  token : IsToken word
  not_leaf : word ∉ leafWords
  not_access : word ∉ accessWords

theorem BinaryOp.isKeyword_text (op : BinaryOp) : IsKeyword op.text.toList := by
  cases op <;> exact ⟨by decide, by decide, by decide⟩

theorem Conversion.isKeyword_text (kind : Conversion) : IsKeyword kind.text.toList := by
  cases kind <;> exact ⟨by decide, by decide, by decide⟩

theorem Direction.isKeyword_text (direction : Direction) : IsKeyword direction.text.toList := by
  cases direction <;> exact ⟨by decide, by decide, by decide⟩

theorem OverflowCheck.isToken_text (check : OverflowCheck) : IsToken check.text.toList := by
  cases check <;> decide

theorem OverflowCheck.isKeyword_text (check : OverflowCheck) :
    IsKeyword (check.text.toList ++ ".overflow".toList) := by
  cases check <;> exact ⟨by decide, by decide, by decide⟩

/-- A word of an operation that is no reference. -/
structure IsFiller (word : List Char) : Prop where
  token : IsToken word
  ne_label : word ≠ labelWord
  not_reference : isReferenceWord word = false

theorem Comparison.isFiller_text (comparison : Comparison) : IsFiller comparison.text.toList := by
  cases comparison <;> exact ⟨by decide, by decide, by decide⟩

theorem Ty.isFiller_text (ty : Ty) : IsFiller ty.text.toList := by
  refine ⟨isToken_of_isAlphanum fun _ => Ty.isAlphanum_of_mem_text, ?_, ?_⟩
  all_goals
    cases ty with
    | int bits => simp [Ty.text, labelWord, isReferenceWord]
    | void | ptr | f32 | f64 => decide

namespace Function

variable {func : Function}

/-- The word of a reference. -/
structure IsReferenceTo (func : Function) (id : ValueId) : Prop where
  token : IsToken (func.reference id).toList
  is_reference : isReferenceWord (func.reference id).toList = true

theorem IsReferenceTo.ne_label {id : ValueId} (refers : func.IsReferenceTo id) :
    (func.reference id).toList ≠ labelWord := by
  intro same
  have absurdity := refers.is_reference
  rw [same] at absurdity
  exact absurd absurdity (by decide)

theorem Labelled.isReferenceTo (labelled : func.Labelled) (id : ValueId) :
    func.IsReferenceTo id where
  token := by
    refine ⟨labelled.space_notMem_reference id, fun mem => ?_⟩
    rcases labelled.isAlphanum_or_mark mem with letter | mark
    · exact absurd letter (by decide)
    · exact absurd mark (by decide)
  is_reference := by
    have digits : ∀ number : Nat, isReferenceWord (Nat.toDigits 10 number) = true := by
      intro number
      cases chars : Nat.toDigits 10 number with
      | nil => exact absurd chars Nat.toDigits_ne_nil
      | cons first rest =>
          have digit : first.isDigit = true :=
            Nat.isDigit_of_mem_toDigits (by decide) (by decide) (chars ▸ List.mem_cons_self)
          simp [isReferenceWord, digit]
    rcases func.exists_refersBy id with ⟨reference, refers, text_eq⟩
    rw [text_eq]
    cases refers with
    | @constant payload held =>
        have words : ∀ truth : Bool, isReferenceWord (toString truth).toList = true := by
          decide
        rw [Reference.text, Ty.constantText]
        split
        · exact words _
        · simpa using digits payload.toNat
    | slot | named | numbered => simp [Reference.text, isReferenceWord]

section Text

-- What is written, and how its words are told apart.
attribute [local simp] operationText typedReference slotReference label Operation.operands
  Operation.accessed? referencesIn referencesAmong wordsFrom wordsFrom_append wordsFrom_token
  IsKeyword.token IsKeyword.not_leaf IsKeyword.not_access IsFiller.token IsFiller.ne_label
  IsFiller.not_reference IsReferenceTo.token IsReferenceTo.ne_label IsReferenceTo.is_reference

/-- The operands of an operation and the slot that it accesses can be read from its text. -/
theorem Labelled.referencesIn_operationText (labelled : func.Labelled) (ty : Ty)
    (operation : Operation) :
    referencesIn (func.operationText ty operation) =
      (operation.operands.map func.reference, operation.accessed?.map func.slotReference) := by
  have types : ∀ ty : Ty, IsFiller ty.text.toList := Ty.isFiller_text
  have references : ∀ id, func.IsReferenceTo id := labelled.isReferenceTo
  have labels : ['l', 'a', 'b', 'e', 'l'] = labelWord := rfl
  cases operation with
  | argument | constant | slotAddress => simp [leafWords]
  | binary op lhs rhs => simp [types, references, op.isKeyword_text]
  | compare comparison lhs rhs =>
      simp [types, references, comparison.isFiller_text, leafWords, accessWords]
  | select condition ifTrue ifFalse => simp [types, references, leafWords, accessWords]
  | cast kind operand =>
      have filler : IsFiller ['t', 'o'] := ⟨by decide, by decide, by decide⟩
      simp [types, references, kind.isKeyword_text, filler]
  | overflow check lhs rhs =>
      have keyword :
          IsKeyword (check.text.toList ++ ['.', 'o', 'v', 'e', 'r', 'f', 'l', 'o', 'w']) :=
        check.isKeyword_text
      simp [types, references, check.isToken_text, keyword]
  | funnel direction high low amount => simp [types, references, direction.isKeyword_text]
  | load slot => simp [types, references, leafWords, accessWords]
  | store slot operand => simp [types, references, leafWords, accessWords]
  | branch target => simp [labels, leafWords, accessWords]
  | branchIf condition ifTrue ifFalse =>
      simp [types, references, labels, leafWords, accessWords]
  | ret result =>
      cases result with
      | none =>
          have filler : IsFiller ['v', 'o', 'i', 'd'] := types .void
          simp [filler, leafWords, accessWords]
      | some result => simp [types, references, leafWords, accessWords]

end Text

/-- Two numbers are that of one value, or those of constants that are written alike. -/
def Alike (func : Function) (first second : ValueId) : Prop :=
  first = second ∨ func.constant? first ≠ none ∧ func.constant? second ≠ none ∧
    func.reference first = func.reference second

theorem Labelled.alike_of_reference_eq (labelled : func.Labelled) {first second : ValueId}
    (same : func.reference first = func.reference second) : func.Alike first second := by
  by_cases unheld : func.constant? first = none
  · exact .inl (labelled.eq_of_reference_eq unheld same)
  by_cases others : func.constant? second = none
  · exact .inl (labelled.eq_of_reference_eq others same.symm).symm
  · exact .inr ⟨unheld, others, same⟩

/-- The text of an operation tells its operands, up to constants, and the slot that it accesses. -/
theorem Labelled.operands_of_operationText_eq (labelled : func.Labelled) {ty another : Ty}
    {first second : Operation} (first_held : ∀ slot ∈ first.accessed?, slot < func.slots.size)
    (second_held : ∀ slot ∈ second.accessed?, slot < func.slots.size)
    (same : func.operationText ty first = func.operationText another second) :
    List.Forall₂ func.Alike first.operands second.operands ∧
      first.accessed? = second.accessed? := by
  have read := congrArg referencesIn same
  rw [labelled.referencesIn_operationText, labelled.referencesIn_operationText,
    Prod.mk.injEq] at read
  rcases read with ⟨operands_eq, accessed_eq⟩
  constructor
  · rw [← List.forall₂_eq_eq_eq, List.forall₂_map_left_iff,
      List.forall₂_map_right_iff] at operands_eq
    exact operands_eq.imp fun _ _ => labelled.alike_of_reference_eq
  · cases accesses : first.accessed? with
    | none =>
        rw [accesses, Option.map_none, eq_comm, Option.map_eq_none_iff] at accessed_eq
        exact accessed_eq.symm
    | some slot =>
        rw [accesses, Option.map_some, eq_comm, Option.map_eq_some_iff] at accessed_eq
        rcases accessed_eq with ⟨other, others, reference_eq⟩
        rw [others, labelled.eq_of_slotReference_eq (second_held other others)
          (first_held slot accesses) reference_eq]

end Function

end RegisterFlow
