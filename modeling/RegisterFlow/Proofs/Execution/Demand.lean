import RegisterFlow.Proofs.Code.Computing
import RegisterFlow.Proofs.Execution.Paths

/-!
# Values on demand

A value can be evaluated outside of any execution, together with the values that it needs. Where
every operand has a smaller number than the value that reads it, this always comes to an end, and
what is remembered on the way does not matter: the word of a value is what it computes from the
words of its operands. In an execution the same is true at the end of a block of the instructions of
the block that compute from values alone.
-/

namespace RegisterFlow

namespace Function

/-- Every operand has a smaller number than the value that reads it. -/
def Grounded (func : Function) : Prop :=
  ∀ id, ∀ operand ∈ (func.operation id).operands, operand < id

/-- What a value computes from slots with contents, with at most `depth` levels of operands. -/
def wordWithin (func : Function) (arguments : Array UInt64) (cells : SlotId → Option UInt64) :
    (depth : Nat) → ValueId → Option UInt64
  | 0, _ => none
  | depth + 1, id =>
    func.wordFrom? arguments { words := func.wordWithin arguments cells depth, cells } id

/-- What a value computes from slots with contents. -/
def word? (func : Function) (arguments : Array UInt64) (cells : SlotId → Option UInt64)
    (id : ValueId) : Option UInt64 :=
  func.wordWithin arguments cells (id + 1) id

/-- A value has a word when it is evaluated on demand. -/
def Yields (func : Function) (arguments : Array UInt64) (id : ValueId) (word : UInt64) : Prop :=
  ∃ after, (func.demand arguments id).run {} = .ok word after

/-- A state remembers words that values compute from the contents of its slots. -/
structure Remembers (func : Function) (arguments : Array UInt64) (cells : SlotId → Option UInt64)
    (state : EvalState) : Prop where
  cells_eq : ∀ slot, state.memory[slot]? = cells slot
  computed : ∀ id word, state.computed[id]? = some word → func.word? arguments cells id = some word

variable {func : Function} {arguments : Array UInt64} {cells : SlotId → Option UInt64}
  {state : EvalState} {id : ValueId} {word : UInt64} {depth : Nat}

/-- From enough levels on, the word of a value does not depend on their number. -/
theorem wordWithin_eq (grounded : func.Grounded) (below : id < depth) :
    func.wordWithin arguments cells depth id = func.word? arguments cells id := by
  suffices same : ∀ {first second : Nat}, id < first → id < second →
      func.wordWithin arguments cells first id = func.wordWithin arguments cells second id from
    same below (Nat.lt_succ_self id)
  clear below
  induction id using Nat.strongRecOn with
  | ind id ih =>
      intro first second below_first below_second
      cases first with
      | zero => exact absurd below_first (Nat.not_lt_zero _)
      | succ first =>
          cases second with
          | zero => exact absurd below_second (Nat.not_lt_zero _)
          | succ second =>
              rw [wordWithin, wordWithin]
              apply wordFrom?_congr
              · intro operand mem
                have smaller := grounded id operand mem
                have reached : ∀ {bound : Nat}, id < bound + 1 → operand < bound :=
                  fun below => Nat.lt_of_lt_of_le smaller (Nat.le_of_lt_succ below)
                exact ih operand smaller (reached below_first) (reached below_second)
              · intro slot _
                rfl

/-- The word of a value is what it computes from the words of its operands. -/
theorem word?_eq (grounded : func.Grounded) (id : ValueId) :
    func.word? arguments cells id =
      func.wordFrom? arguments { words := func.word? arguments cells, cells } id := by
  rw [word?, wordWithin]
  apply wordFrom?_congr
  · intro operand mem
    exact wordWithin_eq grounded (grounded id operand mem)
  · intro slot _
    rfl

theorem Remembers.learn (remembers : func.Remembers arguments cells state)
    (known : func.word? arguments cells id = some word) :
    func.Remembers arguments cells (state.learn id word) where
  cells_eq := remembers.cells_eq
  computed other found computed := by
    rw [EvalState.learn] at computed
    by_cases same : id = other
    · subst same
      rw [Std.HashMap.getElem?_insert_self] at computed
      rw [known, computed]
    · rw [Std.HashMap.getElem?_insert, if_neg (by simpa using same)] at computed
      exact remembers.computed other found computed

/-- What is remembered does not change what a value is on demand. -/
theorem answers_demandWithin (grounded : func.Grounded)
    (remembers : func.Remembers arguments cells state) (below : id < depth) :
    Answers (func.Remembers arguments cells) (func.word? arguments cells id)
      (func.demandWithin arguments depth id) state := by
  induction depth generalizing id state with
  | zero => exact absurd below (Nat.not_lt_zero _)
  | succ depth ih =>
      rw [demandWithin, Eval.remember]
      cases computed : state.computed[id]? with
      | some word =>
          rw [remembers.computed id word computed]
          refine ⟨state, ?_, remembers⟩
          simp only [EStateM.run_bind, EStateM.run_get, computed]
          rfl
      | none =>
          have computes : Answers (func.Remembers arguments cells) (func.word? arguments cells id)
              (func.compute arguments (func.demandWithin arguments depth) id) state := by
            rw [word?_eq grounded]
            apply answers_compute
            · exact fun after remembers => remembers.cells_eq
            · intro operand mem after remembers
              have smaller := grounded id operand mem
              exact ih remembers (Nat.lt_of_lt_of_le smaller (Nat.le_of_lt_succ below))
            · exact remembers
          cases found : func.word? arguments cells id with
          | none =>
              rw [found] at computes
              rcases computes with ⟨failure, after, fails⟩
              refine ⟨failure, after, ?_⟩
              simp only [EStateM.run_bind, EStateM.run_get, computed, fails]
          | some word =>
              rw [found] at computes
              rcases computes with ⟨after, succeeds, held⟩
              refine ⟨after.learn id word, ?_, held.learn found⟩
              simp only [EStateM.run_bind, EStateM.run_get, computed, succeeds]
              rfl

theorem yields_iff (grounded : func.Grounded) :
    func.Yields arguments id word ↔ func.word? arguments (fun _ => none) id = some word := by
  have remembers : func.Remembers arguments (fun _ => none) {} :=
    ⟨fun slot => by simp, fun id word computed => by simp at computed⟩
  have answers := answers_demandWithin grounded remembers (Nat.lt_succ_self id)
  constructor
  · rintro ⟨after, succeeds⟩
    cases found : func.word? arguments (fun _ => none) id with
    | none =>
        rw [found] at answers
        rcases answers with ⟨failure, other, fails⟩
        rw [demand, fails] at succeeds
        cases succeeds
    | some other =>
        rw [found] at answers
        rcases answers with ⟨last, answered, -⟩
        rw [demand, answered] at succeeds
        cases succeeds
        rfl
  · intro found
    rw [found] at answers
    rcases answers with ⟨after, succeeds, -⟩
    exact ⟨after, succeeds⟩

/-! ### Orderly functions -/

/-- Operands come before the values that read them, and blocks list their own values in order. -/
structure Orderly (func : Function) : Prop where
  grounded : func.Grounded
  numbered : func.Numbered

theorem operands_empty (name : String) (types : List Ty) (blockNames : List String) (id : ValueId) :
    ((empty name types blockNames).operation id).operands = [] := by
  rw [operation, value]
  cases found : (empty name types blockNames).values[id]? with
  | none => rfl
  | some value =>
      simp only [empty, List.getElem?_toArray, List.getElem?_mapIdx, Option.map_eq_some_iff] at found
      rcases found with ⟨ty, -, rfl⟩
      rfl

theorem orderly_empty (name : String) (types : List Ty) (blockNames : List String) :
    (empty name types blockNames).Orderly where
  grounded id operand mem := by
    rw [operands_empty] at mem
    cases mem
  numbered := numbered_empty ..

theorem Orderly.withInstruction {block : BlockId} {ty : Ty} {operation : Operation}
    (orderly : func.Orderly) (held : ∀ operand ∈ operation.operands, operand < func.values.size) :
    (func.withInstruction block ty operation).Orderly where
  grounded id operand mem := by
    rw [operation_withInstruction] at mem
    split at mem
    · next new =>
      rw [new]
      exact held operand mem
    · exact orderly.grounded id operand mem
  numbered := (grows_withInstruction ..).numbered orderly.numbered

theorem Orderly.withTerminator {block : BlockId} {operation : Operation} (orderly : func.Orderly)
    (held : ∀ operand ∈ operation.operands, operand < func.values.size) :
    (func.withTerminator block operation).Orderly where
  grounded id operand mem := by
    simp only [Function.operation, value_withTerminator] at mem
    split at mem
    · next new =>
      rw [new]
      exact held operand mem
    · exact orderly.grounded id operand mem
  numbered := (grows_withTerminator ..).numbered orderly.numbered

theorem Orderly.withConstant {ty : Ty} {payload : UInt64} (orderly : func.Orderly) :
    (func.withLeaf ty (.constant payload) none).Orderly where
  grounded id operand mem := by
    simp only [operation, value_withLeaf] at mem
    split at mem
    · cases mem
    · exact orderly.grounded id operand mem
  numbered := (grows_withLeaf ..).numbered orderly.numbered

theorem Orderly.withName (orderly : func.Orderly) (id : ValueId) (name : String) :
    (func.withName id name).Orderly where
  grounded other operand mem := by
    rw [operation_withName] at mem
    exact orderly.grounded other operand mem
  numbered := (grows_withName ..).numbered orderly.numbered

theorem Orderly.withSlot {ty : Ty} (orderly : func.Orderly) (base : String) :
    (func.withSlot ty base).Orderly where
  grounded id operand mem := by
    simp only [operation, value_withSlot] at mem
    split at mem
    · cases mem
    · exact orderly.grounded id operand mem
  numbered := (grows_withSlot ..).numbered orderly.numbered

/-- Only the values of a function have operands. -/
theorem grounded_of_lt
    (held : ∀ id < func.values.size, ∀ operand ∈ (func.operation id).operands, operand < id) :
    func.Grounded := by
  intro id operand mem
  by_cases inside : id < func.values.size
  · exact held id inside operand mem
  · rw [operation, value_of_size_le (Nat.le_of_not_lt inside)] at mem
    cases mem

/-! ### Both ways of evaluating -/

/--
The ways in which the values of a block can be evaluated: on demand, or in an execution that comes
to the end of the block. Each is given by what it says of values.
-/
inductive Evaluation (func : Function) (arguments : Array UInt64) (block : BlockId) :
    (ValueId → UInt64 → Prop) → Prop where
  | onDemand : Evaluation func arguments block (func.Yields arguments)
  | execution {visited : List BlockId} {state : EvalState}
      (ends : func.Ends arguments visited block state) :
      Evaluation func arguments block (func.Evaluates arguments state)

/-- The words of leaves, and of pure instructions of a block, are what they compute. -/
def Consistent (func : Function) (arguments : Array UInt64) (block : BlockId)
    (snapshot : Snapshot) : Prop :=
  ∀ id, (func.operation id).isLeaf = true ∨
      id ∈ func.body block ∧ (func.operation id).isPure = true →
    snapshot.words id = func.wordFrom? arguments snapshot id

theorem Evaluation.exists_snapshot {block : BlockId} {tells : ValueId → UInt64 → Prop}
    (evaluation : func.Evaluation arguments block tells) (orderly : func.Orderly) :
    ∃ snapshot : Snapshot, func.Consistent arguments block snapshot ∧
      tells = fun id word => snapshot.words id = some word := by
  cases evaluation with
  | onDemand =>
      refine ⟨{ words := func.word? arguments fun _ => none }, ?_, ?_⟩
      · intro id _
        exact word?_eq orderly.grounded id
      · funext id word
        exact propext (yields_iff orderly.grounded)
  | execution ends =>
      rename_i state
      refine ⟨func.snapshot arguments state, ?_, ?_⟩
      · rintro id (leaf | ⟨mem, pure⟩)
        · rw [words_snapshot_of_isLeaf leaf, wordFrom?_of_isLeaf leaf]
        · rcases ends.exists_start with ⟨start, run⟩
          apply words_of_mem (orderly.numbered.sorted block) run mem _ _ (orderly.grounded id)
          · intro slot operand stores
            rw [stores] at pure
            cases pure
          · intro slot loads
            rw [loads] at pure
            cases pure
      · funext id word
        exact propext (evaluates_iff ends.faithful)

namespace Consistent

variable {block : BlockId} {snapshot : Snapshot} {lhs rhs : ValueId} {width : Nat}
  {left right : UInt64}

theorem constant {payload : UInt64} (consistent : func.Consistent arguments block snapshot)
    (operation : func.operation id = .constant payload) : snapshot.words id = some payload := by
  rw [consistent id (by simp [operation, Operation.isLeaf]), wordFrom?, operation]

section Instruction

variable (consistent : func.Consistent arguments block snapshot) (mem : id ∈ func.body block)
  (left_word : snapshot.words lhs = some left) (right_word : snapshot.words rhs = some right)
include consistent mem left_word right_word

theorem binary {op : BinaryOp} (operation : func.operation id = .binary op lhs rhs)
    (typed : (func.ty id).wordBits? = some width) :
    snapshot.words id = some (op.apply width left right) := by
  rw [consistent id (.inr ⟨mem, by rw [operation]; rfl⟩), wordFrom?, operation]
  simp only [typed, left_word, right_word]
  rfl

theorem compare {comparison : Comparison}
    (operation : func.operation id = .compare comparison lhs rhs)
    (typed : (func.ty lhs).wordBits? = some width) :
    snapshot.words id = some (comparison.holds width left right).toUInt64 := by
  rw [consistent id (.inr ⟨mem, by rw [operation]; rfl⟩), wordFrom?, operation]
  simp only [typed, left_word, right_word]
  rfl

theorem overflow {check : OverflowCheck} (operation : func.operation id = .overflow check lhs rhs)
    (typed : (func.ty lhs).wordBits? = some width) :
    snapshot.words id = some (check.occurs width left right).toUInt64 := by
  rw [consistent id (.inr ⟨mem, by rw [operation]; rfl⟩), wordFrom?, operation]
  simp only [typed, left_word, right_word]
  rfl

end Instruction

end Consistent

end Function

end RegisterFlow
