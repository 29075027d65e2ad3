import RegisterFlow.Proofs.Code.Bodies
import RegisterFlow.Proofs.Execution.Words

/-!
# Executing bodies

What is seen after the instructions of a block were executed in order. In a numbered function an
instruction only executes once on the way, so at the end every value still has the word that it
computed from its operands, a load the word that its slot held at first, and a slot the last word
that was stored into it.
-/

namespace RegisterFlow

namespace Function

variable {func : Function} {arguments : Array UInt64} {before after : Snapshot} {id : ValueId}
  {slot : SlotId} {instructions : List ValueId}

/-- The snapshot after a list of instructions, if all of them can be executed. -/
def traverse (func : Function) (arguments : Array UInt64) (snapshot : Snapshot)
    (instructions : List ValueId) : Option Snapshot :=
  instructions.foldlM (func.advance arguments) snapshot

@[simp]
theorem traverse_nil (snapshot : Snapshot) : func.traverse arguments snapshot [] = some snapshot :=
  rfl

theorem traverse_cons (snapshot : Snapshot) (id : ValueId) (rest : List ValueId) :
    func.traverse arguments snapshot (id :: rest) =
      (func.advance arguments snapshot id).bind (func.traverse arguments · rest) :=
  rfl

theorem traverse_append (snapshot : Snapshot) (first second : List ValueId) :
    func.traverse arguments snapshot (first ++ second) =
      (func.traverse arguments snapshot first).bind (func.traverse arguments · second) :=
  List.foldlM_append ..

/-- Instructions do to the state what they do to its snapshot. -/
theorem advances_forM {state : EvalState} (faithful : func.Faithful arguments state)
    (instructions : List ValueId) :
    func.Advances arguments (func.traverse arguments (func.snapshot arguments state) instructions)
      (instructions.forM (func.execute arguments)) state := by
  induction instructions generalizing state with
  | nil => exact ⟨state, rfl, rfl, faithful⟩
  | cons id rest ih =>
      simp only [List.forM_eq_forM] at ih ⊢
      rw [List.forM_cons, traverse_cons]
      have first := advances_execute faithful id
      cases found : func.advance arguments (func.snapshot arguments state) id with
      | none =>
          rw [found] at first
          rcases first with ⟨failure, after, fails⟩
          refine ⟨failure, after, ?_⟩
          rw [EStateM.run_bind, fails]
      | some middle =>
          rw [found] at first
          rcases first with ⟨reached, succeeds, same, faithful_reached⟩
          have others := ih faithful_reached
          rw [same] at others
          rw [Option.bind_some]
          cases finished : func.traverse arguments middle rest with
          | none =>
              rw [finished] at others
              rcases others with ⟨failure, after, fails⟩
              refine ⟨failure, after, ?_⟩
              rw [EStateM.run_bind, succeeds]
              exact fails
          | some last =>
              rw [finished] at others
              rcases others with ⟨after, finishes, seen, faithful_after⟩
              refine ⟨after, ?_, seen, faithful_after⟩
              rw [EStateM.run_bind, succeeds]
              exact finishes

/-! ### One instruction -/

/-- An instruction gives a word to no other value. -/
theorem words_advance_of_ne {other : ValueId}
    (step : func.advance arguments before id = some after) (different : other ≠ id) :
    after.words other = before.words other := by
  unfold advance at step
  split at step
  · rcases Option.map_eq_some_iff.mp step with ⟨word, _, rfl⟩
    rfl
  · rcases Option.map_eq_some_iff.mp step with ⟨word, _, rfl⟩
    simp [Snapshot.learn, different]

/-- An instruction writes no slot but the one it stores into. -/
theorem cells_advance_of_not_stored (step : func.advance arguments before id = some after)
    (harmless : func.storedBy? slot id = none) : after.cells slot = before.cells slot := by
  unfold advance at step
  split at step
  · next target operand stores =>
    rcases Option.map_eq_some_iff.mp step with ⟨word, _, rfl⟩
    have different : slot ≠ target := by
      rintro rfl
      simp [storedBy?, stores] at harmless
    simp [Snapshot.write, different]
  · rcases Option.map_eq_some_iff.mp step with ⟨word, _, rfl⟩
    rfl

/-- A store writes the word of its operand and nothing else. -/
theorem cells_advance_of_stored {operand : ValueId}
    (step : func.advance arguments before id = some after)
    (stores : func.storedBy? slot id = some operand) :
    after.cells slot = before.words operand ∧ after.words = before.words := by
  rw [advance_of_store (storedBy?_eq_some_iff.mp stores)] at step
  rcases Option.map_eq_some_iff.mp step with ⟨word, known, rfl⟩
  simp [Snapshot.write, known]

/-- Anything but a store gives its value the word that it computes. -/
theorem words_advance_self (step : func.advance arguments before id = some after)
    (computes : ∀ slot operand, func.operation id ≠ .store slot operand) :
    after.words id = func.wordFrom? arguments before id := by
  rw [advance_of_not_store computes] at step
  rcases Option.map_eq_some_iff.mp step with ⟨word, known, rfl⟩
  simp [Snapshot.learn, known]

/-- What a value computes depends on its operands, and on a slot if it is a load. -/
theorem wordFrom?_congr {first second : Snapshot}
    (words : ∀ operand ∈ (func.operation id).operands, first.words operand = second.words operand)
    (cells : ∀ slot, func.operation id = .load slot → first.cells slot = second.cells slot) :
    func.wordFrom? arguments first id = func.wordFrom? arguments second id := by
  unfold wordFrom?
  cases operation : func.operation id <;> simp_all [Operation.operands]

/-! ### Lists of instructions -/

/-- Executing instructions gives words to their own values only. -/
theorem words_traverse_of_not_mem
    (run : func.traverse arguments before instructions = some after) (outside : id ∉ instructions) :
    after.words id = before.words id := by
  induction instructions generalizing before with
  | nil =>
      cases run
      rfl
  | cons first rest ih =>
      rcases Option.bind_eq_some_iff.mp run with ⟨middle, step, others⟩
      rw [List.mem_cons, not_or] at outside
      rw [ih others outside.2, words_advance_of_ne step outside.1]

/-- Executing instructions writes only the slots that they store into. -/
theorem cells_traverse_of_not_stored
    (run : func.traverse arguments before instructions = some after)
    (harmless : instructions.filterMap (func.storedBy? slot) = []) :
    after.cells slot = before.cells slot := by
  induction instructions generalizing before with
  | nil =>
      cases run
      rfl
  | cons first rest ih =>
      rcases Option.bind_eq_some_iff.mp run with ⟨middle, step, others⟩
      rw [List.filterMap_eq_nil_iff] at harmless
      have none_later : rest.filterMap (func.storedBy? slot) = [] :=
        List.filterMap_eq_nil_iff.mpr fun id mem => harmless id (List.mem_cons_of_mem _ mem)
      rw [ih others none_later,
        cells_advance_of_not_stored step (harmless first List.mem_cons_self)]

/-- The execution of a list splits at each of its instructions. -/
theorem exists_traverse_split (run : func.traverse arguments before instructions = some after)
    (mem : id ∈ instructions) :
    ∃ earlier later start finish, instructions = earlier ++ id :: later ∧
      func.traverse arguments before earlier = some start ∧
      func.advance arguments start id = some finish ∧
      func.traverse arguments finish later = some after := by
  rcases List.append_of_mem mem with ⟨earlier, later, rfl⟩
  rw [traverse_append] at run
  rcases Option.bind_eq_some_iff.mp run with ⟨start, first, rest⟩
  rcases Option.bind_eq_some_iff.mp rest with ⟨finish, step, others⟩
  exact ⟨earlier, later, start, finish, rfl, first, step, others⟩

section Sorted

variable (sorted : instructions.Pairwise (· < ·))
  (run : func.traverse arguments before instructions = some after) (mem : id ∈ instructions)

include sorted run mem

/-- After its instruction, a value keeps the word that it computed. -/
theorem exists_wordFrom?_of_mem
    (computes : ∀ slot operand, func.operation id ≠ .store slot operand) :
    ∃ earlier later start, instructions = earlier ++ id :: later ∧
      func.traverse arguments before earlier = some start ∧
      after.words id = func.wordFrom? arguments start id ∧
      ∀ operand < id, start.words operand = after.words operand := by
  rcases exists_traverse_split run mem with
    ⟨earlier, later, start, finish, rfl, first, step, others⟩
  rw [List.pairwise_append, List.pairwise_cons] at sorted
  have not_later : ∀ operand ≤ id, operand ∉ later := by
    intro operand bound operand_mem
    exact Nat.not_lt_of_le bound (sorted.2.1.1 operand operand_mem)
  refine ⟨earlier, later, start, rfl, first, ?_, ?_⟩
  · rw [words_traverse_of_not_mem others (not_later id (Nat.le_refl _)),
      words_advance_self step computes]
  · intro operand smaller
    rw [words_traverse_of_not_mem others (not_later operand (Nat.le_of_lt smaller)),
      words_advance_of_ne step (Nat.ne_of_lt smaller)]

/-- At the end, a value has the word that it computes from the words that its operands have then. -/
theorem words_of_mem (computes : ∀ slot operand, func.operation id ≠ .store slot operand)
    (unloaded : ∀ slot, func.operation id ≠ .load slot)
    (grounded : ∀ operand ∈ (func.operation id).operands, operand < id) :
    after.words id = func.wordFrom? arguments after id := by
  rcases exists_wordFrom?_of_mem sorted run mem computes with
    ⟨_, _, start, _, _, computed, kept⟩
  rw [computed]
  apply wordFrom?_congr
  · exact fun operand read => kept operand (grounded operand read)
  · exact fun slot loads => absurd loads (unloaded slot)

/-- A load keeps the word that its slot held at first, if nothing is stored there before it. -/
theorem words_of_load (loads : func.operation id = .load slot)
    (late : ∀ other ∈ instructions, ∀ operand, func.operation other = .store slot operand →
      id < other) :
    after.words id = before.cells slot := by
  have computes : ∀ slot operand, func.operation id ≠ .store slot operand := by
    intro slot operand stores
    rw [loads] at stores
    cases stores
  rcases exists_wordFrom?_of_mem sorted run mem computes with
    ⟨earlier, later, start, rfl, first, computed, _⟩
  have harmless : earlier.filterMap (func.storedBy? slot) = [] := by
    rw [List.filterMap_eq_nil_iff]
    intro other other_mem
    rw [Option.eq_none_iff_forall_ne_some]
    intro operand stores
    have after_load := late other (List.mem_append_left _ other_mem) operand
      (storedBy?_eq_some_iff.mp stores)
    rw [List.pairwise_append] at sorted
    exact Nat.lt_asymm after_load (sorted.2.2 other other_mem id List.mem_cons_self)
  rw [computed, ← cells_traverse_of_not_stored first harmless]
  simp [wordFrom?, loads]

end Sorted

/-- A slot holds the word of the value that was last stored into it. -/
theorem cells_of_stored {values : List ValueId} {value : ValueId}
    (sorted : instructions.Pairwise (· < ·))
    (run : func.traverse arguments before instructions = some after)
    (stored : instructions.filterMap (func.storedBy? slot) = values ++ [value])
    (timely : ∀ id ∈ instructions, func.operation id = .store slot value → value < id) :
    after.cells slot = after.words value := by
  rw [List.filterMap_eq_append_iff] at stored
  rcases stored with ⟨front, back, rfl, -, stored⟩
  rw [List.filterMap_eq_cons_iff] at stored
  rcases stored with ⟨harmless, id, later, rfl, -, stores, rest⟩
  rw [traverse_append] at run
  rcases Option.bind_eq_some_iff.mp run with ⟨start, _, second⟩
  rw [traverse_append] at second
  rcases Option.bind_eq_some_iff.mp second with ⟨middle, _, third⟩
  rcases Option.bind_eq_some_iff.mp third with ⟨finish, step, others⟩
  have early : value < id :=
    timely id (by simp) (storedBy?_eq_some_iff.mp stores)
  have not_later : value ∉ later := by
    intro mem
    rw [List.pairwise_append, List.pairwise_append, List.pairwise_cons] at sorted
    exact Nat.lt_asymm early (sorted.2.1.2.1.1 value mem)
  rcases cells_advance_of_stored step stores with ⟨cell, words⟩
  rw [cells_traverse_of_not_stored others rest, cell, words_traverse_of_not_mem others not_later,
    words]

end Function

end RegisterFlow
