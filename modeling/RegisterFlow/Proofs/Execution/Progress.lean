import Mathlib.Data.List.Induction
import RegisterFlow.Proofs.Code.Building
import RegisterFlow.Proofs.Execution.Paths

/-!
# Execution does not get stuck

Whenever a block of well-built code is entered, its instructions can be executed to the end: what
they read has been computed and fits its type, and what they load has been stored.
-/

namespace RegisterFlow

namespace Ty

variable {ty : Ty} {word : UInt64}

theorem bits_of_wordBits? {width : Nat} (word : ty.wordBits? = some width) : ty.bits = width := by
  rw [wordBits?_eq_some_iff] at word
  rw [word.1, bits]

theorem fits_truncate (ty : Ty) (word : UInt64) : ty.Fits (Word.truncate ty.bits word) :=
  Word.truncate_lt ty.bits word

theorem fits_bool (truth : Bool) : Ty.bool.Fits truth.toUInt64 := by
  cases truth <;> simp [Fits, bits, Bool.toUInt64]

theorem Fits.truncate_eq (fits : ty.Fits word) : Word.truncate ty.bits word = word :=
  Word.truncate_of_lt fits

/-- A word of a type fits every wider type. -/
theorem Fits.mono {wider : Ty} (fits : ty.Fits word) (le : ty.bits ≤ wider.bits) :
    wider.Fits word := by
  apply Nat.lt_of_lt_of_le fits
  apply Nat.pow_le_pow_right (by omega)
  omega

end Ty

namespace Function

variable {graph : FlowGraph} {func : Function} {arguments : Array UInt64}
  {before after : Snapshot} {id : ValueId} {word : UInt64}

/-- The words of a snapshot fit the types of their values and slots. -/
structure Fitting (func : Function) (snapshot : Snapshot) : Prop where
  words_fit : ∀ id word, snapshot.words id = some word → (func.ty id).Fits word
  cells_fit : ∀ slot word, snapshot.cells slot = some word → (func.slot slot).ty.Fits word

/-- A snapshot shows the words of the leaves, and words that fit. -/
structure Legal (func : Function) (arguments : Array UInt64) (snapshot : Snapshot) : Prop
    extends Fitting func snapshot where
  leaves : ∀ id, (func.operation id).isLeaf = true →
    snapshot.words id = func.leafWord? arguments id

/-- What a value computes fits its type. -/
theorem Fitting.fits_wordFrom (fitting : func.Fitting before)
    (proper : func.Proper (func.ty id) (func.operation id))
    (computes : func.wordFrom? arguments before id = some word) : (func.ty id).Fits word := by
  unfold wordFrom? at computes
  cases operation : func.operation id with
  | argument index =>
      simp only [operation, Option.map_eq_some_iff] at computes
      rcases computes with ⟨argument, _, rfl⟩
      exact Ty.fits_truncate _ _
  | constant payload =>
      simp only [operation, Option.some.injEq] at computes
      simp only [operation, Proper] at proper
      exact computes ▸ proper
  | slotAddress slot =>
      simp only [operation, Proper] at proper
      rw [proper]
      exact UInt64.toNat_lt word
  | binary op lhs rhs =>
      simp only [operation, bind, Option.bind_eq_some_iff, pure, Option.some.injEq] at computes
      rcases computes with ⟨width, sized, _, _, _, _, rfl⟩
      rw [← Ty.bits_of_wordBits? sized]
      exact Ty.fits_truncate _ _
  | compare comparison lhs rhs | overflow check lhs rhs =>
      simp only [operation, bind, Option.bind_eq_some_iff, pure, Option.some.injEq] at computes
      rcases computes with ⟨width, _, _, _, _, _, rfl⟩
      simp only [operation, Proper] at proper
      rw [proper]
      exact Ty.fits_bool _
  | select condition ifTrue ifFalse =>
      simp only [operation, bind, Option.bind_eq_some_iff] at computes
      rcases computes with ⟨choice, _, computes⟩
      simp only [operation, Proper] at proper
      split at computes
      · exact proper.1 ▸ fitting.words_fit ifTrue word computes
      · exact proper.2 ▸ fitting.words_fit ifFalse word computes
  | cast kind operand =>
      simp only [operation, bind, Option.bind_eq_some_iff, pure, Option.some.injEq] at computes
      rcases computes with ⟨_, _, rfl⟩
      exact Ty.fits_truncate _ _
  | funnel direction high low amount =>
      simp only [operation, bind, Option.bind_eq_some_iff, pure, Option.some.injEq] at computes
      rcases computes with ⟨width, sized, upper, upper_eq, lower, lower_eq, _, _, rfl⟩
      simp only [operation, Proper] at proper
      have upper_fits := proper.1 ▸ fitting.words_fit high upper upper_eq
      have lower_fits := proper.2 ▸ fitting.words_fit low lower lower_eq
      rw [← Ty.bits_of_wordBits? sized]
      cases direction with
      | left =>
          simp only [Direction.shift]
          split
          · exact upper_fits
          · exact Ty.fits_truncate _ _
      | right =>
          simp only [Direction.shift]
          split
          · exact lower_fits
          · exact Ty.fits_truncate _ _
  | load slot =>
      simp only [operation] at computes
      simp only [operation, Proper] at proper
      exact proper.2.1 ▸ fitting.cells_fit slot word computes
  | store | branch _ | branchIf | ret _ => simp [operation] at computes

theorem Legal.advance (legal : func.Legal arguments before)
    (proper : func.Proper (func.ty id) (func.operation id))
    (inner : (func.operation id).isInner = true)
    (step : func.advance arguments before id = some after) : func.Legal arguments after := by
  have not_leaf : ∀ other, (func.operation other).isLeaf = true → other ≠ id := by
    rintro other leaf rfl
    simp [Operation.isInner, leaf] at inner
  by_cases stores : ∃ slot operand, func.operation id = .store slot operand
  · rcases stores with ⟨slot, operand, stores⟩
    rw [advance_of_store stores] at step
    rcases Option.map_eq_some_iff.mp step with ⟨word, known, rfl⟩
    simp only [stores, Proper] at proper
    refine ⟨⟨legal.words_fit, ?_⟩, legal.leaves⟩
    intro other content found
    simp only [Snapshot.write] at found
    split at found
    · next same =>
      cases found
      rw [same, ← proper.2]
      exact legal.words_fit operand word known
    · exact legal.cells_fit other content found
  · have computes : ∀ slot operand, func.operation id ≠ .store slot operand :=
      fun slot operand same => stores ⟨slot, operand, same⟩
    rw [advance_of_not_store computes] at step
    rcases Option.map_eq_some_iff.mp step with ⟨word, known, rfl⟩
    refine ⟨⟨?_, legal.cells_fit⟩, ?_⟩
    · intro other found_word found
      simp only [Snapshot.learn] at found
      split at found
      · next same =>
        cases found
        rw [same]
        exact legal.fits_wordFrom proper known
      · exact legal.words_fit other found_word found
    · intro other leaf
      simp only [Snapshot.learn, if_neg (not_leaf other leaf)]
      exact legal.leaves other leaf

/-- An instruction computes something if its operands have words and what it loads was stored. -/
theorem isSome_wordFrom? (proper : func.Proper (func.ty id) (func.operation id))
    (inner : (func.operation id).isInner = true)
    (computes : ∀ slot operand, func.operation id ≠ .store slot operand)
    (typed : ∀ operand ∈ (func.operation id).operands, (func.ty operand).IsWord)
    (known : ∀ operand ∈ (func.operation id).operands, (before.words operand).isSome)
    (stored : ∀ slot, func.operation id = .load slot → (before.cells slot).isSome) :
    (func.wordFrom? arguments before id).isSome := by
  have word_of : ∀ operand ∈ (func.operation id).operands, ∃ word,
      before.words operand = some word :=
    fun operand read => Option.isSome_iff_exists.mp (known operand read)
  unfold wordFrom?
  cases operation : func.operation id with
  | binary op lhs rhs =>
      simp only [operation, Operation.operands, Proper] at typed word_of proper
      rcases typed lhs (by simp) with ⟨width, sized⟩
      rcases word_of lhs (by simp) with ⟨left, left_eq⟩
      rcases word_of rhs (by simp) with ⟨right, right_eq⟩
      simp [proper, sized, left_eq, right_eq]
  | compare comparison lhs rhs | overflow check lhs rhs =>
      simp only [operation, Operation.operands] at typed word_of
      rcases typed lhs (by simp) with ⟨width, sized⟩
      rcases word_of lhs (by simp) with ⟨left, left_eq⟩
      rcases word_of rhs (by simp) with ⟨right, right_eq⟩
      simp [sized, left_eq, right_eq]
  | select condition ifTrue ifFalse =>
      simp only [operation, Operation.operands] at word_of
      rcases word_of condition (by simp) with ⟨choice, choice_eq⟩
      rcases word_of ifTrue (by simp) with ⟨first, first_eq⟩
      rcases word_of ifFalse (by simp) with ⟨second, second_eq⟩
      by_cases taken : choice &&& 1 = 1
      · simp [choice_eq, taken, first_eq]
      · simp [choice_eq, taken, second_eq]
  | cast kind operand =>
      simp only [operation, Operation.operands] at word_of
      rcases word_of operand (by simp) with ⟨word, word_eq⟩
      simp [word_eq]
  | funnel direction high low amount =>
      simp only [operation, Operation.operands, Proper] at typed word_of proper
      rcases typed high (by simp) with ⟨width, sized⟩
      rcases word_of high (by simp) with ⟨upper, upper_eq⟩
      rcases word_of low (by simp) with ⟨lower, lower_eq⟩
      rcases word_of amount (by simp) with ⟨count, count_eq⟩
      simp [proper.1, sized, upper_eq, lower_eq, count_eq]
  | load slot => exact stored slot operation
  | store slot operand => exact absurd operation (computes slot operand)
  | argument | constant | slotAddress | branch | branchIf | ret =>
      simp [operation, Operation.isInner, Operation.isLeaf, Operation.isTerminator] at inner

/-! ### Blocks -/

/-- Instructions have been executed: they have words, and the slots that they write have contents. -/
structure Executed (func : Function) (instructions : List ValueId) (snapshot : Snapshot) :
    Prop where
  words : ∀ id ∈ instructions, (func.operation id).hasResult = true → (snapshot.words id).isSome
  cells : ∀ id ∈ instructions, ∀ slot operand, func.operation id = .store slot operand →
    (snapshot.cells slot).isSome

/-- Whenever a block loads a slot, a block that was visited before stores into it. -/
def LoadsCovered (graph : FlowGraph) (func : Function) : Prop :=
  ∀ block, ∀ id ∈ func.body block, ∀ slot, func.operation id = .load slot →
    ∀ visited, graph.Arrives visited block →
      ∃ source ∈ visited, func.storedIn slot source ≠ []

variable {instructions : List ValueId} {block : BlockId} {visited : List BlockId}

theorem isSome_words_advance {other : ValueId}
    (step : func.advance arguments before id = some after) (known : (before.words other).isSome) :
    (after.words other).isSome := by
  unfold advance at step
  split at step
  · rcases Option.map_eq_some_iff.mp step with ⟨word, _, rfl⟩
    exact known
  · rcases Option.map_eq_some_iff.mp step with ⟨word, _, rfl⟩
    simp only [Snapshot.learn]
    split
    · rfl
    · exact known

theorem isSome_cells_advance {slot : SlotId}
    (step : func.advance arguments before id = some after) (stored : (before.cells slot).isSome) :
    (after.cells slot).isSome := by
  unfold advance at step
  split at step
  · rcases Option.map_eq_some_iff.mp step with ⟨word, _, rfl⟩
    simp only [Snapshot.write]
    split
    · rfl
    · exact stored
  · rcases Option.map_eq_some_iff.mp step with ⟨word, _, rfl⟩
    exact stored

theorem Executed.advance (executed : func.Executed instructions before)
    (step : func.advance arguments before id = some after) : func.Executed instructions after where
  words other mem result := isSome_words_advance step (executed.words other mem result)
  cells other mem slot operand stores :=
    isSome_cells_advance step (executed.cells other mem slot operand stores)

/-- An instruction that was executed adds to those that have been. -/
theorem Executed.append (executed : func.Executed instructions before)
    (step : func.advance arguments before id = some after) :
    func.Executed (instructions ++ [id]) after := by
  have kept := executed.advance step
  constructor
  · intro other mem result
    rcases List.mem_append.mp mem with old | new
    · exact kept.words other old result
    · obtain rfl := List.mem_singleton.mp new
      have computes : ∀ slot operand, func.operation other ≠ .store slot operand := by
        intro slot operand stores
        rw [stores] at result
        cases result
      rw [advance_of_not_store computes] at step
      rcases Option.map_eq_some_iff.mp step with ⟨word, _, rfl⟩
      simp [Snapshot.learn]
  · intro other mem slot operand stores
    rcases List.mem_append.mp mem with old | new
    · exact kept.cells other old slot operand stores
    · obtain rfl := List.mem_singleton.mp new
      rw [advance_of_store stores] at step
      rcases Option.map_eq_some_iff.mp step with ⟨word, _, rfl⟩
      simp [Snapshot.write]

/-- Once instructions have been traversed, they have been executed. -/
theorem Executed.of_traverse (run : func.traverse arguments before instructions = some after) :
    func.Executed instructions after := by
  induction instructions using List.reverseRecOn generalizing after with
  | nil => exact ⟨fun _ mem => absurd mem List.not_mem_nil, fun _ mem => absurd mem List.not_mem_nil⟩
  | append_singleton front last ih =>
      rw [traverse_append] at run
      rcases Option.bind_eq_some_iff.mp run with ⟨middle, first, rest⟩
      rcases Option.bind_eq_some_iff.mp rest with ⟨next, step, done⟩
      cases done
      exact (ih first).append step

/-- A usable value has a word once the blocks that are visited before have been executed. -/
theorem Usable.isSome_words {reader : ValueId} (usable : func.Usable graph block id)
    (wellBuilt : func.WellBuilt graph) (supplied : func.arguments.length ≤ arguments.size)
    (arrives : graph.Arrives visited block) (legal : func.Legal arguments before)
    (passed : ∀ source ∈ visited, func.Executed (func.body source) before)
    (executed : func.Executed instructions before)
    (here : ∀ other ∈ func.body block, other < reader → other ∈ instructions)
    (earlier : id < reader) : (before.words id).isSome := by
  have built := wellBuilt.built id usable.lt_size
  cases leaf : (func.operation id).isLeaf with
  | true =>
      rw [legal.leaves id leaf]
      unfold leafWord? wordFrom?
      cases operation : func.operation id with
      | argument index =>
          have proper := built.proper
          simp only [operation, Proper] at proper
          simp [Nat.lt_of_lt_of_le proper supplied]
      | constant payload => rfl
      | slotAddress slot => rfl
      | _ => simp [operation, Operation.isLeaf] at leaf
  | false =>
      rcases usable.computed leaf with ⟨result, owner, owned, precedes⟩
      have mem := built.placed owner owned (by
        cases operation : func.operation id <;>
          simp_all [Operation.hasResult, Operation.isTerminator])
      rcases precedes with rfl | before_it
      · exact executed.words id (here id mem earlier) result
      · exact (passed owner (before_it visited arrives)).words id mem result

/-- The next instruction of a block can be executed once those in front of it have been. -/
theorem exists_advance {rest : List ValueId} (wellBuilt : func.WellBuilt graph)
    (covered : func.LoadsCovered graph) (supplied : func.arguments.length ≤ arguments.size)
    (arrives : graph.Arrives visited block) (split : func.body block = instructions ++ id :: rest)
    (legal : func.Legal arguments before)
    (passed : ∀ source ∈ visited, func.Executed (func.body source) before)
    (executed : func.Executed instructions before) :
    ∃ after, func.advance arguments before id = some after := by
  have mem : id ∈ func.body block := by
    simp [split]
  have built := wellBuilt.built id (wellBuilt.numbered.lt_size block id mem)
  have sorted := wellBuilt.numbered.sorted block
  rw [split, List.pairwise_append, List.pairwise_cons] at sorted
  have here : ∀ other ∈ func.body block, other < id → other ∈ instructions := by
    intro other other_mem earlier
    rw [split, List.mem_append, List.mem_cons] at other_mem
    rcases other_mem with front | same | later
    · exact front
    · exact absurd earlier (same ▸ Nat.lt_irrefl _)
    · exact absurd earlier (Nat.lt_asymm (sorted.2.1.1 other later))
  have known : ∀ operand ∈ (func.operation id).operands, (before.words operand).isSome :=
    fun operand read => (built.usable block mem operand read).isSome_words wellBuilt supplied arrives
      legal passed executed here (built.grounded operand read)
  by_cases stores : ∃ slot operand, func.operation id = .store slot operand
  · rcases stores with ⟨slot, operand, stores⟩
    have operand_known := known operand (by simp [stores, Operation.operands])
    rcases Option.isSome_iff_exists.mp operand_known with ⟨word, word_eq⟩
    refine ⟨before.write slot word, ?_⟩
    rw [advance_of_store stores, word_eq]
    rfl
  · have computes : ∀ slot operand, func.operation id ≠ .store slot operand :=
      fun slot operand same => stores ⟨slot, operand, same⟩
    have stored : ∀ slot, func.operation id = .load slot → (before.cells slot).isSome := by
      intro slot loads
      rcases covered block id mem slot loads visited arrives with ⟨source, source_mem, nonempty⟩
      rcases List.exists_mem_of_ne_nil _ nonempty with ⟨operand, operand_mem⟩
      rcases mem_storedIn_iff.mp operand_mem with ⟨store, store_mem, stores⟩
      exact (passed source source_mem).cells store store_mem slot operand stores
    have found := @isSome_wordFrom? func arguments before id built.proper (built.inner block mem)
      computes (fun operand read => (built.usable block mem operand read).word) known stored
    rcases Option.isSome_iff_exists.mp found with ⟨word, word_eq⟩
    refine ⟨before.learn id word, ?_⟩
    rw [advance_of_not_store computes, word_eq]
    rfl

/-- A block that is entered can be executed to its end. -/
theorem exists_traverse (wellBuilt : func.WellBuilt graph) (covered : func.LoadsCovered graph)
    (supplied : func.arguments.length ≤ arguments.size) (arrives : graph.Arrives visited block)
    (legal : func.Legal arguments before)
    (passed : ∀ source ∈ visited, func.Executed (func.body source) before) :
    ∃ after, func.traverse arguments before (func.body block) = some after ∧
      func.Legal arguments after ∧
      ∀ source ∈ block :: visited, func.Executed (func.body source) after := by
  have from_here : ∀ rest front snapshot, func.body block = front ++ rest →
      func.Legal arguments snapshot →
      (∀ source ∈ visited, func.Executed (func.body source) snapshot) →
      func.Executed front snapshot →
      ∃ after, func.traverse arguments snapshot rest = some after ∧ func.Legal arguments after ∧
        (∀ source ∈ visited, func.Executed (func.body source) after) ∧
        func.Executed (front ++ rest) after := by
    intro rest
    induction rest with
    | nil =>
        intro front snapshot _ legal passed executed
        exact ⟨snapshot, rfl, legal, passed, by rwa [List.append_nil]⟩
    | cons id rest ih =>
        intro front snapshot split legal passed executed
        rcases exists_advance wellBuilt covered supplied arrives split legal passed executed with
          ⟨next, step⟩
        have mem : id ∈ func.body block := by
          simp [split]
        have built := wellBuilt.built id (wellBuilt.numbered.lt_size block id mem)
        rw [← List.singleton_append, ← List.append_assoc] at split
        rcases ih (front ++ [id]) next split
            (legal.advance built.proper (built.inner block mem) step)
            (fun source source_mem => (passed source source_mem).advance step)
            (executed.append step) with
          ⟨after, others, reached⟩
        refine ⟨after, ?_, by simpa using reached⟩
        rw [traverse_cons, step]
        exact others
  have nothing : func.Executed [] before :=
    ⟨fun _ mem => absurd mem List.not_mem_nil, fun _ mem => absurd mem List.not_mem_nil⟩
  rcases from_here (func.body block) [] before rfl legal passed nothing with
    ⟨after, runs, legal_after, kept, executed⟩
  refine ⟨after, runs, legal_after, ?_⟩
  intro source mem
  rcases List.mem_cons.mp mem with rfl | earlier
  · exact executed
  · exact kept source earlier

/-! ### Executions -/

/-- Terminators lead along the edges of the graph. -/
def FollowsEdges (graph : FlowGraph) (func : Function) : Prop :=
  ∀ block snapshot target, func.exitFrom? snapshot block = some (.jump target) →
    block ∈ graph.predecessors target

/-- A function that can be executed along the edges of the graph. -/
structure Executable (graph : FlowGraph) (func : Function) : Prop where
  wellBuilt : func.WellBuilt graph
  covered : func.LoadsCovered graph
  follows : func.FollowsEdges graph
  entry_eq : graph.entry = BlockId.entry

/-- What holds at the end of a block: the visited blocks have been executed, and words fit. -/
structure Arrived (graph : FlowGraph) (func : Function) (arguments : Array UInt64)
    (visited : List BlockId) (block : BlockId) (state : EvalState) : Prop where
  arrives : graph.Arrives visited block
  legal : func.Legal arguments (func.snapshot arguments state)
  executed : ∀ source ∈ block :: visited,
    func.Executed (func.body source) (func.snapshot arguments state)

theorem legal_empty (wellBuilt : func.WellBuilt graph) :
    func.Legal arguments (func.snapshot arguments {}) where
  words_fit other word known := by
    have nothing : func.Fitting {} := ⟨by simp, by simp⟩
    cases leaf : (func.operation other).isLeaf with
    | true =>
        rw [words_snapshot_of_isLeaf leaf] at known
        have held : other < func.values.size := by
          apply lt_size_of_operation
          intro nothing
          rw [nothing] at leaf
          cases leaf
        exact nothing.fits_wordFrom (wellBuilt.built other held).proper known
    | false => simp [snapshot, leaf] at known
  cells_fit slot word stored := by
    simp [snapshot] at stored
  leaves other leaf := words_snapshot_of_isLeaf leaf

variable {state : EvalState}

/-- Executions only visit blocks along the edges, and keep words and types in accord. -/
theorem Ends.arrived (executable : func.Executable graph)
    (supplied : func.arguments.length ≤ arguments.size)
    (ends : func.Ends arguments visited block state) :
    func.Arrived graph arguments visited block state := by
  have step : ∀ {visited block start state}, graph.Arrives visited block →
      func.Legal arguments start →
      (∀ source ∈ visited, func.Executed (func.body source) start) →
      func.traverse arguments start (func.body block) = some (func.snapshot arguments state) →
      func.Arrived graph arguments visited block state := by
    intro visited block start state arrives legal passed run
    rcases Function.exists_traverse executable.wellBuilt executable.covered supplied arrives legal
        passed with
      ⟨after, found, legal_after, executed⟩
    rw [run] at found
    cases found
    exact ⟨arrives, legal_after, executed⟩
  induction ends with
  | entry runs =>
      have run := ((advances_forM faithful_empty _).of_ok runs).1
      exact step executable.entry_eq.symm (legal_empty executable.wellBuilt)
        (fun _ mem => absurd mem List.not_mem_nil) run
  | @jump visited block target before middle state ends jumps runs ih =>
      have left := (shows_leave ends.faithful _).of_ok jumps
      have run := ((advances_forM left.2.2 _).of_ok runs).1
      rw [left.2.1] at run
      exact step ⟨executable.follows _ _ _ left.1, ih.arrives⟩ ih.legal ih.executed run

end Function

end RegisterFlow
