import RegisterFlow.Execution.Run
import RegisterFlow.Proofs.Code.Growth

/-!
# Words of values

What an evaluation can see of its state: the word of each value and the content of each slot. A
leaf has the same word in every state, whether the state remembers it or not. Reading an operand
changes nothing that can be seen, an instruction changes one word or one slot, and what it does
depends on what can be seen only.
-/

namespace RegisterFlow

/-- The words of values and the contents of slots. -/
structure Snapshot where
  words : ValueId → Option UInt64 := fun _ => none
  cells : SlotId → Option UInt64 := fun _ => none

namespace Snapshot

/-- The snapshot with a word for a value. -/
def learn (snapshot : Snapshot) (id : ValueId) (word : UInt64) : Snapshot :=
  { snapshot with words := fun other => if other = id then some word else snapshot.words other }

/-- The snapshot with a word in a slot. -/
def write (snapshot : Snapshot) (slot : SlotId) (word : UInt64) : Snapshot :=
  { snapshot with cells := fun other => if other = slot then some word else snapshot.cells other }

theorem learn_of_known {snapshot : Snapshot} {id : ValueId} {word : UInt64}
    (known : snapshot.words id = some word) : snapshot.learn id word = snapshot := by
  rcases snapshot with ⟨words, cells⟩
  simp only [learn, mk.injEq, and_true]
  funext other
  split
  · next same => rw [same, ← known]
  · rfl

end Snapshot

namespace Function

/-- What a value computes from the words and slots of a snapshot, if it can. -/
def wordFrom? (func : Function) (arguments : Array UInt64) (snapshot : Snapshot) (id : ValueId) :
    Option UInt64 :=
  match func.operation id with
  | .argument index => arguments[index]?.map (Word.truncate (func.ty id).bits)
  | .constant payload => some payload
  | .slotAddress slot => some (UInt64.ofNat slot)
  | .binary op lhs rhs => do
    let width ← (func.ty id).wordBits?
    return op.apply width (← snapshot.words lhs) (← snapshot.words rhs)
  | .compare comparison lhs rhs => do
    let width ← (func.ty lhs).wordBits?
    return (comparison.holds width (← snapshot.words lhs) (← snapshot.words rhs)).toUInt64
  | .select condition ifTrue ifFalse => do
    if (← snapshot.words condition) &&& 1 = 1 then snapshot.words ifTrue
    else snapshot.words ifFalse
  | .cast kind operand => do
    return kind.convert (func.ty operand).bits (func.ty id).bits (← snapshot.words operand)
  | .overflow check lhs rhs => do
    let width ← (func.ty lhs).wordBits?
    return (check.occurs width (← snapshot.words lhs) (← snapshot.words rhs)).toUInt64
  | .funnel direction high low amount => do
    let width ← (func.ty id).wordBits?
    let high ← snapshot.words high
    let low ← snapshot.words low
    let amount ← snapshot.words amount
    return direction.shift width high low (amount.toNat % width)
  | .load slot => snapshot.cells slot
  | .store .. | .branch _ | .branchIf .. | .ret _ => none

/-- The word of a leaf, which depends on the arguments only. -/
def leafWord? (func : Function) (arguments : Array UInt64) (id : ValueId) : Option UInt64 :=
  func.wordFrom? arguments {} id

/-- What an evaluation can see of its state. -/
def snapshot (func : Function) (arguments : Array UInt64) (state : EvalState) : Snapshot where
  words id :=
    if (func.operation id).isLeaf then func.leafWord? arguments id else state.computed[id]?
  cells slot := state.memory[slot]?

/-- The leaves that a state remembers have the words that they compute. -/
def Faithful (func : Function) (arguments : Array UInt64) (state : EvalState) : Prop :=
  ∀ id word, (func.operation id).isLeaf = true → state.computed[id]? = some word →
    func.leafWord? arguments id = some word

/-- A step answers as a result says, and what it leaves has a property; or both have none. -/
def Answers {α : Type} (kept : EvalState → Prop) (result : Option α) (step : Eval α)
    (state : EvalState) : Prop :=
  match result with
  | some answer => ∃ after, step.run state = .ok answer after ∧ kept after
  | none => ∃ failure after, step.run state = .error failure after

/-- A step answers as a result says, and changes nothing that can be seen; or both have none. -/
def Shows {α : Type} (func : Function) (arguments : Array UInt64) (result : Option α)
    (step : Eval α) (state : EvalState) : Prop :=
  match result with
  | some answer => ∃ after, step.run state = .ok answer after ∧
      func.snapshot arguments after = func.snapshot arguments state ∧
      func.Faithful arguments after
  | none => ∃ failure after, step.run state = .error failure after

/-- A step succeeds and brings about what is seen in the next snapshot; or there is none. -/
def Advances (func : Function) (arguments : Array UInt64) (next : Option Snapshot)
    (step : Eval Unit) (state : EvalState) : Prop :=
  match next with
  | some snapshot => ∃ after, step.run state = .ok () after ∧
      func.snapshot arguments after = snapshot ∧ func.Faithful arguments after
  | none => ∃ failure after, step.run state = .error failure after

variable {func : Function} {arguments : Array UInt64} {state : EvalState} {id : ValueId}

section Answers

variable {α β : Type} {kept : EvalState → Prop}

theorem answers_pure (held : kept state) (answer : α) :
    Answers kept (some answer) (pure answer) state :=
  ⟨state, rfl, held⟩

theorem answers_throw (failure : EvalError) :
    Answers kept (none : Option α) (throw failure) state :=
  ⟨failure, state, rfl⟩

theorem Answers.bind {result : Option α} {step : Eval α} {further : α → Option β}
    {next : α → Eval β} (first : Answers kept result step state)
    (second : ∀ answer after, kept after → Answers kept (further answer) (next answer) after) :
    Answers kept (result >>= further) (step >>= next) state := by
  cases result with
  | none =>
      rcases first with ⟨failure, after, fails⟩
      refine ⟨failure, after, ?_⟩
      rw [EStateM.run_bind, fails]
  | some answer =>
      rcases first with ⟨middle, succeeds, held⟩
      have rest := second answer middle held
      simp only [Option.bind_eq_bind, Option.bind_some]
      cases found : further answer with
      | none =>
          rw [found] at rest
          rcases rest with ⟨failure, after, fails⟩
          refine ⟨failure, after, ?_⟩
          rw [EStateM.run_bind, succeeds]
          exact fails
      | some last =>
          rw [found] at rest
          rcases rest with ⟨after, finishes, held_after⟩
          refine ⟨after, ?_, held_after⟩
          rw [EStateM.run_bind, succeeds]
          exact finishes

theorem answers_widthOf (held : kept state) (ty : Ty) :
    Answers kept ty.wordBits? (Eval.widthOf ty) state := by
  unfold Eval.widthOf
  cases ty.wordBits? with
  | none => exact answers_throw _
  | some width => exact answers_pure held width

/-- A value computes from the words of its operands if that is what reading them answers. -/
theorem answers_compute {snapshot : Snapshot} {read : ValueId → Eval UInt64}
    (cells : ∀ after, kept after → ∀ slot, after.memory[slot]? = snapshot.cells slot)
    (reads : ∀ operand ∈ (func.operation id).operands, ∀ after, kept after →
      Answers kept (snapshot.words operand) (read operand) after)
    (held : kept state) :
    Answers kept (func.wordFrom? arguments snapshot id) (func.compute arguments read id) state := by
  simp only [wordFrom?, compute]
  cases operation : func.operation id with
  | argument index =>
      dsimp only
      cases arguments[index]? with
      | none => exact answers_throw _
      | some word => exact answers_pure held _
  | constant payload => exact answers_pure held _
  | slotAddress slot => exact answers_pure held _
  | binary op lhs rhs =>
      simp only [operation, Operation.operands, List.forall_mem_cons] at reads
      refine (answers_widthOf held _).bind fun width first held => ?_
      refine (reads.1 first held).bind fun left second held => ?_
      exact (reads.2.1 second held).bind fun right third held => answers_pure held _
  | compare comparison lhs rhs =>
      simp only [operation, Operation.operands, List.forall_mem_cons] at reads
      refine (answers_widthOf held _).bind fun width first held => ?_
      refine (reads.1 first held).bind fun left second held => ?_
      exact (reads.2.1 second held).bind fun right third held => answers_pure held _
  | select condition ifTrue ifFalse =>
      simp only [operation, Operation.operands, List.forall_mem_cons] at reads
      refine (reads.1 state held).bind fun truth first held => ?_
      split
      · exact reads.2.1 first held
      · exact reads.2.2.1 first held
  | cast kind operand =>
      simp only [operation, Operation.operands, List.forall_mem_cons] at reads
      exact (reads.1 state held).bind fun word first held => answers_pure held _
  | overflow check lhs rhs =>
      simp only [operation, Operation.operands, List.forall_mem_cons] at reads
      refine (answers_widthOf held _).bind fun width first held => ?_
      refine (reads.1 first held).bind fun left second held => ?_
      exact (reads.2.1 second held).bind fun right third held => answers_pure held _
  | funnel direction high low amount =>
      simp only [operation, Operation.operands, List.forall_mem_cons] at reads
      refine (answers_widthOf held _).bind fun width first held => ?_
      refine (reads.1 first held).bind fun upper second held => ?_
      refine (reads.2.1 second held).bind fun lower third held => ?_
      exact (reads.2.2.1 third held).bind fun shift fourth held => answers_pure held _
  | load slot =>
      dsimp only
      rw [← cells state held slot]
      cases found : state.memory[slot]? with
      | none =>
          refine ⟨.emptySlot slot, state, ?_⟩
          simp only [EStateM.run_bind, EStateM.run_get, found]
          rfl
      | some word =>
          refine ⟨state, ?_, held⟩
          simp only [EStateM.run_bind, EStateM.run_get, found]
          rfl
  | store slot operand => exact answers_throw _
  | branch target => exact answers_throw _
  | branchIf condition ifTrue ifFalse => exact answers_throw _
  | ret result => exact answers_throw _

end Answers

section Shows

variable {α β : Type}

theorem shows_iff {result : Option α} {step : Eval α} :
    func.Shows arguments result step state ↔
      Answers (fun after => func.snapshot arguments after = func.snapshot arguments state ∧
        func.Faithful arguments after) result step state := by
  cases result <;> exact Iff.rfl

theorem shows_pure (faithful : func.Faithful arguments state) (answer : α) :
    func.Shows arguments (some answer) (pure answer) state :=
  ⟨state, rfl, rfl, faithful⟩

theorem shows_throw (failure : EvalError) :
    func.Shows arguments (none : Option α) (throw failure) state :=
  ⟨failure, state, rfl⟩

theorem Shows.bind {result : Option α} {step : Eval α} {further : α → Option β}
    {next : α → Eval β} (first : func.Shows arguments result step state)
    (second : ∀ answer after, func.snapshot arguments after = func.snapshot arguments state →
      func.Faithful arguments after → func.Shows arguments (further answer) (next answer) after) :
    func.Shows arguments (result >>= further) (step >>= next) state := by
  rw [shows_iff] at first ⊢
  refine first.bind ?_
  rintro answer after ⟨same, faithful⟩
  have rest := second answer after same faithful
  rw [shows_iff, same] at rest
  exact rest

end Shows

/-- The words of leaves do not depend on the snapshot. -/
theorem wordFrom?_of_isLeaf (leaf : (func.operation id).isLeaf = true) (snapshot : Snapshot) :
    func.wordFrom? arguments snapshot id = func.leafWord? arguments id := by
  unfold leafWord? wordFrom?
  cases operation : func.operation id <;> simp_all [Operation.isLeaf]

@[simp]
theorem words_snapshot_of_isLeaf (leaf : (func.operation id).isLeaf = true) :
    (func.snapshot arguments state).words id = func.leafWord? arguments id := by
  simp [snapshot, leaf]

/-- What is remembered of a value is its word. -/
theorem words_of_computed {word : UInt64} (faithful : func.Faithful arguments state)
    (computed : state.computed[id]? = some word) :
    (func.snapshot arguments state).words id = some word := by
  cases leaf : (func.operation id).isLeaf with
  | true =>
      rw [words_snapshot_of_isLeaf leaf]
      exact faithful id word leaf computed
  | false => simpa [snapshot, leaf] using computed

/-- A word that is learned is seen, unless the value is a leaf, whose word is known anyway. -/
theorem snapshot_learn {word : UInt64}
    (known : (func.operation id).isLeaf = true → func.leafWord? arguments id = some word) :
    func.snapshot arguments (state.learn id word) =
      (func.snapshot arguments state).learn id word := by
  simp only [snapshot, Snapshot.learn, EvalState.learn, Snapshot.mk.injEq, and_true]
  funext other
  rw [Std.HashMap.getElem?_insert]
  by_cases same : other = id
  · subst same
    by_cases leaf : (func.operation other).isLeaf = true
    · simp [leaf, known leaf]
    · simp [leaf]
  · have apart : (id == other) = false := beq_false_of_ne (Ne.symm same)
    simp [same, apart]

theorem Faithful.learn {word : UInt64} (faithful : func.Faithful arguments state)
    (known : (func.operation id).isLeaf = true → func.leafWord? arguments id = some word) :
    func.Faithful arguments (state.learn id word) := by
  intro other found leaf computed
  simp only [EvalState.learn, Std.HashMap.getElem?_insert] at computed
  split at computed
  · next same =>
    rw [beq_iff_eq] at same
    subst same
    rw [← computed]
    exact known leaf
  · exact faithful other found leaf computed

theorem snapshot_write (slot : SlotId) (word : UInt64) :
    func.snapshot arguments (state.write slot word) =
      (func.snapshot arguments state).write slot word := by
  simp only [snapshot, Snapshot.write, EvalState.write, Snapshot.mk.injEq, true_and]
  funext other
  rw [Std.HashMap.getElem?_insert]
  by_cases same : other = slot
  · simp [same]
  · have apart : (slot == other) = false := beq_false_of_ne (Ne.symm same)
    simp [same, apart]

/-- A leaf computes its word without reading anything. -/
theorem run_compute_of_isLeaf (leaf : (func.operation id).isLeaf = true)
    (read : ValueId → Eval UInt64) :
    match func.leafWord? arguments id with
    | some word => (func.compute arguments read id).run state = .ok word state
    | none => ∃ failure, (func.compute arguments read id).run state = .error failure state := by
  unfold leafWord? wordFrom? compute
  cases operation : func.operation id with
  | argument index =>
      dsimp only
      cases arguments[index]? with
      | none => exact ⟨.missingArgument index, rfl⟩
      | some word => rfl
  | constant payload => rfl
  | slotAddress slot => rfl
  | _ => simp [operation, Operation.isLeaf] at leaf

/-- An operand shows its word. -/
theorem shows_operand (faithful : func.Faithful arguments state) (id : ValueId) :
    func.Shows arguments ((func.snapshot arguments state).words id) (func.operand arguments id)
      state := by
  simp only [operand, Eval.remember]
  cases computed : state.computed[id]? with
  | some word =>
      rw [words_of_computed faithful computed]
      refine ⟨state, ?_, rfl, faithful⟩
      simp [EStateM.run_bind, computed]
  | none =>
      cases leaf : (func.operation id).isLeaf with
      | true =>
          rw [words_snapshot_of_isLeaf leaf]
          have run := @run_compute_of_isLeaf func arguments state id leaf
            (fun inner => throw (.notComputed inner))
          cases found : func.leafWord? arguments id with
          | some word =>
              rw [found] at run
              refine ⟨state.learn id word, ?_, ?_, faithful.learn fun _ => found⟩
              · simp only [EStateM.run_bind, EStateM.run_get, computed, if_pos, run]
                rfl
              · rw [snapshot_learn fun _ => found]
                exact Snapshot.learn_of_known ((words_snapshot_of_isLeaf leaf).trans found)
          | none =>
              rw [found] at run
              rcases run with ⟨failure, fails⟩
              refine ⟨failure, state, ?_⟩
              simp [EStateM.run_bind, computed, fails]
      | false =>
          have unknown : (func.snapshot arguments state).words id = none := by
            simp [snapshot, leaf, computed]
          rw [unknown]
          refine ⟨.notComputed id, state, ?_⟩
          simp only [EStateM.run_bind, EStateM.run_get, computed]
          rfl

/-- A value shows what it computes from its operands. -/
theorem shows_compute (faithful : func.Faithful arguments state) (id : ValueId) :
    func.Shows arguments (func.wordFrom? arguments (func.snapshot arguments state) id)
      (func.compute arguments (func.operand arguments) id) state := by
  rw [shows_iff]
  apply answers_compute
  · rintro after ⟨same, -⟩ slot
    rw [← same]
    rfl
  · rintro operand - after ⟨same, faithful⟩
    have shown := shows_operand faithful operand
    rw [shows_iff, same] at shown
    exact shown
  · exact ⟨rfl, faithful⟩

/-- The snapshot after an instruction, if it can be executed. -/
def advance (func : Function) (arguments : Array UInt64) (snapshot : Snapshot) (id : ValueId) :
    Option Snapshot :=
  match func.operation id with
  | .store slot operand => (snapshot.words operand).map (snapshot.write slot)
  | _ => (func.wordFrom? arguments snapshot id).map (snapshot.learn id)

theorem advance_of_store {slot : SlotId} {operand : ValueId}
    (stores : func.operation id = .store slot operand) (snapshot : Snapshot) :
    func.advance arguments snapshot id = (snapshot.words operand).map (snapshot.write slot) := by
  simp only [advance, stores]

theorem advance_of_not_store (computes : ∀ slot operand, func.operation id ≠ .store slot operand)
    (snapshot : Snapshot) :
    func.advance arguments snapshot id =
      (func.wordFrom? arguments snapshot id).map (snapshot.learn id) := by
  unfold advance
  split
  · next slot operand stores => exact absurd stores (computes slot operand)
  · rfl

theorem execute_of_not_store (computes : ∀ slot operand, func.operation id ≠ .store slot operand) :
    func.execute arguments id = (do
      let word ← func.compute arguments (func.operand arguments) id
      modify (·.learn id word)) := by
  unfold execute
  split
  · next slot operand stores => exact absurd stores (computes slot operand)
  · rfl

/-- An instruction does to the state what it does to its snapshot. -/
theorem advances_execute (faithful : func.Faithful arguments state) (id : ValueId) :
    func.Advances arguments (func.advance arguments (func.snapshot arguments state) id)
      (func.execute arguments id) state := by
  by_cases stores : ∃ slot operand, func.operation id = .store slot operand
  · rcases stores with ⟨slot, operand, stores⟩
    rw [advance_of_store stores]
    simp only [execute, stores]
    have shown := shows_operand faithful operand
    cases found : (func.snapshot arguments state).words operand with
    | none =>
        rw [found] at shown
        rcases shown with ⟨failure, after, fails⟩
        exact ⟨failure, after, by simp [EStateM.run_bind, fails]⟩
    | some word =>
        rw [found] at shown
        rcases shown with ⟨middle, succeeds, same, faithful_middle⟩
        refine ⟨middle.write slot word, ?_, ?_, faithful_middle⟩
        · simp only [EStateM.run_bind, succeeds]
          rfl
        · rw [snapshot_write, same]
  · have computes : ∀ slot operand, func.operation id ≠ .store slot operand :=
      fun slot operand found => stores ⟨slot, operand, found⟩
    rw [advance_of_not_store computes, execute_of_not_store computes]
    have shown := shows_compute faithful id
    cases found : func.wordFrom? arguments (func.snapshot arguments state) id with
    | none =>
        rw [found] at shown
        rcases shown with ⟨failure, after, fails⟩
        exact ⟨failure, after, by simp [EStateM.run_bind, fails]⟩
    | some word =>
        rw [found] at shown
        rcases shown with ⟨middle, succeeds, same, faithful_middle⟩
        have known : (func.operation id).isLeaf = true → func.leafWord? arguments id = some word :=
          fun leaf => (wordFrom?_of_isLeaf leaf _).symm.trans found
        refine ⟨middle.learn id word, ?_, ?_, faithful_middle.learn known⟩
        · simp only [EStateM.run_bind, succeeds]
          rfl
        · rw [snapshot_learn known, same]

end Function

end RegisterFlow
