import RegisterFlow.Proofs.Tracking.Changes

/-!
# The start of a session

The tracker with which raising starts knows the arguments of the function and which blocks write
which registers, and nothing waits yet. Hence every session that a driver can bring about is in
order.
-/

namespace RegisterFlow

section FoldlM

variable {σ ι ε : Type} {step : σ → ι → Except ε σ} {holds : σ → Prop} {items : List ι}
  {first last : σ}

/-- What holds at first and is kept by every successful step holds at the end. -/
theorem foldlM_invariant
    (kept : ∀ item ∈ items, ∀ before after, holds before → step before item = .ok after →
      holds after)
    (run : items.foldlM step first = .ok last) (start : holds first) : holds last := by
  induction items generalizing first with
  | nil =>
      cases run
      exact start
  | cons item items ih =>
      rw [List.foldlM_cons] at run
      cases outcome : step first item with
      | ok middle =>
          rw [outcome] at run
          exact ih (fun later mem => kept later (List.mem_cons_of_mem _ mem)) run
            (kept item List.mem_cons_self first middle start outcome)
      | error failure =>
          rw [outcome] at run
          cases run

/-- What the step of one item brings about and all others keep holds at the end. -/
theorem foldlM_of_mem {item : ι} (mem : item ∈ items)
    (makes : ∀ before after, step before item = .ok after → holds after)
    (kept : ∀ before other after, holds before → step before other = .ok after → holds after)
    (run : items.foldlM step first = .ok last) : holds last := by
  induction items generalizing first with
  | nil => cases mem
  | cons head items ih =>
      rw [List.foldlM_cons] at run
      cases outcome : step first head with
      | ok middle =>
          rw [outcome] at run
          rcases List.mem_cons.mp mem with rfl | later
          · exact foldlM_invariant (fun other _ before after => kept before other after) run
              (makes first middle outcome)
          · exact ih later run
      | error failure =>
          rw [outcome] at run
          cases run

end FoldlM

namespace Tracker

/-- What the tracker at the start knows: values of arguments only, and nothing about flags. -/
structure Initial (func : Function) (tracker : Tracker) : Prop where
  filed : ∀ definition ∈ tracker.table.definitions, ∀ value,
    definition.value? = some value → value ∈ func.arguments
  bound : ∀ entry ∈ tracker.bindings, entry.2.value ∈ func.arguments
  register : ∀ definition ∈ tracker.table.definitions, definition.location.isFlag = false
  deferred : tracker.deferred = []
  drained : tracker.drained = 0
  merges : tracker.merges = []

variable {graph : FlowGraph} {func : Function} {before after : Tracker}

theorem mem_arguments_of_argumentOf? {register : Register} {value : ValueId}
    (found : argumentOf? graph func register = some value) : value ∈ func.arguments := by
  unfold argumentOf? at found
  rw [Option.bind_eq_some_iff] at found
  obtain ⟨index, _, found⟩ := found
  exact List.mem_of_mem_filter (List.mem_of_getElem? found)

/-- A register is bound to its argument, if it has one, and the entry block defines it. -/
theorem bindArgument_eq_ok {register : Register}
    (binds : bindArgument graph func before register = .ok after) :
    (argumentOf? graph func register = none ∧ after = before) ∨
      ∃ value table, argumentOf? graph func register = some value ∧
        before.table.record (.register (graph.convention.canonical register)) graph.entry
          (func.ty value).bits value = .ok table ∧
        after = { before with
          table
          bindings := (graph.convention.canonical register, { value, width := (func.ty value).bits })
            :: before.bindings } := by
  unfold bindArgument at binds
  cases found : argumentOf? graph func register with
  | none =>
      rw [found] at binds
      cases binds
      exact Or.inl ⟨rfl, rfl⟩
  | some value =>
      rw [found] at binds
      dsimp only at binds
      cases filed : before.table.record (.register (graph.convention.canonical register))
          graph.entry (func.ty value).bits value with
      | ok table =>
          rw [filed] at binds
          cases binds
          exact Or.inr ⟨value, table, rfl, filed, rfl⟩
      | error failure =>
          rw [filed] at binds
          cases binds

/-- A write is noted as a pending definition of its block. -/
theorem seedWrite_eq_ok {block : BlockId} {register : Register}
    (seeds : seedWrite graph before block register = .ok after) :
    ∃ table, before.table.markPending (.register (graph.convention.canonical register)) block
        (graph.convention.width register) = .ok table ∧ after = { before with table } := by
  unfold seedWrite at seeds
  cases marked : before.table.markPending (.register (graph.convention.canonical register)) block
      (graph.convention.width register) with
  | ok table =>
      rw [marked] at seeds
      cases seeds
      exact ⟨table, rfl, rfl⟩
  | error failure =>
      rw [marked] at seeds
      cases seeds

theorem Initial.bindArgument {register : Register} (initial : before.Initial func)
    (binds : bindArgument graph func before register = .ok after) : after.Initial func := by
  rcases bindArgument_eq_ok binds with ⟨_, rfl⟩ | ⟨value, table, found, filed, rfl⟩
  · exact initial
  · have argument := mem_arguments_of_argumentOf? found
    have definitions := Table.definitions_of_record filed
    exact {
      filed := by
        intro definition mem known_value known
        rw [definitions] at mem
        rcases Table.mem_place _ mem with rfl | old
        · cases known
          exact argument
        · exact initial.filed definition old known_value known
      bound := by
        intro entry mem
        rcases List.mem_cons.mp mem with rfl | old
        · exact argument
        · exact initial.bound entry old
      register := by
        intro definition mem
        rw [definitions] at mem
        rcases Table.mem_place _ mem with rfl | old
        · rfl
        · exact initial.register definition old
      deferred := initial.deferred
      drained := initial.drained
      merges := initial.merges }

theorem Initial.seedWrite {block : BlockId} {register : Register} (initial : before.Initial func)
    (seeds : seedWrite graph before block register = .ok after) : after.Initial func := by
  obtain ⟨table, marked, rfl⟩ := seedWrite_eq_ok seeds
  have definitions := Table.definitions_of_markPending marked
  exact {
    filed := by
      intro definition mem known_value known
      rw [definitions] at mem
      rcases Table.mem_place _ mem with rfl | old
      · cases known
      · exact initial.filed definition old known_value known
    bound := initial.bound
    register := by
      intro definition mem
      rw [definitions] at mem
      rcases Table.mem_place _ mem with rfl | old
      · rfl
      · exact initial.register definition old
    deferred := initial.deferred
    drained := initial.drained
    merges := initial.merges }

/-- A start binds arguments first and then notes the writes. -/
theorem start_eq_ok {tracker : Tracker} (starts : start graph func = .ok tracker) :
    ∃ bound, graph.convention.argumentRegisters.foldlM (Tracker.bindArgument graph func) {} =
        .ok bound ∧
      graph.writes.foldlM (fun tracker (block, register) =>
        Tracker.seedWrite graph tracker block register) bound = .ok tracker := by
  unfold start at starts
  cases bound : graph.convention.argumentRegisters.foldlM (Tracker.bindArgument graph func) {} with
  | ok tracker =>
      rw [bound] at starts
      exact ⟨tracker, rfl, starts⟩
  | error failure =>
      rw [bound] at starts
      cases starts

theorem initial_of_start {tracker : Tracker} (starts : start graph func = .ok tracker) :
    tracker.Initial func := by
  obtain ⟨bound, binds, seeds⟩ := start_eq_ok starts
  have none_bound : ({} : Tracker).Initial func :=
    { filed := fun _ mem => absurd mem List.not_mem_nil
      bound := fun _ mem => absurd mem List.not_mem_nil
      register := fun _ mem => absurd mem List.not_mem_nil
      deferred := rfl
      drained := rfl
      merges := rfl }
  have all_bound := foldlM_invariant (fun _ _ _ _ holds binds => holds.bindArgument binds) binds
    none_bound
  exact foldlM_invariant (fun _ _ _ _ holds seeds => holds.seedWrite seeds) seeds all_bound

/-- Nothing is known about flags at the start. -/
theorem Initial.content?_flag {tracker : Tracker} (initial : tracker.Initial func) (flag : Flag)
    (block : BlockId) : tracker.content? graph (.flag flag) block = none := by
  have unfiled : tracker.table.get? (.flag flag) block = none := by
    refine List.find?_eq_none.mpr fun definition mem found => ?_
    simp only [Definition.isAt, decide_eq_true_eq] at found
    have register := initial.register definition mem
    rw [found.2] at register
    cases register
  simp [content?, definitionIn?, bindingAt?, unfiled]

end Tracker

namespace Session

variable {graph : FlowGraph} {session : Session}

theorem Starts.inOrder (starts : Starts graph session) : session.InOrder graph := by
  obtain ⟨name, argumentTypes, blockNames, tracker, same_count, started, rfl⟩ := starts
  have initial := Tracker.initial_of_start started
  have held : ∀ value ∈ (Function.empty name argumentTypes blockNames).arguments,
      value < (Function.empty name argumentTypes blockNames).values.size := by
    intro value mem
    rw [Function.size_empty]
    exact List.mem_range.mp mem
  have nothing : ∀ slot block,
      (Function.empty name argumentTypes blockNames).storedIn slot block = [] := by
    intro slot block
    rw [Function.storedIn, Function.body_empty]
    rfl
  exact {
    kept := {
      blockCount_eq := by simpa [Function.empty] using same_count
      numbered := Function.numbered_empty ..
      ranged := {
        filed := fun definition mem value known =>
          held value (initial.filed definition mem value known)
        bound := fun entry mem => held _ (initial.bound entry mem) }
      storedIn_new := fun slot _ block => nothing slot block
      waiting_block := by simp [initial.deferred]
      waiting_slot := by simp [initial.deferred]
      waiting_ty := by simp [initial.deferred]
      waiting_distinct := by simp [initial.deferred]
      unstored := by simp [initial.deferred] }
    flagged := fun flag block content known => by
      rw [initial.content?_flag] at known
      cases known
    owned_lt := fun _ mem => absurd mem List.not_mem_nil
    unowned := by simp [initial.deferred] }

theorem Reachable.inOrder (closed : graph.Closed) (reachable : Reachable graph session) :
    session.InOrder graph := by
  induction reachable with
  | start starts => exact starts.inOrder
  | perform _ allowed ih => exact ih.perform closed allowed

end Session

end RegisterFlow
