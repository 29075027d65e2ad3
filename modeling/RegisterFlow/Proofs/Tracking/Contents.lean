import RegisterFlow.Proofs.Tracking.Start

/-!
# What blocks hold

What the blocks hold of a location while a driver raises a function. An action changes this in the
block that it works in only; a block that holds a definition keeps one, and nothing becomes pending
after the start. At the start, the blocks that write a register hold it, as pending, and the entry
block holds the registers that carry arguments.
-/

namespace RegisterFlow

namespace FlowGraph

variable {graph : FlowGraph} {block : BlockId} {register : Register}

/-- A block writes a location: one of its instructions writes a register that is a part of it. -/
def Writes (graph : FlowGraph) (block : BlockId) (location : Location) : Prop :=
  ∃ register, (block, register) ∈ graph.writes ∧
    graph.convention.locationOf register = .ok location

theorem mem_writes_iff :
    (block, register) ∈ graph.writes ↔
      block < graph.blocks.size ∧ register ∈ graph.writesOf block := by
  simp [writes]

theorem ne_null_of_mem_writes (mem : (block, register) ∈ graph.writes) : register ≠ .null := by
  have listed := (mem_writes_iff.mp mem).2
  rw [writesOf, List.mem_filter, decide_eq_true_eq] at listed
  exact listed.2

theorem locationOf_of_mem_writes (mem : (block, register) ∈ graph.writes) :
    graph.convention.locationOf register =
      .ok (.register (graph.convention.canonical register)) := by
  rw [Convention.locationOf, if_neg (ne_null_of_mem_writes mem)]

end FlowGraph

namespace Tracker

/-- The table notes that a block redefines a location, and does not know the value yet. -/
def IsPending (tracker : Tracker) (location : Location) (block : BlockId) : Prop :=
  ∃ definition, tracker.table.get? location block = some definition ∧
    definition.content = .pending

variable {graph : FlowGraph} {tracker : Tracker} {location other : Location}
  {block elsewhere : BlockId}

/-- At the entry, an argument takes the place of what is not known. -/
theorem content?_eq :
    tracker.content? graph location block =
      if block = graph.entry ∧ ((tracker.table.get? location block).bind Definition.value?).isNone then
        match tracker.bindingAt? location with
        | some binding => some (.known binding.value)
        | none => (tracker.table.get? location block).map Definition.content
      else (tracker.table.get? location block).map Definition.content := by
  simp only [content?, definitionIn?]
  split
  · cases tracker.bindingAt? location <;> rfl
  · rfl

theorem value?_eq_some_iff {definition : Definition} {value : ValueId} :
    definition.value? = some value ↔ definition.content = .known value := by
  cases content : definition.content <;> simp [Definition.value?, Content.value?, content]

/-- What is pending in a block is so in the table, and no argument takes its place. -/
theorem isPending_of_content? (held : tracker.content? graph location block = some .pending) :
    tracker.IsPending location block ∧
      (block = graph.entry → tracker.bindingAt? location = none) := by
  rw [content?_eq] at held
  split at held
  · split at held
    · cases held
    · next unbound =>
      exact ⟨Option.map_eq_some_iff.mp held, fun _ => unbound⟩
  · next kept =>
    rcases Option.map_eq_some_iff.mp held with ⟨definition, found, pending⟩
    refine ⟨⟨definition, found, pending⟩, fun entry => absurd ⟨entry, ?_⟩ kept⟩
    simp [found, Definition.value?, pending, Content.value?]

/-- The entry block knows a location that carries an argument. -/
theorem exists_known_of_bindingAt? {binding : Binding}
    (bound : tracker.bindingAt? location = some binding) :
    ∃ value, tracker.content? graph location graph.entry = some (.known value) := by
  rw [content?_eq, bound]
  cases filed : (tracker.table.get? location graph.entry).bind Definition.value? with
  | none => exact ⟨binding.value, if_pos ⟨rfl, rfl⟩⟩
  | some value =>
      rcases Option.bind_eq_some_iff.mp filed with ⟨definition, found, known⟩
      refine ⟨value, ?_⟩
      rw [if_neg (by simp), found, Option.map_some, value?_eq_some_iff.mp known]

theorem isSome_content? (filed : (tracker.table.get? location block).isSome) :
    (tracker.content? graph location block).isSome := by
  rw [content?_eq]
  split
  · split
    · rfl
    · rwa [Option.isSome_map]
  · rwa [Option.isSome_map]

/-- What is known in a block is known in the table, or it is the argument at the entry. -/
theorem get?_of_known {value : ValueId}
    (held : tracker.content? graph location block = some (.known value)) :
    (tracker.table.get? location block).bind Definition.value? = some value ∨
      block = graph.entry ∧
        (tracker.bindingAt? location).map Binding.value = some value := by
  have in_table : (tracker.table.get? location block).map Definition.content =
        some (.known value) →
      (tracker.table.get? location block).bind Definition.value? = some value := by
    intro found
    rcases Option.map_eq_some_iff.mp found with ⟨definition, found, known⟩
    rw [found, Option.bind_some, value?_eq_some_iff.mpr known]
  rw [content?_eq] at held
  split at held
  · next replaced =>
    split at held
    · next binding bound =>
      cases held
      exact Or.inr ⟨replaced.1, by rw [bound]; rfl⟩
    · exact Or.inl (in_table held)
  · exact Or.inl (in_table held)

/-- A value that is filed makes its place, and no other one, stop being pending. -/
theorem isPending_record_iff {table : Table} {width : Nat} {value : ValueId}
    (filed : tracker.table.record location block width value = .ok table) :
    ({ tracker with table } : Tracker).IsPending other elsewhere ↔
      ¬ (other = location ∧ elsewhere = block) ∧ tracker.IsPending other elsewhere := by
  unfold IsPending
  dsimp only
  rw [Table.get?_record filed]
  split
  · next here => simp [here]
  · next elsewhere => simp [elsewhere]

/-- What is noted in a place makes it pending; all others stay what they were. -/
theorem isPending_markPending_iff {table : Table} {width : Nat}
    (marked : tracker.table.markPending location block width = .ok table) :
    ({ tracker with table } : Tracker).IsPending other elsewhere ↔
      (other = location ∧ elsewhere = block) ∨ tracker.IsPending other elsewhere := by
  unfold IsPending
  dsimp only
  rw [Table.get?_markPending marked]
  split
  · next here => simp [here]
  · next elsewhere => simp [elsewhere]

theorem IsPending.isSome_content? (pending : tracker.IsPending location block) :
    (tracker.content? graph location block).isSome := by
  rcases pending with ⟨definition, found, -⟩
  exact Tracker.isSome_content? (Option.isSome_of_mem found)

/-- Dropping what is pending in a block changes nothing if nothing is. -/
theorem get?_withoutPending (settled : ∀ location, ¬ tracker.IsPending location block) :
    (tracker.table.withoutPending block).get? location elsewhere =
      tracker.table.get? location elsewhere := by
  apply Table.get?_withoutPending
  intro definition found
  rw [Table.isPendingIn, decide_eq_false_iff_not]
  rintro ⟨same_block, pending⟩
  have filed := List.find?_some found
  rw [Definition.isAt, decide_eq_true_eq, same_block] at filed
  exact settled location ⟨definition, filed.1 ▸ found, pending⟩

theorem content?_withoutPending_of_settled {graph : FlowGraph}
    (settled : ∀ location, ¬ tracker.IsPending location block) :
    ({ tracker with table := tracker.table.withoutPending block } : Tracker).content? graph location
      elsewhere = tracker.content? graph location elsewhere := by
  rw [content?, content?, definitionIn?_congr (by rfl) (get?_withoutPending settled)]

end Tracker

/-! ### The start -/

namespace Tracker

variable {graph : FlowGraph} {func : Function} {tracker before after : Tracker}

/-- What is noted at the start: the writes of blocks, and arguments at the entry. -/
structure Noted (graph : FlowGraph) (tracker : Tracker) : Prop where
  pending : ∀ location block, tracker.IsPending location block → graph.Writes block location
  known : ∀ location block value,
    (tracker.table.get? location block).bind Definition.value? = some value →
      block = graph.entry ∧ (tracker.bindingAt? location).map Binding.value = some value

theorem Noted.bindArgument {register : Register} (noted : before.Noted graph)
    (binds : Tracker.bindArgument graph func before register = .ok after) : after.Noted graph := by
  rcases bindArgument_eq_ok binds with ⟨-, rfl⟩ | ⟨value, table, -, filed, rfl⟩
  · exact noted
  constructor
  · intro location block pending
    exact noted.pending location block ((isPending_record_iff filed).mp pending).2
  · intro location block known found
    dsimp only at found
    rw [Table.get?_record filed] at found
    split at found
    · next here =>
      rcases here with ⟨rfl, rfl⟩
      cases found
      exact ⟨rfl, by simp [bindingAt?, binding?]⟩
    · next elsewhere =>
      rcases noted.known location block known found with ⟨rfl, bound⟩
      refine ⟨rfl, ?_⟩
      cases location with
      | flag _ => exact bound
      | register other =>
          have different : other ≠ graph.convention.canonical register :=
            fun same => elsewhere ⟨congrArg Location.register same, rfl⟩
          rwa [bindingAt?, binding?, List.lookup_cons, beq_false_of_ne different]

theorem Noted.seedWrite {block : BlockId} {register : Register} (noted : before.Noted graph)
    (mem : (block, register) ∈ graph.writes)
    (seeds : Tracker.seedWrite graph before block register = .ok after) : after.Noted graph := by
  rcases seedWrite_eq_ok seeds with ⟨table, marked, rfl⟩
  constructor
  · intro location other pending
    rcases (isPending_markPending_iff marked).mp pending with ⟨rfl, rfl⟩ | old
    · exact ⟨register, mem, FlowGraph.locationOf_of_mem_writes mem⟩
    · exact noted.pending location other old
  · intro location other known found
    dsimp only at found
    rw [Table.get?_markPending marked] at found
    split at found
    · cases found
    · exact noted.known location other known found

theorem noted_of_start (starts : start graph func = .ok tracker) : tracker.Noted graph := by
  rcases start_eq_ok starts with ⟨bound, binds, seeds⟩
  have binding : ∀ register ∈ graph.convention.argumentRegisters, ∀ before after : Tracker,
      before.Noted graph → Tracker.bindArgument graph func before register = .ok after →
      after.Noted graph :=
    fun _ _ _ _ noted binds => noted.bindArgument binds
  have seeding : ∀ write ∈ graph.writes, ∀ before after : Tracker,
      before.Noted graph → Tracker.seedWrite graph before write.1 write.2 = .ok after →
      after.Noted graph :=
    fun _ mem _ _ noted seeds => noted.seedWrite mem seeds
  have noted_bound := foldlM_invariant binding binds
  have noted_seeded := foldlM_invariant seeding seeds
  refine noted_seeded (noted_bound ⟨?_, ?_⟩)
  · rintro location block ⟨definition, found, -⟩
    cases found
  · intro location block value found
    cases found

/-- What a block writes is pending there at the start, and the registers have a width. -/
theorem isPending_of_start (starts : start graph func = .ok tracker) {block : BlockId}
    {register : Register} (mem : (block, register) ∈ graph.writes) :
    tracker.IsPending (.register (graph.convention.canonical register)) block ∧
      graph.convention.width register ≠ 0 := by
  rcases start_eq_ok starts with ⟨bound, _, seeds⟩
  have makes : ∀ before after : Tracker,
      Tracker.seedWrite graph before block register = .ok after →
      after.IsPending (.register (graph.convention.canonical register)) block ∧
        graph.convention.width register ≠ 0 := by
    intro before after seeds
    rcases seedWrite_eq_ok seeds with ⟨table, marked, rfl⟩
    refine ⟨(isPending_markPending_iff marked).mpr (.inl ⟨rfl, rfl⟩), fun none => ?_⟩
    rw [Table.markPending, Table.insert, Definition.check, none] at marked
    cases marked
  have kept : ∀ (before : Tracker) (other : BlockId × Register) (after : Tracker),
      (before.IsPending (.register (graph.convention.canonical register)) block ∧
        graph.convention.width register ≠ 0) →
      Tracker.seedWrite graph before other.1 other.2 = .ok after →
      (after.IsPending (.register (graph.convention.canonical register)) block ∧
        graph.convention.width register ≠ 0) := by
    rintro before other after ⟨pending, wide⟩ seeds
    rcases seedWrite_eq_ok seeds with ⟨table, marked, rfl⟩
    exact ⟨(isPending_markPending_iff marked).mpr (.inr pending), wide⟩
  have noted := foldlM_of_mem mem makes kept seeds
  exact noted

/-- At the start, exactly what blocks write is pending. -/
theorem isPending_start_iff (starts : start graph func = .ok tracker) {location : Location}
    {block : BlockId} : tracker.IsPending location block ↔ graph.Writes block location := by
  constructor
  · exact (noted_of_start starts).pending location block
  · rintro ⟨register, mem, located⟩
    rw [FlowGraph.locationOf_of_mem_writes mem] at located
    cases located
    exact (isPending_of_start starts mem).1

end Tracker

/-! ### Moves -/

section Move

variable {graph : FlowGraph} {location : Location} {block other : BlockId} {before after : Raising}

theorem Move.get?_of_isPending (move : Move graph block before after)
    (pending : after.tracker.IsPending location other) :
    before.tracker.IsPending location other := by
  cases move with
  | tally _ => exact pending
  | grow _ => exact pending
  | note _ => exact pending
  | supply _ _ chain =>
      rw [chain.tracker_eq] at pending
      exact pending
  | file _ _ filed =>
      exact ((Tracker.isPending_record_iff filed).mp pending).2

/-- Moves make nothing pending. -/
theorem Moves.isPending (moves : Moves graph block before after)
    (pending : after.tracker.IsPending location other) :
    before.tracker.IsPending location other := by
  induction moves with
  | refl => exact pending
  | tail _ move ih => exact ih (move.get?_of_isPending pending)

theorem Move.isSome_content? (move : Move graph block before after)
    (held : (before.tracker.content? graph location other).isSome) :
    (after.tracker.content? graph location other).isSome := by
  cases move with
  | tally _ => exact held
  | grow _ => exact held
  | note _ => exact held
  | supply _ _ chain =>
      rw [chain.tracker_eq]
      exact held
  | file _ _ filed =>
      rw [Tracker.content?_record filed]
      split
      · rfl
      · exact held

/-- Moves leave a definition where there is one. -/
theorem Moves.isSome_content? (moves : Moves graph block before after)
    (held : (before.tracker.content? graph location other).isSome) :
    (after.tracker.content? graph location other).isSome := by
  induction moves with
  | refl => exact held
  | tail _ move ih => exact move.isSome_content? ih

end Move

/-! ### Actions -/

/-- A value is recorded for a register that has a width. -/
theorem Action.run_writeRegister {graph : FlowGraph} {register : Register} {location : Location}
    (located : graph.convention.locationOf register = .ok location)
    (wide : graph.convention.width register ≠ 0) (block : BlockId) (value : ValueId)
    (before : Raising) :
    ∃ table, before.tracker.table.record location block (graph.convention.width register) value =
        .ok table ∧
      ((Action.writeRegister register block value).step graph).run before =
        .ok none (({ before with tracker := { before.tracker with table } } : Raising).tally
          Statistics.countDefinition) := by
  rcases @Table.record_eq_ok before.tracker.table location block _ value (Nat.pos_of_ne_zero wide)
    (fun flagged => by simp [Raise.isFlag_of_locationOf located] at flagged) with ⟨table, filed⟩
  refine ⟨table, filed, ?_⟩
  have defines := Raise.run_define location block (graph.convention.width register) value before
  rw [filed] at defines
  rw [step, Raise.writeRegister, located]
  exact Raise.run_bind_of_ok (Raise.run_bind_of_ok defines)

namespace Session

variable {graph : FlowGraph} {session : Session} {location : Location} {block : BlockId}
  {action : Action} {actions : List Action}

/-- Draining changes nothing that the tracker knows about locations. -/
theorem content?_drain (graph : FlowGraph) (session : Session) (location : Location)
    (block : BlockId) :
    (session.perform graph .drain).raising.tracker.content? graph location block =
      session.raising.tracker.content? graph location block := by
  rcases exists_drained graph session with ⟨done, drained⟩
  generalize session.perform graph .drain = after at drained ⊢
  cases drained with
  | intro split chain =>
      dsimp only
      rw [chain.tracker_eq_settled]
      rfl

/-- An action does not change what blocks hold in which it does not work. -/
theorem InOrder.content?_perform (closed : graph.Closed) (ordered : session.InOrder graph)
    (allowed : session.Allows action) (elsewhere : action.block? ≠ some block) :
    (session.perform graph action).raising.tracker.content? graph location block =
      session.raising.tracker.content? graph location block := by
  by_cases drains : action = .drain
  · subst drains
    exact content?_drain ..
  · have working : ∃ worked, worked ≠ block ∧ action.WorksIn worked := by
      cases works : action.block? with
      | some worked =>
          refine ⟨worked, ?_, action.worksIn_of_block? works⟩
          rintro rfl
          exact elsewhere works
      | none => exact ⟨block + 1, Nat.succ_ne_self block, action.worksIn_of_block?_eq_none _ works⟩
    rcases working with ⟨worked, different, works⟩
    have change := perform_change closed ordered.flagged works allowed drains
    generalize session.perform graph action = after at change ⊢
    cases change with
    | moves moves => exact moves.proceeds.content_of_ne _ _ (Ne.symm different)
    | dropped =>
        apply Tracker.content?_withoutPending
        intro definition found
        have filed := List.find?_some found
        rw [Definition.isAt, decide_eq_true_eq] at filed
        rw [Table.isPendingIn, decide_eq_false_iff_not]
        exact fun pending => different (pending.1.symm.trans filed.1)
    | terminated _ _ => rfl
    | allocated _ _ => rfl
    | stored _ => rfl

theorem InOrder.content?_after (closed : graph.Closed) (ordered : session.InOrder graph)
    (allowed : AllowsAll graph session actions)
    (elsewhere : ∀ action ∈ actions, action.block? ≠ some block) :
    (session.after graph actions).raising.tracker.content? graph location block =
      session.raising.tracker.content? graph location block := by
  refine ordered.keeps_after (motive := fun later => later.raising.tracker.content? graph location
    block = session.raising.tracker.content? graph location block) closed allowed ?_ rfl
  intro later action mem ordered allowed kept
  exact (ordered.content?_perform closed allowed (elsewhere action mem)).trans kept

end Session

end RegisterFlow
