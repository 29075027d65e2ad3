import Mathlib.Tactic.Common
import RegisterFlow.Proofs.Tracking.Lasting

/-!
# The arguments of a function

The integer arguments of a function are handed to the argument registers in order. At the entry each
of these registers holds its argument, until the entry block defines the register itself: whatever
else happens in a session, a read in the entry block gives the argument and builds nothing.
-/

namespace RegisterFlow

/-! ### Integer arguments -/

/-- The item at an index among those of a list that pass a test. -/
theorem getElem?_filter_iff {α : Type} {keeps : α → Bool} {items : List α} {index : Nat} {item : α} :
    (items.filter keeps)[index]? = some item ↔
      ∃ place, items[place]? = some item ∧ keeps item = true ∧
        (items.take place).countP keeps = index := by
  induction items generalizing index with
  | nil => simp
  | cons first rest ih =>
      cases kept : keeps first with
      | false =>
          rw [List.filter_cons_of_neg (by simp [kept]), ih]
          constructor
          · rintro ⟨place, found, keeps_item, counted⟩
            exact ⟨place + 1, found, keeps_item, by simp [kept, counted]⟩
          · rintro ⟨_ | place, found, keeps_item, counted⟩
            · simp only [List.getElem?_cons_zero, Option.some.injEq] at found
              simp [← found, kept] at keeps_item
            · exact ⟨place, found, keeps_item, by simpa [kept] using counted⟩
      | true =>
          rw [List.filter_cons_of_pos kept]
          cases index with
          | zero =>
              constructor
              · intro found
                simp only [List.getElem?_cons_zero, Option.some.injEq] at found
                exact ⟨0, by simp [found], found ▸ kept, rfl⟩
              · rintro ⟨_ | place, found, -, counted⟩
                · exact found
                · simp [kept] at counted
          | succ index =>
              rw [List.getElem?_cons_succ, ih]
              constructor
              · rintro ⟨place, found, keeps_item, counted⟩
                exact ⟨place + 1, found, keeps_item, by simp [kept, counted]⟩
              · rintro ⟨_ | place, found, keeps_item, counted⟩
                · simp at counted
                · exact ⟨place, found, keeps_item, by simpa [kept] using counted⟩

/-- The argument with a number is of a type that travels in the integer register at a position. -/
def CarriedAt (types : List Ty) (position : Nat) (argument : ValueId) (ty : Ty) : Prop :=
  types[argument]? = some ty ∧ ty.IsIntegerClass ∧
    (types.take argument).countP (·.IsIntegerClass) = position

section Empty

variable {name : String} {types : List Ty} {blockNames : List String} {position : Nat}
  {argument : ValueId} {ty : Ty}

theorem Function.ty_empty :
    (Function.empty name types blockNames).ty argument = types[argument]?.getD .void := by
  simp only [Function.ty, Function.value, Function.empty, List.getElem?_toArray,
    List.getElem?_mapIdx]
  cases types[argument]? <;> rfl

theorem integerArguments_empty :
    Tracker.integerArguments (Function.empty name types blockNames) =
      (List.range types.length).filter fun argument =>
        (types[argument]?.getD .void).IsIntegerClass := by
  simp only [Tracker.integerArguments, Function.ty_empty]
  rfl

theorem countP_range {count : Nat} (short : count ≤ types.length) :
    (List.range count).countP (fun argument => (types[argument]?.getD .void).IsIntegerClass) =
      (types.take count).countP (·.IsIntegerClass) := by
  have taken : types.take count =
      (List.range count).map fun argument => types[argument]?.getD .void := by
    apply List.ext_getElem?
    intro index
    rw [List.getElem?_take, List.getElem?_map]
    split
    · next inside =>
      rw [List.getElem?_range inside]
      simp [List.getElem?_eq_getElem (Nat.lt_of_lt_of_le inside short)]
    · next outside =>
      simp [Nat.not_lt.mp outside]
  rw [taken, List.countP_map]
  rfl

/-- The integer arguments in order. -/
theorem getElem?_integerArguments_iff :
    (Tracker.integerArguments (Function.empty name types blockNames))[position]? = some argument ↔
      ∃ ty, CarriedAt types position argument ty := by
  rw [integerArguments_empty, getElem?_filter_iff]
  constructor
  · rintro ⟨place, found, travels, counted⟩
    rcases List.getElem?_eq_some_iff.mp found with ⟨inside, rfl⟩
    rw [List.length_range] at inside
    rw [List.getElem_range] at travels ⊢
    rw [List.take_range, Nat.min_eq_left (Nat.le_of_lt inside),
      countP_range (Nat.le_of_lt inside)] at counted
    rw [List.getElem?_eq_getElem inside] at travels
    exact ⟨types[place], List.getElem?_eq_getElem inside, of_decide_eq_true travels, counted⟩
  · rintro ⟨ty, found, travels, counted⟩
    rcases List.getElem?_eq_some_iff.mp found with ⟨inside, -⟩
    refine ⟨argument, List.getElem?_range inside, ?_, ?_⟩
    · rw [found]
      exact decide_eq_true travels
    · rw [List.take_range, Nat.min_eq_left (Nat.le_of_lt inside),
        countP_range (Nat.le_of_lt inside), counted]

theorem length_integerArguments :
    (Tracker.integerArguments (Function.empty name types blockNames)).length =
      types.countP (·.IsIntegerClass) := by
  rw [integerArguments_empty, ← List.countP_eq_length_filter, countP_range (Nat.le_refl _),
    List.take_length]

end Empty

/-! ### Bindings -/

namespace Tracker

variable {graph : FlowGraph} {func : Function} {tracker before after : Tracker}
  {register : Register} {binding : Binding}

/-- The argument of a register and its width. -/
def carried? (graph : FlowGraph) (func : Function) (register : Register) : Option Binding :=
  (argumentOf? graph func register).map fun value => { value, width := (func.ty value).bits }

theorem bindings_seedWrite {block : BlockId} {written : Register}
    (seeds : seedWrite graph before block written = .ok after) :
    after.bindings = before.bindings := by
  rcases seedWrite_eq_ok seeds with ⟨table, -, rfl⟩
  rfl

theorem bindings_foldlM_seedWrite {writes : List (BlockId × Register)}
    (seeds : writes.foldlM (fun tracker (block, register) => seedWrite graph tracker block register)
      before = .ok after) :
    after.bindings = before.bindings := by
  have kept : ∀ write ∈ writes, ∀ middle later : Tracker, middle.bindings = before.bindings →
      seedWrite graph middle write.1 write.2 = .ok later → later.bindings = before.bindings :=
    fun _ _ _ _ same seeds => (bindings_seedWrite seeds).trans same
  have seeded := foldlM_invariant kept seeds
  exact seeded rfl

/-- A full register is bound to the argument that it carries, if it carries one. -/
theorem binding?_bindArgument {written : Register}
    (canonical : graph.convention.canonical = Register.full) (full : written.full = written)
    (binds : bindArgument graph func before written = .ok after) :
    after.binding? register =
      if register = written ∧ (carried? graph func register).isSome then
        carried? graph func register
      else before.binding? register := by
  rcases bindArgument_eq_ok binds with ⟨none, rfl⟩ | ⟨value, table, found, -, rfl⟩
  · refine (if_neg ?_).symm
    rintro ⟨rfl, carries⟩
    rw [carried?, none] at carries
    cases carries
  · rw [binding?, List.lookup_cons, canonical, full]
    by_cases same : register = written
    · subst same
      simp [carried?, found]
    · rw [beq_eq_false_iff_ne.mpr same, if_neg fun both => same both.1]
      rfl

/-- Binding full registers binds those that carry an argument, and no others. -/
theorem binding?_foldlM_bindArgument {registers : List Register}
    (canonical : graph.convention.canonical = Register.full)
    (full : ∀ listed ∈ registers, listed.full = listed)
    (binds : registers.foldlM (bindArgument graph func) before = .ok after) :
    after.binding? register =
      if register ∈ registers ∧ (carried? graph func register).isSome then
        carried? graph func register
      else before.binding? register := by
  induction registers generalizing before with
  | nil =>
      cases binds
      simp
  | cons first rest ih =>
      rw [List.foldlM_cons] at binds
      cases bound : bindArgument graph func before first with
      | error failure =>
          rw [bound] at binds
          cases binds
      | ok middle =>
          rw [bound] at binds
          rw [ih (fun listed mem => full listed (List.mem_cons_of_mem _ mem)) binds,
            binding?_bindArgument canonical (full first List.mem_cons_self) bound]
          by_cases behind : register ∈ rest <;> by_cases carries : (carried? graph func register).isSome
            <;> simp [behind, carries]

/-- The registers that are bound at the start are those listed that carry an argument. -/
theorem binding?_of_start (canonical : graph.convention.canonical = Register.full)
    (full : ∀ listed ∈ graph.convention.argumentRegisters, listed.full = listed)
    (starts : start graph func = .ok tracker) :
    tracker.binding? register =
      if register ∈ graph.convention.argumentRegisters then carried? graph func register
      else none := by
  rcases start_eq_ok starts with ⟨bound, binds, seeds⟩
  rw [binding?, bindings_foldlM_seedWrite seeds, ← binding?,
    binding?_foldlM_bindArgument canonical full binds]
  by_cases listed : register ∈ graph.convention.argumentRegisters
  · cases carries : carried? graph func register <;> simp [listed, binding?]
  · simp [listed, binding?]

/-- The position of a full register in a list without duplicates. -/
theorem argumentIndex?_eq_some_iff {position : Nat}
    (canonical : graph.convention.canonical = Register.full)
    (distinct : graph.convention.argumentRegisters.Nodup)
    (full : ∀ listed ∈ graph.convention.argumentRegisters, listed.full = listed)
    (listed : register ∈ graph.convention.argumentRegisters) :
    graph.convention.argumentIndex? register = some position ↔
      graph.convention.argumentRegisters[position]? = some register := by
  rw [Convention.argumentIndex?, Convention.indexAmong?, canonical, full register listed,
    full register listed, List.findIdx?_eq_some_iff_getElem]
  constructor
  · rintro ⟨inside, found, -⟩
    rw [List.getElem?_eq_getElem inside, eq_of_beq found]
  · intro found
    rcases List.getElem?_eq_some_iff.mp found with ⟨inside, rfl⟩
    refine ⟨inside, beq_self_eq_true _, ?_⟩
    intro earlier before
    have different : earlier ≠ position := Nat.ne_of_lt before
    simp [distinct.getElem_inj_iff, different]

/-- A register is bound at the start to the integer argument at its own position in the list. -/
theorem binding?_eq_some_iff {name : String} {types : List Ty} {blockNames : List String}
    (canonical : graph.convention.canonical = Register.full)
    (distinct : graph.convention.argumentRegisters.Nodup)
    (full : ∀ listed ∈ graph.convention.argumentRegisters, listed.full = listed)
    (starts : start graph (Function.empty name types blockNames) = .ok tracker) :
    tracker.binding? register = some binding ↔
      ∃ position ty, graph.convention.argumentRegisters[position]? = some register ∧
        CarriedAt types position binding.value ty ∧ binding.width = ty.bits := by
  rw [binding?_of_start canonical full starts]
  constructor
  · intro bound
    split at bound
    · next listed =>
      rcases Option.map_eq_some_iff.mp bound with ⟨value, carried, rfl⟩
      rcases Option.bind_eq_some_iff.mp carried with ⟨position, indexed, found⟩
      rcases getElem?_integerArguments_iff.mp found with ⟨ty, carriedAt⟩
      refine ⟨position, ty, ?_, carriedAt, ?_⟩
      · exact (argumentIndex?_eq_some_iff canonical distinct full listed).mp indexed
      · rw [Function.ty_empty, carriedAt.1, Option.getD_some]
    · cases bound
  · rintro ⟨position, ty, at_position, carriedAt, width⟩
    have listed := List.mem_of_getElem? at_position
    have indexed := (argumentIndex?_eq_some_iff canonical distinct full listed).mpr at_position
    have found : (integerArguments (Function.empty name types blockNames))[position]? =
        some binding.value := getElem?_integerArguments_iff.mpr ⟨ty, carriedAt⟩
    rw [if_pos listed, carried?, argumentOf?, indexed, Option.bind_some, found, Option.map_some,
      Function.ty_empty, carriedAt.1, Option.getD_some, ← width]

/-- The register at a position is bound if there are more integer arguments than that. -/
theorem isSome_binding?_iff {name : String} {types : List Ty} {blockNames : List String}
    {position : Nat} (canonical : graph.convention.canonical = Register.full)
    (distinct : graph.convention.argumentRegisters.Nodup)
    (full : ∀ listed ∈ graph.convention.argumentRegisters, listed.full = listed)
    (starts : start graph (Function.empty name types blockNames) = .ok tracker)
    (at_position : graph.convention.argumentRegisters[position]? = some register) :
    (tracker.binding? register).isSome ↔ position < types.countP (·.IsIntegerClass) := by
  have listed := List.mem_of_getElem? at_position
  have indexed := (argumentIndex?_eq_some_iff canonical distinct full listed).mpr at_position
  rw [binding?_of_start canonical full starts, if_pos listed, carried?, Option.isSome_map,
    argumentOf?, indexed, Option.bind_some, isSome_getElem?, length_integerArguments]

/-! ### Bound registers at the entry -/

/-- Every bound register holds its argument in the entry block. -/
def HoldsArguments (graph : FlowGraph) (tracker : Tracker) : Prop :=
  ∀ register binding, tracker.binding? register = some binding →
    tracker.definitionIn? graph (.register register) graph.entry =
      some (binding.atEntry graph (.register register))

theorem HoldsArguments.bindArgument {written : Register} (holds : before.HoldsArguments graph)
    (binds : Tracker.bindArgument graph func before written = .ok after) :
    after.HoldsArguments graph := by
  intro register binding bound
  rcases bindArgument_eq_ok binds with ⟨-, rfl⟩ | ⟨value, table, -, filed, rfl⟩
  · exact holds register binding bound
  · rw [binding?, List.lookup_cons] at bound
    by_cases same : register = graph.convention.canonical written
    · subst same
      rw [beq_self_eq_true] at bound
      cases bound
      refine definitionIn?_of_known ?_ rfl
      rw [Table.get?_record filed, if_pos ⟨rfl, rfl⟩]
      rfl
    · rw [beq_eq_false_iff_ne.mpr same] at bound
      rw [← holds register binding bound]
      apply definitionIn?_congr_at
      · simp [bindingAt?, binding?, List.lookup_cons, beq_eq_false_iff_ne.mpr same]
      · rw [Table.get?_record filed, if_neg fun both => same (Location.register.inj both.1)]

theorem HoldsArguments.seedWrite {block : BlockId} {written : Register}
    (holds : before.HoldsArguments graph)
    (seeds : Tracker.seedWrite graph before block written = .ok after) :
    after.HoldsArguments graph := by
  intro register binding bound
  rcases seedWrite_eq_ok seeds with ⟨table, marked, rfl⟩
  by_cases here : Location.register register =
      .register (graph.convention.canonical written) ∧ graph.entry = block
  · refine definitionIn?_of_binding bound ?_
    rw [Table.get?_markPending marked, if_pos here]
    rfl
  · rw [← holds register binding bound]
    refine definitionIn?_congr (by rfl) ?_
    rw [Table.get?_markPending marked, if_neg here]

theorem holdsArguments_of_start (starts : start graph func = .ok tracker) :
    tracker.HoldsArguments graph := by
  rcases start_eq_ok starts with ⟨bound, binds, seeds⟩
  have binding : ∀ register ∈ graph.convention.argumentRegisters, ∀ before after : Tracker,
      before.HoldsArguments graph → Tracker.bindArgument graph func before register = .ok after →
      after.HoldsArguments graph :=
    fun _ _ _ _ holds binds => holds.bindArgument binds
  have seeding : ∀ write ∈ graph.writes, ∀ before after : Tracker,
      before.HoldsArguments graph → Tracker.seedWrite graph before write.1 write.2 = .ok after →
      after.HoldsArguments graph :=
    fun _ _ _ _ holds seeds => holds.seedWrite seeds
  have holds_bound := foldlM_invariant binding binds
  have holds_seeded := foldlM_invariant seeding seeds
  refine holds_seeded (holds_bound ?_)
  intro register binding bound
  cases bound

/-- A bound register holds its argument in the entry block until the block writes the register. -/
theorem knows_argument_after {session : Session} {actions : List Action}
    (starts : start graph session.raising.func = .ok session.raising.tracker)
    (bound : session.raising.tracker.binding? register = some binding)
    (silent : ∀ action ∈ actions, ¬ action.Records graph (.register register) graph.entry) :
    (session.after graph actions).raising.tracker.Knows graph (.register register) graph.entry
      (binding.atEntry graph (.register register)) := by
  have knows : session.raising.tracker.Knows graph (.register register) graph.entry
      (binding.atEntry graph (.register register)) := by
    refine ⟨ordered_of_start starts, ?_, rfl⟩
    exact holdsArguments_of_start starts register binding bound
  exact knows.after silent

end Tracker

/--
The argument registers are bound in order to the integer arguments, with the widths of their types,
and no other register is bound. The bindings never change, and until the entry block writes a bound
register, a read there of any part of it gives the argument and builds nothing.
-/
theorem arguments_bound_and_kept {graph : FlowGraph} {registers : List Register} {name : String}
    {types : List Ty} {blockNames : List String} {tracker : Tracker}
    (standard : graph.convention =
      { width := Register.width, canonical := Register.full, argumentRegisters := registers })
    (distinct : registers.Nodup) (full : ∀ listed ∈ registers, listed.full = listed)
    (starts : Tracker.start graph (Function.empty name types blockNames) = .ok tracker) :
    (∀ register binding, tracker.binding? register = some binding ↔
      ∃ position ty, registers[position]? = some register ∧
        CarriedAt types position binding.value ty ∧ binding.width = ty.bits) ∧
    (∀ position register, registers[position]? = some register →
      ((tracker.binding? register).isSome ↔ position < types.countP (·.IsIntegerClass))) ∧
    ∀ actions : List Action,
      let start : Session := { raising := { func := Function.empty name types blockNames, tracker } }
      let reached := (start.after graph actions).raising
      reached.tracker.bindings = tracker.bindings ∧
      ∀ register binding, tracker.binding? register = some binding →
        (∀ action ∈ actions, ¬ action.Records graph (.register register) graph.entry) →
        ∀ part : Register, part ≠ .null → part.full = register →
          graph.convention.locationOf part = .ok (.register register) ∧
          reached.tracker.definitionIn? graph (.register register) graph.entry =
            some (binding.atEntry graph (.register register)) ∧
          ∀ allPaths asNative,
            (Raise.readRegister graph part graph.entry allPaths asNative).run reached =
              .ok (some binding.value) (reached.tally Statistics.countLocalHit) := by
  have listed_eq : graph.convention.argumentRegisters = registers := by rw [standard]
  have canonical : graph.convention.canonical = Register.full := by rw [standard]
  rw [← listed_eq] at distinct full ⊢
  refine ⟨?_, ?_, ?_⟩
  · intro register binding
    exact Tracker.binding?_eq_some_iff canonical distinct full starts
  · intro position register at_position
    exact Tracker.isSome_binding?_iff canonical distinct full starts at_position
  · intro actions start reached
    refine ⟨Tracker.bindings_after start actions, ?_⟩
    intro register binding bound silent part proper same
    have kept : reached.tracker.Knows graph (.register register) graph.entry
        (binding.atEntry graph (.register register)) :=
      Tracker.knows_argument_after starts bound silent
    have located : graph.convention.locationOf part = .ok (.register register) := by
      rw [Convention.locationOf, if_neg proper, canonical, same]
    refine ⟨located, kept.defined, ?_⟩
    intro allPaths asNative
    exact Raise.run_readRegister_of_known located (kept.valueIn?_eq rfl)

/-- A loop of one block, which writes the first argument register. -/
def headGraph : FlowGraph where
  blocks :=
    #[{ name := "entry", predecessors := [0], effects := [{ writes := [.rdi], family := .add }] }]

/-- What a driver does in the loop before it ends the block. -/
def headActions : List Action :=
  [.readRegister .rsi 0 true true, .writeRegister .rdi 0 0, .endBlock 0, .drain]

/-- The second integer argument, which comes after one that is not, stays in its register. -/
theorem arguments_bound_and_kept_head :
    ∃ tracker,
      Tracker.start headGraph (Function.empty "head" [.int 64, .f64, .int 32] ["entry"]) =
        .ok tracker ∧
      tracker.binding? .rsi = some { value := 2, width := 32 } ∧
      let start : Session :=
        { raising := { func := Function.empty "head" [.int 64, .f64, .int 32] ["entry"], tracker } }
      let reached := (start.after headGraph headActions).raising
      (Raise.readRegister headGraph (.general .word 6) 0 false true).run reached =
        .ok (some 2) (reached.tally Statistics.countLocalHit) := by
  have succeeds : (Tracker.start headGraph
      (Function.empty "head" [.int 64, .f64, .int 32] ["entry"])).toOption.isSome = true := by
    cbv
  cases starts : Tracker.start headGraph
      (Function.empty "head" [.int 64, .f64, .int 32] ["entry"]) with
  | error failure =>
      rw [starts] at succeeds
      cases succeeds
  | ok tracker =>
      have standard : headGraph.convention =
          { width := Register.width, canonical := Register.full,
            argumentRegisters := Convention.systemVArguments } := rfl
      have all := arguments_bound_and_kept standard (by decide) (by decide) starts
      have bound : tracker.binding? .rsi = some { value := 2, width := 32 } := by
        apply (all.1 _ _).mpr
        exact ⟨1, .int 32, rfl, ⟨rfl, trivial, by decide⟩, rfl⟩
      refine ⟨tracker, rfl, bound, ?_⟩
      have silent : ∀ action ∈ headActions,
          ¬ action.Records headGraph (.register .rsi) headGraph.entry := by
        simp [headActions, Action.Records, Action.Sets, Convention.locationOf, headGraph,
          Convention.systemV, Register.full]
      exact ((all.2.2 headActions).2 .rsi _ bound silent (.general .word 6) (by decide) rfl).2.2
        false true

end RegisterFlow
