import RegisterFlow.Proofs.Tracking.Contents
import RegisterFlow.Proofs.Tracking.Supply
import RegisterFlow.Proofs.Tracking.Widths

/-!
# What merged reads evaluate to

Where definitions of a register meet, an execution reads what the block stored that it visited last
of all those that supply the slot. The number is that of the definition in this block, converted to
the type of the slot and from there to the type of the read. If the known values are held by
different blocks, then this is the latest definition on the way, as long as that one is known.
-/

namespace RegisterFlow

/-! ### Ways to a block -/

/-- A way brings a value to a block: a block that knows it is left, and no definition is passed. -/
structure Tracker.Brings (graph : FlowGraph) (tracker : Tracker) (location : Location)
    (source : BlockId) (given : ValueId) (between : List BlockId) (block : BlockId) : Prop where
  path : graph.Path source between block
  known : tracker.content? graph location source = some (.known given)
  passes : ∀ other ∈ between, tracker.content? graph location other = none

section Ways

variable {graph : FlowGraph} {tracker : Tracker} {location : Location} {source block : BlockId}
  {given : ValueId} {between : List BlockId}

theorem Tracker.Brings.reaches (brings : tracker.Brings graph location source given between block) :
    Tracker.Reaches graph tracker location source block :=
  Tracker.reaches_of_path brings.path (by simp [brings.known]) brings.passes

theorem Tracker.bindingAt?_mem {binding : Binding}
    (bound : tracker.bindingAt? location = some binding) :
    ∃ register, (register, binding) ∈ tracker.bindings := by
  cases location with
  | register register =>
      rw [bindingAt?, binding?, List.lookup_eq_some_iff] at bound
      rcases bound with ⟨front, back, split, _⟩
      exact ⟨register, by simp [split]⟩
  | flag flag => cases bound

/-- Values that blocks know are values of the function. -/
theorem Raising.Ranged.lt_size {raising : Raising} (ranged : raising.Ranged)
    (known : raising.tracker.content? graph location block = some (.known given)) :
    given < raising.func.values.size := by
  rcases Tracker.get?_of_known known with filed | ⟨_, bound⟩
  · rcases Option.bind_eq_some_iff.mp filed with ⟨definition, found, value⟩
    exact ranged.filed definition (List.mem_of_find?_eq_some found) given value
  · rcases Option.map_eq_some_iff.mp bound with ⟨binding, found, rfl⟩
    rcases Tracker.bindingAt?_mem found with ⟨register, mem⟩
    exact ranged.bound _ mem

theorem Raising.Ranged.allHeld {raising : Raising} (ranged : raising.Ranged)
    (closed : graph.Closed) (allPaths : Bool) :
    ReachingDefinition.AllHeld (raising.tracker.reaching graph location block allPaths)
      raising.func := by
  intro hit mem value known
  exact ranged.lt_size (known ▸ (Tracker.reaches_of_mem_reaching closed mem).2)

end Ways

/-! ### A meeting -/

/--
The latest definition on a way among those that meet: it is one of them, with a known value, and no
block that is visited after it holds another one.
-/
structure ReachingDefinition.Latest (hits : List ReachingDefinition) (source : BlockId)
    (given : ValueId) (between : List BlockId) : Prop where
  mem : { block := source, content := .known given } ∈ hits
  passes : ∀ other ∈ between, ∀ held,
    ({ block := other, content := .known held } : ReachingDefinition) ∉ hits

/-- If the known values are held by different blocks, no definition is missed on a way. -/
theorem Tracker.Brings.latest {graph : FlowGraph} {tracker : Tracker} {location : Location}
    {source block : BlockId} {given : ValueId} {between : List BlockId} {allPaths : Bool}
    (brings : tracker.Brings graph location source given between block) (closed : graph.Closed)
    (distinct : tracker.Distinct graph location block)
    (nonempty : tracker.reaching graph location block allPaths ≠ []) :
    ReachingDefinition.Latest (tracker.reaching graph location block allPaths) source given
      between where
  mem := distinct.mem_reaching closed nonempty brings.reaches brings.known
  passes other other_mem held mem := by
    have known := (Tracker.reaches_of_mem_reaching closed mem).2
    rw [brings.passes other other_mem] at known
    cases known

namespace Met

variable {graph : FlowGraph} {location : Location} {ty : Ty} {block source : BlockId}
  {hits : List ReachingDefinition} {native : Option Ty} {value given : ValueId}
  {before after : Raising}

/-- Each known definition that meets others is stored once, at the type of the slot. -/
theorem exists_stored (closed : graph.Closed) (kept : before.WellKept graph)
    (reached : before.tracker.reaching graph location block false = hits)
    (met : Met location ty block hits native before value after)
    (mem : { block := source, content := .known given } ∈ hits) :
    ∃ converted, after.func.storedIn before.func.slots.size source = [converted] ∧
      Adjusts after.func source given ty converted := by
  rcases met.exists_chain with ⟨supplied, chain, quiet, _, _⟩
  subst reached
  rcases Tracker.reaches_of_mem_reaching closed mem with ⟨reaches, known⟩
  have opened : before.func.Grows (before.opened location ty).func := Function.grows_withSlot ..
  have opened_numbered := opened.numbered kept.numbered
  have held : given < (before.opened location ty).func.values.size :=
    Nat.lt_of_lt_of_le (kept.ranged.lt_size known) opened.size_le
  have bound : source < (before.opened location ty).func.blocks.size := by
    rw [opened.blockCount_eq, kept.blockCount_eq]
    exact reaches.source_lt closed
  have unused : (before.opened location ty).func.storedIn before.func.slots.size source = [] :=
    (Function.storedIn_withSlot kept.numbered ..).trans
      (kept.storedIn_new _ (Nat.le_refl _) source)
  have slotTy : ((before.opened location ty).func.slot before.func.slots.size).ty = ty := by
    simp [Raising.opened]
  rcases chain.exists_adjusts opened_numbered (Tracker.nodup_reaching_blocks closed false) mem
    unused held bound with ⟨converted, stores, adjusts⟩
  have supplied_numbered := chain.grows.numbered opened_numbered
  refine ⟨converted, ?_, ?_⟩
  · rw [quiet.storedIn_eq supplied_numbered, stores]
  · rw [← slotTy]
    exact adjusts.mono quiet.toExtends (Nat.lt_of_lt_of_le held chain.grows.size_le)
      supplied_numbered

/-- A block stores nothing into the slot if none of the known definitions that meet is in it. -/
theorem storedIn_eq_nil (kept : before.WellKept graph) (proper : ty ≠ .void)
    (met : Met location ty block hits native before value after)
    (unheld : ∀ held, ({ block := source, content := .known held } : ReachingDefinition) ∉ hits) :
    after.func.storedIn before.func.slots.size source = [] := by
  by_cases bound : source < graph.blocks.size
  · have stores := (met.storedIn kept proper bound).2.1
    rw [ReachingDefinition.filterMap_valueIn?_of_forall unheld] at stores
    exact List.forall₂_nil_left_iff.mp stores
  · have no_block : after.func.blocks.size ≤ source := by
      rw [met.grows.blockCount_eq, kept.blockCount_eq]
      exact Nat.le_of_not_lt bound
    simp [Function.storedIn, Function.body_of_size_le no_block]

/-- The reading block loads the slot and gives what it loaded the type of the read. -/
theorem exists_loaded (met : Met location ty block hits native before value after)
    (bound : block < before.func.blocks.size) :
    ∃ load ∈ after.func.body block, after.func.operation load = .load before.func.slots.size ∧
      after.func.ty load = ty ∧ Adjusts after.func block load (native.getD ty) value := by
  rcases met.exists_load bound with
    ⟨load, mem, loads, typed, ⟨rfl, same⟩ | ⟨differs, value_mem, later, kind, convertible, casts⟩⟩
  · exact ⟨value, mem, loads, typed, .same (typed.trans same.symm)⟩
  · exact ⟨load, mem, loads, typed,
      .cast (typed ▸ differs) (typed ▸ convertible) casts met.computes.ty_eq value_mem later⟩

end Met

/-! ### Executions of a merged read -/

/--
A register was read at a width from definitions that meet. The function has grown since, but nothing
more is stored into the slot.
-/
structure MergedRead (graph : FlowGraph) (location : Location) (width : Nat) (block : BlockId)
    (hits : List ReachingDefinition) (before : Raising) (value : ValueId) (after : Raising)
    (final : Function) : Prop where
  kept : before.WellKept graph
  reached : before.tracker.reaching graph location block false = hits
  unknown : before.tracker.valueIn? graph location block = none
  several : ReachingDefinition.Several hits
  met : Met location (before.slotTy graph location hits) block hits (some (.int width)) before value
    after
  grown : after.func.Extends final
  numbered : final.Numbered
  stores : ∀ other, final.storedIn before.func.slots.size other =
    after.func.storedIn before.func.slots.size other

namespace MergedRead

variable {graph : FlowGraph} {location : Location} {width : Nat} {block source : BlockId}
  {hits : List ReachingDefinition} {before after : Raising} {value given : ValueId}
  {final : Function} {between visited : List BlockId} {arguments : Array UInt64}
  {state : EvalState} (merged : MergedRead graph location width block hits before value after final)

include merged

/-- Blocks store into the slot only what they hold of the definitions that meet. -/
theorem storedIn_eq_nil
    (unheld : ∀ held, ({ block := source, content := .known held } : ReachingDefinition) ∉ hits) :
    final.storedIn before.func.slots.size source = [] :=
  (merged.stores source).trans
    (merged.met.storedIn_eq_nil merged.kept (meetingTy_ne_void _ _ _) unheld)

variable (closed : graph.Closed)

include closed

theorem reaches_of_mem {hit : ReachingDefinition} (mem : hit ∈ hits) :
    Tracker.Reaches graph before.tracker location hit.block block ∧
      before.tracker.content? graph location hit.block = some hit.content := by
  rw [← merged.reached] at mem
  exact Tracker.reaches_of_mem_reaching closed mem

theorem block_lt : block < before.func.blocks.size :=
  merged.kept.blockCount_eq ▸ Tracker.lt_size_of_reaching closed merged.reached merged.several.1

/-- The values that meet were there before, and their types are still the same. -/
theorem given_lt (mem : { block := source, content := .known given } ∈ hits) :
    given < before.func.values.size ∧ final.ty given = before.func.ty given := by
  have held := merged.kept.ranged.lt_size (merged.reaches_of_mem closed mem).2
  refine ⟨held, ?_⟩
  rw [merged.grown.ty_eq given (Nat.lt_of_lt_of_le held merged.met.grows.size_le),
    merged.met.grows.toExtends.ty_eq given held]

/-- The reading block loads the slot, stores nothing into it, and what it loaded is known. -/
theorem exists_loaded (ends : final.Ends arguments visited block state) :
    ∃ load ∈ final.body block, final.operation load = .load before.func.slots.size ∧
      (∀ other ∈ final.body block, ∀ operand,
        final.operation other = .store before.func.slots.size operand → load < other) ∧
      ∃ word, (final.snapshot arguments state).words load = some word ∧
        (final.snapshot arguments state).words value =
          some ((before.slotTy graph location hits).adjust (.int width) word) := by
  rcases merged.met.exists_loaded (merged.block_lt closed) with
    ⟨load, load_mem, loads, load_ty, reads⟩
  have after_numbered := merged.met.grows.numbered merged.kept.numbered
  have load_held := after_numbered.lt_size block load load_mem
  have load_mem_final := (merged.grown.body_prefix block).subset load_mem
  have load_operation : final.operation load = .load before.func.slots.size :=
    merged.grown.operation_of_ne (by simp) loads
  refine ⟨load, load_mem_final, load_operation, ?_, ?_⟩
  · intro other other_mem operand operation
    have stored := Function.mem_storedIn_iff.mpr ⟨other, other_mem, operation⟩
    rw [merged.storedIn_eq_nil] at stored
    · cases stored
    · intro held mem
      have known := (merged.reaches_of_mem closed mem).2
      rw [← Tracker.valueIn?_eq_some_iff, merged.unknown] at known
      cases known
  · rcases ends.exists_start with ⟨start, run⟩
    have executed := (Function.Executed.of_traverse run).words load load_mem_final
      (by rw [load_operation]; rfl)
    rcases Option.isSome_iff_exists.mp executed with ⟨word, known⟩
    refine ⟨word, known, ?_⟩
    rw [(reads.mono merged.grown load_held after_numbered).words_eq merged.numbered ends, known,
      merged.grown.ty_eq load load_held, load_ty]
    rfl

/-- An execution that comes to the end of the reading block has visited a block that supplies. -/
theorem exists_latest (ends : final.Ends arguments visited block state) :
    ∃ between source given earlier, visited = between ++ source :: earlier ∧
      ReachingDefinition.Latest hits source given between := by
  by_cases supplied : ∃ other ∈ visited, ∃ held,
      ({ block := other, content := .known held } : ReachingDefinition) ∈ hits
  · rcases RegisterFlow.exists_latest supplied with
      ⟨between, source, earlier, split, ⟨given, mem⟩, passes⟩
    exact ⟨between, source, given, earlier, split, mem, fun other other_mem held mem =>
      passes other other_mem ⟨held, mem⟩⟩
  · rcases merged.exists_loaded closed ends with ⟨load, load_mem, loads, late, word, known, _⟩
    have harmless : ∀ other ∈ visited, final.storedIn before.func.slots.size other = [] :=
      fun other other_mem => merged.storedIn_eq_nil fun held mem =>
        supplied ⟨other, other_mem, held, mem⟩
    rcases ends.exists_start_of_unstored harmless with ⟨start, run, empty⟩
    rw [Function.words_of_load (merged.numbered.sorted block) run load_mem loads late, empty]
      at known
    cases known

/--
What is read evaluates to the number of the latest definition on the way, converted to the type of
the slot and from there to the type of the read.
-/
theorem words_of_latest (latest : ReachingDefinition.Latest hits source given between)
    (ends : final.Ends arguments (between ++ source :: visited) block state) :
    ∃ start word, final.Ends arguments visited source start ∧
      (final.snapshot arguments start).words given = some word ∧
      (final.snapshot arguments state).words value =
        some ((before.slotTy graph location hits).adjust (.int width)
          ((before.func.ty given).adjust (before.slotTy graph location hits) word)) := by
  have after_numbered := merged.met.grows.numbered merged.kept.numbered
  rcases merged.given_lt closed latest.mem with ⟨given_held, given_ty⟩
  have given_held_after := Nat.lt_of_lt_of_le given_held merged.met.grows.size_le
  rcases merged.exists_loaded closed ends with ⟨load, load_mem, loads, late, word, loaded, read⟩
  rcases merged.met.exists_stored closed merged.kept merged.reached latest.mem with
    ⟨converted, stored, converts⟩
  have held : ReachingDefinition.AllHeld hits before.func :=
    merged.reached ▸ merged.kept.ranged.allHeld closed false
  have timely : final.Timely before.func.slots.size :=
    (merged.met.timely merged.kept held).mono merged.grown after_numbered merged.stores
  have stored_last : final.storedIn before.func.slots.size source = [] ++ [converted] :=
    (merged.stores source).trans stored
  rcases ends.words_of_load merged.numbered load_mem loads late
    (fun other other_mem => merged.storedIn_eq_nil (latest.passes other other_mem)) stored_last
    (fun id id_mem => timely source id id_mem converted) with ⟨start, ends_source, passed⟩
  rw [passed, (converts.mono merged.grown given_held_after after_numbered).words_eq merged.numbered
    ends_source, given_ty] at loaded
  rcases Option.map_eq_some_iff.mp loaded with ⟨number, known, rfl⟩
  exact ⟨start, number, ends_source, known, read⟩

/-- A number that fits its type is truncated to the width of the read. -/
theorem truncates_of_latest (within : width ≤ graph.convention.fullWidth location)
    (latest : ReachingDefinition.Latest hits source given between)
    (ends : final.Ends arguments (between ++ source :: visited) block state) :
    ∃ start word, final.Ends arguments visited source start ∧
      (final.snapshot arguments start).words given = some word ∧
      ((before.func.ty given).Fits word →
        (final.snapshot arguments state).words value = some (Word.truncate width word)) := by
  rcases merged.words_of_latest closed latest ends with ⟨start, word, ends_source, known, read⟩
  refine ⟨start, word, ends_source, known, fun fits => ?_⟩
  rw [read]
  exact congrArg some (adjust_meetingTy latest.mem rfl fits within)

end MergedRead

end RegisterFlow
