import RegisterFlow.Proofs.Graph.Routes
import RegisterFlow.Proofs.Tracking.Moves

/-!
# What a meeting builds

The code that a meeting leaves behind: the blocks whose definitions reach the reading block store
into the slot, after they computed what they store, and the reading block loads the slot. If the
known values that reach it are held by different blocks, then all these blocks are found.
-/

namespace RegisterFlow

/-- The known values of a location that reach a block are held by different blocks. -/
def Tracker.Distinct (graph : FlowGraph) (tracker : Tracker) (location : Location)
    (block : BlockId) : Prop :=
  ∀ first second value,
    Tracker.Reaches graph tracker location first block →
    Tracker.Reaches graph tracker location second block →
    tracker.content? graph location first = some (.known value) →
    tracker.content? graph location second = some (.known value) → first = second

namespace Tracker

variable {graph : FlowGraph} {tracker other : Tracker} {location : Location}
  {block source : BlockId} {allPaths : Bool}

theorem Reaches.lt_size (reaches : Reaches graph tracker location source block) :
    block < graph.blocks.size := by
  rcases reaches with ⟨_, edge, _⟩
  exact FlowGraph.lt_size_of_mem_predecessors edge

/-- A block that any definition reaches is a block of the graph. -/
theorem lt_size_of_reaching {hits : List ReachingDefinition} (closed : graph.Closed)
    (reached : tracker.reaching graph location block allPaths = hits) (nonempty : hits ≠ []) :
    block < graph.blocks.size := by
  rcases List.exists_mem_of_ne_nil _ nonempty with ⟨hit, mem⟩
  exact (reaches_of_mem_reaching closed (reached ▸ mem)).1.lt_size

/-- A definition reaches the end of a path on which no later block holds one. -/
theorem reaches_of_path {between : List BlockId} (path : graph.Path source between block)
    (holds : (tracker.content? graph location source).isSome)
    (transparent : ∀ other ∈ between, tracker.content? graph location other = none) :
    Reaches graph tracker location source block := by
  induction between generalizing block with
  | nil => exact ⟨source, path, .here holds⟩
  | cons nearest between ih =>
      rcases ih path.2 fun other mem => transparent other (List.mem_cons_of_mem _ mem) with
        ⟨predecessor, edge, reaches⟩
      exact ⟨nearest, path.1, .through (transparent nearest List.mem_cons_self) edge reaches⟩

theorem Reaches.isSome_content? (reaches : Reaches graph tracker location source block) :
    (tracker.content? graph location source).isSome := by
  rcases reaches with ⟨_, _, reaches⟩
  exact reaches.holds

/-- What reaches a block that a single value reaches has that value. -/
theorem Reaches.known_of_single {found : BlockId} {value : ValueId} (closed : graph.Closed)
    (reached : tracker.reaching graph location block false =
      [{ block := found, content := .known value }])
    (reaches : Reaches graph tracker location source block) :
    tracker.content? graph location source = some (.known value) := by
  rcases Option.isSome_iff_exists.mp reaches.isSome_content? with ⟨content, held⟩
  have nonempty : tracker.reaching graph location block false ≠ [] := by simp [reached]
  rcases exists_mem_reaching closed nonempty reaches held with ⟨hit, mem, same, _⟩
  rw [reached, List.mem_singleton] at mem
  rw [held, ← same, mem]

theorem ReachesEnd.congr
    (same : ∀ source, tracker.content? graph location source = other.content? graph location source)
    (reaches : ReachesEnd graph tracker location source block) :
    ReachesEnd graph other location source block := by
  induction reaches with
  | here holds => exact .here (same _ ▸ holds)
  | through transparent edge _ ih => exact .through (same _ ▸ transparent) edge ih

theorem Reaches.congr
    (same : ∀ source, tracker.content? graph location source = other.content? graph location source)
    (reaches : Reaches graph tracker location source block) :
    Reaches graph other location source block := by
  rcases reaches with ⟨predecessor, edge, reaches⟩
  exact ⟨predecessor, edge, reaches.congr same⟩

theorem Distinct.congr
    (same : ∀ source, tracker.content? graph location source = other.content? graph location source)
    (distinct : tracker.Distinct graph location block) : other.Distinct graph location block := by
  intro first second value first_reaches second_reaches first_known second_known
  have back := fun source => (same source).symm
  exact distinct first second value (first_reaches.congr back) (second_reaches.congr back)
    (same first ▸ first_known) (same second ▸ second_known)

/-- If the known values are held by different blocks, every definition that reaches is found. -/
theorem Distinct.mem_reaching {content : Content}
    (distinct : tracker.Distinct graph location block) (closed : graph.Closed)
    (nonempty : tracker.reaching graph location block allPaths ≠ [])
    (reaches : Reaches graph tracker location source block)
    (held : tracker.content? graph location source = some content) :
    { block := source, content } ∈ tracker.reaching graph location block allPaths := by
  obtain ⟨⟨found, found_content⟩, mem, same_content, same_block⟩ :=
    exists_mem_reaching closed nonempty reaches held
  dsimp only at same_content same_block
  subst same_content
  have reached := reaches_of_mem_reaching closed mem
  have same : found = source := by
    cases found_content with
    | known value => exact distinct _ _ value reached.1 reaches reached.2 held
    | pending => exact same_block rfl
  rwa [← same]

end Tracker

namespace Function

variable {before after : Function} {block : BlockId} {slot : SlotId} {id : ValueId}

/-- Instructions that are stores into a slot are old ones, if no more is stored there than was. -/
theorem mem_body_of_storedIn_eq {operand : ValueId} (grown : before.Extends after)
    (numbered : before.Numbered)
    (same : after.storedIn slot block = before.storedIn slot block)
    (mem : id ∈ after.body block) (stores : after.operation id = .store slot operand) :
    id ∈ before.body block := by
  rcases grown.body_prefix block with ⟨added, body⟩
  rw [← body, List.mem_append] at mem
  refine mem.resolve_right fun new => ?_
  have old : (before.body block).filterMap (after.storedBy? slot) = before.storedIn slot block := by
    refine List.filterMap_congr fun other other_mem => ?_
    simp only [storedBy?, grown.operation_eq other (numbered.lt_size block other other_mem)]
  rw [storedIn, ← body, List.filterMap_append, old, List.append_right_eq_self,
    List.filterMap_eq_nil_iff] at same
  have stored := storedBy?_eq_some_iff.mpr stores
  rw [same id new] at stored
  cases stored

/-- Whatever is stored into a slot was there before the store. -/
def Timely (slot : SlotId) (func : Function) : Prop :=
  ∀ block, ∀ id ∈ func.body block, ∀ operand, func.operation id = .store slot operand →
    operand < id

theorem Timely.mono (timely : before.Timely slot) (grown : before.Extends after)
    (numbered : before.Numbered)
    (same : ∀ block, after.storedIn slot block = before.storedIn slot block) :
    after.Timely slot := by
  intro block id mem operand stores
  have old := mem_body_of_storedIn_eq grown numbered (same block) mem stores
  refine timely block id old operand ?_
  rw [← grown.operation_eq id (numbered.lt_size block id old), stores]

theorem timely_of_storedIn (unused : ∀ block, before.storedIn slot block = []) :
    before.Timely slot := by
  intro block id mem operand stores
  have stored : operand ∈ before.storedIn slot block := mem_storedIn_iff.mpr ⟨id, mem, stores⟩
  rw [unused] at stored
  cases stored

/-- Storing a value that is there already leaves every slot timely. -/
theorem Timely.withInstruction_store {ty : Ty} {target : SlotId} {operand : ValueId}
    (timely : before.Timely slot) (numbered : before.Numbered)
    (held : operand < before.values.size) :
    (before.withInstruction block ty (.store target operand)).Timely slot := by
  intro other id mem stored stores
  by_cases new : id = before.values.size
  · subst new
    simp only [operation_withInstruction, if_pos, Operation.store.injEq] at stores
    exact stores.2 ▸ held
  · have old : id ∈ before.body other := by
      rw [body_withInstruction] at mem
      split at mem
      · next holds =>
        rcases List.mem_append.mp mem with old | added
        · exact holds.1 ▸ old
        · exact absurd (List.mem_singleton.mp added) new
      · exact mem
    refine timely other id old stored ?_
    rwa [← (extends_withInstruction ..).operation_eq id (numbered.lt_size other id old)]

end Function

/-- The values that meet are values of the function. -/
def ReachingDefinition.AllHeld (hits : List ReachingDefinition) (func : Function) : Prop :=
  ∀ hit ∈ hits, ∀ value, hit.content = .known value → value < func.values.size

theorem Stored.timely {before after : Function} {block : BlockId} {slot target : SlotId}
    {value : ValueId} (stored : Stored before block target value after)
    (timely : before.Timely slot) (numbered : before.Numbered)
    (held : value < before.values.size) : after.Timely slot := by
  cases stored with
  | intro converted =>
      have quiet := converted.growsQuietly
      have kept := timely.mono quiet.toExtends numbered fun other =>
        quiet.storedIn_eq numbered slot other
      exact kept.withInstruction_store (quiet.numbered numbered) (converted.lt_size held)

theorem Raise.Chain.timely {location : Location} {slot target : SlotId}
    {hits : List ReachingDefinition} {before after : Raising}
    (chain : Raise.Chain (Supplied location target) hits before after)
    (timely : before.func.Timely slot) (numbered : before.func.Numbered)
    (held : ReachingDefinition.AllHeld hits before.func) : after.func.Timely slot := by
  induction chain with
  | nil _ => exact timely
  | @cons hit hits before middle after first rest ih =>
      have kept : middle.func.Timely slot := by
        cases first with
        | known stored =>
            exact stored.timely timely numbered (held _ List.mem_cons_self _ rfl)
        | pending => exact timely
      refine ih kept (first.grows.numbered numbered) fun later mem value known => ?_
      exact Nat.lt_of_lt_of_le (held later (List.mem_cons_of_mem _ mem) value known)
        first.grows.size_le

namespace Met

variable {graph : FlowGraph} {location : Location} {ty : Ty} {block source : BlockId}
  {hits : List ReachingDefinition} {native : Option Ty} {value : ValueId} {before after : Raising}

/-- What a block stores into the slot of a meeting that took place. -/
theorem storedIn (kept : before.WellKept graph) (proper : ty ≠ .void)
    (bound : source < graph.blocks.size)
    (met : Met location ty block hits native before value after) :
    (after.func.slot before.func.slots.size).ty = ty ∧
      List.Forall₂ (Converts after.func source · ty) (hits.filterMap (·.valueIn? source))
        (after.func.storedIn before.func.slots.size source) ∧
      after.tracker.deferred = before.tracker.deferred ++
        hits.filterMap (·.waiting? location before.func.slots.size) := by
  obtain ⟨supplied, chain, quiet, deferred_eq, _⟩ := met.exists_chain
  have slot_eq : after.func.slot before.func.slots.size =
      supplied.func.slot before.func.slots.size := by
    rw [Function.slot, quiet.slots_eq, Function.slot]
  have supplied_numbered : supplied.func.Numbered :=
    chain.grows.numbered ((Function.grows_withSlot ..).numbered kept.numbered)
  have stores := chain.storedIn_opened source kept.numbered proper
    (kept.storedIn_new _ (Nat.le_refl _) source) (kept.blockCount_eq.symm ▸ bound)
  refine ⟨?_, ?_, ?_⟩
  · rw [slot_eq]
    exact Raise.slotTy_of_chain chain
  · rw [quiet.storedIn_eq supplied_numbered]
    exact stores.imp fun _ _ converts => converts.mono proper quiet.toExtends
  · rw [deferred_eq, chain.deferred_opened]

/-- A known definition that reaches a meeting is stored, if the known values are distinct. -/
theorem storedIn_of_reaches {allPaths : Bool} {given : ValueId} (closed : graph.Closed)
    (kept : before.WellKept graph) (proper : ty ≠ .void)
    (reached : before.tracker.reaching graph location block allPaths = hits) (nonempty : hits ≠ [])
    (distinct : before.tracker.Distinct graph location block)
    (met : Met location ty block hits native before value after)
    (reaches : Tracker.Reaches graph before.tracker location source block)
    (known : before.tracker.content? graph location source = some (.known given)) :
    ∃ converted, after.func.storedIn before.func.slots.size source = [converted] ∧
      Converts after.func source given ty converted := by
  subst reached
  have mem := distinct.mem_reaching closed nonempty reaches known
  have stores := (met.storedIn kept proper (reaches.source_lt closed)).2.1
  rw [ReachingDefinition.filterMap_valueIn?_of_mem
    (Tracker.nodup_reaching_blocks closed allPaths) mem] at stores
  rcases List.forall₂_cons_left_iff.mp stores with ⟨converted, rest, converts, none_left, stored⟩
  rw [List.forall₂_nil_left_iff.mp none_left] at stored
  exact ⟨converted, stored, converts⟩

/-- Only blocks with known definitions that reach a meeting store into its slot. -/
theorem reaches_of_storedIn {allPaths : Bool} (closed : graph.Closed)
    (kept : before.WellKept graph) (proper : ty ≠ .void)
    (reached : before.tracker.reaching graph location block allPaths = hits)
    (met : Met location ty block hits native before value after)
    (stores : after.func.storedIn before.func.slots.size source ≠ []) :
    Tracker.Reaches graph before.tracker location source block ∧
      ∃ given, before.tracker.content? graph location source = some (.known given) := by
  subst reached
  have grows := met.grows
  have bound : source < graph.blocks.size := by
    by_contra outside
    apply stores
    have no_block : after.func.blocks.size ≤ source := by
      rw [grows.blockCount_eq, kept.blockCount_eq]
      exact Nat.le_of_not_lt outside
    simp [Function.storedIn, Function.body_of_size_le no_block]
  have converts := (met.storedIn kept proper bound).2.1
  have some_value : (before.tracker.reaching graph location block allPaths).filterMap
      (·.valueIn? source) ≠ [] := by
    intro nothing
    rw [nothing] at converts
    exact stores (List.forall₂_nil_left_iff.mp converts)
  rcases List.exists_mem_of_ne_nil _ some_value with ⟨given, mem⟩
  rcases List.mem_filterMap.mp mem with ⟨hit, hit_mem, known⟩
  rw [ReachingDefinition.valueIn?_eq_some_iff] at known
  subst known
  rcases Tracker.reaches_of_mem_reaching closed hit_mem with ⟨reaches, content⟩
  exact ⟨reaches, given, content⟩

theorem slot_lt (met : Met location ty block hits native before value after) :
    before.func.slots.size < after.func.slots.size := by
  obtain ⟨supplied, chain, quiet, _, _⟩ := met.exists_chain
  rw [quiet.slots_eq]
  exact chain.slot_lt_opened

/-- The values that a meeting stores were there before. -/
theorem timely (kept : before.WellKept graph)
    (held : ReachingDefinition.AllHeld hits before.func)
    (met : Met location ty block hits native before value after) :
    after.func.Timely before.func.slots.size := by
  obtain ⟨supplied, chain, quiet, _, _⟩ := met.exists_chain
  have opened : before.func.Grows (before.opened location ty).func := Function.grows_withSlot ..
  have unused : ∀ other,
      (before.opened location ty).func.storedIn before.func.slots.size other = [] := by
    intro other
    exact (Function.storedIn_withSlot kept.numbered ..).trans
      (kept.storedIn_new _ (Nat.le_refl _) other)
  have supplied_timely := chain.timely (Function.timely_of_storedIn unused)
    (opened.numbered kept.numbered)
    fun hit mem value known => Nat.lt_of_lt_of_le (held hit mem value known) opened.size_le
  have supplied_numbered := chain.grows.numbered (opened.numbered kept.numbered)
  exact supplied_timely.mono quiet.toExtends supplied_numbered fun other =>
    quiet.storedIn_eq supplied_numbered _ other

/-- The reading block loads the slot, and converts what it loaded if it is read at another type. -/
theorem exists_load (met : Met location ty block hits native before value after)
    (bound : block < before.func.blocks.size) :
    ∃ load ∈ after.func.body block, after.func.operation load = .load before.func.slots.size ∧
      after.func.ty load = ty ∧
      (value = load ∧ native.getD ty = ty ∨
        ty ≠ native.getD ty ∧ value ∈ after.func.body block ∧ load < value ∧
          ∃ kind, Conversion.between? ty (native.getD ty) = some kind ∧
            after.func.operation value = .cast kind load) := by
  cases met with
  | @intro supplied _ func table chain converted filed =>
      have opened : before.func.Grows (before.opened location ty).func := Function.grows_withSlot ..
      have supplied_bound : block < supplied.func.blocks.size := by
        rw [chain.grows.blockCount_eq, opened.blockCount_eq]
        exact bound
      refine ⟨supplied.func.values.size, ?_⟩
      cases converted with
      | same typed =>
          simp only [Function.ty_withInstruction, if_pos] at typed
          simp [supplied_bound, ← typed]
      | @cast kind differs convertible =>
          simp only [Function.ty_withInstruction, if_pos] at convertible differs
          simp [supplied_bound, convertible, differs]

/-- The pending definitions that meet leave deferred stores. -/
theorem deferred_eq (met : Met location ty block hits native before value after) :
    after.tracker.deferred = before.tracker.deferred ++
      hits.filterMap (·.waiting? location before.func.slots.size) := by
  rcases met.exists_chain with ⟨supplied, chain, _, deferred_eq, _⟩
  rw [deferred_eq, chain.deferred_opened]

theorem mem_deferred_iff {store : DeferredStore}
    (met : Met location ty block hits native before value after) :
    store ∈ after.tracker.deferred ↔ store ∈ before.tracker.deferred ∨
      ∃ hit ∈ hits, hit.content = .pending ∧
        store = { location, block := hit.block, slot := before.func.slots.size } := by
  rw [met.deferred_eq, List.mem_append, ReachingDefinition.mem_filterMap_waiting?_iff]

theorem slotTy_eq (met : Met location ty block hits native before value after) :
    (after.func.slot before.func.slots.size).ty = ty := by
  rcases met.exists_chain with ⟨supplied, chain, quiet, _, _⟩
  have slot_lt : before.func.slots.size < supplied.func.slots.size := by
    rw [chain.slots_eq]
    simp [Raising.opened]
  rw [quiet.slotTy_eq _ slot_lt, Raise.slotTy_of_chain chain]

/-- A meeting that reads at the type of its slot gives what was loaded. -/
theorem loads (met : Met location ty block hits native before value after)
    (same : native.getD ty = ty) :
    after.func.operation value = .load before.func.slots.size := by
  cases met with
  | intro chain converted filed =>
      cases converted with
      | same typed => simp
      | cast differs _ => simp [same] at differs

end Met

end RegisterFlow
