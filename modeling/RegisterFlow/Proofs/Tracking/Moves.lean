import Mathlib.Data.List.Nodup
import Mathlib.Logic.Relation
import RegisterFlow.Proofs.Code.Emission
import RegisterFlow.Proofs.Tracking.Definitions
import RegisterFlow.Proofs.Tracking.Reading

/-!
# Moves of tracking

Every operation that reads, records or derives in a block consists of a few kinds of moves: the
block grows by instructions that store nothing, a value is filed for a location of the block, and
definitions that reach the block are supplied to a new slot. What each move keeps, every such
operation keeps.
-/

namespace RegisterFlow

open Relation (ReflTransGen)

/-- Every value that the tracker knows is a value of the function. -/
structure Raising.Ranged (raising : Raising) : Prop where
  filed : ∀ definition ∈ raising.tracker.table.definitions, ∀ value,
    definition.value? = some value → value < raising.func.values.size
  bound : ∀ entry ∈ raising.tracker.bindings, entry.2.value < raising.func.values.size

/--
A value that can be filed for a flag in a block: a truth value that is a leaf, or belongs to the
block or to one with a definition of the flag.
-/
structure Raising.FlagValue (graph : FlowGraph) (flag : Flag) (block : BlockId) (value : ValueId)
    (raising : Raising) : Prop where
  ty_eq : raising.func.ty value = .bool
  grounded : (raising.func.operation value).isLeaf = false →
    ∀ owner, (raising.func.value value).block = some owner → owner = block ∨
      (raising.tracker.content? graph (.flag flag) owner).isSome

/-- The definitions of flags are known and hold such values. -/
def Raising.Flagged (graph : FlowGraph) (raising : Raising) : Prop :=
  ∀ flag block content, raising.tracker.content? graph (.flag flag) block = some content →
    ∃ value, content = .known value ∧ raising.FlagValue graph flag block value

/-- A value that the block computes can be filed for any flag there. -/
theorem Raising.FlagValue.of_computes {graph : FlowGraph} {flag : Flag} {block : BlockId}
    {value : ValueId} {raising : Raising}
    (computes : raising.func.Computes block .bool value) :
    raising.FlagValue graph flag block value where
  ty_eq := computes.ty_eq
  grounded _ owner owned := by
    rw [computes.owner_eq, Option.some.injEq] at owned
    exact Or.inl owned.symm

/-- The type of the slot in which the definitions meet that reach a block. -/
def Raising.slotTy (graph : FlowGraph) (raising : Raising) (location : Location)
    (hits : List ReachingDefinition) : Ty :=
  meetingTy raising.func (graph.convention.fullWidth location) hits

/-- The moves that operations in a block consist of. -/
inductive Move (graph : FlowGraph) (block : BlockId) : Raising → Raising → Prop where
  | tally {before : Raising} (statistics : Statistics) :
      Move graph block before { before with statistics }
  | grow {before : Raising} {func : Function} (quiet : before.func.GrowsQuietly block func) :
      Move graph block before { before with func }
  | file {before : Raising} {location : Location} {width : Nat} {value : ValueId} {table : Table}
      (held : value < before.func.values.size)
      (fits : ∀ flag, location = .flag flag → before.FlagValue graph flag block value)
      (filed : before.tracker.table.record location block width value = .ok table) :
      Move graph block before { before with tracker := { before.tracker with table } }
  | note {before : Raising} (merge : Merge) :
      Move graph block before { before with tracker := before.tracker.addMerge merge }
  | supply {before after : Raising} {location : Location} {allPaths : Bool}
      {hits done : List ReachingDefinition}
      (reached : before.tracker.reaching graph location block allPaths = hits)
      (front : done <+: hits)
      (chain : Raise.Chain (Supplied location before.func.slots.size) done
        (before.opened location (before.slotTy graph location hits)) after) :
      Move graph block before after

/-- Any number of moves in a block. -/
abbrev Moves (graph : FlowGraph) (block : BlockId) : Raising → Raising → Prop :=
  ReflTransGen (Move graph block)

/--
What every operation keeps that works in a block: what the function holds, what is known in other
blocks, that something is known in the block, and the stores into the slots there were. New deferred
stores wait for new slots.
-/
structure Raising.Proceeds (graph : FlowGraph) (block : BlockId) (before after : Raising) :
    Prop where
  grows : before.func.Grows after.func
  bindings_eq : after.tracker.bindings = before.tracker.bindings
  drained_eq : after.tracker.drained = before.tracker.drained
  content_of_ne : ∀ location other, other ≠ block →
    after.tracker.content? graph location other = before.tracker.content? graph location other
  known_of_known : ∀ location value,
    before.tracker.content? graph location block = some (.known value) →
      ∃ value, after.tracker.content? graph location block = some (.known value)
  storedIn_eq : before.func.Numbered → ∀ slot < before.func.slots.size, ∀ other,
    after.func.storedIn slot other = before.func.storedIn slot other
  deferred : ∃ added, after.tracker.deferred = before.tracker.deferred ++ added ∧
    ∀ store ∈ added, before.func.slots.size ≤ store.slot ∧ store.slot < after.func.slots.size

namespace Raising.Proceeds

variable {graph : FlowGraph} {block : BlockId}

protected theorem refl (raising : Raising) : Proceeds graph block raising raising where
  grows := .refl _
  bindings_eq := rfl
  drained_eq := rfl
  content_of_ne _ _ _ := rfl
  known_of_known _ value known := ⟨value, known⟩
  storedIn_eq _ _ _ _ := rfl
  deferred := ⟨[], (List.append_nil _).symm, fun _ mem => absurd mem List.not_mem_nil⟩

protected theorem trans {first second third : Raising} (left : Proceeds graph block first second)
    (right : Proceeds graph block second third) : Proceeds graph block first third where
  grows := left.grows.trans right.grows
  bindings_eq := right.bindings_eq.trans left.bindings_eq
  drained_eq := right.drained_eq.trans left.drained_eq
  content_of_ne location other different := by
    rw [right.content_of_ne location other different, left.content_of_ne location other different]
  known_of_known location value known := by
    obtain ⟨value, known⟩ := left.known_of_known location value known
    exact right.known_of_known location value known
  storedIn_eq numbered slot held other := by
    rw [right.storedIn_eq (left.grows.numbered numbered) slot
        (Nat.lt_of_lt_of_le held left.grows.slotCount_le),
      left.storedIn_eq numbered slot held]
  deferred := by
    obtain ⟨added, added_eq, fresh⟩ := left.deferred
    obtain ⟨further, further_eq, later⟩ := right.deferred
    refine ⟨added ++ further, ?_, ?_⟩
    · rw [further_eq, added_eq, List.append_assoc]
    · intro store mem
      rcases List.mem_append.mp mem with first_mem | second_mem
      · exact ⟨(fresh store first_mem).1,
          Nat.lt_of_lt_of_le (fresh store first_mem).2 right.grows.slotCount_le⟩
      · exact ⟨Nat.le_trans left.grows.slotCount_le (later store second_mem).1,
          (later store second_mem).2⟩

/-- A step that only lets the function grow quietly, as far as the definitions can tell. -/
theorem of_quiet {before after : Raising} (quiet : before.func.GrowsQuietly block after.func)
    (table_eq : after.tracker.table = before.tracker.table)
    (bindings_eq : after.tracker.bindings = before.tracker.bindings)
    (drained_eq : after.tracker.drained = before.tracker.drained)
    (deferred_eq : after.tracker.deferred = before.tracker.deferred) :
    Proceeds graph block before after := by
  have content_eq : ∀ location other, after.tracker.content? graph location other =
      before.tracker.content? graph location other := by
    intro location other
    have same : after.tracker.definitionIn? graph location other =
        before.tracker.definitionIn? graph location other :=
      Tracker.definitionIn?_congr bindings_eq (by rw [table_eq])
    rw [Tracker.content?, same, Tracker.content?]
  exact {
    grows := quiet.toGrows
    bindings_eq
    drained_eq
    content_of_ne := fun location other _ => content_eq location other
    known_of_known := fun location value known => ⟨value, (content_eq location block).trans known⟩
    storedIn_eq := fun numbered slot _ other => quiet.storedIn_eq numbered slot other
    deferred := ⟨[], by rw [deferred_eq, List.append_nil],
      fun _ mem => absurd mem List.not_mem_nil⟩ }

end Raising.Proceeds

theorem ReachingDefinition.slot_of_waiting? {location : Location} {slot : SlotId}
    {hit : ReachingDefinition} {store : DeferredStore}
    (waits : hit.waiting? location slot = some store) : store.slot = slot := by
  unfold waiting? at waits
  split at waits
  · cases waits
  · cases waits
    rfl

namespace Move

variable {graph : FlowGraph} {block : BlockId} {before after : Raising}

theorem proceeds (move : Move graph block before after) :
    before.Proceeds graph block after := by
  cases move with
  | tally _ => exact .of_quiet (.refl _) rfl rfl rfl rfl
  | grow quiet => exact .of_quiet quiet rfl rfl rfl rfl
  | note _ => exact .of_quiet (.refl _) rfl rfl rfl rfl
  | @file location width value table held fits filed =>
      have content := fun other elsewhere =>
        @Tracker.content?_record graph _ _ location other block elsewhere _ _ filed
      exact {
        grows := .refl _
        bindings_eq := rfl
        drained_eq := rfl
        content_of_ne := by
          intro other elsewhere different
          rw [content, if_neg fun holds => different holds.2]
        known_of_known := by
          intro other known_value known
          rw [content]
          split
          · exact ⟨value, rfl⟩
          · exact ⟨known_value, known⟩
        storedIn_eq := fun _ _ _ _ => rfl
        deferred := ⟨[], (List.append_nil _).symm, fun _ mem => absurd mem List.not_mem_nil⟩ }
  | @supply _ location allPaths hits done reached front chain =>
      have opened : before.func.Grows
          (before.opened location (before.slotTy graph location hits)).func :=
        Function.grows_withSlot ..
      have content_eq : ∀ other elsewhere, after.tracker.content? graph other elsewhere =
          before.tracker.content? graph other elsewhere := by
        intro other elsewhere
        rw [chain.tracker_eq]
        rfl
      exact {
        grows := opened.trans chain.grows
        bindings_eq := by rw [chain.tracker_eq]; rfl
        drained_eq := by rw [chain.tracker_eq]; rfl
        content_of_ne := fun other elsewhere _ => content_eq other elsewhere
        known_of_known := fun other value known => ⟨value, (content_eq other block).trans known⟩
        storedIn_eq := by
          intro numbered slot held other
          rw [chain.storedIn_of_ne (opened.numbered numbered) (Nat.ne_of_lt held)]
          exact Function.storedIn_withSlot numbered ..
        deferred := by
          refine ⟨_, by rw [chain.tracker_eq]; rfl, ?_⟩
          intro store mem
          obtain ⟨hit, _, waits⟩ := List.mem_filterMap.mp mem
          rw [ReachingDefinition.slot_of_waiting? waits, chain.slots_eq]
          refine ⟨Nat.le_refl _, ?_⟩
          simp [Raising.opened] }

end Move

theorem Moves.proceeds {graph : FlowGraph} {block : BlockId} {before after : Raising}
    (moves : Moves graph block before after) : before.Proceeds graph block after := by
  induction moves with
  | refl => exact .refl _
  | tail _ move ih => exact ih.trans move.proceeds

/-! ### States that are kept in order -/

/--
The function has the blocks of the graph and is numbered, nothing is stored into slots to come, and
the deferred stores wait for different places in slots that exist and into which their blocks have
not stored yet.
-/
structure Raising.WellKept (graph : FlowGraph) (raising : Raising) : Prop where
  blockCount_eq : raising.func.blocks.size = graph.blocks.size
  numbered : raising.func.Numbered
  ranged : raising.Ranged
  storedIn_new : ∀ slot, raising.func.slots.size ≤ slot → ∀ block,
    raising.func.storedIn slot block = []
  waiting_block : ∀ store ∈ raising.tracker.deferred, store.block < graph.blocks.size
  waiting_slot : ∀ store ∈ raising.tracker.deferred, store.slot < raising.func.slots.size
  waiting_ty : ∀ store ∈ raising.tracker.deferred, (raising.func.slot store.slot).ty ≠ .void
  waiting_distinct : raising.tracker.deferred.Pairwise fun first second =>
    first.block ≠ second.block ∨ first.slot ≠ second.slot
  unstored : ∀ store ∈ raising.tracker.deferred,
    raising.func.storedIn store.slot store.block = []

theorem meetingTy_ne_void (func : Function) (fullWidth : Nat) (hits : List ReachingDefinition) :
    meetingTy func fullWidth hits ≠ .void := by
  unfold meetingTy
  split <;> simp

namespace ReachingDefinition

variable {hits : List ReachingDefinition} {block : BlockId} {location : Location} {slot : SlotId}

theorem waiting?_eq_some_iff {hit : ReachingDefinition} {store : DeferredStore} :
    hit.waiting? location slot = some store ↔
      hit.content = .pending ∧ store = { location, block := hit.block, slot } := by
  unfold waiting?
  cases hit.content <;> simp [eq_comm]

/-- The stores that definitions leave are those of the pending ones. -/
theorem mem_filterMap_waiting?_iff {store : DeferredStore} :
    store ∈ hits.filterMap (·.waiting? location slot) ↔
      ∃ hit ∈ hits, hit.content = .pending ∧ store = { location, block := hit.block, slot } := by
  simp only [List.mem_filterMap, waiting?_eq_some_iff]

/-- Definitions in different blocks leave stores in different blocks. -/
theorem pairwise_filterMap_waiting? (distinct : (hits.map ReachingDefinition.block).Nodup) :
    (hits.filterMap (·.waiting? location slot)).Pairwise fun first second =>
      first.block ≠ second.block := by
  refine List.pairwise_filterMap.mpr ((List.pairwise_map.mp distinct).imp ?_)
  intro first second different one waits_one other waits_other
  rw [waiting?_eq_some_iff] at waits_one waits_other
  rw [waits_one.2, waits_other.2]
  exact different

theorem valueIn?_eq_some_iff {hit : ReachingDefinition} {value : ValueId} :
    hit.valueIn? block = some value ↔ hit = { block, content := .known value } := by
  rcases hit with ⟨source, content⟩
  cases content <;> simp [valueIn?, Content.value?]

/-- Of definitions in different blocks, the known one in a block is the only one there. -/
theorem filterMap_valueIn?_of_mem {value : ValueId}
    (distinct : (hits.map ReachingDefinition.block).Nodup)
    (mem : { block, content := .known value } ∈ hits) :
    hits.filterMap (·.valueIn? block) = [value] := by
  induction hits with
  | nil => cases mem
  | cons hit hits ih =>
      rw [List.map_cons, List.nodup_cons] at distinct
      have elsewhere : ∀ other ∈ hits, hit.block = block → other.valueIn? block = none := by
        intro other other_mem same
        rw [Option.eq_none_iff_forall_ne_some]
        intro found known
        rw [valueIn?_eq_some_iff] at known
        refine distinct.1 (List.mem_map.mpr ⟨other, other_mem, ?_⟩)
        rw [known, same]
      rcases List.mem_cons.mp mem with here | later
      · subst here
        have rest : hits.filterMap (·.valueIn? block) = [] :=
          List.filterMap_eq_nil_iff.mpr fun other other_mem => elsewhere other other_mem rfl
        have first : valueIn? block { block, content := .known value } = some value :=
          valueIn?_eq_some_iff.mpr rfl
        rw [List.filterMap_cons_some first, rest]
      · have first : hit.valueIn? block = none := by
          rw [Option.eq_none_iff_forall_ne_some]
          intro found known
          rw [valueIn?_eq_some_iff] at known
          refine distinct.1 (List.mem_map.mpr ⟨_, later, ?_⟩)
          rw [known]
        rw [List.filterMap_cons_none first, ih distinct.2 later]

theorem filterMap_valueIn?_of_forall (unknown : ∀ value,
      ({ block, content := .known value } : ReachingDefinition) ∉ hits) :
    hits.filterMap (·.valueIn? block) = [] := by
  rw [List.filterMap_eq_nil_iff]
  intro hit mem
  rw [Option.eq_none_iff_forall_ne_some]
  intro value known
  rw [valueIn?_eq_some_iff] at known
  exact unknown value (known ▸ mem)

end ReachingDefinition

section Supply

variable {location : Location} {ty : Ty} {done : List ReachingDefinition} {before after : Raising}

/-- The stores that wait after definitions were supplied to a new slot. -/
theorem Raise.Chain.deferred_opened
    (chain : Raise.Chain (Supplied location before.func.slots.size) done
      (before.opened location ty) after) :
    after.tracker.deferred = before.tracker.deferred ++
      done.filterMap (·.waiting? location before.func.slots.size) := by
  rw [chain.tracker_eq]
  rfl

theorem Raise.Chain.mem_deferred_opened_iff {store : DeferredStore}
    (chain : Raise.Chain (Supplied location before.func.slots.size) done
      (before.opened location ty) after) :
    store ∈ after.tracker.deferred ↔ store ∈ before.tracker.deferred ∨
      ∃ hit ∈ done, hit.content = .pending ∧
        store = { location, block := hit.block, slot := before.func.slots.size } := by
  rw [chain.deferred_opened, List.mem_append, ReachingDefinition.mem_filterMap_waiting?_iff]

/-- What a block stores into the slot of a meeting: the values that are known there, converted. -/
theorem Raise.Chain.storedIn_opened (block : BlockId)
    (chain : Raise.Chain (Supplied location before.func.slots.size) done
      (before.opened location ty) after)
    (numbered : before.func.Numbered) (proper : ty ≠ .void)
    (unused : before.func.storedIn before.func.slots.size block = [])
    (bound : block < before.func.blocks.size) :
    List.Forall₂ (Converts after.func block · ty) (done.filterMap (·.valueIn? block))
      (after.func.storedIn before.func.slots.size block) := by
  have opened : before.func.Grows (before.opened location ty).func := Function.grows_withSlot ..
  have slotTy : ((before.opened location ty).func.slot before.func.slots.size).ty = ty := by
    simp [Raising.opened]
  have nothing : (before.opened location ty).func.storedIn before.func.slots.size block = [] := by
    rw [← unused]
    exact Function.storedIn_withSlot numbered ..
  obtain ⟨stored, stored_eq, converts⟩ := chain.storedIn_self (opened.numbered numbered)
    (slotTy.symm ▸ proper) (opened.blockCount_eq.symm ▸ bound)
  rw [nothing, List.nil_append] at stored_eq
  rw [stored_eq, ← slotTy]
  exact converts

end Supply

namespace Raising

variable {graph : FlowGraph} {block : BlockId} {before after : Raising}

/-- Values that the tracker knows stay in range while the function grows. -/
theorem Ranged.mono (ranged : before.Ranged) (grown : before.func.Extends after.func)
    (table_eq : after.tracker.table = before.tracker.table)
    (bindings_eq : after.tracker.bindings = before.tracker.bindings) : after.Ranged where
  filed definition mem value known :=
    Nat.lt_of_lt_of_le (ranged.filed definition (table_eq ▸ mem) value known) grown.size_le
  bound entry mem := Nat.lt_of_lt_of_le (ranged.bound entry (bindings_eq ▸ mem)) grown.size_le

/-- A step keeps the state in order if it stores neither into slots to come nor for those waiting. -/
theorem WellKept.of_grows (kept : before.WellKept graph) (grows : before.func.Grows after.func)
    (ranged : after.Ranged)
    (storedIn_new : ∀ slot, after.func.slots.size ≤ slot → ∀ block,
      after.func.storedIn slot block = before.func.storedIn slot block)
    (fewer : after.tracker.deferred.Sublist before.tracker.deferred)
    (unstored : ∀ store ∈ after.tracker.deferred,
      after.func.storedIn store.slot store.block = before.func.storedIn store.slot store.block) :
    after.WellKept graph where
  blockCount_eq := grows.blockCount_eq.trans kept.blockCount_eq
  numbered := grows.numbered kept.numbered
  ranged
  storedIn_new slot new block := by
    rw [storedIn_new slot new]
    exact kept.storedIn_new slot (Nat.le_trans grows.slotCount_le new) block
  waiting_block store mem := kept.waiting_block store (fewer.subset mem)
  waiting_slot store mem :=
    Nat.lt_of_lt_of_le (kept.waiting_slot store (fewer.subset mem)) grows.slotCount_le
  waiting_ty store mem := by
    rw [grows.slotTy_eq _ (kept.waiting_slot store (fewer.subset mem))]
    exact kept.waiting_ty store (fewer.subset mem)
  waiting_distinct := kept.waiting_distinct.sublist fewer
  unstored store mem := by
    rw [unstored store mem]
    exact kept.unstored store (fewer.subset mem)

/-- A step that only lets the function grow quietly keeps the state in order. -/
theorem WellKept.of_quiet (kept : before.WellKept graph)
    (quiet : before.func.GrowsQuietly block after.func) (ranged : after.Ranged)
    (deferred_eq : after.tracker.deferred = before.tracker.deferred) : after.WellKept graph :=
  kept.of_grows quiet.toGrows ranged (fun slot _ other => quiet.storedIn_eq kept.numbered slot other)
    (deferred_eq ▸ List.Sublist.refl _) fun _ _ => quiet.storedIn_eq kept.numbered _ _

theorem WellKept.tally (kept : before.WellKept graph) (tally : Statistics → Statistics) :
    (before.tally tally).WellKept graph :=
  { kept with ranged := { kept.ranged with } }

end Raising

/-- Filing a value of the function keeps the tracker's values in range. -/
theorem Raising.Ranged.file {before : Raising} {location : Location} {block : BlockId}
    {width : Nat} {value : ValueId} {table : Table} (ranged : before.Ranged)
    (held : value < before.func.values.size)
    (filed : before.tracker.table.record location block width value = .ok table) :
    Raising.Ranged { before with tracker := { before.tracker with table } } where
  filed definition mem known_value known := by
    rw [Table.definitions_of_record filed] at mem
    rcases Table.mem_place _ mem with rfl | old
    · cases known
      exact held
    · exact ranged.filed definition old known_value known
  bound := ranged.bound

/-- Supplying definitions that reach a block keeps the state in order. -/
theorem Raising.WellKept.supply {graph : FlowGraph} {block : BlockId} {before after : Raising}
    {location : Location} {allPaths : Bool} {hits done : List ReachingDefinition}
    (kept : before.WellKept graph) (closed : graph.Closed)
    (reached : before.tracker.reaching graph location block allPaths = hits)
    (front : done <+: hits)
    (chain : Raise.Chain (Supplied location before.func.slots.size) done
      (before.opened location (before.slotTy graph location hits)) after) :
    after.WellKept graph := by
  have move : Move graph block before after := .supply reached front chain
  have proceeds := move.proceeds
  have proper : before.slotTy graph location hits ≠ .void := meetingTy_ne_void _ _ _
  have slotTy := Raise.slotTy_of_chain chain
  have slotCount : after.func.slots.size = before.func.slots.size + 1 := chain.slotCount_opened
  have found : ∀ hit ∈ done, Tracker.Reaches graph before.tracker location hit.block block := by
    intro hit mem
    have hit_mem : hit ∈ before.tracker.reaching graph location block allPaths :=
      reached ▸ front.subset mem
    exact (Tracker.reaches_of_mem_reaching closed hit_mem).1
  have distinct : (done.map ReachingDefinition.block).Nodup := by
    have all := @Tracker.nodup_reaching_blocks graph before.tracker location block closed allPaths
    rw [reached] at all
    exact all.sublist (front.sublist.map _)
  exact {
    blockCount_eq := proceeds.grows.blockCount_eq.trans kept.blockCount_eq
    numbered := proceeds.grows.numbered kept.numbered
    ranged := kept.ranged.mono proceeds.grows.toExtends (by rw [chain.tracker_eq]; rfl)
      proceeds.bindings_eq
    storedIn_new := by
      intro slot new other
      have later : before.func.slots.size < slot := by
        rw [slotCount] at new
        exact new
      rw [chain.storedIn_of_ne ((Function.grows_withSlot ..).numbered kept.numbered)
        (Nat.ne_of_gt later)]
      refine (Function.storedIn_withSlot kept.numbered ..).trans ?_
      exact kept.storedIn_new slot (Nat.le_of_lt later) other
    waiting_block := by
      intro store mem
      rcases chain.mem_deferred_opened_iff.mp mem with old | ⟨hit, hit_mem, -, rfl⟩
      · exact kept.waiting_block store old
      · exact (found hit hit_mem).source_lt closed
    waiting_slot := by
      intro store mem
      rw [slotCount]
      rcases chain.mem_deferred_opened_iff.mp mem with old | ⟨hit, -, -, rfl⟩
      · exact Nat.lt_succ_of_lt (kept.waiting_slot store old)
      · exact Nat.lt_succ_self _
    waiting_ty := by
      intro store mem
      rcases chain.mem_deferred_opened_iff.mp mem with old | ⟨hit, -, -, rfl⟩
      · rw [proceeds.grows.slotTy_eq _ (kept.waiting_slot store old)]
        exact kept.waiting_ty store old
      · rw [slotTy]
        exact proper
    waiting_distinct := by
      rw [chain.deferred_opened, List.pairwise_append]
      refine ⟨kept.waiting_distinct, ?_, ?_⟩
      · exact (ReachingDefinition.pairwise_filterMap_waiting? distinct).imp Or.inl
      · intro old old_mem new new_mem
        rcases ReachingDefinition.mem_filterMap_waiting?_iff.mp new_mem with ⟨hit, -, -, rfl⟩
        exact Or.inr (Nat.ne_of_lt (kept.waiting_slot old old_mem))
    unstored := by
      intro store mem
      rcases chain.mem_deferred_opened_iff.mp mem with old | ⟨hit, hit_mem, pending, rfl⟩
      · rw [proceeds.storedIn_eq kept.numbered _ (kept.waiting_slot store old)]
        exact kept.unstored store old
      · have stores := chain.storedIn_opened hit.block kept.numbered proper
          (kept.storedIn_new _ (Nat.le_refl _) _)
          (kept.blockCount_eq.symm ▸ (found hit hit_mem).source_lt closed)
        rw [ReachingDefinition.filterMap_valueIn?_of_forall] at stores
        · exact List.forall₂_nil_left_iff.mp stores
        · intro value known_mem
          have same := List.inj_on_of_nodup_map distinct known_mem hit_mem rfl
          rw [← same] at pending
          cases pending }

/-- Every move keeps the state in order. -/
theorem Move.wellKept {graph : FlowGraph} {block : BlockId} {before after : Raising}
    (kept : before.WellKept graph) (closed : graph.Closed) (move : Move graph block before after) :
    after.WellKept graph := by
  cases move with
  | tally _ => exact { kept with ranged := ⟨kept.ranged.filed, kept.ranged.bound⟩ }
  | grow quiet => exact kept.of_quiet quiet (kept.ranged.mono quiet.toExtends rfl rfl) rfl
  | file held _ filed =>
      have quiet : before.func.GrowsQuietly block before.func := .refl _
      exact kept.of_quiet quiet (kept.ranged.file held filed) rfl
  | note _ => exact { kept with ranged := ⟨kept.ranged.filed, kept.ranged.bound⟩ }
  | supply reached front chain => exact kept.supply closed reached front chain

theorem Moves.wellKept {graph : FlowGraph} {block : BlockId} {before after : Raising}
    (kept : before.WellKept graph) (closed : graph.Closed)
    (moves : Moves graph block before after) : after.WellKept graph := by
  induction moves with
  | refl => exact kept
  | tail _ move ih => exact move.wellKept ih closed

/-! ### Inquiries -/

/--
What operations in a block do before they file anything: values are computed, and definitions of
locations meet for the reads that the computations need. Flags are read at one bit.
-/
inductive Inquiry (graph : FlowGraph) (block : BlockId) : Raising → Raising → Prop where
  | tally {before : Raising} (statistics : Statistics) :
      Inquiry graph block before { before with statistics }
  | grow {before : Raising} {func : Function} (quiet : before.func.GrowsQuietly block func) :
      Inquiry graph block before { before with func }
  | met {before after : Raising} {location : Location} {native : Option Ty} {allPaths : Bool}
      {hits : List ReachingDefinition} {value : ValueId}
      (unknown : before.tracker.valueIn? graph location block = none)
      (reached : before.tracker.reaching graph location block allPaths = hits)
      (several : ReachingDefinition.Several hits)
      (typed : location.isFlag → native = some .bool)
      (met : Met location (before.slotTy graph location hits) block hits native before value after) :
      Inquiry graph block before after
  | abandoned {before after : Raising} {location : Location} {native : Option Ty} {allPaths : Bool}
      {hits : List ReachingDefinition}
      (unknown : before.tracker.valueIn? graph location block = none)
      (reached : before.tracker.reaching graph location block allPaths = hits)
      (several : ReachingDefinition.Several hits)
      (abandoned : Abandoned location (before.slotTy graph location hits) block hits native before
        after) :
      Inquiry graph block before after

/-- Any number of inquiries in a block. -/
abbrev Inquiries (graph : FlowGraph) (block : BlockId) : Raising → Raising → Prop :=
  ReflTransGen (Inquiry graph block)

section Inquiry

variable {graph : FlowGraph} {location : Location} {block : BlockId} {before after : Raising}
  {hits : List ReachingDefinition} {native : Option Ty} {allPaths : Bool}

theorem growsQuietly_load {func delivered : Function} {ty target : Ty} {slot : SlotId}
    {value : ValueId}
    (converted : Converted (func.withInstruction block ty (.load slot)) block func.values.size
      target value delivered) :
    func.GrowsQuietly block delivered :=
  (Function.growsQuietly_withInstruction _ _ _ _ fun _ _ => by simp).trans converted.growsQuietly

theorem Converted.lt_size {before after : Function} {value converted : ValueId} {target : Ty}
    (converts : Converted before block value target converted after)
    (held : value < before.values.size) : converted < after.values.size := by
  cases converts with
  | same _ => exact held
  | cast _ _ => simp

/-- A meeting supplies all definitions and then lets its block grow quietly. -/
theorem Met.exists_chain {ty : Ty} {value : ValueId}
    (met : Met location ty block hits native before value after) :
    ∃ supplied, Raise.Chain (Supplied location before.func.slots.size) hits
        (before.opened location ty) supplied ∧
      supplied.func.GrowsQuietly block after.func ∧
      after.tracker.deferred = supplied.tracker.deferred ∧
      after.tracker.merges = supplied.tracker.merges ++
        [{ location, block, slot := before.func.slots.size, value }] := by
  cases met with
  | @intro supplied _ func table chain converted filed =>
      have quiet := (growsQuietly_load converted).trans
        (Function.growsQuietly_withName _ _ value location.name)
      exact ⟨supplied, chain, quiet, rfl, rfl⟩

theorem Met.grows {ty : Ty} {value : ValueId}
    (met : Met location ty block hits native before value after) :
    before.func.Grows after.func := by
  rcases met.exists_chain with ⟨supplied, chain, quiet, _, _⟩
  exact ((Function.grows_withSlot ..).trans chain.grows).trans quiet.toGrows

/-- A meeting that is given up supplies some definitions and lets its block grow quietly. -/
theorem Abandoned.exists_chain {ty : Ty}
    (abandoned : Abandoned location ty block hits native before after) :
    ∃ done supplied, done <+: hits ∧
      Raise.Chain (Supplied location before.func.slots.size) done (before.opened location ty)
        supplied ∧
      supplied.func.GrowsQuietly block after.func ∧ after.tracker = supplied.tracker := by
  cases abandoned with
  | unsupplied split chain _ _ _ =>
      exact ⟨_, _, split ▸ List.prefix_append .., chain, .refl _, rfl⟩
  | @unconverted supplied chain _ _ =>
      have quiet := Function.growsQuietly_withInstruction supplied.func block ty
        (.load before.func.slots.size) fun _ _ => by simp
      exact ⟨_, _, List.prefix_refl _, chain, quiet, rfl⟩
  | @unfiled supplied value func failure chain converted _ =>
      have quiet := (growsQuietly_load converted).trans
        (Function.growsQuietly_withName _ _ value location.name)
      exact ⟨_, _, List.prefix_refl _, chain, quiet, rfl⟩

theorem Abandoned.grows {ty : Ty}
    (abandoned : Abandoned location ty block hits native before after) :
    before.func.Grows after.func := by
  rcases abandoned.exists_chain with ⟨done, supplied, -, chain, quiet, -⟩
  exact ((Function.grows_withSlot ..).trans chain.grows).trans quiet.toGrows

/-- A meeting files what it read, and nothing else. -/
theorem Met.content? {ty : Ty} {value : ValueId} {other : Location} {elsewhere : BlockId}
    (met : Met location ty block hits native before value after) :
    after.tracker.content? graph other elsewhere =
      if other = location ∧ elsewhere = block then some (.known value)
      else before.tracker.content? graph other elsewhere := by
  cases met with
  | intro chain converted filed =>
      dsimp only
      rw [Tracker.content?_addMerge, Tracker.content?_record filed, chain.tracker_eq]
      rfl

/-- What a meeting reads is computed in its block, at the type of the slot or the native one. -/
theorem Met.computes {ty : Ty} {value : ValueId}
    (met : Met location ty block hits native before value after) :
    after.func.Computes block (native.getD ty) value := by
  cases met with
  | @intro supplied _ func table chain converted filed =>
      have delivered : func.Computes block (native.getD ty) value := by
        cases converted with
        | same typed => exact ⟨typed, by simp⟩
        | cast _ _ => exact ⟨by simp [Function.ty], by simp⟩
      exact ⟨by simpa using delivered.ty_eq, by simpa using delivered.owner_eq⟩

theorem Abandoned.content? {ty : Ty} {other : Location} {elsewhere : BlockId}
    (abandoned : Abandoned location ty block hits native before after) :
    after.tracker.content? graph other elsewhere =
      before.tracker.content? graph other elsewhere := by
  rcases abandoned.exists_chain with ⟨done, supplied, -, chain, -, tracker_eq⟩
  rw [tracker_eq, chain.tracker_eq]
  rfl

theorem Met.moves {value : ValueId}
    (reached : before.tracker.reaching graph location block allPaths = hits)
    (typed : location.isFlag → native = some .bool)
    (met : Met location (before.slotTy graph location hits) block hits native before value after) :
    Moves graph block before after := by
  have computes := met.computes
  cases met with
  | @intro supplied _ func table chain converted filed =>
      have quiet := (growsQuietly_load converted).trans
        (Function.growsQuietly_withName _ _ value location.name)
      have held : value < (func.withName value location.name).values.size := by
        rw [Function.size_withName]
        exact converted.lt_size (by simp)
      refine (((ReflTransGen.single (.supply reached (List.prefix_refl _) chain)).tail
        (.grow quiet)).tail (.file held ?_ filed)).tail (.note _)
      rintro flag rfl
      rw [typed rfl] at computes
      exact .of_computes computes

theorem Abandoned.moves
    (reached : before.tracker.reaching graph location block allPaths = hits)
    (abandoned : Abandoned location (before.slotTy graph location hits) block hits native before
      after) :
    Moves graph block before after := by
  cases abandoned with
  | unsupplied split chain _ _ _ =>
      exact ReflTransGen.single (.supply reached (split ▸ List.prefix_append ..) chain)
  | unconverted chain _ _ =>
      exact (ReflTransGen.single (.supply reached (List.prefix_refl _) chain)).tail
        (.grow (Function.growsQuietly_withInstruction _ _ _ _ fun _ _ => by simp))
  | unfiled chain converted _ =>
      exact (ReflTransGen.single (.supply reached (List.prefix_refl _) chain)).tail
        (.grow ((growsQuietly_load converted).trans (Function.growsQuietly_withName ..)))

theorem Inquiry.moves (inquiry : Inquiry graph block before after) :
    Moves graph block before after := by
  cases inquiry with
  | tally statistics => exact ReflTransGen.single (.tally statistics)
  | grow quiet => exact ReflTransGen.single (.grow quiet)
  | met _ reached _ typed met => exact met.moves reached typed
  | abandoned _ reached _ abandoned => exact abandoned.moves reached

theorem Inquiries.moves (inquiries : Inquiries graph block before after) :
    Moves graph block before after := by
  induction inquiries with
  | refl => exact .refl
  | tail _ inquiry ih => exact ih.trans inquiry.moves

/-- A read is an inquiry of its block. -/
theorem Read.inquiries {ty : Ty} {asNative : Bool} {answer : Option ValueId}
    (typed : location.isFlag → (if asNative then some ty else none) = some .bool)
    (read : Read graph location ty block allPaths asNative before answer after) :
    Inquiries graph block before after := by
  cases read with
  | held _ => exact .single (.tally _)
  | missing _ _ => exact .single (.tally _)
  | direct _ _ => exact .single (.tally _)
  | met unknown reached several met =>
      have meeting : Inquiry graph block (before.tally Statistics.countPredecessorWalk) after :=
        .met unknown reached several typed met
      exact (ReflTransGen.single (.tally _)).tail meeting

end Inquiry

namespace Raise

/-- A read is an inquiry of its block, and so is one that fails. -/
theorem leads_readLocation (graph : FlowGraph) (location : Location) (native : Ty)
    (block : BlockId) (allPaths asNative : Bool) (before : Raising)
    (typed : location.isFlag → (if asNative then some native else none) = some .bool) :
    Leads (Inquiries graph block) (Read graph location native block allPaths asNative before)
      (readLocation graph location native block allPaths asNative) before := by
  have counted : ∀ tally, Inquiries graph block before (before.tally tally) := fun tally =>
    ReflTransGen.single (.tally _)
  refine leads_readLocation_of_meetings counted ?_ ?_
  · intro _ _ _ unknown reached several met
    exact (counted _).tail (.met unknown reached several typed met)
  · intro _ _ unknown reached several abandoned
    exact (counted _).tail (.abandoned unknown reached several abandoned)

end Raise

end RegisterFlow
