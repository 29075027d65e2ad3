import RegisterFlow.Proofs.Code.Loads
import RegisterFlow.Proofs.Tracking.Lasting
import RegisterFlow.Proofs.Tracking.MeetingGrowth
import RegisterFlow.Proofs.Tracking.Stores

/-!
# Merges

The definitions of a location meet in a block at most once, in a slot of their own that is loaded
there and nowhere else. What was loaded is the definition of the block from then on. So another read
in the block gives it again and builds nothing, until the location is defined there anew.
-/

namespace RegisterFlow

namespace Merge

/-- Two merges are at different points and have different slots. -/
def Apart (first second : Merge) : Prop :=
  (first.location ≠ second.location ∨ first.block ≠ second.block) ∧ first.slot ≠ second.slot

/--
The slot of a merge is loaded once, in the block of the merge, and the value of the merge is what
was loaded or a conversion of it in the same block.
-/
def LoadedOnce (merge : Merge) (func : Function) : Prop :=
  ∃ load, func.loadsIn merge.slot merge.block = [load] ∧
    (∀ other, other ≠ merge.block → func.loadsIn merge.slot other = []) ∧
    (merge.value = load ∨ merge.value ∈ func.body merge.block ∧
      ∃ kind, func.operation merge.value = .cast kind load)

/-- A value is on record at the point of a merge. -/
def OnRecord (merge : Merge) (table : Table) : Prop :=
  ((table.get? merge.location merge.block).bind Definition.value?).isSome

variable {merge : Merge} {before after : Function} {table filed : Table} {spared : SlotId → Prop}

theorem LoadedOnce.mono (loaded : merge.LoadedOnce before)
    (grown : before.GrowsSparing spared after) (numbered : before.Numbered)
    (held : spared merge.slot) : merge.LoadedOnce after := by
  rcases loaded with ⟨load, once, nowhere, value⟩
  refine ⟨load, ?_, ?_, ?_⟩
  · rw [grown.loadsIn_eq numbered _ held, once]
  · intro other different
    rw [grown.loadsIn_eq numbered _ held, nowhere other different]
  · rcases value with same | ⟨mem, kind, cast⟩
    · exact .inl same
    · exact .inr ⟨(grown.body_prefix _).subset mem, kind, grown.operation_of_ne (by simp) cast⟩

theorem OnRecord.record {location : Location} {block : BlockId} {width : Nat} {value : ValueId}
    (recorded : merge.OnRecord table) (records : table.record location block width value = .ok filed) :
    merge.OnRecord filed :=
  Table.HasValue.record recorded records

theorem OnRecord.withoutPending (recorded : merge.OnRecord table) (block : BlockId) :
    merge.OnRecord (table.withoutPending block) :=
  Table.HasValue.withoutPending recorded block

theorem OnRecord.isSome_valueIn? {graph : FlowGraph} {tracker : Tracker}
    (recorded : merge.OnRecord tracker.table) :
    (tracker.valueIn? graph merge.location merge.block).isSome := by
  rcases Option.isSome_iff_exists.mp recorded with ⟨value, found⟩
  rcases Option.bind_eq_some_iff.mp found with ⟨definition, filed, content⟩
  rw [Tracker.valueIn?, Tracker.definitionIn?_of_known filed (by rw [content]; rfl),
    Option.bind_some, content]
  rfl

end Merge

/-! ### What meetings load -/

/-- Slots are allocated and stored into without any load. -/
theorem Function.respectsSupplies_growsSparing (spared : SlotId → Prop) :
    RespectsSupplies (fun _ => True) (Function.GrowsSparing spared) where
  refl := .refl
  trans _ _ _ := .trans
  cast _ _ _ _ _ := Function.growsSparing_withInstruction _ _ _ _ _ fun _ _ => by simp
  store _ _ _ _ _ := Function.growsSparing_withInstruction _ _ _ _ _ fun _ _ => by simp
  allocate _ _ _ := Function.growsSparing_withSlot ..

/-- A meeting loads its own slot only. -/
theorem Function.respectsMeetings_growsSparing (slot : SlotId) :
    RespectsMeetings (· = slot) (Function.GrowsSparing (· ≠ slot)) where
  refl := .refl
  trans _ _ _ := .trans
  cast := (respectsSupplies_growsSparing _).cast
  store _ _ _ _ _ := (respectsSupplies_growsSparing _).store _ _ _ _ trivial
  allocate := (respectsSupplies_growsSparing _).allocate
  load _ _ _ _ own := by
    apply Function.growsSparing_withInstruction
    rintro other different ⟨rfl⟩
    exact different own
  name _ _ _ _ := Function.growsSparing_withName ..

section Meeting

variable {spared : SlotId → Prop} {location : Location} {ty : Ty} {block : BlockId}
  {hits : List ReachingDefinition} {native : Option Ty} {value : ValueId} {before after : Raising}

theorem Raise.Chain.growsSparing_settled {graph : FlowGraph} {stores : List DeferredStore}
    (chain : Chain (Settled graph) stores before after) :
    before.func.GrowsSparing spared after.func :=
  (Function.respectsSupplies_growsSparing spared).of_settled (fun _ _ => trivial) chain

theorem Met.growsSparing (met : Met location ty block hits native before value after) :
    before.func.GrowsSparing (· ≠ before.func.slots.size) after.func :=
  (Function.respectsMeetings_growsSparing _).of_met rfl met

theorem Abandoned.growsSparing (abandoned : Abandoned location ty block hits native before after) :
    before.func.GrowsSparing (· ≠ before.func.slots.size) after.func :=
  (Function.respectsMeetings_growsSparing _).of_abandoned rfl abandoned

theorem Abandoned.merges_eq (abandoned : Abandoned location ty block hits native before after) :
    after.tracker.merges = before.tracker.merges := by
  rcases abandoned.exists_chain with ⟨done, supplied, -, chain, -, tracker_eq⟩
  rw [tracker_eq, chain.tracker_eq]
  rfl

theorem Met.slotCount_eq (met : Met location ty block hits native before value after) :
    after.func.slots.size = before.func.slots.size + 1 := by
  rcases met.exists_chain with ⟨supplied, chain, quiet, -, -⟩
  rw [quiet.slots_eq, chain.slotCount_opened]

theorem Abandoned.slotCount_eq (abandoned : Abandoned location ty block hits native before after) :
    after.func.slots.size = before.func.slots.size + 1 := by
  rcases abandoned.exists_chain with ⟨done, supplied, -, chain, quiet, -⟩
  rw [quiet.slots_eq, chain.slotCount_opened]

/-- In a new slot, a meeting loads what it gives as its answer. -/
theorem Met.loadedOnce (met : Met location ty block hits native before value after)
    (numbered : before.func.Numbered) (bound : block < before.func.blocks.size)
    (unloaded : ∀ other, before.func.loadsIn before.func.slots.size other = []) :
    Merge.LoadedOnce { location, block, slot := before.func.slots.size, value } after.func := by
  cases met with
  | @intro supplied _ func table chain converted _ =>
      have respects := Function.respectsSupplies_growsSparing fun _ => True
      have grown : before.func.GrowsSparing (fun _ => True) supplied.func :=
        respects.of_opened trivial chain
      have numbered_supplied := grown.numbered numbered
      have bound_supplied : block < supplied.func.blocks.size := by
        rwa [grown.blockCount_eq]
      have loads_supplied : ∀ other, supplied.func.loadsIn before.func.slots.size other = [] := by
        intro other
        rw [grown.loadsIn_eq numbered _ trivial, unloaded]
      have finished : (supplied.func.withInstruction block ty
          (.load before.func.slots.size)).GrowsSparing (fun _ => True)
            (func.withName value location.name) :=
        (respects.of_converted converted).trans (Function.growsSparing_withName ..)
      have numbered_loaded : (supplied.func.withInstruction block ty
          (.load before.func.slots.size)).Numbered := numbered_supplied.withInstruction
      refine ⟨supplied.func.values.size, ?_, ?_, ?_⟩
      · refine (finished.loadsIn_eq numbered_loaded _ trivial _).trans ?_
        rw [Function.loadsIn_withInstruction numbered_supplied, loads_supplied,
          if_pos ⟨rfl, bound_supplied, rfl⟩, List.nil_append]
      · intro other different
        refine (finished.loadsIn_eq numbered_loaded _ trivial _).trans ?_
        rw [Function.loadsIn_withInstruction numbered_supplied, loads_supplied,
          if_neg fun here => different here.1, List.nil_append]
      · cases converted with
        | same _ => exact .inl rfl
        | @cast kind _ _ =>
            refine .inr ⟨?_, kind, ?_⟩
            · dsimp only
              rw [Function.body_withName, Function.body_withInstruction, if_pos]
              · simp
              · rw [Function.blockCount_withInstruction]
                exact ⟨rfl, bound_supplied⟩
            · dsimp only
              rw [Function.operation_withName, Function.operation_withInstruction, if_pos rfl]

end Meeting

/-! ### What holds of all merges -/

/--
The merges of a state are apart from each other, their points are on record, and their slots are
loaded once. The driver owns none of these slots, and slots to come are not loaded yet.
-/
structure Raising.Merging (graph : FlowGraph) (owned : List SlotId) (raising : Raising) :
    Prop where
  numbered : raising.func.Numbered
  blockCount_eq : raising.func.blocks.size = graph.blocks.size
  owned_lt : ∀ slot ∈ owned, slot < raising.func.slots.size
  apart : raising.tracker.merges.Pairwise Merge.Apart
  onRecord : ∀ merge ∈ raising.tracker.merges, merge.OnRecord raising.tracker.table
  slot_lt : ∀ merge ∈ raising.tracker.merges, merge.slot < raising.func.slots.size
  unowned : ∀ merge ∈ raising.tracker.merges, merge.slot ∉ owned
  loadedOnce : ∀ merge ∈ raising.tracker.merges, merge.LoadedOnce raising.func
  unloaded : ∀ slot, raising.func.slots.size ≤ slot →
    ∀ block, raising.func.loadsIn slot block = []

namespace Raising.Merging

open Raise (Leads Keeps)

variable {graph : FlowGraph} {owned : List SlotId} {before after : Raising}
  {spared : SlotId → Prop}

/-- The function may grow as long as the slots of merges and the slots to come are not loaded. -/
theorem grow (merging : Merging graph owned before)
    (grown : before.func.GrowsSparing spared after.func)
    (spares : ∀ slot, slot ∉ owned →
      slot < before.func.slots.size ∨ after.func.slots.size ≤ slot → spared slot)
    (merges_eq : after.tracker.merges = before.tracker.merges)
    (table_eq : after.tracker.table = before.tracker.table) : Merging graph owned after where
  numbered := grown.numbered merging.numbered
  blockCount_eq := grown.blockCount_eq.trans merging.blockCount_eq
  owned_lt slot mem := Nat.lt_of_lt_of_le (merging.owned_lt slot mem) grown.slotCount_le
  apart := by
    rw [merges_eq]
    exact merging.apart
  onRecord := by
    rw [merges_eq, table_eq]
    exact merging.onRecord
  slot_lt merge mem := by
    rw [merges_eq] at mem
    exact Nat.lt_of_lt_of_le (merging.slot_lt merge mem) grown.slotCount_le
  unowned := by
    rw [merges_eq]
    exact merging.unowned
  loadedOnce merge mem := by
    rw [merges_eq] at mem
    have held := spares merge.slot (merging.unowned merge mem) (.inl (merging.slot_lt merge mem))
    exact (merging.loadedOnce merge mem).mono grown merging.numbered held
  unloaded slot new block := by
    have beyond := Nat.le_trans grown.slotCount_le new
    have unowned : slot ∉ owned := fun mem => Nat.not_lt_of_le beyond (merging.owned_lt slot mem)
    rw [grown.loadsIn_eq merging.numbered slot (spares slot unowned (.inr new))]
    exact merging.unloaded slot beyond block

/-- Values may be filed. -/
theorem file {location : Location} {block : BlockId} {width : Nat} {value : ValueId}
    {table : Table} (merging : Merging graph owned before)
    (filed : before.tracker.table.record location block width value = .ok table) :
    Merging graph owned { before with tracker := { before.tracker with table } } :=
  { merging with onRecord := fun merge mem => (merging.onRecord merge mem).record filed }

/-- What is pending in a block may be dropped. -/
theorem drop (merging : Merging graph owned before) (block : BlockId) :
    Merging graph owned { before with
      tracker := { before.tracker with table := before.tracker.table.withoutPending block } } :=
  { merging with
    onRecord := fun merge mem => (merging.onRecord merge mem).withoutPending block }

section Meeting

variable {location : Location} {ty : Ty} {block : BlockId} {hits : List ReachingDefinition}
  {native : Option Ty} {value : ValueId}

/-- Definitions may meet where none is known yet. -/
theorem met (merging : Merging graph owned before)
    (met : Met location ty block hits native before value after)
    (bound : block < graph.blocks.size)
    (unknown : before.tracker.valueIn? graph location block = none) :
    Merging graph owned after := by
  have grown := met.growsSparing
  have slotCount := met.slotCount_eq
  rcases met.exists_chain with ⟨supplied, chain, -, -, merges_eq⟩
  have merges : after.tracker.merges = before.tracker.merges ++
      [{ location, block, slot := before.func.slots.size, value }] := by
    rw [merges_eq, chain.tracker_eq]
    rfl
  have filed := met.record_eq.1
  have cases_of_mem : ∀ merge ∈ after.tracker.merges, merge ∈ before.tracker.merges ∨
      merge = { location, block, slot := before.func.slots.size, value } := by
    intro merge mem
    rw [merges] at mem
    rcases List.mem_append.mp mem with old | new
    · exact .inl old
    · exact .inr (List.mem_singleton.mp new)
  refine {
    numbered := grown.numbered merging.numbered
    blockCount_eq := grown.blockCount_eq.trans merging.blockCount_eq
    owned_lt := fun slot mem => Nat.lt_of_lt_of_le (merging.owned_lt slot mem) grown.slotCount_le
    apart := ?_
    onRecord := ?_
    slot_lt := ?_
    unowned := ?_
    loadedOnce := ?_
    unloaded := ?_ }
  · rw [merges]
    refine List.pairwise_append.mpr ⟨merging.apart, List.pairwise_singleton .., ?_⟩
    intro old old_mem new new_mem
    cases List.mem_singleton.mp new_mem
    refine ⟨?_, Nat.ne_of_lt (merging.slot_lt old old_mem)⟩
    rw [← not_and_or]
    rintro ⟨rfl, rfl⟩
    have known : (before.tracker.valueIn? graph old.location old.block).isSome :=
      (merging.onRecord old old_mem).isSome_valueIn?
    rw [unknown] at known
    cases known
  · intro merge mem
    rcases cases_of_mem merge mem with old | rfl
    · exact (merging.onRecord merge old).record filed
    · rw [Merge.OnRecord, Table.get?_record filed, if_pos ⟨rfl, rfl⟩]
      rfl
  · intro merge mem
    rw [slotCount]
    rcases cases_of_mem merge mem with old | rfl
    · exact Nat.lt_succ_of_lt (merging.slot_lt merge old)
    · exact Nat.lt_succ_self _
  · intro merge mem
    rcases cases_of_mem merge mem with old | rfl
    · exact merging.unowned merge old
    · exact fun mem => Nat.lt_irrefl _ (merging.owned_lt _ mem)
  · intro merge mem
    rcases cases_of_mem merge mem with old | rfl
    · exact (merging.loadedOnce merge old).mono grown merging.numbered
        (Nat.ne_of_lt (merging.slot_lt merge old))
    · apply met.loadedOnce merging.numbered
      · rwa [merging.blockCount_eq]
      · exact merging.unloaded _ (Nat.le_refl _)
  · intro slot new other
    rw [slotCount] at new
    rw [grown.loadsIn_eq merging.numbered slot (Nat.ne_of_gt new)]
    exact merging.unloaded slot (Nat.le_of_succ_le new) other

end Meeting

/-- Only the function grows, and it loads nothing but slots of the driver. -/
theorem build {func : Function} (merging : Merging graph owned before)
    (grown : before.func.GrowsSparing (· ∉ owned) func) :
    Merging graph owned { before with func } :=
  merging.grow grown (fun _ unowned _ => unowned) rfl rfl

/-- What merges are is kept by all steps of which actions consist. -/
theorem respects (closed : graph.Closed) (owned : List SlotId) :
    Raise.Respects graph (Keeps (Merging graph owned)) where
  tally before statistics merging := { merging with }
  compute before block func computations merging := merging.build (computations.growsSparing _)
  rename before id name merging := merging.build (Function.growsSparing_withName ..)
  terminate before block operation merging :=
    merging.build (Function.growsSparing_withTerminator ..)
  read before location native block allPaths asNative _ := by
    refine (Raise.leads_readLocation_of_meetings ?_ ?_ ?_).imp fun _ _ _ _ => trivial
    · exact fun _ merging => { merging with }
    · intro hits value after unknown reached several met merging
      have tallied : Merging graph owned (before.tally Statistics.countPredecessorWalk) :=
        { merging with }
      exact tallied.met met (Tracker.lt_size_of_reaching closed reached several.1) unknown
    · intro hits after unknown reached several abandoned merging
      have tallied : Merging graph owned (before.tally Statistics.countPredecessorWalk) :=
        { merging with }
      refine tallied.grow abandoned.growsSparing ?_ abandoned.merges_eq abandoned.table_eq.1
      rintro slot - (old | new)
      · exact Nat.ne_of_lt old
      · rw [abandoned.slotCount_eq] at new
        exact Nat.ne_of_gt new
  settle before := by
    refine Raise.leads_settleAll_of_settled (fun {_ after} _ chain merging => ?_)
      fun _ _ _ kept merging => { kept merging with }
    have grown : before.func.GrowsSparing (· ∉ owned) after.func := chain.growsSparing_settled
    refine merging.grow grown (fun _ unowned _ => unowned) ?_ ?_
    · rw [chain.tracker_eq_settled, Raising.released]
    · rw [chain.tracker_eq_settled, Raising.released]

end Raising.Merging

/-- Merges are never taken back. -/
theorem Raise.respects_merges (graph : FlowGraph) (merges : List Merge) :
    Respects graph (Keeps fun raising => merges <+: raising.tracker.merges) where
  tally _ _ := id
  compute _ _ _ _ := id
  rename _ _ _ := id
  terminate _ _ _ := id
  read before location native block allPaths asNative _ := by
    refine (leads_readLocation_of_meetings ?_ ?_ ?_).imp fun _ _ _ _ => trivial
    · exact fun _ => id
    · intro _ _ _ _ _ _ met held
      rcases met.exists_chain with ⟨supplied, chain, -, -, merges_eq⟩
      rw [merges_eq, chain.tracker_eq]
      exact held.trans (List.prefix_append ..)
    · intro _ _ _ _ _ abandoned held
      rw [abandoned.merges_eq]
      exact held
  settle before := by
    refine leads_settleAll_of_settled (fun _ chain held => ?_) fun _ _ _ kept => kept
    dsimp only
    rw [chain.tracker_eq_settled]
    exact held

namespace Session

variable {graph : FlowGraph} {session : Session} {actions : List Action}

/-- The driver loads from slots of its own only. -/
def LoadsOwn (graph : FlowGraph) (session : Session) (actions : List Action) : Prop :=
  ∀ earlier block slot later, actions = earlier ++ .emit block (.load slot) :: later →
    slot ∈ (session.after graph earlier).owned

theorem merging_perform {action : Action} (closed : graph.Closed)
    (merging : session.raising.Merging graph session.owned)
    (loads : ∀ block slot, action = .emit block (.load slot) → slot ∈ session.owned) :
    (session.perform graph action).raising.Merging graph (session.perform graph action).owned := by
  by_cases allocates : ∃ ty base, action = .allocate ty base
  · rcases allocates with ⟨ty, base, rfl⟩
    have grown := merging.build (Function.growsSparing_withSlot _ _ ty base)
    have slotCount : (session.raising.func.withSlot ty base).slots.size =
        session.raising.func.slots.size + 1 := Function.slotCount_withSlot ..
    refine { grown with owned_lt := ?_, unowned := ?_ }
    · intro slot mem
      refine Nat.lt_of_lt_of_eq ?_ slotCount.symm
      rcases List.mem_cons.mp mem with rfl | old
      · exact Nat.lt_succ_self _
      · exact Nat.lt_succ_of_lt (merging.owned_lt slot old)
    · intro merge mem owned
      rcases List.mem_cons.mp owned with new | old
      · exact Nat.ne_of_lt (merging.slot_lt merge mem) new
      · exact merging.unowned merge mem old
  · have owned_eq : (session.perform graph action).owned = session.owned := by
      cases action with
      | allocate ty base => exact absurd ⟨ty, base, rfl⟩ allocates
      | _ => rfl
    rw [owned_eq]
    have leads : Raise.Leads (Raise.Keeps (Raising.Merging graph session.owned))
        (fun _ _ => True) (action.step graph) session.raising := by
      apply (Raising.Merging.respects closed session.owned).leads_step
      · intro location block _ width value before
        exact Raise.leads_define_of_record fun table filed held => held.file filed
      · exact fun block _ before held => held.drop block
      · rintro block emission rfl held
        apply held.build
        apply Function.growsSparing_withInstruction
        intro slot unowned same
        cases emission with
        | load loaded =>
            cases same
            exact unowned (loads block _ rfl)
        | _ => cases same
      · intro ty base allocate
        exact absurd ⟨ty, base, allocate⟩ allocates
    exact leads.final merging

theorem merges_prefix_perform (graph : FlowGraph) (session : Session) (action : Action) :
    session.raising.tracker.merges <+: (session.perform graph action).raising.tracker.merges := by
  have leads : Raise.Leads
      (Raise.Keeps fun raising => session.raising.tracker.merges <+: raising.tracker.merges)
      (fun _ _ => True) (action.step graph) session.raising := by
    apply (Raise.respects_merges graph _).leads_step
    · intro location block _ width value before
      exact Raise.leads_define_of_record fun _ _ => id
    · exact fun _ _ _ => id
    · exact fun _ _ _ => id
    · exact fun _ _ _ => id
  exact leads.final (List.prefix_refl _)

theorem merges_prefix_after (graph : FlowGraph) (session : Session) (actions : List Action) :
    session.raising.tracker.merges <+: (session.after graph actions).raising.tracker.merges :=
  keeps_after (motive := (session.raising.tracker.merges <+: ·.raising.tracker.merges))
    (fun later action _ kept => kept.trans (merges_prefix_perform graph later action))
    (List.prefix_refl _)

theorem LoadsOwn.tail {action : Action} (loads : LoadsOwn graph session (action :: actions)) :
    LoadsOwn graph (session.perform graph action) actions := by
  rintro earlier block slot later rfl
  exact loads (action :: earlier) block slot later rfl

/-- Whatever a driver does that loads from its own slots only, merges are what they should be. -/
theorem merging_after (closed : graph.Closed)
    (merging : session.raising.Merging graph session.owned)
    (loads : LoadsOwn graph session actions) :
    (session.after graph actions).raising.Merging graph (session.after graph actions).owned := by
  induction actions generalizing session with
  | nil => exact merging
  | cons action actions ih =>
      apply ih _ loads.tail
      apply merging_perform closed merging
      rintro block slot rfl
      exact loads [] block slot actions rfl

theorem Starts.merging (starts : Starts graph session) :
    session.raising.Merging graph session.owned := by
  rcases starts with ⟨name, types, blockNames, tracker, count, started, rfl⟩
  have none_merged := (Tracker.initial_of_start started).merges
  have no_merge : ∀ merge, merge ∉ tracker.merges := by
    intro merge mem
    rw [none_merged] at mem
    cases mem
  exact {
    numbered := Function.numbered_empty ..
    blockCount_eq := by simpa [Function.empty] using count
    owned_lt := fun slot mem => by cases mem
    apart := by
      dsimp only
      rw [none_merged]
      exact .nil
    onRecord := fun merge mem => absurd mem (no_merge merge)
    slot_lt := fun merge mem => absurd mem (no_merge merge)
    unowned := fun merge mem => absurd mem (no_merge merge)
    loadedOnce := fun merge mem => absurd mem (no_merge merge)
    unloaded := fun slot _ block => by
      rw [Function.loadsIn, Function.body_empty]
      rfl }

end Session

end RegisterFlow
