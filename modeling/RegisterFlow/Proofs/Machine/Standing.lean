import RegisterFlow.Proofs.Machine.Driver
import RegisterFlow.Proofs.Machine.Ways
import RegisterFlow.Proofs.Tracking.Merges
import RegisterFlow.Proofs.Tracking.Reentry
import RegisterFlow.Proofs.Tracking.WordMeetings

/-!
# How matters stand between actions

What holds of the code and of the definitions while a driver raises one block after the other. The
code is well built, and known definitions can be read where they are made. What is still pending is
written by a block that is yet to be raised, and so are the values that deferred stores wait for.
Wherever a slot is loaded, every way to the load has visited a block that stores into it, or will.
-/

namespace RegisterFlow

namespace Function

variable {before after : Function} {slot : SlotId} {block : BlockId} {operand : ValueId}

theorem Extends.mem_storedIn (grown : Extends before after)
    (mem : operand ∈ before.storedIn slot block) : operand ∈ after.storedIn slot block := by
  rcases mem_storedIn_iff.mp mem with ⟨id, id_mem, stores⟩
  exact mem_storedIn_iff.mpr
    ⟨id, (grown.body_prefix block).subset id_mem, grown.operation_of_ne (by simp) stores⟩

theorem Extends.storedIn_ne_nil (grown : Extends before after)
    (stored : before.storedIn slot block ≠ []) : after.storedIn slot block ≠ [] := by
  rcases List.exists_mem_of_ne_nil _ stored with ⟨operand, mem⟩
  exact List.ne_nil_of_mem (grown.mem_storedIn mem)

/-- Slots that a well-built function does not have are not loaded. -/
theorem WellBuilt.loadsIn_eq_nil {graph : FlowGraph} {func : Function}
    (wellBuilt : func.WellBuilt graph) (new : func.slots.size ≤ slot) (block : BlockId) :
    func.loadsIn slot block = [] := by
  rw [List.eq_nil_iff_forall_not_mem]
  intro id mem
  rcases mem_loadsIn_iff.mp mem with ⟨listed, loads⟩
  have proper := (wellBuilt.built id (wellBuilt.numbered.lt_size block id listed)).proper
  rw [loads] at proper
  exact Nat.not_lt_of_le new proper.1

end Function

/-- A block stores into a slot, or a deferred store waits to do so. -/
def Raising.WillStore (raising : Raising) (slot : SlotId) (block : BlockId) : Prop :=
  raising.func.storedIn slot block ≠ [] ∨
    ∃ store ∈ raising.tracker.deferred, store.slot = slot ∧ store.block = block

/--
How matters stand when some blocks have been worked in, and some of them are done. Apart from these
blocks, only the entry knows anything, which are the arguments.
-/
structure Raising.Standing (graph : FlowGraph) (worked done : List BlockId) (raising : Raising) :
    Prop where
  wellBuilt : raising.func.WellBuilt graph
  readable : raising.tracker.Readable graph raising.func
  held : ∀ location source, graph.Writes source location →
    (raising.tracker.content? graph location source).isSome
  pending : ∀ location source, raising.tracker.IsPending location source →
    graph.Writes source location ∧ source ∉ done
  known : ∀ location source value,
    raising.tracker.content? graph location source = some (.known value) →
      source ∈ graph.entry :: worked
  waiting : ∀ store ∈ raising.tracker.deferred,
    graph.Writes store.block store.location ∧ (raising.func.slot store.slot).ty = .int 64
  supplied : ∀ slot block, raising.func.loadsIn slot block ≠ [] →
    ∀ visited, graph.Arrives visited block → ∃ source ∈ visited, raising.WillStore slot source

/-! ### The start -/

theorem Function.wellBuilt_empty (graph : FlowGraph) (name : String) (types : List Ty)
    (blockNames : List String) : (Function.empty name types blockNames).WellBuilt graph where
  numbered := numbered_empty ..
  built id held := by
    have mem : id ∈ (Function.empty name types blockNames).arguments := by
      rw [size_empty] at held
      exact List.mem_range.mpr held
    have operation := operation_empty mem
    have unlisted : ∀ block, id ∉ (Function.empty name types blockNames).body block := by
      intro block
      rw [body_empty]
      exact List.not_mem_nil
    constructor
    · rw [operation]
      simpa [Proper, Function.empty] using mem
    · simp [operation, Operation.operands]
    · rw [size_empty] at held
      simp [Function.empty, Function.value, held]
    · exact fun block mem => absurd mem (unlisted block)
    · exact fun block mem => absurd mem (unlisted block)

namespace Session

variable {graph : FlowGraph} {session : Session}

/-- What is known at the start are arguments at the entry. -/
theorem Starts.bound_of_known {location : Location} {source : BlockId} {value : ValueId}
    (starts : Starts graph session)
    (known : session.raising.tracker.content? graph location source = some (.known value)) :
    source = graph.entry ∧
      (session.raising.tracker.bindingAt? location).map Binding.value = some value ∧
      value ∈ session.raising.func.arguments := by
  rcases starts with ⟨name, types, blockNames, tracker, -, made, rfl⟩
  have bound : source = graph.entry ∧
      (tracker.bindingAt? location).map Binding.value = some value := by
    rcases Tracker.get?_of_known known with filed | bound
    · exact (Tracker.noted_of_start made).known location source value filed
    · exact bound
  refine ⟨bound.1, bound.2, ?_⟩
  rcases Option.map_eq_some_iff.mp bound.2 with ⟨binding, carried, rfl⟩
  cases location with
  | flag _ => cases carried
  | register register =>
      rcases List.lookup_eq_some_iff.mp carried with ⟨front, back, split, _⟩
      exact (Tracker.initial_of_start made).bound (register, binding) (by rw [split]; simp)

theorem Starts.standing (starts : Starts graph session)
    (words : ∀ argument ∈ session.raising.func.arguments,
      (session.raising.func.ty argument).IsWord) :
    session.raising.Standing graph [] [] := by
  have bound_of_known := fun location source value =>
    @Starts.bound_of_known graph session location source value starts
  rcases starts with ⟨name, types, blockNames, tracker, -, made, rfl⟩
  have initial := Tracker.initial_of_start made
  have noted := Tracker.noted_of_start made
  have wellBuilt := Function.wellBuilt_empty graph name types blockNames
  constructor
  · exact wellBuilt
  · intro location source value known
    have mem := (bound_of_known location source value known).2.2
    refine ⟨words value mem, fun inner => ?_⟩
    rw [Function.operation_empty mem] at inner
    cases inner
  · exact fun location source writes =>
      ((Tracker.isPending_start_iff made).mpr writes).isSome_content?
  · exact fun location source pending =>
      ⟨noted.pending location source pending, List.not_mem_nil⟩
  · intro location source value known
    exact List.mem_singleton.mpr (bound_of_known location source value known).1
  · intro store mem
    rw [initial.deferred] at mem
    cases mem
  · intro slot block loaded
    rw [Function.loadsIn, Function.body_empty] at loaded
    exact absurd rfl loaded

end Session

/-! ### Steps -/

namespace Raising

variable {graph : FlowGraph} {worked done : List BlockId} {before after : Raising}
  {location : Location} {block : BlockId} {value : ValueId}

theorem WillStore.mono {slot : SlotId} (stores : before.WillStore slot block)
    (grown : before.func.Extends after.func)
    (kept : before.tracker.deferred ⊆ after.tracker.deferred) : after.WillStore slot block := by
  rcases stores with stored | ⟨store, mem, same⟩
  · exact Or.inl (grown.storedIn_ne_nil stored)
  · exact Or.inr ⟨store, kept mem, same⟩

namespace Standing

theorem mono {more : List BlockId} (standing : before.Standing graph worked done)
    (subset : worked ⊆ more) : before.Standing graph more done :=
  { standing with
    known := fun location source value known =>
      List.cons_subset_cons _ subset (standing.known location source value known) }

theorem tally (standing : before.Standing graph worked done)
    (tally : Statistics → Statistics) : (before.tally tally).Standing graph worked done :=
  { standing with }

/-- The code may grow as long as nothing is loaded. -/
theorem grow {func : Function} (standing : before.Standing graph worked done)
    (kept : before.WellKept graph) (wellBuilt : func.WellBuilt graph)
    (grown : before.func.GrowsSparing (fun _ => True) func) :
    ({ before with func } : Raising).Standing graph worked done where
  wellBuilt := wellBuilt
  readable location source value known :=
    (standing.readable location source value known).mono grown.toExtends
  held := standing.held
  pending := standing.pending
  known := standing.known
  waiting store mem := by
    rcases standing.waiting store mem with ⟨writes, typed⟩
    exact ⟨writes, (grown.slotTy_eq store.slot (kept.waiting_slot store mem)).trans typed⟩
  supplied slot block loaded visited arrives := by
    rw [grown.loadsIn_eq kept.numbered slot trivial] at loaded
    rcases standing.supplied slot block loaded visited arrives with ⟨source, mem, stores⟩
    exact ⟨source, mem, stores.mono grown.toExtends (List.Subset.refl _)⟩

/-- A value may be filed in a block that is worked in, if it can be read there. -/
theorem file {width : Nat} {table : Table} (standing : before.Standing graph worked done)
    (usable : before.func.Usable graph block value) (working : block ∈ worked)
    (filed : before.tracker.table.record location block width value = .ok table) :
    ({ before with tracker := { before.tracker with table } } : Raising).Standing graph worked
      done where
  wellBuilt := standing.wellBuilt
  readable other source given known := by
    rw [Tracker.content?_record filed] at known
    split at known
    · next here =>
      cases known
      exact here.2 ▸ usable
    · exact standing.readable other source given known
  held other source writes := by
    rw [Tracker.content?_record filed]
    split
    · rfl
    · exact standing.held other source writes
  pending other source pending :=
    standing.pending other source ((Tracker.isPending_record_iff filed).mp pending).2
  known other source given known := by
    rw [Tracker.content?_record filed] at known
    split at known
    · next here => exact List.mem_cons_of_mem _ (here.2 ▸ working)
    · exact standing.known other source given known
  waiting := standing.waiting
  supplied := standing.supplied

/-- A block is done when nothing is pending there any longer. -/
theorem drop {statistics : Statistics} (standing : before.Standing graph worked done)
    (settled : ∀ location, ¬ before.tracker.IsPending location block) :
    ({ before with
        tracker := { before.tracker with table := before.tracker.table.withoutPending block }
        statistics } : Raising).Standing graph worked (block :: done) := by
  have get?_eq : ∀ location source, (before.tracker.table.withoutPending block).get? location source =
      before.tracker.table.get? location source :=
    fun _ _ => Tracker.get?_withoutPending settled
  have content_eq : ∀ location source,
      Tracker.content? graph
          { before.tracker with table := before.tracker.table.withoutPending block } location source =
        before.tracker.content? graph location source :=
    fun _ _ => Tracker.content?_withoutPending_of_settled settled
  constructor
  · exact standing.wellBuilt
  · intro location source value known
    rw [content_eq] at known
    exact standing.readable location source value known
  · intro location source writes
    rw [content_eq]
    exact standing.held location source writes
  · rintro location source ⟨definition, found, pending⟩
    dsimp only at found
    rw [get?_eq] at found
    have pending : before.tracker.IsPending location source := ⟨definition, found, pending⟩
    rcases standing.pending location source pending with ⟨writes, undone⟩
    refine ⟨writes, ?_⟩
    rw [List.mem_cons, not_or]
    exact ⟨fun here => settled location (here ▸ pending), undone⟩
  · intro location source value known
    rw [content_eq] at known
    exact standing.known location source value known
  · exact standing.waiting
  · exact standing.supplied

section Meeting

variable {hits : List ReachingDefinition} {native : Option Ty}

/-- What reaches a block can be supplied to the slot in which it meets. -/
theorem suppliable (standing : before.Standing graph worked done) (kept : before.WellKept graph)
    (closed : graph.Closed) (full : graph.convention.fullWidth location = 64)
    (reached : before.tracker.reaching graph location block false = hits) (nonempty : hits ≠ []) :
    (before.slotTy graph location hits).IsWord ∧
      Suppliable graph before.func (before.slotTy graph location hits) hits ∧
      ∀ hit ∈ hits, hit.content = .pending → before.slotTy graph location hits = .int 64 := by
  have usable : ∀ hit ∈ hits, ∀ value, hit.content = .known value →
      before.func.Usable graph hit.block value := by
    intro hit mem value known
    have content := (Tracker.reaches_of_mem_reaching closed (reached ▸ mem)).2
    exact standing.readable location hit.block value (known ▸ content)
  rw [Raising.slotTy, full]
  have words : ∀ hit ∈ hits, ∀ value, hit.content = .known value →
      (before.func.ty value).IsWord :=
    fun hit mem value known => (usable hit mem value known).word
  rcases meetingTy_of_words nonempty words with ⟨word, fits⟩
  refine ⟨word, fun hit mem => ⟨?_, fun value known => ?_⟩, fun hit mem => (fits hit mem).2⟩
  · rw [kept.blockCount_eq]
    exact (Tracker.reaches_of_mem_reaching closed (reached ▸ mem)).1.source_lt closed
  · exact ⟨usable hit mem value known, (fits hit mem).1 value known⟩

/-- Definitions may meet where the location is defined on every way. -/
theorem met (standing : before.Standing graph worked done) (kept : before.WellKept graph)
    (closed : graph.Closed) (full : graph.convention.fullWidth location = 64)
    (register : location.isFlag = false)
    (everywhere : before.tracker.OnEveryWay graph location block)
    (reached : before.tracker.reaching graph location block false = hits) (nonempty : hits ≠ [])
    (distinct : before.tracker.Distinct graph location block) (working : block ∈ worked)
    (builds : Function.Builds graph before.func after.func)
    (usable : after.func.Usable graph block value)
    (met : Met location (before.slotTy graph location hits) block hits native before value after) :
    after.Standing graph worked done := by
  have grown := builds.grows.toExtends
  rcases standing.suppliable kept closed full reached nonempty with ⟨word, suppliable, wide⟩
  have moves := met.moves reached (by simp [register])
  constructor
  · exact builds.wellBuilt standing.wellBuilt
  · intro other source given known
    rw [met.content?] at known
    split at known
    · next here =>
      cases known
      exact here.2 ▸ usable
    · exact (standing.readable other source given known).mono grown
  · exact fun other source writes => moves.isSome_content? (standing.held other source writes)
  · exact fun other source pending => standing.pending other source (moves.isPending pending)
  · intro other source given known
    rw [met.content?] at known
    split at known
    · next here => exact List.mem_cons_of_mem _ (here.2 ▸ working)
    · exact standing.known other source given known
  · intro store mem
    rcases met.mem_deferred_iff.mp mem with old | ⟨hit, hit_mem, pending, rfl⟩
    · rcases standing.waiting store old with ⟨writes, typed⟩
      exact ⟨writes, (grown.slotTy_eq store.slot (kept.waiting_slot store old)).trans typed⟩
    · have content := (Tracker.reaches_of_mem_reaching closed (reached ▸ hit_mem)).2
      rw [pending] at content
      refine ⟨(standing.pending location hit.block (Tracker.isPending_of_content? content).1).1, ?_⟩
      rw [met.slotTy_eq, wide hit hit_mem pending]
  · intro slot loaded_in loaded visited arrives
    by_cases new : slot = before.func.slots.size
    · subst new
      have bound : block < before.func.blocks.size :=
        kept.blockCount_eq ▸ Tracker.lt_size_of_reaching closed reached nonempty
      rcases met.loadedOnce kept.numbered bound
        (standing.wellBuilt.loadsIn_eq_nil (Nat.le_refl _)) with ⟨_, _, elsewhere, _⟩
      obtain rfl : loaded_in = block := by
        by_contra different
        exact loaded (elsewhere loaded_in different)
      rcases Tracker.exists_latest_definition arrives (everywhere visited arrives) with
        ⟨passed, source, earlier, rfl, reaches, -⟩
      refine ⟨source, by simp, ?_⟩
      rcases Option.isSome_iff_exists.mp reaches.isSome_content? with ⟨content, held⟩
      cases content with
      | known given =>
          rcases met.storedIn_of_reaches closed kept (meetingTy_ne_void _ _ _) reached nonempty distinct
            reaches held with ⟨converted, stored, -⟩
          exact Or.inl (by simp [stored])
      | pending =>
          have mem := distinct.mem_reaching closed (reached ▸ nonempty) reaches held
          refine Or.inr ⟨{ location, block := source, slot := before.func.slots.size }, ?_, rfl, rfl⟩
          exact met.mem_deferred_iff.mpr (Or.inr ⟨_, reached ▸ mem, rfl, rfl⟩)
    · rw [met.growsSparing.loadsIn_eq kept.numbered slot new] at loaded
      rcases standing.supplied slot loaded_in loaded visited arrives with ⟨source, mem, stores⟩
      refine ⟨source, mem, stores.mono grown ?_⟩
      rw [met.deferred_eq]
      exact List.subset_append_left _ _

end Meeting

end Standing

end Raising

end RegisterFlow
