import RegisterFlow.Proofs.Tracking.Acting
import RegisterFlow.Proofs.Tracking.Order

/-!
# Definitions that last

A known definition of a location in a block stays what it is, whatever else happens in a session,
until another definition of the location is recorded in that block. Until then every read of the
location in the block gives its value and builds nothing.
-/

namespace RegisterFlow

section Meeting

variable {location other : Location} {ty : Ty} {block elsewhere : BlockId}
  {hits : List ReachingDefinition} {native : Option Ty} {value : ValueId} {before after : Raising}

/-- A meeting files what it read in the table, and nothing else. -/
theorem Met.record_eq (met : Met location ty block hits native before value after) :
    before.tracker.table.record location block (after.func.ty value).bits value =
        .ok after.tracker.table ∧
      after.tracker.bindings = before.tracker.bindings := by
  cases met with
  | intro chain converted filed =>
      rw [chain.tracker_eq] at filed ⊢
      rw [Function.ty_withName]
      exact ⟨filed, rfl⟩

/-- A meeting that is given up leaves what is known as it is. -/
theorem Abandoned.table_eq (abandoned : Abandoned location ty block hits native before after) :
    after.tracker.table = before.tracker.table ∧
      after.tracker.bindings = before.tracker.bindings := by
  rcases abandoned.exists_chain with ⟨done, supplied, -, chain, -, tracker_eq⟩
  rw [tracker_eq, chain.tracker_eq]
  exact ⟨rfl, rfl⟩

end Meeting

/-! ### What reads and dropped definitions keep -/

/--
A property of the table and the bindings that stays when a location is filed that was unknown.
-/
structure Tracker.Retained (graph : FlowGraph) (holds : Tracker → Prop) : Prop where
  congr : ∀ first second : Tracker, second.table = first.table →
    second.bindings = first.bindings → holds first → holds second
  file : ∀ (tracker : Tracker) (location : Location) (block : BlockId) (width : Nat)
    (value : ValueId) (table : Table), tracker.valueIn? graph location block = none →
    tracker.table.record location block width value = .ok table →
    holds tracker → holds { tracker with table }

namespace Tracker.Retained

open Raise (Leads Keeps)

variable {graph : FlowGraph} {holds : Tracker → Prop} {before : Raising}

/-- What tracking keeps, as a property of the state of raising. -/
abbrev Kept (holds : Tracker → Prop) : Raising → Raising → Prop :=
  Keeps fun raising => holds raising.tracker

theorem readLocation (retained : Retained graph holds) (location : Location) (native : Ty)
    (block : BlockId) (allPaths asNative : Bool) :
    Leads (Kept holds) (fun _ _ => True)
      (Raise.readLocation graph location native block allPaths asNative) before := by
  refine (Raise.leads_readLocation_of_meetings ?_ ?_ ?_).imp fun _ _ _ _ => trivial
  · exact fun _ => id
  · intro _ _ after unknown _ _ met held
    have recorded := met.record_eq
    have filed := retained.file _ _ _ _ _ _ unknown recorded.1 held
    exact retained.congr { before.tracker with table := after.tracker.table } _ rfl recorded.2 filed
  · intro _ _ _ _ _ abandoned held
    exact retained.congr _ _ abandoned.table_eq.1 abandoned.table_eq.2 held

theorem respects (retained : Retained graph holds) : Raise.Respects graph (Kept holds) where
  tally _ _ := id
  compute _ _ _ _ := id
  rename _ _ _ := id
  terminate _ _ _ := id
  read before location native block allPaths asNative _ := retained.readLocation ..
  settle before := by
    refine Raise.leads_settleAll_of_settled (fun _ chain => ?_) fun after _ _ kept held =>
      retained.congr after.tracker _ rfl rfl (kept held)
    apply retained.congr
    · rw [chain.tracker_eq_settled, Raising.released]
    · rw [chain.tracker_eq_settled, Raising.released]

/-- The definitions of a location in a block may be recorded. -/
def Records (holds : Tracker → Prop) (location : Location) (block : BlockId) : Prop :=
  ∀ (tracker : Tracker) (width : Nat) (value : ValueId) (table : Table),
    tracker.table.record location block width value = .ok table →
    holds tracker → holds { tracker with table }

/-- The pending definitions of a block may be dropped. -/
def Drops (holds : Tracker → Prop) (block : BlockId) : Prop :=
  ∀ tracker : Tracker, holds tracker →
    holds { tracker with table := tracker.table.withoutPending block }

/-- An action keeps such a property if the definitions do that it records or drops. -/
theorem perform (retained : Retained graph holds) (session : Session) {action : Action}
    (records : ∀ location block, action.Records graph location block →
      Records holds location block)
    (drops : ∀ block, action = .endBlock block → Drops holds block)
    (held : holds session.raising.tracker) :
    holds (session.perform graph action).raising.tracker := by
  have leads : Leads (Kept holds) (fun _ _ => True) (action.step graph) session.raising := by
    apply retained.respects.leads_step
    · intro location block recorded width value before
      exact Raise.leads_define_of_record fun table filed =>
        records location block recorded before.tracker width value table filed
    · exact fun block ends before => drops block ends before.tracker
    · exact fun _ _ _ => id
    · exact fun _ _ _ => id
  exact leads.final held

end Tracker.Retained

/-- Such a property that also stays when pending definitions are dropped. -/
structure Tracker.Enduring (graph : FlowGraph) (holds : Tracker → Prop) : Prop
    extends Tracker.Retained graph holds where
  drop : ∀ block, Tracker.Retained.Drops holds block

namespace Tracker.Enduring

variable {graph : FlowGraph} {holds : Tracker → Prop}

open Retained (Records)

/-- Every action keeps such a property if the definitions that it records do. -/
theorem perform (enduring : Enduring graph holds) (session : Session) {action : Action}
    (records : ∀ location block, action.Records graph location block →
      Records holds location block)
    (held : holds session.raising.tracker) :
    holds (session.perform graph action).raising.tracker :=
  enduring.toRetained.perform session records (fun block _ => enduring.drop block) held

/-- So does a list of actions, whether they succeed or fail. -/
theorem after (enduring : Enduring graph holds) {session : Session} {actions : List Action}
    (records : ∀ action ∈ actions, ∀ location block, action.Records graph location block →
      Records holds location block)
    (held : holds session.raising.tracker) :
    holds (session.after graph actions).raising.tracker :=
  Session.keeps_after (motive := (holds ·.raising.tracker))
    (fun later action mem held => enduring.perform later (records action mem) held) held

end Tracker.Enduring

/-! ### Known definitions -/

namespace Table

variable {table filed : Table} {location other : Location} {block elsewhere : BlockId}

theorem isPendingIn_of_known {definition : Definition} (known : definition.value?.isSome) :
    isPendingIn block definition = false := by
  rw [isPendingIn, decide_eq_false_iff_not]
  rintro ⟨-, pending⟩
  rw [Definition.value?, pending] at known
  cases known

/-- A location has a known value on record in a block. -/
def HasValue (table : Table) (location : Location) (block : BlockId) : Prop :=
  ((table.get? location block).bind Definition.value?).isSome

theorem HasValue.record {width : Nat} {value : ValueId} (recorded : table.HasValue location block)
    (records : table.record other elsewhere width value = .ok filed) :
    filed.HasValue location block := by
  rw [HasValue, get?_record records]
  split
  · rfl
  · exact recorded

theorem HasValue.withoutPending (recorded : table.HasValue location block) (dropped : BlockId) :
    (table.withoutPending dropped).HasValue location block := by
  rw [HasValue, get?_withoutPending]
  · exact recorded
  · intro definition found
    rw [HasValue, found] at recorded
    exact isPendingIn_of_known recorded

end Table

/-- The definition that an argument gives to a location in the entry block. -/
def Binding.atEntry (graph : FlowGraph) (location : Location) (binding : Binding) : Definition where
  location
  block := graph.entry
  width := binding.width
  content := .known binding.value

namespace Tracker

variable {graph : FlowGraph} {tracker : Tracker} {table : Table} {location other : Location}
  {block elsewhere : BlockId} {definition : Definition}

theorem enduring_ordered : Enduring graph (fun tracker => tracker.table.Ordered) where
  congr first second same _ ordered := by
    rw [same]
    exact ordered
  file _ _ _ _ _ _ _ filed ordered := ordered.record filed
  drop _ _ ordered := ordered.withoutPending

theorem records_ordered :
    Retained.Records (fun tracker => tracker.table.Ordered) location block :=
  fun _ _ _ _ filed ordered => ordered.record filed

/-- The table of a session stays in order. -/
theorem ordered_after {session : Session} (actions : List Action)
    (ordered : session.raising.tracker.table.Ordered) :
    (session.after graph actions).raising.tracker.table.Ordered :=
  enduring_ordered.after (fun _ _ _ _ _ => records_ordered) ordered

theorem wellFormed_of_start {func : Function} (starts : start graph func = .ok tracker) :
    tracker.table.WellFormed := by
  rcases start_eq_ok starts with ⟨bound, binds, seeds⟩
  have binding : ∀ register ∈ graph.convention.argumentRegisters, ∀ before after : Tracker,
      before.table.WellFormed → bindArgument graph func before register = .ok after →
      after.table.WellFormed := by
    intro register _ before after wellFormed binds
    rcases bindArgument_eq_ok binds with ⟨-, rfl⟩ | ⟨value, table, -, filed, rfl⟩
    · exact wellFormed
    · exact wellFormed.insert filed
  have seeding : ∀ write ∈ graph.writes, ∀ before after : Tracker,
      before.table.WellFormed → seedWrite graph before write.1 write.2 = .ok after →
      after.table.WellFormed := by
    rintro write - before after wellFormed seeded
    rcases seedWrite_eq_ok seeded with ⟨table, marked, rfl⟩
    exact wellFormed.insert marked
  have wellFormed_bound := foldlM_invariant binding binds Table.wellFormed_empty
  have wellFormed_seeded := foldlM_invariant seeding seeds
  exact wellFormed_seeded wellFormed_bound

theorem ordered_of_start {func : Function} (starts : start graph func = .ok tracker) :
    tracker.table.Ordered :=
  (wellFormed_of_start starts).ordered

/-- A definition that is filed with a known value counts in every block. -/
theorem definitionIn?_of_known (filed : tracker.table.get? location block = some definition)
    (known : definition.value?.isSome) :
    tracker.definitionIn? graph location block = some definition := by
  rw [definitionIn?, filed]
  exact if_neg fun unknown => by
    rw [Option.bind_some, Option.isNone_iff_eq_none] at unknown
    rw [unknown.2] at known
    cases known

/-- An argument counts in the entry block unless a known value is filed there. -/
theorem definitionIn?_of_binding {binding : Binding}
    (bound : tracker.bindingAt? location = some binding)
    (unknown : (tracker.table.get? location graph.entry).bind Definition.value? = none) :
    tracker.definitionIn? graph location graph.entry =
      some (binding.atEntry graph location) := by
  rw [definitionIn?, unknown, bound]
  exact if_pos ⟨rfl, rfl⟩

/-- A known definition is filed, or it is the argument that a location carries at the entry. -/
theorem known_definition_cases
    (defined : tracker.definitionIn? graph location block = some definition)
    (known : definition.value?.isSome) :
    tracker.table.get? location block = some definition ∨
      ∃ binding, block = graph.entry ∧ tracker.bindingAt? location = some binding ∧
        (tracker.table.get? location graph.entry).bind Definition.value? = none ∧
        definition = binding.atEntry graph location := by
  rw [definitionIn?] at defined
  split at defined
  · next entry =>
    split at defined
    · next binding bound =>
      rw [Option.isNone_iff_eq_none] at entry
      rcases entry with ⟨rfl, unknown⟩
      cases defined
      exact .inr ⟨binding, rfl, bound, unknown, rfl⟩
    · exact .inl defined
  · exact .inl defined

/-- The definition of a location in a block is the given one, whose value is known. -/
structure Knows (graph : FlowGraph) (location : Location) (block : BlockId)
    (definition : Definition) (tracker : Tracker) : Prop where
  ordered : tracker.table.Ordered
  defined : tracker.definitionIn? graph location block = some definition
  known : definition.value?.isSome

/-- Filing a definition for another place changes nothing that is known. -/
theorem Knows.file {width : Nat} {value : ValueId}
    (knows : tracker.Knows graph location block definition)
    (filed : tracker.table.record other elsewhere width value = .ok table)
    (different : ¬ (location = other ∧ block = elsewhere)) :
    Knows graph location block definition { tracker with table } where
  ordered := knows.ordered.record filed
  defined := by
    rw [← knows.defined]
    refine definitionIn?_congr (by rfl) ?_
    rw [Table.get?_record filed, if_neg different]
  known := knows.known

/-- Dropping what is pending in a block changes nothing that is known. -/
theorem Knows.drop (knows : tracker.Knows graph location block definition) :
    Knows graph location block definition
      { tracker with table := tracker.table.withoutPending elsewhere } where
  ordered := knows.ordered.withoutPending
  defined := by
    rcases known_definition_cases knows.defined knows.known with
      filed | ⟨binding, rfl, bound, unknown, rfl⟩
    · refine definitionIn?_of_known ?_ knows.known
      rw [knows.ordered.get?_withoutPending, filed, Option.filter_some, if_pos]
      rw [Table.isPendingIn_of_known knows.known]
      rfl
    · refine definitionIn?_of_binding bound ?_
      rw [knows.ordered.get?_withoutPending, Option.bind_eq_none_iff]
      intro found kept
      rw [Option.bind_eq_none_iff] at unknown
      exact unknown found (Option.eq_some_of_filter_eq_some kept)
  known := knows.known

theorem enduring_knows : Enduring graph (Knows graph location block definition) where
  congr first second same bound knows := by
    refine ⟨?_, ?_, knows.known⟩
    · rw [same]
      exact knows.ordered
    · rw [← knows.defined]
      exact definitionIn?_congr bound (by rw [same])
  file tracker other elsewhere width value table unknown filed knows := by
    refine knows.file filed ?_
    rintro ⟨rfl, rfl⟩
    rw [valueIn?, knows.defined, Option.bind_some] at unknown
    have known := knows.known
    rw [unknown] at known
    cases known
  drop _ _ knows := knows.drop

/-- What is known stays known while no definition of it is recorded. -/
theorem Knows.after {session : Session} {actions : List Action}
    (knows : session.raising.tracker.Knows graph location block definition)
    (silent : ∀ action ∈ actions, ¬ action.Records graph location block) :
    (session.after graph actions).raising.tracker.Knows graph location block definition := by
  refine enduring_knows.after ?_ knows
  intro action mem other elsewhere records tracker width value table filed knows
  refine knows.file filed ?_
  rintro ⟨rfl, rfl⟩
  exact silent action mem records

theorem Knows.valueIn?_eq {value : ValueId}
    (knows : tracker.Knows graph location block definition)
    (content : definition.value? = some value) :
    tracker.valueIn? graph location block = some value := by
  rw [valueIn?, knows.defined, Option.bind_some, content]

/-- The bindings of a session are those it started with. -/
theorem bindings_after (session : Session) (actions : List Action) :
    (session.after graph actions).raising.tracker.bindings = session.raising.tracker.bindings := by
  have enduring : Enduring graph fun tracker =>
      tracker.bindings = session.raising.tracker.bindings :=
    ⟨⟨fun _ _ _ same held => same.trans held, fun _ _ _ _ _ _ _ _ held => held⟩, fun _ _ held => held⟩
  exact enduring.after (fun _ _ _ _ _ _ _ _ _ _ held => held) rfl

end Tracker

namespace Raise

variable {graph : FlowGraph} {location : Location} {block : BlockId} {value : ValueId}
  {before : Raising}

theorem run_readRegister_of_known {register : Register} {allPaths asNative : Bool}
    (located : graph.convention.locationOf register = .ok location)
    (known : before.tracker.valueIn? graph location block = some value) :
    (readRegister graph register block allPaths asNative).run before =
      .ok (some value) (before.tally Statistics.countLocalHit) := by
  rw [readRegister, located]
  exact run_readLocation_of_known known

end Raise

end RegisterFlow
