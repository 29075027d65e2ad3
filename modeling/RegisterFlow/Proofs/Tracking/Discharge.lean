import RegisterFlow.Proofs.Tracking.LifeCycle

/-!
# How obligations are discharged

A deferred store waits for a value that its block was going to define from the start on, and its slot
exists. The definition stays on record unless the end of the block drops it before its value is
known. So if the driver records all that a block writes before it ends the block, then nothing is
left unmet when the stores are made, in whatever order the blocks are raised.
-/

namespace RegisterFlow

variable {graph : FlowGraph}

/-! ### Widths -/

namespace Convention

/-- Of the registers that share a location, all have a width or none. -/
def Sized (convention : Convention) : Prop :=
  ∀ first second, convention.canonical first = convention.canonical second →
    convention.width first ≠ 0 → convention.width second ≠ 0

theorem Sized.width_ne_zero {convention : Convention} {first second : Register}
    {location : Location} (sized : convention.Sized)
    (first_located : convention.locationOf first = .ok location)
    (second_located : convention.locationOf second = .ok location)
    (wide : convention.width first ≠ 0) : convention.width second ≠ 0 := by
  rw [locationOf] at first_located second_located
  split at first_located
  · cases first_located
  · split at second_located
    · cases second_located
    · refine sized first second ?_ wide
      have same := first_located.trans second_located.symm
      rwa [Except.ok.injEq, Location.register.injEq] at same

theorem sized_systemV : systemV.Sized := by
  have shared : ∀ register : Register, register.full.width = 0 ↔ register.width = 0 := by
    intro register
    cases register with
    | general part number => cases part <;> simp [Register.full, Register.width, GeneralPart.width]
    | vector part number => cases part <;> simp [Register.full, Register.width, VectorPart.width]
    | _ => simp [Register.full, Register.width, GeneralPart.width]
  intro first second same wide none
  change first.full = second.full at same
  exact wide ((shared first).mp (same ▸ (shared second).mpr none))

end Convention

/-! ### What waits -/

/-- What is pending is written by its block, and so is what deferred stores wait for. -/
structure Raising.Owing (graph : FlowGraph) (raising : Raising) : Prop where
  ordered : raising.tracker.table.Ordered
  pending : ∀ location block, raising.tracker.IsPending location block →
    graph.Writes block location
  waiting : ∀ store ∈ raising.tracker.deferred,
    graph.Writes store.block store.location ∧ store.slot < raising.func.slots.size

namespace Raising.Owing

open Raise (Leads Keeps Chain)

variable {before after : Raising} {location : Location} {block : BlockId}

theorem grow {func : Function} (owing : Owing graph before)
    (slots_le : before.func.slots.size ≤ func.slots.size) : Owing graph { before with func } :=
  { owing with
    waiting := fun store mem =>
      (owing.waiting store mem).imp_right fun held => Nat.lt_of_lt_of_le held slots_le }

theorem file {width : Nat} {value : ValueId} {table : Table} (owing : Owing graph before)
    (filed : before.tracker.table.record location block width value = .ok table) :
    Owing graph { before with tracker := { before.tracker with table } } :=
  { owing with
    ordered := owing.ordered.record filed
    pending := fun _ _ pending =>
      owing.pending _ _ ((Tracker.isPending_record_iff filed).mp pending).2 }

theorem drop (owing : Owing graph before) (block : BlockId) :
    Owing graph { before with
      tracker := { before.tracker with table := before.tracker.table.withoutPending block } } :=
  { owing with
    ordered := owing.ordered.withoutPending
    pending := fun _ _ pending =>
      owing.pending _ _ ((Tracker.isPending_withoutPending_iff owing.ordered).mp pending).2 }

/-- Definitions that are written by their blocks may be supplied to a new slot. -/
theorem supply {ty : Ty} {hits : List ReachingDefinition} (owing : Owing graph before)
    (chain : Chain (Supplied location before.func.slots.size) hits (before.opened location ty) after)
    (written : ∀ hit ∈ hits, hit.content = .pending → graph.Writes hit.block location) :
    Owing graph after := by
  have slotCount : after.func.slots.size = before.func.slots.size + 1 := chain.slotCount_opened
  constructor
  · rw [chain.tracker_eq]
    exact owing.ordered
  · rw [chain.tracker_eq]
    exact owing.pending
  · intro store mem
    rw [slotCount]
    rcases chain.mem_deferred_opened_iff.mp mem with old | ⟨hit, hit_mem, pending, rfl⟩
    · exact (owing.waiting store old).imp_right Nat.lt_succ_of_lt
    · exact ⟨written hit hit_mem pending, Nat.lt_succ_self _⟩

theorem met {ty : Ty} {hits : List ReachingDefinition} {native : Option Ty} {value : ValueId}
    (owing : Owing graph before) (met : Met location ty block hits native before value after)
    (written : ∀ hit ∈ hits, hit.content = .pending → graph.Writes hit.block location) :
    Owing graph after := by
  cases met with
  | @intro supplied _ func table chain converted filed =>
      have slots_le : supplied.func.slots.size ≤ (func.withName value location.name).slots.size := by
        rw [Function.slots_withName, (growsQuietly_load converted).slots_eq]
      exact { ((owing.supply chain written).grow slots_le).file filed with }

theorem abandoned {ty : Ty} {hits : List ReachingDefinition} {native : Option Ty}
    (owing : Owing graph before) (abandoned : Abandoned location ty block hits native before after)
    (written : ∀ hit ∈ hits, hit.content = .pending → graph.Writes hit.block location) :
    Owing graph after := by
  rcases abandoned.exists_chain with ⟨done, supplied, front, chain, quiet, tracker_eq⟩
  have grown := (owing.supply chain fun hit mem => written hit (front.subset mem)).grow
    quiet.slotCount_le
  exact ⟨tracker_eq ▸ grown.ordered, tracker_eq ▸ grown.pending, tracker_eq ▸ grown.waiting⟩

/-- What reaches a block as pending is written by the block that it comes from. -/
theorem writes_of_mem_reaching {allPaths : Bool} {hit : ReachingDefinition} (closed : graph.Closed)
    (owing : Owing graph before)
    (mem : hit ∈ before.tracker.reaching graph location block allPaths)
    (pending : hit.content = .pending) : graph.Writes hit.block location := by
  have held := (Tracker.reaches_of_mem_reaching closed mem).2
  rw [pending] at held
  exact owing.pending _ _ (Tracker.isPending_of_content? held).1

theorem respects (closed : graph.Closed) : Raise.Respects graph (Keeps (Owing graph)) where
  tally _ _ owing := { owing with }
  compute _ _ _ computations owing :=
    owing.grow (Nat.le_of_eq (congrArg _ computations.growsQuietly.slots_eq).symm)
  rename _ _ _ owing := owing.grow (Nat.le_refl _)
  terminate _ _ _ owing := owing.grow (Nat.le_refl _)
  read before location native block allPaths asNative _ := by
    refine (Raise.leads_readLocation_of_meetings ?_ ?_ ?_).imp fun _ _ _ _ => trivial
    · exact fun _ owing => { owing with }
    · intro hits value after _ reached _ met owing
      have tallied : Owing graph (before.tally Statistics.countPredecessorWalk) := { owing with }
      exact tallied.met met fun hit mem => owing.writes_of_mem_reaching closed (reached ▸ mem)
    · intro hits after _ reached _ abandoned owing
      have tallied : Owing graph (before.tally Statistics.countPredecessorWalk) := { owing with }
      exact tallied.abandoned abandoned fun hit mem =>
        owing.writes_of_mem_reaching closed (reached ▸ mem)
  settle before := by
    refine Raise.leads_settleAll_of_settled (fun _ chain owing => ?_) fun _ _ _ kept owing =>
      { kept owing with }
    constructor
    · rw [chain.tracker_eq_settled]
      exact owing.ordered
    · rw [chain.tracker_eq_settled]
      exact owing.pending
    · intro store mem
      rw [chain.tracker_eq_settled] at mem
      cases mem

end Raising.Owing

namespace Session

open Raise (Leads Keeps)

theorem owing_perform (closed : graph.Closed) {session : Session} (action : Action)
    (owing : session.raising.Owing graph) : (session.perform graph action).raising.Owing graph := by
  have leads : Leads (Keeps (Raising.Owing graph)) (fun _ _ => True) (action.step graph)
      session.raising := by
    apply (Raising.Owing.respects closed).leads_step
    · intro location block _ width value before
      exact Raise.leads_define_of_record fun table filed owing => owing.file filed
    · exact fun block _ _ owing => owing.drop block
    · exact fun _ _ _ owing => owing.grow (Nat.le_refl _)
    · exact fun _ _ _ owing => owing.grow (by rw [Function.slotCount_withSlot]; exact Nat.le_succ _)
  exact leads.final owing

theorem owing_after (closed : graph.Closed) {session : Session} {actions : List Action}
    (owing : session.raising.Owing graph) : (session.after graph actions).raising.Owing graph :=
  keeps_after (motive := (·.raising.Owing graph))
    (fun _ action _ owing => owing_perform closed action owing) owing

theorem owing_of_start {start : Session}
    (starts : Tracker.start graph start.raising.func = .ok start.raising.tracker) :
    start.raising.Owing graph where
  ordered := Tracker.ordered_of_start starts
  pending _ _ := (Tracker.isPending_start_iff starts).mp
  waiting store mem := by
    rw [(Tracker.initial_of_start starts).deferred] at mem
    cases mem

/-! ### What stays on record -/

section Record

variable {session : Session} {location : Location} {block : BlockId} {action : Action}
  {actions : List Action}

/-- A definition stays on record as long as its block is not ended. -/
theorem recorded_perform (other : action ≠ .endBlock block)
    (recorded : (session.raising.tracker.table.get? location block).isSome) :
    ((session.perform graph action).raising.tracker.table.get? location block).isSome := by
  have retained : Tracker.Retained graph fun tracker =>
      (tracker.table.get? location block).isSome := by
    constructor
    · intro first second same _ recorded
      rw [same]
      exact recorded
    · intro tracker filedLocation filedBlock width value table _ filed recorded
      dsimp only
      rw [Table.get?_record filed]
      split
      · rfl
      · exact recorded
  refine retained.perform session ?_ ?_ recorded
  · intro filedLocation filedBlock _ tracker width value table filed recorded
    dsimp only
    rw [Table.get?_record filed]
    split
    · rfl
    · exact recorded
  · rintro dropped rfl tracker recorded
    dsimp only
    rw [Table.get?_withoutPending]
    · exact recorded
    · intro definition found
      have filed := List.find?_some found
      rw [Definition.isAt, decide_eq_true_eq] at filed
      rw [Table.isPendingIn, decide_eq_false_iff_not]
      rintro ⟨rfl, -⟩
      exact other (congrArg _ filed.1)

/-- A definition stays on record unless the end of its block drops it while it is pending. -/
theorem recorded_or_dropped (recorded : (session.raising.tracker.table.get? location block).isSome)
    (actions : List Action) :
    ((session.after graph actions).raising.tracker.table.get? location block).isSome ∨
      ∃ earlier later, actions = earlier ++ .endBlock block :: later ∧
        (session.after graph earlier).raising.tracker.IsPending location block := by
  induction actions using List.reverseRecOn with
  | nil => exact .inl recorded
  | append_singleton actions action ih =>
      rcases ih with recorded | ⟨earlier, later, rfl, pending⟩
      · rw [after_append]
        by_cases ends : action = .endBlock block
        · subst ends
          rcases Option.isSome_iff_exists.mp recorded with ⟨definition, found⟩
          cases content : definition.content with
          | pending => exact .inr ⟨actions, [], rfl, definition, found, content⟩
          | known value =>
              have kept : ((session.after graph actions).raising.tracker.table.withoutPending
                  block).HasValue location block := by
                refine Table.HasValue.withoutPending ?_ block
                rw [Table.HasValue, found, Option.bind_some,
                  Tracker.value?_eq_some_iff.mpr content]
                rfl
              refine .inl ?_
              rcases Option.isSome_iff_exists.mp kept with ⟨_, bound⟩
              rcases Option.bind_eq_some_iff.mp bound with ⟨definition, found, -⟩
              exact Option.isSome_of_mem found
        · exact .inl (recorded_perform ends recorded)
      · refine .inr ⟨earlier, later ++ [action], ?_, pending⟩
        rw [List.append_assoc, List.cons_append]

/-- What was once recorded, for a register that has a width, has a value from then on. -/
theorem hasValue_of_mem {register : Register} {value : ValueId}
    (recorded : .writeRegister register block value ∈ actions)
    (located : graph.convention.locationOf register = .ok location)
    (wide : graph.convention.width register ≠ 0) :
    (session.after graph actions).raising.tracker.table.HasValue location block := by
  rcases List.append_of_mem recorded with ⟨earlier, later, rfl⟩
  rw [after_append]
  have holds : ((session.after graph earlier).perform graph
      (.writeRegister register block value)).raising.tracker.table.HasValue location block := by
    rcases Action.run_writeRegister located wide block value (session.after graph earlier).raising
      with ⟨table, filed, run⟩
    rw [perform, Raise.final_of_ok run]
    change table.HasValue location block
    rw [Table.HasValue, Table.get?_record filed, if_pos ⟨rfl, rfl⟩]
    rfl
  exact Tracker.hasValue_after later holds

end Record

/-- Before the driver ends a block, it records every location that the block writes. -/
def RecordsInTime (graph : FlowGraph) (actions : List Action) : Prop :=
  ∀ earlier block later, actions = earlier ++ .endBlock block :: later →
    ∀ location, graph.Writes block location →
      ∃ register value, .writeRegister register block value ∈ earlier ∧
        graph.convention.locationOf register = .ok location

/-- The driver has ended all blocks. -/
def EndsAll (graph : FlowGraph) (actions : List Action) : Prop :=
  ∀ block < graph.blocks.size, .endBlock block ∈ actions

/-- What was recorded in time has a value once its block is ended. -/
theorem RecordsInTime.hasValue {start : Session} {actions : List Action} {location : Location}
    {block : BlockId} (inTime : RecordsInTime graph actions) (sized : graph.convention.Sized)
    (starts : Tracker.start graph start.raising.func = .ok start.raising.tracker)
    (ended : .endBlock block ∈ actions) (writes : graph.Writes block location) :
    (start.after graph actions).raising.tracker.table.HasValue location block := by
  rcases List.append_of_mem ended with ⟨earlier, later, split⟩
  rcases inTime earlier block later split location writes with ⟨register, value, recorded, located⟩
  rcases writes with ⟨written, mem, same⟩
  have wide : graph.convention.width register ≠ 0 :=
    sized.width_ne_zero same located (Tracker.isPending_of_start starts mem).2
  have listed : .writeRegister register block value ∈ actions := by
    rw [split]
    exact List.mem_append_left _ recorded
  exact hasValue_of_mem listed located wide

end Session

/-! ### Making the stores -/

namespace Raise

/-- A step fails because a deferred store has no value. -/
def FailsUnmet {α : Type} (step : Raise α) (before : Raising) : Prop :=
  ∃ location block slot after, step.run before = .error (.unmetStore location block slot) after

/-- A store whose definition is known does not go unmet. -/
theorem not_failsUnmet_settle {store : DeferredStore} {before : Raising}
    (recorded : before.tracker.table.HasValue store.location store.block) :
    ¬ (settle graph store).FailsUnmet before := by
  rintro ⟨location, block, slot, after, fails⟩
  rcases Option.isSome_iff_exists.mp recorded with ⟨value, bound⟩
  rcases Option.bind_eq_some_iff.mp bound with ⟨definition, found, known⟩
  have valued : before.tracker.valueIn? graph store.location store.block = some value := by
    rw [Tracker.valueIn?, Tracker.definitionIn?_of_known found (by rw [known]; rfl),
      Option.bind_some, known]
  rw [run_settle_eq, valued] at fails
  rcases run_storeConverted store.location store.block store.slot value before with
    ⟨_, -, succeeds⟩ | ⟨-, fault, refuses⟩
  · cases succeeds.symm.trans fails
  · cases refuses.symm.trans fails

/-- If all definitions are known for which stores wait, then no store goes unmet. -/
theorem not_failsUnmet_settleAll {before : Raising}
    (recorded : ∀ store ∈ before.tracker.deferred,
      before.tracker.table.HasValue store.location store.block) :
    ¬ (settleAll graph).FailsUnmet before := by
  rintro ⟨location, block, slot, after, unmet⟩
  rcases run_settleAll graph before with
    ⟨settled, chain, succeeds⟩ | ⟨done, refused, rest, settled, failure, split, chain, refuses, fails⟩
  · cases succeeds.symm.trans unmet
  · have same : failure = .unmetStore location block slot := by
      cases fails.symm.trans unmet
      rfl
    subst same
    have valued : settled.tracker.table.HasValue refused.location refused.block := by
      rw [chain.tracker_eq_settled]
      exact recorded refused (by rw [split]; simp)
    exact not_failsUnmet_settle valued ⟨location, block, slot, settled, refuses⟩

/-- The end of tracking fails only where a drain does. -/
theorem failsUnmet_of_conclude {before : Raising} (unmet : (conclude graph).FailsUnmet before) :
    (settleAll graph).FailsUnmet before := by
  rcases unmet with ⟨location, block, slot, after, fails⟩
  refine ⟨location, block, slot, after, ?_⟩
  unfold conclude at fails
  cases settles : (settleAll graph).run before with
  | ok count settled =>
      have discards : (discard (settleAll graph)).run before = .ok () settled := by
        rw [run_discard, settles]
      rw [run_bind_of_ok discards] at fails
      cases fails
  | error failure settled =>
      have discards : (discard (settleAll graph)).run before = .error failure settled := by
        rw [run_discard, settles]
      rw [run_bind_of_error discards] at fails
      cases fails
      rfl

end Raise

/-- If all was recorded in time and all blocks are ended, then all stores have their values. -/
theorem Session.hasValue_of_endsAll {start : Session} {actions : List Action}
    (closed : graph.Closed) (sized : graph.convention.Sized)
    (starts : Tracker.start graph start.raising.func = .ok start.raising.tracker)
    (inTime : RecordsInTime graph actions) (ends : EndsAll graph actions) :
    ∀ store ∈ (start.after graph actions).raising.tracker.deferred,
      (start.after graph actions).raising.tracker.table.HasValue store.location store.block := by
  intro store mem
  have owing : (start.after graph actions).raising.Owing graph :=
    owing_after closed (owing_of_start starts)
  rcases (owing.waiting store mem).1 with ⟨register, writes, located⟩
  have ended := ends store.block (FlowGraph.mem_writes_iff.mp writes).1
  exact inTime.hasValue sized starts ended ⟨register, writes, located⟩

/--
Every deferred store waits for a register, and its slot exists. What it waits for is on record,
unless the end of its block dropped it. If every location that a block writes is recorded before the
block is ended, then no drain that comes after the end of all blocks finds a store unmet, and neither
does the end of tracking. This takes a convention in which the registers of a location have a width.
-/
theorem obligations_met {start : Session} (closed : graph.Closed)
    (starts : Tracker.start graph start.raising.func = .ok start.raising.tracker)
    (actions : List Action) :
    let reached := (start.after graph actions).raising
    (∀ store ∈ reached.tracker.deferred,
      (∃ register, store.location = .register register) ∧
      store.slot < reached.func.slots.size ∧
      ((reached.tracker.table.get? store.location store.block).isSome ∨
        ∃ earlier later, actions = earlier ++ .endBlock store.block :: later ∧
          (start.after graph earlier).raising.tracker.IsPending store.location store.block)) ∧
    (graph.convention.Sized → Session.RecordsInTime graph actions →
      (∀ earlier later, actions = earlier ++ .drain :: later → Session.EndsAll graph earlier →
        ¬ (Raise.settleAll graph).FailsUnmet (start.after graph earlier).raising) ∧
      (Session.EndsAll graph actions → ¬ (Raise.conclude graph).FailsUnmet reached)) := by
  refine ⟨fun store mem => ?_, fun sized inTime => ⟨?_, fun ends unmet => ?_⟩⟩
  · have owing : (start.after graph actions).raising.Owing graph :=
      Session.owing_after closed (Session.owing_of_start starts)
    rcases owing.waiting store mem with ⟨⟨register, writes, located⟩, slot_lt⟩
    have named := FlowGraph.locationOf_of_mem_writes writes
    rw [located, Except.ok.injEq] at named
    have pending := (Tracker.isPending_start_iff starts).mpr ⟨register, writes, located⟩
    rcases pending with ⟨definition, found, -⟩
    exact ⟨⟨_, named⟩, slot_lt, Session.recorded_or_dropped (Option.isSome_of_mem found) actions⟩
  · rintro earlier later rfl ends
    apply Raise.not_failsUnmet_settleAll
    refine Session.hasValue_of_endsAll closed sized starts ?_ ends
    intro front block back split location writes
    refine inTime front block (back ++ .drain :: later) ?_ location writes
    rw [split, List.append_assoc, List.cons_append]
  · refine Raise.not_failsUnmet_settleAll ?_ (Raise.failsUnmet_of_conclude unmet)
    exact Session.hasValue_of_endsAll closed sized starts inTime ends

/-- A block that loops to itself and writes a register. -/
def turnGraph : FlowGraph where
  blocks := #[
    { name := "bb0", predecessors := [], effects := [] },
    { name := "bb1", predecessors := [0, 1],
      effects := [{ writes := [.rax], family := .other "inc" }] }]

/-- The start of raising a function of one argument with such a block. -/
def turnSession : Session :=
  .starting turnGraph "turn" [.int 64] ["entry", "loop"]

/-- The register is read in the loop before it is recorded there, and the blocks are ended. -/
def turnActions : List Action :=
  [.readRegister .rax 1 false true, .writeRegister .rax 1 0, .endBlock 1, .endBlock 0, .drain]

/--
What the loop reads takes the place of the definition that the store waits for, until the register is
recorded. The store is made in the end.
-/
theorem obligations_met_turn :
    turnGraph.Closed ∧
      Tracker.start turnGraph turnSession.raising.func = .ok turnSession.raising.tracker ∧
      Session.RecordsInTime turnGraph turnActions ∧ Session.EndsAll turnGraph turnActions ∧
      ¬ (Raise.conclude turnGraph).FailsUnmet (turnSession.after turnGraph turnActions).raising := by
  have closed : turnGraph.Closed := by decide +kernel
  have starts : Session.Starts turnGraph turnSession :=
    Session.starts_starting rfl (by decide +kernel)
  have written : turnGraph.writes = [(1, .rax)] := by decide +kernel
  have inTime : Session.RecordsInTime turnGraph turnActions := by
    rintro earlier block later split location ⟨register, writes, located⟩
    rw [written, List.mem_singleton] at writes
    cases writes
    refine ⟨.rax, 0, ?_, located⟩
    rcases earlier with _ | ⟨first, _ | ⟨second, rest⟩⟩ <;> simp_all [turnActions]
  have ends : Session.EndsAll turnGraph turnActions := by
    intro block held
    have cases_of_lt : block = 0 ∨ block = 1 := Nat.le_one_iff_eq_zero_or_eq_one.mp
      (Nat.le_of_lt_succ held)
    rcases cases_of_lt with rfl | rfl <;> simp [turnActions]
  have met := (obligations_met closed starts.tracker_eq turnActions).2 Convention.sized_systemV
    inTime
  exact ⟨closed, starts.tracker_eq, inTime, ends, met.2 ends⟩

end RegisterFlow
