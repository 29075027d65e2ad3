import RegisterFlow.Proofs.Tracking.Session

/-!
# What actions change

What each action of a driver can do to its session, said once: moves in the block that it works in,
dropped definitions, terminators, slots and stores of the driver, and the completion of deferred
stores. Sessions stay in order under all of them.
-/

namespace RegisterFlow

open Relation (ReflTransGen)

/-- A deferred store was made, with the value that its block defines. -/
inductive Settled (graph : FlowGraph) (store : DeferredStore) : Raising → Raising → Prop where
  | intro {before : Raising} {value : ValueId} {func : Function}
      (known : before.tracker.valueIn? graph store.location store.block = some value)
      (stored : Stored before.func store.block store.slot value func) :
      Settled graph store before { before with func }

/-- The state in which no store waits any longer. -/
def Raising.released (raising : Raising) : Raising :=
  { raising with tracker := { raising.tracker with deferred := [] } }

namespace Raise

theorem run_settle_eq (graph : FlowGraph) (store : DeferredStore) (before : Raising) :
    (settle graph store).run before =
      (match before.tracker.valueIn? graph store.location store.block with
        | some value => storeConverted store.location store.block store.slot value
        | none => throw (.unmetStore store.location store.block store.slot) : Raise Unit).run
        before :=
  rfl

/-- A deferred store is made, or it cannot be and nothing changes. -/
theorem run_settle (graph : FlowGraph) (store : DeferredStore) (before : Raising) :
    (∃ after, Settled graph store before after ∧
        (settle graph store).run before = .ok () after) ∨
      ∃ failure, (settle graph store).run before = .error failure before := by
  rw [run_settle_eq]
  cases known : before.tracker.valueIn? graph store.location store.block with
  | some value =>
      rcases run_storeConverted store.location store.block store.slot value before with
        ⟨func, stored, succeeds⟩ | ⟨-, _, fails⟩
      · exact Or.inl ⟨_, .intro known stored, succeeds⟩
      · exact Or.inr ⟨_, fails⟩
  | none => exact Or.inr ⟨_, rfl⟩

/-- All deferred stores are made, or those in front of one that cannot be. -/
theorem run_settleAll (graph : FlowGraph) (before : Raising) :
    (∃ settled, Chain (Settled graph) before.tracker.deferred before.released settled ∧
        (settleAll graph).run before = .ok before.tracker.deferred.length
          { settled with
            tracker := { settled.tracker with
              drained := settled.tracker.drained + before.tracker.deferred.length }
            statistics := settled.statistics.countDrained before.tracker.deferred.length }) ∨
      ∃ done refused rest settled failure, before.tracker.deferred = done ++ refused :: rest ∧
        Chain (Settled graph) done before.released settled ∧
        (settle graph refused).run settled = .error failure settled ∧
        (settleAll graph).run before = .error failure settled := by
  have start : (settleAll graph).run before =
      (before.tracker.deferred.forM (settle graph) >>= fun _ => do
        update fun tracker =>
          { tracker with drained := tracker.drained + before.tracker.deferred.length }
        count (Statistics.countDrained before.tracker.deferred.length)
        return before.tracker.deferred.length).run before.released :=
    rfl
  rw [start]
  rcases run_forM (Settled graph) (run_settle graph) before.tracker.deferred before.released with
    ⟨settled, chain, succeeds⟩ | ⟨done, refused, rest, settled, failure, split, chain, refuses, fails⟩
  · left
    refine ⟨settled, chain, ?_⟩
    rw [run_bind_of_ok succeeds]
    rfl
  · right
    exact ⟨done, refused, rest, settled, failure, split, chain, refuses, run_bind_of_error fails⟩

/--
Making deferred stores leads along every relation that holds where the first of them are made, and
still where these are counted.
-/
theorem leads_settleAll_of_settled {related : Raising → Raising → Prop} {before : Raising}
    (settled : ∀ {done after}, done <+: before.tracker.deferred →
      Chain (Settled graph) done before.released after → related before after)
    (counted : ∀ after drained statistics, related before after → related before
      { after with tracker := { after.tracker with drained }, statistics }) :
    Leads related (fun _ _ => True) (settleAll graph) before := by
  rcases run_settleAll graph before with
    ⟨after, chain, succeeds⟩ | ⟨done, refused, rest, after, failure, split, chain, -, fails⟩
  · exact .of_ok succeeds (counted _ _ _ (settled (List.prefix_refl _) chain)) trivial
  · exact .of_error fails (settled (split ▸ List.prefix_append ..) chain)

end Raise

namespace Settled

variable {graph : FlowGraph} {store : DeferredStore} {before after : Raising}

theorem grows (settled : Settled graph store before after) :
    before.func.Grows after.func := by
  cases settled with
  | intro _ stored => exact stored.grows

theorem slots_eq (settled : Settled graph store before after) :
    after.func.slots = before.func.slots := by
  cases settled with
  | intro _ stored => exact stored.slots_eq

theorem tracker_eq (settled : Settled graph store before after) :
    after.tracker = before.tracker := by
  cases settled with
  | intro _ _ => rfl

theorem storedIn_of_ne {slot : SlotId} {block : BlockId}
    (settled : Settled graph store before after) (numbered : before.func.Numbered)
    (different : slot ≠ store.slot ∨ block ≠ store.block) :
    after.func.storedIn slot block = before.func.storedIn slot block := by
  cases settled with
  | intro _ stored => exact stored.storedIn_of_ne numbered different

end Settled

namespace Raise.Chain

variable {graph : FlowGraph} {stores : List DeferredStore} {before after : Raising}

theorem grows_settled (chain : Chain (Settled graph) stores before after) :
    before.func.Grows after.func := by
  induction chain with
  | nil _ => exact .refl _
  | cons first _ ih => exact first.grows.trans ih

theorem slots_eq_settled (chain : Chain (Settled graph) stores before after) :
    after.func.slots = before.func.slots := by
  induction chain with
  | nil _ => rfl
  | cons first _ ih => exact ih.trans first.slots_eq

theorem tracker_eq_settled (chain : Chain (Settled graph) stores before after) :
    after.tracker = before.tracker := by
  induction chain with
  | nil _ => rfl
  | cons first _ ih => exact ih.trans first.tracker_eq

theorem storedIn_of_ne_settled {slot : SlotId} {block : BlockId}
    (chain : Chain (Settled graph) stores before after) (numbered : before.func.Numbered)
    (different : ∀ store ∈ stores, slot ≠ store.slot ∨ block ≠ store.block) :
    after.func.storedIn slot block = before.func.storedIn slot block := by
  induction chain with
  | nil _ => rfl
  | cons first _ ih =>
      rw [ih (first.grows.numbered numbered)
          (fun store mem => different store (List.mem_cons_of_mem _ mem)),
        first.storedIn_of_ne numbered (different _ List.mem_cons_self)]

/-- A block stores the value it defines, converted, for each deferred store that is made. -/
theorem storedIn_settled {store : DeferredStore}
    (chain : Chain (Settled graph) stores before after) (numbered : before.func.Numbered)
    (distinct : stores.Pairwise fun first second =>
      first.block ≠ second.block ∨ first.slot ≠ second.slot)
    (mem : store ∈ stores) (proper : (before.func.slot store.slot).ty ≠ .void)
    (bound : store.block < before.func.blocks.size) :
    ∃ value converted,
      before.tracker.valueIn? graph store.location store.block = some value ∧
        after.func.storedIn store.slot store.block =
          before.func.storedIn store.slot store.block ++ [converted] ∧
        Converts after.func store.block value (before.func.slot store.slot).ty converted := by
  induction chain with
  | nil _ => cases mem
  | @cons first stores before middle after settled rest ih =>
      rw [List.pairwise_cons] at distinct
      rcases List.mem_cons.mp mem with rfl | later
      · cases settled with
        | @intro value func known stored =>
            obtain ⟨converted, appended, converts⟩ := stored.storedIn_self numbered proper bound
            refine ⟨value, converted, known, ?_, converts.mono proper rest.grows_settled.toExtends⟩
            rw [rest.storedIn_of_ne_settled (stored.grows.numbered numbered), appended]
            intro other other_mem
            exact (distinct.1 other other_mem).symm
      · have slot_eq : middle.func.slot store.slot = before.func.slot store.slot := by
          rw [Function.slot, settled.slots_eq, Function.slot]
        obtain ⟨value, converted, known, appended, converts⟩ :=
          ih (settled.grows.numbered numbered) distinct.2 later (slot_eq ▸ proper)
            (settled.grows.blockCount_eq ▸ bound)
        refine ⟨value, converted, ?_, ?_, slot_eq ▸ converts⟩
        · rw [← settled.tracker_eq]
          exact known
        · rw [appended, settled.storedIn_of_ne numbered]
          exact (distinct.1 store later).symm.imp Ne.symm Ne.symm

end Raise.Chain

/-- Whether an action works in a block, if it works in any. -/
def Action.WorksIn (block : BlockId) : Action → Prop
  | .readRegister _ worked _ _ | .readFlag _ worked | .writeRegister _ worked _
  | .deriveFlag _ worked _ _ | .writeFlag _ worked _ | .endBlock worked | .emit worked _ =>
    worked = block
  | .findDefinitions .. | .drain | .constant .. | .terminate .. | .allocate .. | .rename .. => True

theorem Action.exists_worksIn (action : Action) : ∃ block, action.WorksIn block := by
  cases action with
  | readRegister _ block _ _ | readFlag _ block | writeRegister _ block _
  | deriveFlag _ block _ _ | writeFlag _ block _ | endBlock block | emit block _ =>
      exact ⟨block, rfl⟩
  | findDefinitions | drain | constant | terminate | allocate | rename => exact ⟨0, trivial⟩

namespace Action

/-- The block in which an action may define locations or append instructions, if there is one. -/
def block? : Action → Option BlockId
  | readRegister _ block _ _ | readFlag _ block | writeRegister _ block _ | deriveFlag _ block _ _
  | writeFlag _ block _ | endBlock block | emit block _ => some block
  | findDefinitions .. | drain | constant .. | terminate .. | allocate .. | rename .. => none

theorem worksIn_of_block? {action : Action} {block : BlockId} (works : action.block? = some block) :
    action.WorksIn block := by
  cases action <;> simp_all [block?, WorksIn]

theorem worksIn_of_block?_eq_none {action : Action} (block : BlockId)
    (works : action.block? = none) : action.WorksIn block := by
  cases action <;> simp_all [block?, WorksIn]

end Action

namespace Session

/-- What an action that works in a block does to the session, unless it drains. -/
inductive Change (graph : FlowGraph) (block : BlockId) : Session → Session → Prop where
  | moves {before : Session} {after : Raising} (moves : Moves graph block before.raising after) :
      Change graph block before { before with raising := after }
  | dropped {before : Session} {statistics : Statistics} :
      Change graph block before
        { before with
          raising := { before.raising with
            tracker := { before.raising.tracker with
              table := before.raising.tracker.table.withoutPending block }
            statistics } }
  | terminated {before : Session} (ended : BlockId) (operation : Operation) :
      Change graph block before
        { before with
          raising := { before.raising with
            func := before.raising.func.withTerminator ended operation } }
  | allocated {before : Session} (ty : Ty) (base : String) :
      Change graph block before
        { raising := { before.raising with func := before.raising.func.withSlot ty base }
          owned := before.raising.func.slots.size :: before.owned }
  | stored {before : Session} {ty : Ty} {slot : SlotId} {operand : ValueId}
      (owned : slot ∈ before.owned) :
      Change graph block before
        { before with
          raising := { before.raising with
            func := before.raising.func.withInstruction block ty (.store slot operand) } }

/-- What draining does to the session: some of the stores that wait are made, and none waits. -/
inductive Drained (graph : FlowGraph) (done : List DeferredStore) : Session → Session → Prop where
  | intro {before : Session} {rest : List DeferredStore} {settled : Raising} {drained : Nat}
      {statistics : Statistics}
      (split : before.raising.tracker.deferred = done ++ rest)
      (chain : Raise.Chain (Settled graph) done before.raising.released settled) :
      Drained graph done before
        { before with
          raising := { settled with
            tracker := { settled.tracker with drained }
            statistics } }

end Session

namespace Raise

variable {graph : FlowGraph} {block : BlockId} {before : Raising}

theorem Leads.moves {α : Type} {good : α → Raising → Prop} {step : Raise α}
    (leads : Leads (Inquiries graph block) good step before) :
    Leads (Moves graph block) good step before :=
  leads.along fun _ inquiries => inquiries.moves

theorem isFlag_of_locationOf {convention : Convention} {register : Register} {location : Location}
    (located : convention.locationOf register = .ok location) : location.isFlag = false := by
  unfold Convention.locationOf at located
  split at located
  · cases located
  · cases located
    rfl

theorem leads_readRegister (register : Register) (allPaths asNative : Bool) :
    Leads (Inquiries graph block) (fun _ _ => True)
      (readRegister graph register block allPaths asNative) before := by
  refine (leads_ofExcept _).bind ?_
  rintro location middle - ⟨located, rfl⟩
  refine (leads_readLocation graph location _ block allPaths asNative middle ?_).imp
    fun _ _ _ _ => trivial
  intro isFlag
  rw [isFlag_of_locationOf located] at isFlag
  cases isFlag

theorem leads_readFlag (flag : Flag) :
    Leads (Inquiries graph block) (fun _ _ => True) (readFlag graph flag block) before := by
  refine (leads_ofExcept _).bind ?_
  rintro location middle - -
  exact (leads_readLocation graph location .bool block false true middle fun _ => rfl).imp
    fun _ _ _ _ => trivial

theorem leads_define (location : Location) (width : Nat) {value : ValueId}
    (held : value < before.func.values.size)
    (fits : ∀ flag, location = .flag flag → before.FlagValue graph flag block value) :
    Leads (Moves graph block) (fun _ after => after.func = before.func)
      (define location block width value) before := by
  have run := run_define location block width value before
  cases filed : before.tracker.table.record location block width value with
  | ok table =>
      rw [filed] at run
      exact .of_ok run (.single (.file held fits filed)) rfl
  | error failure =>
      rw [filed] at run
      exact .of_error run .refl

theorem leads_count (tally : Statistics → Statistics) :
    Leads (Moves graph block) (fun _ _ => True) (count tally) before :=
  .of_ok rfl (.single (.tally _)) trivial

theorem leads_rename (id : ValueId) (name : String) :
    Leads (Moves graph block) (fun _ _ => True) (build (Builder.rename id name)) before :=
  .of_ok rfl (.single (.grow (Function.growsQuietly_withName ..))) trivial

theorem leads_writeRegister (register : Register) {value : ValueId}
    (held : value < before.func.values.size) :
    Leads (Moves graph block) (fun _ _ => True) (writeRegister graph register block value)
      before := by
  refine (leads_ofExcept _).bind ?_
  rintro location middle - ⟨located, rfl⟩
  refine (leads_define location _ held ?_).bind fun _ _ _ _ => leads_count _
  rintro flag rfl
  cases isFlag_of_locationOf located

theorem location_of_ofFlag {flag : Flag} {location : Location}
    (tracked : Location.ofFlag flag = .ok location) : location = .flag flag := by
  unfold Location.ofFlag at tracked
  split at tracked
  · cases tracked
    rfl
  · cases tracked

theorem leads_writeFlag (flag : Flag) (truth : Bool) :
    Leads (Moves graph block) (fun _ _ => True) (writeFlag flag block truth) before := by
  refine (leads_ofExcept _).bind ?_
  rintro location middle - ⟨tracked, rfl⟩
  refine (Leads.moves (leads_build (Builder.emits_boolean truth))).bind ?_
  intro value later _ constant
  have typed : later.func.ty value = .bool := constant.1
  refine (leads_define location _ (Function.lt_size_of_ty (by simp) typed) ?_).bind
    fun _ _ _ _ => leads_count _
  intro other same
  refine ⟨typed, ?_⟩
  intro inner
  rw [constant.2] at inner
  cases inner

theorem leads_deriveFlag (closed : graph.Closed) (flagged : before.Flagged graph) (flag : Flag)
    (family : Family) (test : ValueId) :
    Leads (Moves graph block) (fun _ _ => True) (deriveFlag graph flag block family test)
      before := by
  rw [deriveFlag_eq]
  refine (leads_ofExcept _).bind ?_
  rintro location middle - ⟨tracked, rfl⟩
  have location_eq := location_of_ofFlag tracked
  subst location_eq
  refine (Leads.moves (leads_flagValue closed flagged test)).bind ?_
  intro value derived reached holds
  have derived_flagged := reached.flagged flagged
  refine (leads_rename ..).bind ?_
  intro _ renamed further _
  have fits := holds.1.mono derived_flagged further.proceeds
  have held := Function.lt_size_of_ty (by simp) fits.ty_eq
  refine (leads_define _ 1 held ?_).bind ?_
  · rintro _ ⟨rfl⟩
    exact fits
  intro _ filed last same
  have renamed_flagged := further.flagged derived_flagged
  split
  · next twin alike =>
    have alike_fits := ((holds.2 twin alike).mono derived_flagged further.proceeds).mono
      renamed_flagged last.proceeds
    refine (leads_define _ 1 (Function.lt_size_of_ty (by simp) alike_fits.ty_eq) ?_).bind
      fun _ _ _ _ => leads_count _
    rintro _ ⟨rfl⟩
    exact alike_fits
  · exact leads_count _

end Raise

namespace Session

variable {graph : FlowGraph} {block : BlockId} {session before after : Session}

/-- An action whose step moves in a block. -/
theorem Change.of_leads {α : Type} {good : α → Raising → Prop} {step : Raise α} {action : Action}
    (leads : Raise.Leads (Moves graph block) good step session.raising)
    (final_eq : (action.step graph).final session.raising = step.final session.raising)
    (keeps : session.ownedAfter action = session.owned) :
    Change graph block session (session.perform graph action) := by
  have change : Change graph block session { session with raising := _ } := .moves leads.final
  rw [perform, final_eq, keeps]
  exact change

/-- An action that does not drain changes the session in one of the ways that there are. -/
theorem perform_change {action : Action} (closed : graph.Closed)
    (flagged : session.raising.Flagged graph) (works : action.WorksIn block)
    (allowed : session.Allows action) (proper : action ≠ .drain) :
    Change graph block session (session.perform graph action) := by
  cases action with
  | readRegister register worked allPaths asNative =>
      obtain rfl := works
      exact .of_leads (Raise.leads_readRegister ..).moves rfl rfl
  | readFlag flag worked =>
      obtain rfl := works
      exact .of_leads (Raise.leads_readFlag flag).moves rfl rfl
  | findDefinitions register searched allPaths =>
      have leads : Raise.Leads (Moves graph block) (fun _ _ => True)
          (Raise.reachingDefinitions graph register searched allPaths) session.raising :=
        (Raise.leads_ofExcept _).bind fun _ _ _ _ => .of_ok rfl .refl trivial
      refine .of_leads leads ?_ rfl
      rw [Action.step, Raise.final_bind_pure, Raise.final_discard]
  | writeRegister register worked value =>
      obtain rfl := works
      exact .of_leads (Raise.leads_writeRegister register allowed) (Raise.final_bind_pure ..) rfl
  | deriveFlag flag worked family test =>
      obtain rfl := works
      exact .of_leads (Raise.leads_deriveFlag closed flagged flag family test)
        (Raise.final_bind_pure ..) rfl
  | writeFlag flag worked truth =>
      obtain rfl := works
      exact .of_leads (Raise.leads_writeFlag flag truth) (Raise.final_bind_pure ..) rfl
  | endBlock worked =>
      obtain rfl := works
      exact .dropped
  | drain => exact absurd rfl proper
  | constant ty number =>
      exact .of_leads (Raise.Leads.moves (Raise.leads_build (Builder.emits_constant ty number)))
        (Raise.final_bind_pure ..) rfl
  | emit worked emission =>
      obtain rfl := works
      have final_eq : ((Action.emit worked emission).step graph).final session.raising =
          { session.raising with
            func := session.raising.func.withInstruction worked
              (emission.ty session.raising.func) emission.operation } := by
        rw [Action.step, Raise.final_bind_pure, Raise.final_of_ok (Raise.run_build ..),
          Emission.run_build]
      rw [perform, final_eq]
      by_cases stores : ∃ slot operand, emission = .store slot operand
      · obtain ⟨slot, operand, rfl⟩ := stores
        exact .stored allowed
      · refine .moves (.single (.grow (Function.growsQuietly_withInstruction _ _ _ _ ?_)))
        intro slot operand same
        cases emission <;> simp_all [Emission.operation]
  | terminate ended ending =>
      have final_eq : ((Action.terminate ended ending).step graph).final session.raising =
          { session.raising with
            func := session.raising.func.withTerminator ended ending.operation } := by
        rw [Action.step, Raise.final_bind_pure, Raise.final_of_ok (Raise.run_build ..),
          Ending.run_build]
      rw [perform, final_eq]
      exact .terminated ended ending.operation
  | allocate ty base => exact .allocated ty base
  | rename id name => exact .of_leads (Raise.leads_rename id name) (Raise.final_bind_pure ..) rfl

/-- Draining makes all the stores that wait, or those in front of one that cannot be made. -/
theorem perform_drain (graph : FlowGraph) (session : Session) :
    (Drained graph session.raising.tracker.deferred session (session.perform graph .drain) ∧
        ∃ count after, (Raise.settleAll graph).run session.raising = .ok count after) ∨
      ∃ done refused rest, session.raising.tracker.deferred = done ++ refused :: rest ∧
        Drained graph done session (session.perform graph .drain) ∧
        ∃ failure after, (Raise.settleAll graph).run session.raising = .error failure after := by
  rw [perform, Action.step, Raise.final_bind_pure, Raise.final_discard]
  rcases Raise.run_settleAll graph session.raising with
    ⟨settled, chain, succeeds⟩ | ⟨done, refused, rest, settled, failure, split, chain, -, fails⟩
  · left
    rw [Raise.final_of_ok succeeds]
    exact ⟨.intro (List.append_nil _).symm chain, _, _, succeeds⟩
  · right
    rw [Raise.final_of_error fails]
    exact ⟨done, refused, rest, split, .intro split chain, failure, settled, fails⟩

/-- Whether all of them can be made or not, some of the stores that wait are made. -/
theorem exists_drained (graph : FlowGraph) (session : Session) :
    ∃ done, Drained graph done session (session.perform graph .drain) := by
  rcases perform_drain graph session with ⟨drained, -⟩ | ⟨done, -, -, -, drained, -⟩
  · exact ⟨_, drained⟩
  · exact ⟨done, drained⟩

/-- What an allowed action does: it makes stores that wait, or it changes the session in a block. -/
theorem drained_or_change {action : Action} (closed : graph.Closed)
    (flagged : before.raising.Flagged graph) (allowed : before.Allows action) :
    (∃ done, Drained graph done before (before.perform graph action)) ∨
      ∃ block, Change graph block before (before.perform graph action) := by
  by_cases drains : action = .drain
  · subst drains
    exact Or.inl (exists_drained graph before)
  · rcases action.exists_worksIn with ⟨block, works⟩
    exact Or.inr ⟨block, perform_change closed flagged works allowed drains⟩

theorem Change.grows (change : Change graph block before after) :
    before.raising.func.Grows after.raising.func := by
  cases change with
  | moves moves => exact moves.proceeds.grows
  | dropped => exact .refl _
  | terminated => exact Function.grows_withTerminator ..
  | allocated => exact Function.grows_withSlot ..
  | stored => exact Function.grows_withInstruction ..

theorem Drained.grows {done : List DeferredStore} (drained : Drained graph done before after) :
    before.raising.func.Grows after.raising.func := by
  cases drained with
  | intro _ chain => exact chain.grows_settled

/-- No store waits after a drain. -/
theorem deferred_drain (graph : FlowGraph) (session : Session) :
    (session.perform graph .drain).raising.tracker.deferred = [] := by
  rcases exists_drained graph session with ⟨done, drained⟩
  generalize session.perform graph .drain = after at drained ⊢
  cases drained with
  | intro _ chain =>
      dsimp only
      rw [chain.tracker_eq_settled]
      rfl

/-- The session is in order, and the driver owns none of the slots that stores wait for. -/
structure InOrder (graph : FlowGraph) (session : Session) : Prop where
  kept : session.raising.WellKept graph
  flagged : session.raising.Flagged graph
  owned_lt : ∀ slot ∈ session.owned, slot < session.raising.func.slots.size
  unowned : ∀ store ∈ session.raising.tracker.deferred, store.slot ∉ session.owned

/-- Every change keeps the session in order. -/
theorem Change.inOrder (closed : graph.Closed) (ordered : before.InOrder graph)
    (change : Change graph block before after) : after.InOrder graph := by
  have kept := ordered.kept
  cases change with
  | moves moves =>
      have proceeds := moves.proceeds
      exact {
        kept := moves.wellKept kept closed
        flagged := moves.flagged ordered.flagged
        owned_lt := fun slot mem =>
          Nat.lt_of_lt_of_le (ordered.owned_lt slot mem) proceeds.grows.slotCount_le
        unowned := by
          intro store mem owned
          obtain ⟨added, added_eq, fresh⟩ := proceeds.deferred
          dsimp only at mem owned
          rw [added_eq] at mem
          rcases List.mem_append.mp mem with old | new
          · exact ordered.unowned store old owned
          · exact Nat.not_lt_of_le (fresh store new).1 (ordered.owned_lt _ owned) }
  | dropped =>
      refine { ordered with kept := { kept with ranged := ⟨?_, kept.ranged.bound⟩ }, flagged := ?_ }
      · intro definition mem
        exact kept.ranged.filed definition (List.mem_of_mem_filter mem)
      · exact ordered.flagged.of_extends (.refl _) fun flag source =>
          ordered.flagged.content?_withoutPending source
  | terminated ended operation =>
      have quiet := before.raising.func.growsQuietly_withTerminator block operation ended
      exact {
        kept := kept.of_quiet quiet (kept.ranged.mono quiet.toExtends rfl rfl) rfl
        flagged := ordered.flagged.of_extends quiet.toExtends fun _ _ => rfl
        owned_lt := ordered.owned_lt
        unowned := ordered.unowned }
  | allocated ty base =>
      have grows := before.raising.func.grows_withSlot ty base
      have storedIn_eq := fun slot other =>
        @Function.storedIn_withSlot other slot before.raising.func kept.numbered ty base
      exact {
        kept := kept.of_grows grows (kept.ranged.mono grows.toExtends rfl rfl)
          (fun slot _ other => storedIn_eq slot other) (List.Sublist.refl _)
          fun _ _ => storedIn_eq _ _
        flagged := ordered.flagged.of_extends grows.toExtends fun _ _ => rfl
        owned_lt := by
          intro slot mem
          dsimp only
          rw [Function.slotCount_withSlot]
          rcases List.mem_cons.mp mem with rfl | old
          · exact Nat.lt_succ_self _
          · exact Nat.lt_succ_of_lt (ordered.owned_lt slot old)
        unowned := by
          intro store mem owned
          rcases List.mem_cons.mp owned with fresh | old
          · exact Nat.ne_of_lt (kept.waiting_slot store mem) fresh
          · exact ordered.unowned store mem old }
  | @stored ty slot operand owned =>
      have grows := before.raising.func.grows_withInstruction block ty (.store slot operand)
      have other_slot : ∀ other elsewhere, other ≠ slot →
          (before.raising.func.withInstruction block ty (.store slot operand)).storedIn other
            elsewhere = before.raising.func.storedIn other elsewhere := by
        intro other elsewhere different
        refine Function.storedIn_withInstruction_of_ne kept.numbered fun _ same => ?_
        rw [Operation.store.injEq] at same
        exact different same.1.symm
      exact {
        kept := kept.of_grows grows (kept.ranged.mono grows.toExtends rfl rfl)
          (fun other new elsewhere => other_slot other elsewhere
            (Nat.ne_of_gt (Nat.lt_of_lt_of_le (ordered.owned_lt slot owned) new)))
          (List.Sublist.refl _)
          fun store mem => other_slot _ _ fun same => ordered.unowned store mem (same ▸ owned)
        flagged := ordered.flagged.of_extends grows.toExtends fun _ _ => rfl
        owned_lt := ordered.owned_lt
        unowned := ordered.unowned }

/-- Draining keeps the session in order. -/
theorem Drained.inOrder {done : List DeferredStore} (ordered : before.InOrder graph)
    (drained : Drained graph done before after) : after.InOrder graph := by
  have kept := ordered.kept
  cases drained with
  | @intro rest settled drained statistics split chain =>
      have grows : before.raising.func.Grows settled.func := chain.grows_settled
      have tracker_eq : settled.tracker = before.raising.released.tracker :=
        chain.tracker_eq_settled
      have deferred_eq : settled.tracker.deferred = [] := by
        rw [tracker_eq]
        rfl
      have storedIn_new : ∀ slot, settled.func.slots.size ≤ slot → ∀ other,
          settled.func.storedIn slot other = before.raising.func.storedIn slot other := by
        intro slot new other
        refine chain.storedIn_of_ne_settled kept.numbered fun store mem => Or.inl ?_
        have waits : store ∈ before.raising.tracker.deferred :=
          split ▸ List.mem_append_left _ mem
        exact Nat.ne_of_gt (Nat.lt_of_lt_of_le (kept.waiting_slot store waits)
          (Nat.le_trans grows.slotCount_le new))
      exact {
        kept := kept.of_grows grows
          (kept.ranged.mono grows.toExtends (by rw [tracker_eq]; rfl) (by rw [tracker_eq]; rfl))
          storedIn_new (deferred_eq ▸ List.nil_sublist _)
          (fun store mem => by rw [deferred_eq] at mem; cases mem)
        flagged := by
          refine ordered.flagged.of_extends grows.toExtends fun _ _ => ?_
          dsimp only
          rw [tracker_eq]
          rfl
        owned_lt := fun slot mem =>
          Nat.lt_of_lt_of_le (ordered.owned_lt slot mem) grows.slotCount_le
        unowned := fun store mem => by rw [deferred_eq] at mem; cases mem }

/-- Every action keeps the session in order. -/
theorem InOrder.perform {action : Action} (closed : graph.Closed) (ordered : before.InOrder graph)
    (allowed : before.Allows action) : (before.perform graph action).InOrder graph := by
  rcases drained_or_change closed ordered.flagged allowed with ⟨done, drained⟩ | ⟨block, change⟩
  · exact drained.inOrder ordered
  · exact change.inOrder closed ordered

/-- Whatever a driver does, the function only grows. -/
theorem InOrder.grows_perform {action : Action} (closed : graph.Closed)
    (ordered : before.InOrder graph) (allowed : before.Allows action) :
    before.raising.func.Grows (before.perform graph action).raising.func := by
  rcases drained_or_change closed ordered.flagged allowed with ⟨done, drained⟩ | ⟨block, change⟩
  · exact drained.grows
  · exact change.grows

/-- What every allowed action keeps where the session is in order, a list of them keeps. -/
theorem InOrder.keeps_after {actions : List Action} {motive : Session → Prop}
    (closed : graph.Closed) (ordered : before.InOrder graph)
    (allowed : AllowsAll graph before actions)
    (perform : ∀ session, ∀ action ∈ actions, session.InOrder graph → session.Allows action →
      motive session → motive (session.perform graph action))
    (held : motive before) : motive (before.after graph actions) := by
  induction actions generalizing before with
  | nil => exact held
  | cons action actions ih =>
      apply ih (ordered.perform closed allowed.1) allowed.2
      · exact fun session later mem => perform session later (List.mem_cons_of_mem _ mem)
      · exact perform before action List.mem_cons_self ordered allowed.1 held

theorem InOrder.of_allowsAll {actions : List Action} (closed : graph.Closed)
    (ordered : before.InOrder graph) (allowed : AllowsAll graph before actions) :
    (before.after graph actions).InOrder graph :=
  ordered.keeps_after closed allowed
    (fun _ _ _ ordered allowed _ => ordered.perform closed allowed) ordered

theorem InOrder.grows_after {actions : List Action} (closed : graph.Closed)
    (ordered : before.InOrder graph) (allowed : AllowsAll graph before actions) :
    before.raising.func.Grows (before.after graph actions).raising.func :=
  ordered.keeps_after (motive := (before.raising.func.Grows ·.raising.func)) closed allowed
    (fun _ _ _ ordered allowed grown => grown.trans (ordered.grows_perform closed allowed)) (.refl _)

end Session

end RegisterFlow
