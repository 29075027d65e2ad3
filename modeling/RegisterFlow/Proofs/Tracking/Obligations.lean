import Mathlib
import RegisterFlow.Proofs.Tracking.Start

/-!
# Deferred stores as obligations

A deferred store is completed when its block stores into its slot, once, the definition that the
location had there when the store was drained. A successful drain completes every store that waits.
A failing one gives up those it did not reach, and nothing completes them later: so all of them are
completed in the end exactly if no drain failed on the way.
-/

namespace RegisterFlow

/-- A store that waited before a drain was completed by it, as seen in the final function. -/
def Raising.Completes (graph : FlowGraph) (drained : Raising) (func : Function)
    (store : DeferredStore) : Prop :=
  store ∈ drained.tracker.deferred ∧
    ∃ value converted,
      drained.tracker.valueIn? graph store.location store.block = some value ∧
        func.storedIn store.slot store.block = [converted] ∧
        Converts func store.block value (func.slot store.slot).ty converted

namespace Session

/-- A store waited at some point while a list of actions was performed. -/
def EverWaits (graph : FlowGraph) (session : Session) (actions : List Action)
    (store : DeferredStore) : Prop :=
  ∃ earlier later, actions = earlier ++ later ∧
    store ∈ (session.after graph earlier).raising.tracker.deferred

/-- No drain among a list of actions fails. -/
def DrainsSucceed (graph : FlowGraph) (session : Session) (actions : List Action) : Prop :=
  ∀ earlier later, actions = earlier ++ .drain :: later →
    ∃ count drained,
      (Raise.settleAll graph).run (session.after graph earlier).raising = .ok count drained

/--
A store was completed in the final function by a drain among a list of actions, or by the one with
which tracking ends.
-/
def Completed (graph : FlowGraph) (session : Session) (actions : List Action) (func : Function)
    (store : DeferredStore) : Prop :=
  ∃ earlier later, actions ++ [.drain] = earlier ++ .drain :: later ∧
    (session.after graph earlier).raising.Completes graph func store

/-- No store that waits is for a place, the slot exists, and the driver does not own it. -/
structure Quiet (session : Session) (slot : SlotId) (block : BlockId) : Prop where
  slot_lt : slot < session.raising.func.slots.size
  unowned : slot ∉ session.owned
  unawaited : ∀ store ∈ session.raising.tracker.deferred, slot ≠ store.slot ∨ block ≠ store.block

variable {graph : FlowGraph} {session before after : Session} {slot : SlotId}
  {block worked : BlockId}

/-- A place at which no store waits stays so, and nothing is stored there. -/
theorem Quiet.change (quiet : before.Quiet slot block) (ordered : before.InOrder graph)
    (change : Change graph worked before after) :
    after.Quiet slot block ∧
      after.raising.func.storedIn slot block = before.raising.func.storedIn slot block := by
  have numbered := ordered.kept.numbered
  cases change with
  | moves moves =>
      have proceeds := moves.proceeds
      obtain ⟨added, added_eq, fresh⟩ := proceeds.deferred
      refine ⟨⟨Nat.lt_of_lt_of_le quiet.slot_lt proceeds.grows.slotCount_le, quiet.unowned, ?_⟩,
        proceeds.storedIn_eq numbered slot quiet.slot_lt block⟩
      intro store mem
      dsimp only at mem
      rw [added_eq] at mem
      rcases List.mem_append.mp mem with old | new
      · exact quiet.unawaited store old
      · exact Or.inl (Nat.ne_of_lt (Nat.lt_of_lt_of_le quiet.slot_lt (fresh store new).1))
  | dropped => exact ⟨⟨quiet.slot_lt, quiet.unowned, quiet.unawaited⟩, rfl⟩
  | terminated ended operation =>
      exact ⟨⟨quiet.slot_lt, quiet.unowned, quiet.unawaited⟩,
        Function.storedIn_withTerminator numbered ..⟩
  | allocated ty base =>
      refine ⟨⟨?_, ?_, quiet.unawaited⟩, Function.storedIn_withSlot numbered ..⟩
      · dsimp only
        rw [Function.slotCount_withSlot]
        exact Nat.lt_succ_of_lt quiet.slot_lt
      · intro owned
        rcases List.mem_cons.mp owned with fresh | old
        · exact Nat.ne_of_lt quiet.slot_lt fresh
        · exact quiet.unowned old
  | @stored ty target operand owned =>
      refine ⟨⟨quiet.slot_lt, quiet.unowned, quiet.unawaited⟩, ?_⟩
      refine Function.storedIn_withInstruction_of_ne numbered fun _ same => ?_
      rw [Operation.store.injEq] at same
      exact quiet.unowned (same.1 ▸ owned)

theorem Quiet.drained {done : List DeferredStore} (quiet : before.Quiet slot block)
    (ordered : before.InOrder graph) (drained : Drained graph done before after) :
    after.Quiet slot block ∧
      after.raising.func.storedIn slot block = before.raising.func.storedIn slot block := by
  cases drained with
  | @intro rest settled drained statistics split chain =>
      have tracker_eq : settled.tracker = before.raising.released.tracker :=
        chain.tracker_eq_settled
      refine ⟨⟨Nat.lt_of_lt_of_le quiet.slot_lt chain.grows_settled.slotCount_le, quiet.unowned, ?_⟩,
        chain.storedIn_of_ne_settled ordered.kept.numbered fun store mem => ?_⟩
      · intro store mem
        dsimp only at mem
        rw [tracker_eq] at mem
        cases mem
      · exact quiet.unawaited store (split ▸ List.mem_append_left _ mem)

theorem Quiet.perform {action : Action} (quiet : before.Quiet slot block) (closed : graph.Closed)
    (ordered : before.InOrder graph) (allowed : before.Allows action) :
    (before.perform graph action).Quiet slot block ∧
      (before.perform graph action).raising.func.storedIn slot block =
        before.raising.func.storedIn slot block := by
  rcases drained_or_change closed ordered.flagged allowed with ⟨done, drained⟩ | ⟨worked, change⟩
  · exact quiet.drained ordered drained
  · exact quiet.change ordered change

/-- Whatever a driver does, nothing more is stored at a place at which no store waits. -/
theorem Quiet.storedIn_after {actions : List Action} (quiet : before.Quiet slot block)
    (closed : graph.Closed) (ordered : before.InOrder graph)
    (allowed : AllowsAll graph before actions) :
    (before.after graph actions).raising.func.storedIn slot block =
      before.raising.func.storedIn slot block := by
  refine (ordered.keeps_after (motive := fun session => session.Quiet slot block ∧
      session.raising.func.storedIn slot block = before.raising.func.storedIn slot block)
    closed allowed ?_ ⟨quiet, rfl⟩).2
  intro session action _ ordered allowed kept
  have next := kept.1.perform closed ordered allowed
  exact ⟨next.1, next.2.trans kept.2⟩

/-! ### What a drain does to the stores that wait -/

/-- Nothing waits for the place of a store after it was drained, whether it was made or given up. -/
theorem Drained.quiet {done : List DeferredStore} {store : DeferredStore}
    (ordered : before.InOrder graph) (drained : Drained graph done before after)
    (waits : store ∈ before.raising.tracker.deferred) :
    after.Quiet store.slot store.block := by
  have slot_lt := Nat.lt_of_lt_of_le (ordered.kept.waiting_slot store waits)
    drained.grows.slotCount_le
  cases drained with
  | @intro rest settled drained statistics split chain =>
      have tracker_eq : settled.tracker = before.raising.released.tracker :=
        chain.tracker_eq_settled
      refine ⟨slot_lt, ordered.unowned store waits, ?_⟩
      intro other mem
      dsimp only at mem
      rw [tracker_eq] at mem
      cases mem

/-- The stores that a drain reaches are completed by it. -/
theorem Drained.completes {done : List DeferredStore} {store : DeferredStore}
    (ordered : before.InOrder graph) (drained : Drained graph done before after)
    (reached : store ∈ done) :
    before.raising.Completes graph after.raising.func store := by
  have kept := ordered.kept
  cases drained with
  | @intro rest settled drained statistics split chain =>
      have waits : store ∈ before.raising.tracker.deferred :=
        split ▸ List.mem_append_left _ reached
      have distinct := (List.pairwise_append.mp (split ▸ kept.waiting_distinct)).1
      obtain ⟨value, converted, known, appended, converts⟩ :=
        chain.storedIn_settled kept.numbered distinct reached (kept.waiting_ty store waits)
          (kept.blockCount_eq.symm ▸ kept.waiting_block store waits)
      refine ⟨waits, value, converted, known, ?_, ?_⟩
      · refine appended.trans ?_
        rw [show before.raising.released.func = before.raising.func from rfl,
          kept.unstored store waits, List.nil_append]
      · dsimp only
        rw [Function.slot, chain.slots_eq_settled]
        exact converts

/-- The stores that a drain does not reach are not made. -/
theorem Drained.storedIn_of_refused {done rest : List DeferredStore} {refused : DeferredStore}
    (ordered : before.InOrder graph) (drained : Drained graph done before after)
    (split : before.raising.tracker.deferred = done ++ refused :: rest) :
    after.raising.func.storedIn refused.slot refused.block = [] := by
  have kept := ordered.kept
  have waits : refused ∈ before.raising.tracker.deferred :=
    split ▸ List.mem_append_right _ List.mem_cons_self
  have apart := (List.pairwise_append.mp (split ▸ kept.waiting_distinct)).2.2
  cases drained with
  | @intro _ settled drained statistics _ chain =>
      refine (chain.storedIn_of_ne_settled kept.numbered fun store mem => ?_).trans
        (kept.unstored refused waits)
      exact (apart store mem refused List.mem_cons_self).symm.imp Ne.symm Ne.symm

/-- A completed store stays completed. -/
theorem Completes.persists {drained : Raising} {store : DeferredStore} {actions : List Action}
    (completes : drained.Completes graph before.raising.func store) (closed : graph.Closed)
    (ordered : before.InOrder graph) (quiet : before.Quiet store.slot store.block)
    (proper : (before.raising.func.slot store.slot).ty ≠ .void)
    (allowed : AllowsAll graph before actions) :
    drained.Completes graph (before.after graph actions).raising.func store := by
  obtain ⟨waits, value, converted, known, stored, converts⟩ := completes
  have grows := ordered.grows_after closed allowed
  refine ⟨waits, value, converted, known, ?_, ?_⟩
  · rw [quiet.storedIn_after closed ordered allowed]
    exact stored
  · rw [grows.slotTy_eq store.slot quiet.slot_lt]
    exact converts.mono proper grows.toExtends

theorem Change.waits {store : DeferredStore} (change : Change graph worked before after)
    (waits : store ∈ before.raising.tracker.deferred) :
    store ∈ after.raising.tracker.deferred := by
  cases change with
  | moves moves =>
      obtain ⟨added, added_eq, _⟩ := moves.proceeds.deferred
      dsimp only
      rw [added_eq]
      exact List.mem_append_left _ waits
  | dropped => exact waits
  | terminated => exact waits
  | allocated => exact waits
  | stored => exact waits

/-! ### Runs -/

variable {actions : List Action} {store : DeferredStore}

/-- If no drain fails, then a store that waits goes on waiting or is completed by a drain. -/
theorem waits_or_completes (closed : graph.Closed) (ordered : session.InOrder graph)
    (allowed : AllowsAll graph session actions) (succeed : DrainsSucceed graph session actions)
    (waits : store ∈ session.raising.tracker.deferred) :
    store ∈ (session.after graph actions).raising.tracker.deferred ∨
      ∃ earlier later, actions = earlier ++ .drain :: later ∧
        (session.after graph earlier).raising.Completes graph
          (session.after graph actions).raising.func store := by
  induction actions generalizing session with
  | nil => exact Or.inl waits
  | cons action actions ih =>
      have next := ordered.perform closed allowed.1
      by_cases drains : action = .drain
      · subst drains
        obtain ⟨count, settled, succeeds⟩ := succeed [] actions rfl
        rcases perform_drain graph session with ⟨drained, _⟩ | ⟨_, _, _, _, _, _, _, fails⟩
        · right
          refine ⟨[], actions, rfl, ?_⟩
          have proper : ((session.perform graph .drain).raising.func.slot store.slot).ty ≠ .void := by
            rw [drained.grows.slotTy_eq _ (ordered.kept.waiting_slot store waits)]
            exact ordered.kept.waiting_ty store waits
          have persists := Completes.persists (drained.completes ordered waits) closed next
            (drained.quiet ordered waits) proper allowed.2
          exact persists
        · exact absurd (succeeds.symm.trans fails) (by simp)
      · obtain ⟨worked, works⟩ := action.exists_worksIn
        have change := perform_change closed ordered.flagged works allowed.1 drains
        have later_succeed : DrainsSucceed graph (session.perform graph action) actions :=
          fun earlier later split => succeed (action :: earlier) later (by rw [split]; rfl)
        rcases ih next allowed.2 later_succeed (change.waits waits) with
          waiting | ⟨earlier, later, split, completes⟩
        · exact Or.inl waiting
        · exact Or.inr ⟨action :: earlier, later, by rw [split]; rfl, completes⟩

/-- If no drain fails, then every store that ever waited is completed. -/
theorem completed_of_drainsSucceed (closed : graph.Closed) (ordered : session.InOrder graph)
    (allowed : AllowsAll graph session actions)
    (succeed : DrainsSucceed graph session (actions ++ [.drain]))
    (waits : EverWaits graph session actions store) :
    Completed graph session actions (session.after graph (actions ++ [.drain])).raising.func
      store := by
  obtain ⟨earlier, later, rfl, waits⟩ := waits
  rw [List.append_assoc] at succeed ⊢
  have split := allowsAll_append.mp allowed
  have rest_allowed : AllowsAll graph (session.after graph earlier) (later ++ [.drain]) :=
    allowsAll_append.mpr ⟨split.2, trivial, trivial⟩
  have rest_succeed : DrainsSucceed graph (session.after graph earlier) (later ++ [.drain]) := by
    intro before rest same
    rw [← after_append]
    exact succeed (earlier ++ before) rest (by rw [same, List.append_assoc])
  rcases waits_or_completes closed (ordered.of_allowsAll closed split.1) rest_allowed rest_succeed
      waits with
    waiting | ⟨before, rest, same, completes⟩
  · rw [after_append] at waiting
    exact absurd (deferred_drain graph _ ▸ waiting) List.not_mem_nil
  · rw [← after_append, ← after_append] at completes
    exact ⟨earlier ++ before, rest, by rw [List.append_assoc, same, List.append_assoc], completes⟩

/-- A failing drain gives up a store that is never completed. -/
theorem exists_not_completed (closed : graph.Closed) (ordered : session.InOrder graph)
    (allowed : AllowsAll graph session actions) (fails : ¬ DrainsSucceed graph session actions) :
    ∃ store, EverWaits graph session actions store ∧
      ¬ Completed graph session actions (session.after graph (actions ++ [.drain])).raising.func
        store := by
  unfold DrainsSucceed at fails
  push Not at fails
  obtain ⟨earlier, later, rfl, fails⟩ := fails
  have split := allowsAll_append.mp allowed
  have there := ordered.of_allowsAll closed split.1
  rcases perform_drain graph (session.after graph earlier) with
    ⟨_, count, settled, succeeds⟩ | ⟨done, refused, rest, deferred_eq, drained, _⟩
  · exact absurd succeeds (fails count settled)
  · have waits : refused ∈ (session.after graph earlier).raising.tracker.deferred :=
      deferred_eq ▸ List.mem_append_right _ List.mem_cons_self
    refine ⟨refused, ⟨earlier, _, rfl, waits⟩, ?_⟩
    rintro ⟨_, _, _, _, value, converted, _, stored, _⟩
    have later_allowed : AllowsAll graph ((session.after graph earlier).perform graph .drain)
        (later ++ [.drain]) :=
      allowsAll_append.mpr ⟨split.2.2, trivial, trivial⟩
    have never := (drained.quiet there waits).storedIn_after closed (drained.inOrder there)
      later_allowed
    rw [drained.storedIn_of_refused there deferred_eq] at never
    rw [List.append_assoc, after_append] at stored
    exact absurd (stored.symm.trans never) (List.cons_ne_nil _ _)

/-- The end of tracking drains once more. -/
theorem conclude_eq_ok {summary : Summary} {final : Raising}
    (concludes : (Raise.conclude graph).run session.raising = .ok summary final) :
    (∃ count drained, (Raise.settleAll graph).run session.raising = .ok count drained) ∧
      final = (session.perform graph .drain).raising.tally Statistics.countFunction := by
  unfold Raise.conclude at concludes
  rw [Raise.run_bind_eq_ok_iff] at concludes
  obtain ⟨_, middle, discards, rest⟩ := concludes
  rw [Raise.run_discard] at discards
  cases settles : (Raise.settleAll graph).run session.raising with
  | error failure drained =>
      rw [settles] at discards
      cases discards
  | ok count drained =>
      rw [settles] at discards
      cases discards
      refine ⟨⟨count, middle, rfl⟩, ?_⟩
      rw [perform, Action.step, Raise.final_bind_pure, Raise.final_discard,
        Raise.final_of_ok settles]
      cases rest
      rfl

end Session

/--
When tracking ends well, the deferred stores that ever waited have all been completed exactly if no
drain failed before.
-/
theorem completed_iff_drainsSucceed {graph : FlowGraph} {session : Session}
    {actions : List Action} {summary : Summary} {final : Raising} (closed : graph.Closed)
    (starts : Session.Starts graph session) (allowed : Session.AllowsAll graph session actions)
    (concludes : (Raise.conclude graph).run (session.after graph actions).raising =
      .ok summary final) :
    (∀ store, Session.EverWaits graph session actions store →
        Session.Completed graph session actions final.func store) ↔
      Session.DrainsSucceed graph session actions := by
  have ordered := starts.inOrder
  obtain ⟨⟨count, drained, last⟩, concluded⟩ := Session.conclude_eq_ok concludes
  have final_eq : final.func = (session.after graph (actions ++ [.drain])).raising.func := by
    rw [concluded, Session.after_append]
    rfl
  rw [final_eq]
  constructor
  · intro completed
    by_contra fails
    obtain ⟨store, waits, lost⟩ := Session.exists_not_completed closed ordered allowed fails
    exact lost (completed store waits)
  · intro succeed store waits
    refine Session.completed_of_drainsSucceed closed ordered allowed ?_ waits
    intro earlier later split
    rcases List.eq_nil_or_concat later with rfl | ⟨inner, action, rfl⟩
    · rw [List.append_left_inj] at split
      exact ⟨count, drained, split ▸ last⟩
    · rw [List.concat_eq_append, ← List.cons_append, ← List.append_assoc] at split
      exact succeed earlier inner (List.append_inj_left' split rfl)

/-! ### Three blocks in a row -/

/-- Three blocks in a row, of which the second one writes a register. -/
def rowGraph : FlowGraph where
  blocks := #[
    { name := "bb0", predecessors := [], effects := [] },
    { name := "bb1", predecessors := [0],
      effects := [{ writes := [.rax], family := .other "mov" }] },
    { name := "bb2", predecessors := [1], effects := [] }]

/-- The start of raising a function of one argument with three blocks in a row. -/
def rowSession : Session :=
  .starting rowGraph "row" [.int 64] ["entry", "body", "exit"]

/-- The last block is raised before the second one, and the stores are drained in the end. -/
def rowActions : List Action :=
  [.readRegister .rax 2 false true, .writeRegister .rax 1 0, .drain]

/-- The stores are drained before the value is known for which one waits. -/
def hastyActions : List Action :=
  [.readRegister .rax 2 false true, .drain, .writeRegister .rax 1 0]

theorem closed_rowGraph : rowGraph.Closed := by
  decide +kernel

theorem starts_rowSession : Session.Starts rowGraph rowSession :=
  Session.starts_starting rfl (by decide +kernel)

/-- When the stores are drained in the end, tracking ends well, and they are completed. -/
theorem completed_row :
    rowGraph.Closed ∧ Session.Starts rowGraph rowSession ∧
      Session.AllowsAll rowGraph rowSession rowActions ∧
      ∃ summary final,
        (Raise.conclude rowGraph).run (rowSession.after rowGraph rowActions).raising =
          .ok summary final ∧
        ((∀ store, Session.EverWaits rowGraph rowSession rowActions store →
            Session.Completed rowGraph rowSession rowActions final.func store) ↔
          Session.DrainsSucceed rowGraph rowSession rowActions) := by
  have allowed : Session.AllowsAll rowGraph rowSession rowActions := by
    refine ⟨trivial, ?_, trivial, trivial⟩
    change 0 < _
    cbv
  have succeeds : (Raise.conclude rowGraph).succeeds
      (rowSession.after rowGraph rowActions).raising = true := by
    cbv
  obtain ⟨summary, final, concludes⟩ := Raise.exists_of_succeeds succeeds
  exact ⟨closed_rowGraph, starts_rowSession, allowed, summary, final, concludes,
    completed_iff_drainsSucceed closed_rowGraph starts_rowSession allowed concludes⟩

/--
When a drain fails because the value of a store is not known yet, tracking can still end well, but
the store is never made, although the value is known by then.
-/
theorem not_completed_hasty :
    rowGraph.Closed ∧ Session.Starts rowGraph rowSession ∧
      Session.AllowsAll rowGraph rowSession hastyActions ∧
      ∃ summary final,
        (Raise.conclude rowGraph).run (rowSession.after rowGraph hastyActions).raising =
          .ok summary final ∧
        ∃ store, Session.EverWaits rowGraph rowSession hastyActions store ∧
          final.func.storedIn store.slot store.block = [] ∧
          ¬ Session.Completed rowGraph rowSession hastyActions final.func store := by
  have allowed : Session.AllowsAll rowGraph rowSession hastyActions := by
    refine ⟨trivial, trivial, ?_, trivial⟩
    change 0 < _
    cbv
  have succeeds : (Raise.conclude rowGraph).succeeds
      (rowSession.after rowGraph hastyActions).raising = true := by
    cbv
  obtain ⟨summary, final, concludes⟩ := Raise.exists_of_succeeds succeeds
  have waits : Session.EverWaits rowGraph rowSession hastyActions
      { location := .register .rax, block := 1, slot := 0 } := by
    refine ⟨[.readRegister .rax 2 false true], [.drain, .writeRegister .rax 1 0], rfl, ?_⟩
    have waiting : (rowSession.after rowGraph
        [.readRegister .rax 2 false true]).raising.tracker.deferred =
          [{ location := .register .rax, block := 1, slot := 0 }] := by
      cbv
    rw [waiting]
    exact List.mem_cons_self
  have unstored : final.func.storedIn 0 1 = [] := by
    rw [(Session.conclude_eq_ok concludes).2]
    cbv
  refine ⟨closed_rowGraph, starts_rowSession, allowed, summary, final, concludes, _, waits,
    unstored, ?_⟩
  rintro ⟨_, _, _, _, value, converted, _, stored, _⟩
  exact absurd (stored.symm.trans unstored) (List.cons_ne_nil _ _)

end RegisterFlow
