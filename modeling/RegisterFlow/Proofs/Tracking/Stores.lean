import RegisterFlow.Proofs.Tracking.Obligations

/-!
# Stores into the slots of the tracker

The definitions that meet in a slot are those of different blocks, and each of them is stored when
the slot is allocated or waits until it is known, but not both. So no block ever stores twice into
a slot that does not belong to the driver.
-/

namespace RegisterFlow

/-- No block stores twice into a slot, unless the slot is among those that are owned. -/
def Raising.StoresOnce (owned : List SlotId) (raising : Raising) : Prop :=
  ∀ slot, slot ∉ owned → ∀ block, (raising.func.storedIn slot block).length ≤ 1

/-- Of definitions in different blocks, at most one is known in a block. -/
theorem ReachingDefinition.length_filterMap_valueIn?_le {hits : List ReachingDefinition}
    {block : BlockId} (distinct : (hits.map ReachingDefinition.block).Nodup) :
    (hits.filterMap (·.valueIn? block)).length ≤ 1 := by
  by_cases known : ∃ value, { block, content := .known value } ∈ hits
  · rcases known with ⟨value, mem⟩
    rw [filterMap_valueIn?_of_mem distinct mem]
    exact Nat.le_refl 1
  · rw [filterMap_valueIn?_of_forall (not_exists.mp known)]
    exact Nat.zero_le 1

theorem Move.storesOnce {graph : FlowGraph} {block : BlockId} {before after : Raising}
    {owned : List SlotId} (closed : graph.Closed) (kept : before.WellKept graph)
    (move : Move graph block before after) (once : before.StoresOnce owned) :
    after.StoresOnce owned := by
  have kept_after := move.wellKept kept closed
  intro slot unowned other
  rcases Nat.lt_or_ge slot before.func.slots.size with old | new
  · rw [move.proceeds.storedIn_eq kept.numbered slot old]
    exact once slot unowned other
  · rcases Nat.lt_or_ge slot after.func.slots.size with held | fresh
    · cases move with
      | tally _ | file _ _ _ | note _ => exact absurd held (Nat.not_lt_of_le new)
      | grow quiet =>
          rw [quiet.slots_eq] at held
          exact absurd held (Nat.not_lt_of_le new)
      | @supply _ location allPaths hits done reached front chain =>
          rw [chain.slotCount_opened] at held
          obtain rfl : slot = before.func.slots.size :=
            Nat.le_antisymm (Nat.le_of_lt_succ held) new
          have distinct : (done.map ReachingDefinition.block).Nodup := by
            have all :=
              @Tracker.nodup_reaching_blocks graph before.tracker location block closed allPaths
            rw [reached] at all
            exact all.sublist (front.sublist.map _)
          rcases Nat.lt_or_ge other before.func.blocks.size with bound | outside
          · have stored := chain.storedIn_opened other kept.numbered (meetingTy_ne_void _ _ _)
              (kept.storedIn_new _ (Nat.le_refl _) other) bound
            rw [← stored.length_eq]
            exact ReachingDefinition.length_filterMap_valueIn?_le distinct
          · rw [kept.blockCount_eq, ← kept_after.blockCount_eq] at outside
            rw [Function.storedIn, Function.body_of_size_le outside]
            exact Nat.zero_le 1
    · rw [kept_after.storedIn_new slot fresh other]
      exact Nat.zero_le 1

namespace Session

variable {graph : FlowGraph} {before after session : Session} {block : BlockId}

theorem Change.storesOnce (closed : graph.Closed) (ordered : before.InOrder graph)
    (change : Change graph block before after)
    (once : before.raising.StoresOnce before.owned) :
    after.raising.StoresOnce after.owned := by
  have numbered := ordered.kept.numbered
  cases change with
  | @moves last moves =>
      have both : last.WellKept graph ∧ last.StoresOnce before.owned := by
        induction moves with
        | refl => exact ⟨ordered.kept, once⟩
        | tail _ move ih => exact ⟨move.wellKept ih.1 closed, move.storesOnce closed ih.1 ih.2⟩
      exact both.2
  | dropped => exact once
  | terminated ended operation =>
      intro slot unowned other
      rw [Function.storedIn_withTerminator numbered]
      exact once slot unowned other
  | allocated ty base =>
      intro slot unowned other
      rw [Function.storedIn_withSlot numbered]
      exact once slot (fun owned => unowned (List.mem_cons_of_mem _ owned)) other
  | @stored ty target operand owned =>
      intro slot unowned other
      rw [Function.storedIn_withInstruction_of_ne numbered]
      · exact once slot unowned other
      · intro _ same
        rw [Operation.store.injEq] at same
        exact unowned (same.1 ▸ owned)

theorem Drained.storesOnce {done : List DeferredStore} (ordered : before.InOrder graph)
    (drained : Drained graph done before after)
    (once : before.raising.StoresOnce before.owned) :
    after.raising.StoresOnce after.owned := by
  intro slot unowned other
  by_cases reached : ∃ store ∈ done, slot = store.slot ∧ other = store.block
  · rcases reached with ⟨store, mem, rfl, rfl⟩
    rcases drained.completes ordered mem with ⟨-, value, converted, -, stored, -⟩
    rw [stored]
    exact Nat.le_refl 1
  · cases drained with
    | intro split chain =>
        have same := chain.storedIn_of_ne_settled ordered.kept.numbered fun store mem =>
          not_and_or.mp fun here => reached ⟨store, mem, here⟩
        refine Nat.le_trans (Nat.le_of_eq (congrArg List.length same)) ?_
        exact once slot unowned other

/-- Whatever a driver does, no block stores twice into a slot that the driver does not own. -/
theorem Reachable.storesOnce (closed : graph.Closed) (reachable : Reachable graph session) :
    session.raising.StoresOnce session.owned := by
  induction reachable with
  | start starts =>
      rcases starts with ⟨name, types, blockNames, tracker, -, -, rfl⟩
      intro slot unowned block
      rw [Function.storedIn, Function.body_empty]
      exact Nat.zero_le 1
  | @perform session action reachable allowed once =>
      have ordered := reachable.inOrder closed
      rcases drained_or_change closed ordered.flagged allowed with
        ⟨done, drained⟩ | ⟨block, change⟩
      · exact drained.storesOnce ordered once
      · exact change.storesOnce closed ordered once

end Session

end RegisterFlow
