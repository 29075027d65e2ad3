import RegisterFlow.Proofs.Machine.Parts
import RegisterFlow.Proofs.Tracking.Obligations

/-!
# When all blocks are done

When every block has been raised, nothing is pending any longer, so every store that waits can be
made. Tracking ends well, and it leaves code that can be executed along the edges of the graph.
-/

namespace RegisterFlow

/-! ### Stores that can be made -/

/-- A deferred store can be made: its block knows a word, and the slot has room for it. -/
structure Raising.Ready (graph : FlowGraph) (raising : Raising) (store : DeferredStore) : Prop where
  block_lt : store.block < raising.func.blocks.size
  slot_lt : store.slot < raising.func.slots.size
  known : ∃ value, raising.tracker.valueIn? graph store.location store.block = some value ∧
    raising.func.Usable graph store.block value ∧
    (raising.func.ty value).Within (raising.func.slot store.slot).ty

section Ready

variable {graph : FlowGraph} {before after : Raising} {store made : DeferredStore}
  {stores : List DeferredStore}

namespace Raising.Ready

theorem builds (ready : before.Ready graph store) (settled : Settled graph store before after) :
    Function.Builds graph before.func after.func := by
  rcases ready.known with ⟨value, known, usable, within⟩
  refine settled.builds ?_ ready.block_lt ready.slot_lt
  intro other same
  obtain rfl : value = other := by
    rw [known] at same
    exact Option.some.inj same
  exact ⟨usable, within⟩

/-- A store can still be made after another one was. -/
theorem settled (ready : before.Ready graph store) (settled : Settled graph made before after) :
    after.Ready graph store := by
  have grown := settled.grows.toExtends
  rcases ready.known with ⟨value, known, usable, within⟩
  refine ⟨?_, ?_, value, ?_, usable.mono grown, ?_⟩
  · rw [grown.blockCount_eq]
    exact ready.block_lt
  · rw [settled.slots_eq]
    exact ready.slot_lt
  · rw [settled.tracker_eq]
    exact known
  · rw [grown.ty_eq value usable.lt_size, grown.slotTy_eq store.slot ready.slot_lt]
    exact within

theorem exists_run (ready : before.Ready graph store) :
    ∃ after, (Raise.settle graph store).run before = .ok () after := by
  rcases ready.known with ⟨value, known, -, within⟩
  rw [Raise.run_settle_eq, known]
  rcases Raise.run_storeConverted store.location store.block store.slot value before with
    ⟨func, -, succeeds⟩ | ⟨⟨differs, inconvertible⟩, -⟩
  · exact ⟨_, succeeds⟩
  · rw [within.between? differs] at inconvertible
    cases inconvertible

end Raising.Ready

theorem Raise.Chain.ready_settled (chain : Chain (Settled graph) stores before after)
    (ready : before.Ready graph store) : after.Ready graph store :=
  chain.keeps (·.Ready graph store) (fun _ _ _ settled ready => ready.settled settled) ready

theorem Raise.Chain.builds_settled (chain : Chain (Settled graph) stores before after)
    (ready : ∀ store ∈ stores, before.Ready graph store) :
    Function.Builds graph before.func after.func := by
  induction chain with
  | nil => exact .refl
  | cons first _ ih =>
      refine ((ready _ List.mem_cons_self).builds first).trans (ih fun store mem => ?_)
      exact (ready store (List.mem_cons_of_mem _ mem)).settled first

end Ready

namespace Session

variable {graph : FlowGraph} {session : Session}

/-- If all stores that wait can be made, then a drain makes them. -/
theorem drained_of_ready
    (ready : ∀ store ∈ session.raising.tracker.deferred, session.raising.Ready graph store) :
    Drained graph session.raising.tracker.deferred session (session.perform graph .drain) ∧
      ∃ count after, (Raise.settleAll graph).run session.raising = .ok count after := by
  rcases perform_drain graph session with drained | ⟨_, _, _, -, -, failure, after, fails⟩
  · exact drained
  · rcases Raise.run_settleAll graph session.raising with
      ⟨_, _, succeeds⟩ | ⟨_, refused, _, settled, failure, split, chain, refuses, _⟩
    · rw [succeeds] at fails
      cases fails
    · have released : session.raising.released.Ready graph refused :=
        { ready refused (by simp [split]) with }
      rcases (chain.ready_settled released).exists_run with ⟨_, makes⟩
      rw [refuses] at makes
      cases makes

theorem Drained.builds {done : List DeferredStore} {after : Session}
    (drained : Drained graph done session after)
    (ready : ∀ store ∈ done, session.raising.Ready graph store) :
    Function.Builds graph session.raising.func after.raising.func := by
  cases drained with
  | intro _ chain => exact chain.builds_settled fun store mem => { ready store mem with }

theorem Drained.growsSparing {done : List DeferredStore} {after : Session}
    {spared : SlotId → Prop} (drained : Drained graph done session after) :
    session.raising.func.GrowsSparing spared after.raising.func := by
  cases drained with
  | intro _ chain => exact chain.growsSparing_settled

/-- Tracking ends well if the drain at the end does. -/
theorem exists_conclude
    (settles : ∃ count after, (Raise.settleAll graph).run session.raising = .ok count after) :
    ∃ summary, (Raise.conclude graph).run session.raising =
      .ok summary ((session.perform graph .drain).raising.tally Statistics.countFunction) := by
  rcases settles with ⟨count, drained, settles⟩
  have discards : (discard (Raise.settleAll graph)).run session.raising = .ok () drained := by
    rw [Raise.run_discard, settles]
  have performed : (session.perform graph .drain).raising = drained := by
    rw [perform, Action.step, Raise.final_bind_pure, Raise.final_discard,
      Raise.final_of_ok settles]
  refine ⟨{ merges := drained.tracker.merges.length, drained := drained.tracker.drained }, ?_⟩
  rw [Raise.conclude, Raise.run_bind_of_ok discards, performed]
  rfl

end Session

/-! ### Endings -/

/-- What follows an ending, given the words of values. -/
def Ending.exit? (words : ValueId → Option UInt64) : Ending → Option Exit
  | branch target => some (.jump target)
  | branchIf condition ifTrue ifFalse => do
    return .jump (if (← words condition) &&& 1 = 1 then ifTrue else ifFalse)
  | ret (some result) => do return .result (some (← words result))
  | ret none => some (.result none)

theorem Ending.mem_targets_of_exit? {words : ValueId → Option UInt64} {ending : Ending}
    {target : BlockId} (exits : ending.exit? words = some (.jump target)) :
    target ∈ ending.targets := by
  cases ending with
  | branch other =>
      cases exits
      simp [targets]
  | branchIf condition ifTrue ifFalse =>
      simp only [exit?, bind, Option.bind_eq_some_iff, pure, Option.some.injEq, Exit.jump.injEq]
        at exits
      rcases exits with ⟨word, -, rfl⟩
      simp only [targets, List.mem_cons, List.not_mem_nil, or_false]
      split
      · exact Or.inl rfl
      · exact Or.inr rfl
  | ret result => cases result <;> simp [exit?, Option.bind_eq_some_iff] at exits

namespace Function.Ended

variable {parts : List Part} {func : Function}

/-- At the end of a part, code goes on as the ending of the part says. -/
theorem exitFrom?_eq {part : Part} (ended : func.Ended parts) (mem : part ∈ parts)
    (snapshot : Snapshot) : func.exitFrom? snapshot part.block = part.ending.exit? snapshot.words := by
  rcases ended.ended part mem with ⟨id, -, terminator, operation⟩
  rw [exitFrom?, terminator, Option.map_some, operation]
  cases part.ending with
  | ret result => cases result <;> rfl
  | _ => rfl

theorem mem_of_exitFrom? {block : BlockId} {snapshot : Snapshot} {exit : Exit}
    (ended : func.Ended parts) (exits : func.exitFrom? snapshot block = some exit) :
    block ∈ parts.map Part.block := by
  by_contra outside
  rw [exitFrom?, ended.unended block outside] at exits
  cases exits

end Function.Ended

/-! ### The end of tracking -/

namespace Session

variable {graph : FlowGraph} {start : Session} {parts : List Part}

/-- All that is done while a function is raised, until the stores that waited have been made. -/
def wholeWork (parts : List Part) : List Action :=
  parts.flatMap Part.actions ++ [.drain]

/-- What is left when tracking has ended. -/
structure Finished (graph : FlowGraph) (parts : List Part) (final : Raising) : Prop where
  executable : final.func.Executable graph
  ended : final.func.Ended parts
  known : ∀ location source content,
    final.tracker.content? graph location source = some content → ∃ value, content = .known value
  held : ∀ location source, graph.Writes source location →
    (final.tracker.content? graph location source).isSome

namespace RaisesFunction

/-- When all blocks are done, nothing is pending. -/
theorem not_isPending (raises : RaisesFunction graph start parts) (done : Done graph start parts)
    (location : Location) (source : BlockId) :
    ¬ (start.after graph (parts.flatMap Part.actions)).raising.tracker.IsPending location source := by
  intro pending
  rcases done.standing.pending location source pending with ⟨⟨register, mem, -⟩, undone⟩
  apply undone
  rw [doneBlocks, List.mem_reverse, raises.mem_blocks_iff]
  exact (FlowGraph.mem_writes_iff.mp mem).1

theorem exists_known (raises : RaisesFunction graph start parts) (done : Done graph start parts)
    {location : Location} {source : BlockId} {content : Content}
    (held : (start.after graph (parts.flatMap Part.actions)).raising.tracker.content? graph location
      source = some content) : ∃ value, content = .known value := by
  cases content with
  | known value => exact ⟨value, rfl⟩
  | pending =>
      exact absurd (Tracker.isPending_of_content? held).1 (raises.not_isPending done location source)

/-- When all blocks are done, all stores that wait can be made. -/
theorem ready (raises : RaisesFunction graph start parts) (done : Done graph start parts)
    {store : DeferredStore}
    (waits : store ∈ (start.after graph (parts.flatMap Part.actions)).raising.tracker.deferred) :
    (start.after graph (parts.flatMap Part.actions)).raising.Ready graph store := by
  have kept := done.ordered.kept
  rcases done.standing.waiting store waits with ⟨writes, typed⟩
  rcases Option.isSome_iff_exists.mp (done.standing.held store.location store.block writes) with
    ⟨content, held⟩
  rcases raises.exists_known done held with ⟨value, rfl⟩
  have usable := done.standing.readable store.location store.block value held
  refine ⟨?_, kept.waiting_slot store waits, value, Tracker.valueIn?_eq_some_iff.mpr held, usable, ?_⟩
  · rw [kept.blockCount_eq]
    exact kept.waiting_block store waits
  · rw [typed]
    exact usable.word.within

theorem drains (raises : RaisesFunction graph start parts) (done : Done graph start parts) :
    let reached := start.after graph (parts.flatMap Part.actions)
    Drained graph reached.raising.tracker.deferred reached (reached.perform graph .drain) ∧
      ∃ count after, (Raise.settleAll graph).run reached.raising = .ok count after :=
  drained_of_ready fun _ waits => raises.ready done waits

theorem after_wholeWork : start.after graph (wholeWork parts) =
    (start.after graph (parts.flatMap Part.actions)).perform graph .drain :=
  after_append ..

/-- Every slot that is loaded has been stored into by a block that was visited before. -/
theorem loadsCovered (raises : RaisesFunction graph start parts) (done : Done graph start parts) :
    (start.after graph (wholeWork parts)).raising.func.LoadsCovered graph := by
  rw [after_wholeWork]
  have drained := (raises.drains done).1
  have grown : Function.GrowsSparing (fun _ => True) _ _ := drained.growsSparing
  intro block id mem slot loads visited arrives
  have loaded : (start.after graph (parts.flatMap Part.actions)).raising.func.loadsIn slot block ≠
      [] := by
    rw [← grown.loadsIn_eq done.ordered.kept.numbered slot trivial]
    exact List.ne_nil_of_mem (Function.mem_loadsIn_iff.mpr ⟨mem, loads⟩)
  rcases done.standing.supplied slot block loaded visited arrives with ⟨source, visited_mem, stores⟩
  refine ⟨source, visited_mem, ?_⟩
  rcases stores with stored | ⟨store, waits, rfl, rfl⟩
  · exact drained.grows.toExtends.storedIn_ne_nil stored
  · rcases drained.completes done.ordered waits with ⟨-, _, _, -, completed, -⟩
    simp [completed]

/-- When all blocks are done, tracking ends well, and the code can be executed. -/
theorem finished (raises : RaisesFunction graph start parts) (rooted : graph.Rooted) :
    Finished graph parts (start.after graph (wholeWork parts)).raising := by
  have done := raises.allDone rooted
  have drained := (raises.drains done).1
  have builds := drained.builds fun _ waits => raises.ready done waits
  have covered := raises.loadsCovered done
  rw [after_wholeWork] at covered ⊢
  have ended := done.ended.builds builds
  refine ⟨⟨builds.wellBuilt done.standing.wellBuilt, covered, ?_, rooted.entry_eq⟩, ended, ?_, ?_⟩
  · intro block snapshot target exits
    rcases List.mem_map.mp (ended.mem_of_exitFrom? exits) with ⟨part, mem, rfl⟩
    rw [ended.exitFrom?_eq mem] at exits
    rcases List.append_of_mem mem with ⟨earlier, later, rfl⟩
    exact raises.raisesPart.1.follows target (Ending.mem_targets_of_exit? exits)
  · intro location source content held
    rw [content?_drain] at held
    exact raises.exists_known done held
  · intro location source writes
    rw [content?_drain]
    exact done.standing.held location source writes

/-- Tracking ends well. -/
theorem concludes (raises : RaisesFunction graph start parts) (rooted : graph.Rooted) :
    ∃ summary,
      (Raise.conclude graph).run (start.after graph (parts.flatMap Part.actions)).raising =
        .ok summary ((start.after graph (wholeWork parts)).raising.tally
          Statistics.countFunction) := by
  rw [after_wholeWork]
  exact exists_conclude (raises.drains (raises.allDone rooted)).2

end RaisesFunction

end Session

end RegisterFlow
