import RegisterFlow.Proofs.Tracking.FlagReads
import RegisterFlow.Proofs.Tracking.KeptByMeetings
import RegisterFlow.Proofs.Tracking.Meanings
import RegisterFlow.Proofs.Tracking.Sources

/-!
# Reading a flag while code is built

A rule may read a flag after it has appended code to the block. The read gives what it would have
given before: the same value, or the load of a new slot into which the same blocks store the same
values. There is nothing to read exactly if the block has no source of the flag.
-/

namespace RegisterFlow

section Meeting

variable {graph : FlowGraph} {location : Location} {flag : Flag} {slot : SlotId} {block : BlockId}
  {hits : List ReachingDefinition} {native : Option Ty} {ty : Ty} {value : ValueId}
  {allPaths : Bool} {before after : Raising}

/-- When definitions of a flag meet, the block loads what the blocks that hold them store. -/
theorem Met.loads_flag (closed : graph.Closed) (kept : before.WellKept graph)
    (flagged : before.Flagged graph)
    (reached : before.tracker.reaching graph (.flag flag) block allPaths = hits)
    (nonempty : hits ≠ [])
    (met : Met (.flag flag) (before.slotTy graph (.flag flag) hits) block hits (some .bool) before
      value after) :
    value ∈ after.func.body block ∧ after.func.operation value = .load before.func.slots.size ∧
      ∀ other, after.func.storedIn before.func.slots.size other =
        hits.filterMap (·.valueIn? other) := by
  rw [flagged.slotTy_eq closed reached nonempty] at met
  have reaches : ∀ hit ∈ hits,
      Tracker.Reaches graph before.tracker (.flag flag) hit.block block := by
    intro hit mem
    exact (Tracker.reaches_of_mem_reaching closed (reached ▸ mem)).1
  have grows := met.grows
  refine ⟨?_, met.loads rfl, ?_⟩
  · have bound : block < before.func.blocks.size :=
      kept.blockCount_eq ▸ Tracker.lt_size_of_reaching closed reached nonempty
    rcases met.exists_load bound with ⟨load, mem, _, _, ⟨rfl, _⟩ | ⟨differs, _⟩⟩
    · exact mem
    · exact absurd rfl differs
  · intro other
    by_cases bound : other < graph.blocks.size
    · have stores := (met.storedIn kept (by simp) bound).2.1
      have truths : ∀ given ∈ hits.filterMap (·.valueIn? other), after.func.ty given = .bool := by
        intro given mem
        rcases List.mem_filterMap.mp mem with ⟨hit, mem, known⟩
        rw [ReachingDefinition.valueIn?_eq_some_iff] at known
        subst known
        rcases flagged.of_mem_reaching closed (reached ▸ mem) with ⟨truth, same, typed⟩
        cases same
        exact grows.ty_of_ne (by simp) typed
      have alike := (List.forall₂_and_left ..).mpr ⟨truths, stores⟩
      rw [eq_comm, ← List.forall₂_eq_eq_eq]
      refine alike.imp fun given stored typed_converts => ?_
      cases typed_converts.2 with
      | same _ => rfl
      | cast differs _ _ _ _ => exact absurd typed_converts.1 differs
    · have no_block : after.func.blocks.size ≤ other := by
        rw [grows.blockCount_eq, kept.blockCount_eq]
        exact Nat.le_of_not_lt bound
      have no_value : hits.filterMap (·.valueIn? other) = [] := by
        rw [List.filterMap_eq_nil_iff]
        intro hit mem
        have elsewhere : hit.block ≠ other := by
          rintro rfl
          exact bound ((reaches hit mem).source_lt closed)
        simp [ReachingDefinition.valueIn?, elsewhere]
      rw [no_value]
      simp [Function.storedIn, Function.body_of_size_le no_block]

end Meeting

/-! ### Reads in a function and in a larger one -/

/--
Values that were read in two functions that grew out of one are alike: both are the same value that
was there before, or both load a slot that is new since then and gets the same values from there.
-/
inductive Function.SameRead (origin : Function) (block : BlockId) (first : Function)
    (value : ValueId) (second : Function) : ValueId → Prop where
  | held (old : value < origin.values.size) : SameRead origin block first value second value
  | loaded {slot : SlotId} {other : ValueId} (fresh : origin.slots.size ≤ slot)
      (first_mem : value ∈ first.body block) (first_loads : first.operation value = .load slot)
      (second_mem : other ∈ second.body block) (second_loads : second.operation other = .load slot)
      (old : ∀ source, ∀ stored ∈ first.storedIn slot source, stored < origin.values.size)
      (stores : ∀ source, second.storedIn slot source = first.storedIn slot source) :
      SameRead origin block first value second other

/-- What is read alike stays alike while the block grows and stores nothing more. -/
theorem Function.SameRead.mono {origin first second third : Function} {block : BlockId}
    {value other : ValueId} (alike : SameRead origin block first value second other)
    (quiet : second.GrowsQuietly block third) (numbered : second.Numbered) :
    SameRead origin block first value third other := by
  cases alike with
  | held old => exact .held old
  | loaded fresh first_mem first_loads second_mem second_loads old stores =>
      refine .loaded fresh first_mem first_loads ?_ ?_ old ?_
      · exact (quiet.body_prefix block).subset second_mem
      · exact quiet.toExtends.operation_of_ne (by simp) second_loads
      · intro source
        rw [quiet.storedIn_eq numbered, stores]

section Read

variable {graph : FlowGraph} {flag : Flag} {block : BlockId} {answer : Option ValueId}
  {value : ValueId} {before after : Raising}

/-- A read leaves the function in order, and what it gives is a truth value. -/
theorem Read.orderly (closed : graph.Closed) (flagged : before.Flagged graph)
    (orderly : before.func.Orderly)
    (read : Read graph (.flag flag) .bool block false true before answer after) :
    after.func.Orderly ∧ ∀ value, answer = some value → after.func.ty value = .bool := by
  cases read with
  | held known =>
      refine ⟨orderly, fun value same => ?_⟩
      cases same
      rw [Tracker.valueIn?_eq_some_iff] at known
      rcases flagged flag block _ known with ⟨_, same, fits⟩
      cases same
      exact fits.ty_eq
  | missing _ _ => exact ⟨orderly, fun _ same => by cases same⟩
  | direct _ reached =>
      refine ⟨orderly, fun value same => ?_⟩
      cases same
      rcases flagged.of_mem_reaching closed (reached ▸ List.mem_cons_self) with ⟨_, same, typed⟩
      cases same
      exact typed
  | met _ reached _ met =>
      have held := reached ▸ flagged.allHeld closed false
      refine ⟨met.keeps Function.keptByBuilding_orderly held orderly, fun value same => ?_⟩
      cases same
      exact met.computes.ty_eq

/-- A read gives nothing exactly if the block has no source of the flag. -/
theorem Read.eq_none_iff (closed : graph.Closed) (flagged : before.Flagged graph)
    (read : Read graph (.flag flag) .bool block false true before answer after) :
    answer = none ↔ ∀ source, ¬ before.tracker.IsSource graph (.flag flag) source block := by
  have sourced : ∀ {hit : ReachingDefinition},
      before.tracker.valueIn? graph (.flag flag) block = none →
      hit ∈ before.tracker.reaching graph (.flag flag) block false →
      before.tracker.IsSource graph (.flag flag) hit.block block := by
    intro hit unknown mem
    obtain ⟨predecessor, edge, reaches⟩ := (Tracker.reaches_of_mem_reaching closed mem).1
    exact Tracker.isSource_iff.mpr
      (.through (flagged.content?_of_unknown unknown) edge reaches)
  cases read with
  | held known =>
      have source : before.tracker.IsSource graph (.flag flag) block block := by
        rw [Tracker.valueIn?_eq_some_iff] at known
        exact ⟨by simp [known], Or.inl rfl⟩
      simpa using ⟨block, source⟩
  | missing unknown unreached =>
      simp only [true_iff]
      intro source isSource
      cases Tracker.isSource_iff.mp isSource with
      | here holds => simp [flagged.content?_of_unknown unknown] at holds
      | through _ edge reaches =>
          exact Tracker.reaching_ne_nil closed ⟨_, edge, reaches⟩ unreached
  | direct unknown reached =>
      have source := sourced unknown (reached ▸ List.mem_cons_self)
      simpa using ⟨_, source⟩
  | met unknown reached several _ =>
      rcases List.exists_mem_of_ne_nil _ several.1 with ⟨hit, mem⟩
      have source := sourced unknown (reached ▸ mem)
      simpa using ⟨_, source⟩

/-- Reads of a flag in a function, and after the reading block has grown, are alike. -/
theorem Read.alike {func : Function} {again : Option ValueId} {later : Raising}
    (closed : graph.Closed) (kept : before.WellKept graph) (flagged : before.Flagged graph)
    (quiet : before.func.GrowsQuietly block func)
    (read : Read graph (.flag flag) .bool block false true before answer after)
    (reread : Read graph (.flag flag) .bool block false true { before with func } again later) :
    (answer = none ∧ again = none) ∨
      ∃ value other, answer = some value ∧ again = some other ∧
        Function.SameRead before.func block after.func value later.func other := by
  cases read with
  | held known =>
      cases reread with
      | held again =>
          cases known.symm.trans again
          rcases flagged flag block _ (Tracker.valueIn?_eq_some_iff.mp known) with ⟨_, same, fits⟩
          cases same
          exact Or.inr ⟨_, _, rfl, rfl, .held (Function.lt_size_of_ty (by simp) fits.ty_eq)⟩
      | missing unknown _ | direct unknown _ | met unknown _ _ _ =>
          cases known.symm.trans unknown
  | missing unknown unreached =>
      cases reread with
      | held known => cases known.symm.trans unknown
      | missing _ _ => exact Or.inl ⟨rfl, rfl⟩
      | direct _ reached => cases unreached.symm.trans reached
      | met _ reached several _ => exact absurd (reached.symm.trans unreached) several.1
  | direct unknown reached =>
      cases reread with
      | held known => cases known.symm.trans unknown
      | missing _ unreached => cases unreached.symm.trans reached
      | direct _ again =>
          cases reached.symm.trans again
          have held := flagged.allHeld closed false _ (reached ▸ List.mem_cons_self) _ rfl
          exact Or.inr ⟨_, _, rfl, rfl, .held held⟩
      | met _ again several _ => exact absurd (again.symm.trans reached) (several.2 _ _)
  | @met hits value after unknown reached several met =>
      cases reread with
      | held known => cases known.symm.trans unknown
      | missing _ unreached => exact absurd (reached.symm.trans unreached) several.1
      | direct _ again => exact absurd (reached.symm.trans again) (several.2 _ _)
      | @met _ other later _ again _ remet =>
          cases reached.symm.trans again
          have grown : Raising.WellKept graph { before with func } ∧
              Raising.Flagged graph { before with func } :=
            ⟨(Move.grow quiet).wellKept kept closed,
              flagged.of_extends quiet.toExtends fun _ _ => rfl⟩
          rcases met.loads_flag closed (kept.tally _) (flagged.tally _) reached several.1 with
            ⟨mem, loads, stores⟩
          rcases remet.loads_flag closed (grown.1.tally _) (grown.2.tally _) reached several.1
            with ⟨other_mem, other_loads, other_stores⟩
          dsimp only [Raising.tally] at loads stores other_loads other_stores
          have same_slot : func.slots.size = before.func.slots.size :=
            congrArg Array.size quiet.slots_eq
          refine Or.inr ⟨value, other, rfl, rfl, .loaded (Nat.le_refl _) mem loads other_mem ?_ ?_ ?_⟩
          · rw [other_loads, same_slot]
          · intro source stored stored_mem
            rw [stores source] at stored_mem
            rcases List.mem_filterMap.mp stored_mem with ⟨hit, hit_mem, known⟩
            rw [ReachingDefinition.valueIn?_eq_some_iff] at known
            subst known
            exact flagged.allHeld closed false _ (reached ▸ hit_mem) _ rfl
          · intro source
            rw [stores source, ← other_stores source, same_slot]

end Read

/-- The incoming carry is what a read of the carry gives. If that is nothing, there is no rule. -/
theorem Raise.run_incomingCarry {graph : FlowGraph} {before : Raising} (closed : graph.Closed)
    (flagged : before.Flagged graph) (block : BlockId) (family : Family) :
    ∃ answer after, Read graph (.flag .carry) .bool block false true before answer after ∧
      (readFlag graph .carry block).run before = .ok answer after ∧
      (incomingCarry graph block family).run before =
        match answer with
        | some carry => .ok carry after
        | none => .error (.noFlagRule .carry family .noIncomingCarry) after := by
  have tracked : Flag.carry.isTracked = true := rfl
  rcases run_readFlag closed flagged tracked with ⟨answer, after, read, runs⟩
  refine ⟨answer, after, read, runs, ?_⟩
  rw [readFlag, Location.ofFlag, if_pos tracked, run_bind_of_ok (run_ofExcept_ok ..)] at runs
  rw [incomingCarry, run_bind_of_ok runs]
  cases answer <;> rfl

end RegisterFlow
