import RegisterFlow.Proofs.Code.Emission
import RegisterFlow.Proofs.Tracking.Moves

/-!
# Where flag values come from

The value that a flag rule derives is a truth value that its block computes, or the carry that
reached the block. In the same way every value that is filed for a flag belongs to a block that
holds a definition of the flag, if it belongs to a block at all.
-/

namespace RegisterFlow

open Relation (ReflTransGen)

namespace Raising

variable {graph : FlowGraph} {flag : Flag} {block source : BlockId} {value : ValueId}
  {before after : Raising}

theorem Proceeds.isSome_content? (proceeds : before.Proceeds graph block after)
    (flagged : before.Flagged graph)
    (defined : (before.tracker.content? graph (.flag flag) source).isSome) :
    (after.tracker.content? graph (.flag flag) source).isSome := by
  by_cases same : source = block
  · subst same
    obtain ⟨content, held⟩ := Option.isSome_iff_exists.mp defined
    obtain ⟨value, rfl, _⟩ := flagged _ _ _ held
    obtain ⟨later, known⟩ := proceeds.known_of_known _ _ held
    simp [known]
  · rwa [proceeds.content_of_ne _ _ same]

theorem FlagValue.mono (holds : before.FlagValue graph flag source value)
    (flagged : before.Flagged graph) (proceeds : before.Proceeds graph block after) :
    after.FlagValue graph flag source value where
  ty_eq := proceeds.grows.ty_of_ne (by simp) holds.ty_eq
  grounded inner owner owned := by
    have held := Function.lt_size_of_ty (by simp) holds.ty_eq
    rw [proceeds.grows.operation_eq value held] at inner
    rw [proceeds.grows.owner_eq value held] at owned
    exact (holds.grounded inner owner owned).imp_right (proceeds.isSome_content? flagged)

/-- Flags stay in order while the function grows and their definitions stay. -/
theorem Flagged.of_extends (flagged : before.Flagged graph)
    (grown : before.func.Extends after.func)
    (same : ∀ flag source, after.tracker.content? graph (.flag flag) source =
      before.tracker.content? graph (.flag flag) source) : after.Flagged graph := by
  intro flag source content held
  rw [same] at held
  obtain ⟨value, known, holds⟩ := flagged flag source content held
  have bound := Function.lt_size_of_ty (by simp) holds.ty_eq
  refine ⟨value, known, grown.ty_of_ne (by simp) holds.ty_eq, ?_⟩
  intro inner owner owned
  rw [grown.operation_eq value bound] at inner
  rw [grown.owner_eq value bound] at owned
  rw [same]
  exact holds.grounded inner owner owned

theorem Flagged.tally (flagged : before.Flagged graph) (tally : Statistics → Statistics) :
    (before.tally tally).Flagged graph :=
  flagged.of_extends (.refl _) fun _ _ => rfl

/-- No flag is pending, so no definition of a flag is dropped. -/
theorem Flagged.content?_withoutPending (flagged : before.Flagged graph) (other : BlockId) :
    ({ before.tracker with
        table := before.tracker.table.withoutPending block } : Tracker).content? graph (.flag flag)
        other =
      before.tracker.content? graph (.flag flag) other := by
  refine Tracker.content?_withoutPending fun definition found => ?_
  have content : before.tracker.content? graph (.flag flag) other = some definition.content := by
    simp [Tracker.content?, Tracker.definitionIn?, Tracker.bindingAt?, found]
  rcases flagged _ _ _ content with ⟨value, known, _⟩
  simp [Table.isPendingIn, known]

/-- Filing a fitting value for a flag keeps the flags in order. -/
theorem Flagged.file {location : Location} {width : Nat} {table : Table}
    (flagged : before.Flagged graph)
    (fits : ∀ flag, location = .flag flag → before.FlagValue graph flag block value)
    (filed : before.tracker.table.record location block width value = .ok table) :
    Raising.Flagged graph { before with tracker := { before.tracker with table } } := by
  have stays : ∀ flag owner, (before.tracker.content? graph (.flag flag) owner).isSome →
      (({ before.tracker with table } : Tracker).content? graph (.flag flag) owner).isSome := by
    intro flag owner defined
    rw [Tracker.content?_record filed]
    split
    · rfl
    · exact defined
  have weaken : ∀ flag source value, before.FlagValue graph flag source value →
      Raising.FlagValue graph flag source value
        { before with tracker := { before.tracker with table } } := by
    intro flag source value holds
    refine ⟨holds.ty_eq, ?_⟩
    intro inner owner owned
    exact (holds.grounded inner owner owned).imp_right (stays _ _)
  intro flag source content held
  dsimp only at held
  rw [Tracker.content?_record filed] at held
  split at held
  · next here =>
    rw [Option.some.injEq] at held
    rw [here.2]
    exact ⟨value, held.symm, weaken _ _ _ (fits flag here.1.symm)⟩
  · obtain ⟨value, known, holds⟩ := flagged flag source content held
    exact ⟨value, known, weaken _ _ _ holds⟩

end Raising

variable {graph : FlowGraph} {block : BlockId} {before after : Raising}

/-- Moves keep the flags in order. -/
theorem Move.flagged (move : Move graph block before after) (flagged : before.Flagged graph) :
    after.Flagged graph := by
  cases move with
  | tally _ => exact flagged.of_extends (.refl _) fun _ _ => rfl
  | grow quiet => exact flagged.of_extends quiet.toExtends fun _ _ => rfl
  | note _ => exact flagged.of_extends (.refl _) fun _ _ => rfl
  | file held fits filed => exact flagged.file fits filed
  | supply reached front chain =>
      have grows := (Move.supply reached front chain).proceeds.grows
      refine flagged.of_extends grows.toExtends fun _ _ => ?_
      rw [chain.tracker_eq]
      rfl

theorem Moves.flagged (moves : Moves graph block before after) (flagged : before.Flagged graph) :
    after.Flagged graph := by
  induction moves with
  | refl => exact flagged
  | tail _ move ih => exact move.flagged ih

namespace Raise

/-- The value that a rule derives for a flag. -/
def flagValue (graph : FlowGraph) (flag : Flag) (block : BlockId) (family : Family)
    (test : ValueId) : Raise ValueId :=
  match flag with
  | .zero => deriveZero block test
  | .sign => deriveSign block test
  | .overflow => deriveOverflow block family test
  | .carry => deriveCarry graph block family test
  | .parity | .adjust | .direction => throw (.untrackedFlag flag)

theorem deriveFlag_eq (graph : FlowGraph) (flag : Flag) (block : BlockId) (family : Family)
    (test : ValueId) :
    deriveFlag graph flag block family test = (do
      let location ← ofExcept (Location.ofFlag flag)
      let value ← flagValue graph flag block family test
      build (Builder.rename value flag.name)
      define location block 1 value
      match twin? flag family with
      | some twin => define (.flag twin) block 1 value
      | none => pure ()
      count (Statistics.countFlagDerived family.name)) := by
  cases flag <;> rfl

variable {α : Type} {flag : Flag} {family : Family}

/-- A step that only looks at the state leads along every reflexive relation. -/
theorem leads_of_unchanged {related : Raising → Raising → Prop} [Std.Refl related] {step : Raise α}
    (unchanged : step.final before = before) :
    Leads related (fun _ after => after = before) step before := by
  cases outcome : step.run before with
  | ok answer after =>
      rw [final_of_ok outcome] at unchanged
      subst unchanged
      exact .of_ok outcome (Std.Refl.refl _) rfl
  | error failure after =>
      rw [final_of_error outcome] at unchanged
      subst unchanged
      exact .of_error outcome (Std.Refl.refl _)

theorem leads_build {good : ValueId → Function → Prop} {builder : Builder ValueId}
    (emits : builder.Emits block good before.func) :
    Leads (Inquiries graph block) (fun value after => good value after.func) (build builder)
      before :=
  .of_ok (run_build ..) (.single (.grow emits.1)) emits.2

theorem final_testWidth (value : ValueId) : (testWidth flag value).final before = before := by
  simp only [final, testWidth, EStateM.run_bind, EStateM.run_get]
  cases (before.func.ty value).wordBits? <;> rfl

theorem final_operandsOf (producer : ValueId) (op : BinaryOp) :
    (operandsOf flag family producer op).final before = before := by
  simp only [final, operandsOf, EStateM.run_bind, EStateM.run_get]
  split <;> rename_i outcome <;> revert outcome <;> (repeat' split) <;> intro outcome <;>
    cases outcome <;> rfl

theorem leads_deriveZero (test : ValueId) :
    Leads (Inquiries graph block) (fun value after => after.func.Computes block .bool value)
      (deriveZero block test) before := by
  refine (Leads.discard (leads_of_unchanged (final_testWidth test))).bind ?_
  rintro _ middle - ⟨_, rfl⟩
  refine leads_build (Builder.emits_tyOf_bind _ ?_)
  exact (Builder.emits_constant _ _).bind fun _ _ _ _ => Builder.emits_compare ..

theorem leads_deriveSign (test : ValueId) :
    Leads (Inquiries graph block) (fun value after => after.func.Computes block .bool value)
      (deriveSign block test) before := by
  refine (leads_of_unchanged (final_testWidth test)).bind ?_
  rintro width middle - rfl
  refine leads_build (Builder.emits_tyOf_bind _ ?_)
  refine (Builder.emits_constant _ _).bind fun top _ _ _ => ?_
  exact (Builder.emits_binary ..).bind fun _ _ _ _ => Builder.emits_compare ..

theorem emits_testBit {func : Function} (value : ValueId) (index : Nat) :
    Builder.Emits block (fun value func => func.Computes block .bool value)
      (testBit block value index) func := by
  refine Builder.emits_tyOf_bind _ ?_
  refine (Builder.emits_constant _ _).bind fun _ _ _ _ => ?_
  refine (Builder.emits_constant _ _).bind fun _ _ _ _ => ?_
  exact (Builder.emits_binary ..).bind fun _ _ _ _ => Builder.emits_compare ..

/-- An operation on two bits that were tested is computed in their block. -/
theorem emits_bits {func : Function} (op : BinaryOp) (first second : ValueId) (low high : Nat) :
    Builder.Emits block (fun value func => func.Computes block .bool value)
      (do
        let lhs ← testBit block first low
        let rhs ← testBit block second high
        Builder.binary block op lhs rhs) func := by
  refine (emits_testBit ..).bind fun lhs middle _ tested => ?_
  refine (emits_testBit ..).bind fun rhs later grown _ => ?_
  have result := @Builder.emits_binary block later op lhs rhs
  rw [(tested.mono (by simp) grown.toExtends).ty_eq] at result
  exact result

theorem leads_checkedFlag (producer : ValueId) (op : BinaryOp) (check : OverflowCheck) :
    Leads (Inquiries graph block) (fun value after => after.func.Computes block .bool value)
      (checkedFlag flag block family producer op check) before := by
  refine (leads_of_unchanged (final_operandsOf producer op)).bind ?_
  rintro ⟨lhs, rhs⟩ middle - rfl
  exact leads_build (Builder.emits_overflow ..)

theorem leads_deriveOverflow (test : ValueId) :
    Leads (Inquiries graph block) (fun value after => after.func.Computes block .bool value)
      (deriveOverflow block family test) before := by
  refine (leads_of_unchanged rfl).bind ?_
  rintro _ middle - rfl
  dsimp only
  split
  all_goals first
    | exact leads_checkedFlag ..
    | exact leads_throw
    | skip
  · refine (leads_of_unchanged (final_testWidth _)).bind ?_
    rintro width middle - rfl
    exact leads_build (emits_bits ..)
  · refine (leads_of_unchanged (final_testWidth _)).bind ?_
    rintro width middle - rfl
    split
    · exact leads_throw
    · exact leads_build (emits_bits ..)

/-- The carry that reaches a block can be filed there as its carry. -/
theorem leads_incomingCarry (closed : graph.Closed) (flagged : before.Flagged graph) :
    Leads (Inquiries graph block) (fun value after => after.FlagValue graph .carry block value)
      (incomingCarry graph block family) before := by
  refine (leads_readLocation graph (.flag .carry) .bool block false true before fun _ => rfl).bind ?_
  intro answer middle inquired read
  cases read with
  | missing _ _ => exact leads_throw
  | @held value known =>
      rw [Tracker.valueIn?_eq_some_iff] at known
      obtain ⟨_, same, holds⟩ := flagged _ _ _ known
      cases same
      exact leads_pure (holds.mono flagged inquired.moves.proceeds)
  | @direct source value _ reached =>
      have mem : { block := source, content := .known value } ∈
          before.tracker.reaching graph (.flag .carry) block false :=
        reached ▸ List.mem_cons_self
      have known := (Tracker.reaches_of_mem_reaching closed mem).2
      obtain ⟨_, same, holds⟩ := flagged _ _ _ known
      cases same
      -- The value belongs to the source, or to a block that held a definition before it.
      refine leads_pure (Raising.FlagValue.mono ⟨holds.ty_eq, ?_⟩ flagged inquired.moves.proceeds)
      intro inner owner owned
      right
      rcases holds.grounded inner owner owned with rfl | defined
      · rw [known]
        rfl
      · exact defined
  | met _ _ _ met => exact leads_pure (.of_computes met.computes)

theorem emits_lastBitOut {func : Function} (width : Nat) (shifted count : ValueId)
    (direction : Direction) :
    Builder.Emits block (fun value func => func.Computes block .bool value)
      (lastBitOut block width shifted count direction) func := by
  refine Builder.emits_tyOf_bind _ ?_
  refine (Builder.emits_constant _ _).bind fun one _ _ _ => ?_
  cases direction with
  | left =>
      refine (Builder.emits_constant _ _).bind fun bits _ _ _ => ?_
      refine (Builder.emits_binary ..).bind fun index _ _ _ => ?_
      refine (Builder.emits_binary ..).bind fun bit _ _ _ => ?_
      refine (Builder.emits_binary ..).bind fun masked _ _ _ => ?_
      exact (Builder.emits_constant _ _).bind fun _ _ _ _ => Builder.emits_compare ..
  | right =>
      refine (Builder.emits_binary ..).bind fun index _ _ _ => ?_
      refine (Builder.emits_binary ..).bind fun bit _ _ _ => ?_
      refine (Builder.emits_binary ..).bind fun masked _ _ _ => ?_
      exact (Builder.emits_constant _ _).bind fun _ _ _ _ => Builder.emits_compare ..

theorem leads_shiftCarry (closed : graph.Closed) (flagged : before.Flagged graph)
    (shifted count : ValueId) (direction : Direction) :
    Leads (Inquiries graph block) (fun value after => after.FlagValue graph .carry block value)
      (shiftCarry graph block family shifted count direction) before := by
  refine (leads_of_unchanged (final_testWidth _)).bind ?_
  rintro width middle - rfl
  refine (leads_of_unchanged rfl).bind ?_
  rintro _ middle - rfl
  dsimp only
  split
  · exact leads_throw
  · split
    · split
      · exact leads_incomingCarry closed flagged
      · exact (leads_build (emits_lastBitOut ..)).imp fun _ _ _ computes => .of_computes computes
    · refine (leads_build (emits_lastBitOut ..)).bind ?_
      intro carry later inquired computes
      refine (leads_incomingCarry closed (inquired.moves.flagged flagged)).bind ?_
      intro previous last further _
      refine (leads_build ?_).imp fun _ _ _ computes => .of_computes computes
      refine (Builder.emits_constant _ _).bind fun zeros second grown _ => ?_
      refine (Builder.emits_compare ..).bind fun nonzero third extended _ => ?_
      have typed := computes.mono (by simp) further.moves.proceeds.grows.toExtends
      have kept := typed.mono (by simp) (grown.trans extended).toExtends
      have selected := @Builder.emits_select block third nonzero carry previous
      rw [kept.ty_eq] at selected
      exact selected

theorem leads_deriveCarry (closed : graph.Closed) (flagged : before.Flagged graph)
    (test : ValueId) :
    Leads (Inquiries graph block) (fun value after => after.FlagValue graph .carry block value)
      (deriveCarry graph block family test) before := by
  have computed : ∀ {before : Raising} {step : Raise ValueId},
      Leads (Inquiries graph block) (fun value after => after.func.Computes block .bool value) step
        before →
      Leads (Inquiries graph block) (fun value after => after.FlagValue graph .carry block value)
        step before :=
    fun leads => leads.imp fun _ _ _ computes => .of_computes computes
  refine (leads_of_unchanged rfl).bind ?_
  rintro func middle - rfl
  dsimp only
  split
  · refine (leads_of_unchanged (final_operandsOf _ _)).bind ?_
    rintro ⟨minuend, operand⟩ middle - rfl
    dsimp only
    split
    · exact leads_throw
    · exact computed (leads_build (Builder.emits_compare ..))
  · exact computed (leads_checkedFlag ..)
  · exact computed (leads_checkedFlag ..)
  · exact computed (leads_checkedFlag ..)
  · exact computed (leads_checkedFlag ..)
  · refine (Leads.discard (leads_of_unchanged (final_testWidth _))).bind ?_
    rintro _ middle - ⟨_, rfl⟩
    exact computed (leads_build (emits_testBit ..))
  · refine (leads_of_unchanged (final_testWidth _)).bind ?_
    rintro width middle - rfl
    exact computed (leads_build (emits_testBit ..))
  · split
    · exact leads_shiftCarry closed flagged ..
    · exact leads_throw
  · split
    · exact leads_shiftCarry closed flagged ..
    · exact leads_throw
  · split
    · exact leads_shiftCarry closed flagged ..
    · exact leads_throw
  · exact leads_throw

/-- What a rule derives can be filed for its flag, and for the flag that is set alike. -/
theorem leads_flagValue (closed : graph.Closed) (flagged : before.Flagged graph)
    (test : ValueId) :
    Leads (Inquiries graph block)
      (fun value after => after.FlagValue graph flag block value ∧
        ∀ twin, twin? flag family = some twin → after.FlagValue graph twin block value)
      (flagValue graph flag block family test) before := by
  have computed : ∀ {step : Raise ValueId},
      Leads (Inquiries graph block) (fun value after => after.func.Computes block .bool value) step
        before →
      Leads (Inquiries graph block)
        (fun value after => after.FlagValue graph flag block value ∧
          ∀ twin, twin? flag family = some twin → after.FlagValue graph twin block value)
        step before :=
    fun leads => leads.imp fun _ _ _ computes =>
      ⟨.of_computes computes, fun _ _ => .of_computes computes⟩
  cases flag with
  | zero => exact computed (leads_deriveZero test)
  | sign => exact computed (leads_deriveSign test)
  | overflow => exact computed (leads_deriveOverflow test)
  | carry =>
      by_cases product : family = .signedMultiply
      · subst product
        refine computed ((leads_of_unchanged rfl).bind ?_)
        rintro func middle - rfl
        exact leads_checkedFlag ..
      · refine (leads_deriveCarry closed flagged test).imp fun value after _ holds => ⟨holds, ?_⟩
        intro twin alike
        cases family <;> simp_all [twin?]
  | parity => exact leads_throw
  | adjust => exact leads_throw
  | direction => exact leads_throw

end Raise

end RegisterFlow
