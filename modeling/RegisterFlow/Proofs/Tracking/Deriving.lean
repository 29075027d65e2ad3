import RegisterFlow.Proofs.Code.Computing
import RegisterFlow.Proofs.Tracking.Changes

/-!
# What every flag rule respects

A rule for a flag computes from values in its block, and it may read the carry that reaches the
block. Whatever relation between states these two kinds of steps respect, every rule does, and so
does the derivation of a flag if naming and filing respect it as well.
-/

namespace RegisterFlow

namespace Raise

/-- What holds before a step holds after it. -/
def Keeps (holds : Raising → Prop) (before after : Raising) : Prop :=
  holds before → holds after

instance (holds : Raising → Prop) : Std.Refl (Keeps holds) :=
  ⟨fun _ => id⟩

instance (holds : Raising → Prop) : IsTrans Raising (Keeps holds) :=
  ⟨fun _ _ _ first second => second ∘ first⟩

/-! ### Rules that compute -/

/-- Nothing but computations in a block was added. -/
def Computed (block : BlockId) (before after : Raising) : Prop :=
  ∃ func, before.func.Computations block func ∧ after = { before with func }

instance (block : BlockId) : Std.Refl (Computed block) :=
  ⟨fun before => ⟨before.func, .refl, rfl⟩⟩

instance (block : BlockId) : IsTrans Raising (Computed block) := by
  refine ⟨?_⟩
  rintro before _ _ ⟨middle, first, rfl⟩ ⟨after, second, rfl⟩
  exact ⟨after, first.trans second, rfl⟩

section Computed

variable {graph : FlowGraph} {block : BlockId} {before : Raising} {flag : Flag} {family : Family}

theorem leads_build_of_computesIn {builder : Builder ValueId} (computes : builder.ComputesIn block) :
    Leads (Computed block) (fun _ _ => True) (build builder) before :=
  .of_ok (run_build ..) ⟨_, computes before.func, rfl⟩ trivial

theorem computesIn_testBit (value : ValueId) (index : Nat) :
    (testBit block value index).ComputesIn block := by
  apply (Builder.computesIn_tyOf _).bind
  intro ty
  apply (Builder.computesIn_constant _ _).bind
  intro bit
  apply (Builder.computesIn_constant _ _).bind
  intro zeros
  apply (Builder.computesIn_binary _ _ _).bind
  intro masked
  exact Builder.computesIn_compare _ _ _

theorem computesIn_lastBitOut (width : Nat) (shifted count : ValueId) (direction : Direction) :
    (lastBitOut block width shifted count direction).ComputesIn block := by
  apply (Builder.computesIn_tyOf _).bind
  intro ty
  apply (Builder.computesIn_constant _ _).bind
  intro one
  have test : ∀ index, Builder.ComputesIn block (do
      let bit ← Builder.binary block .shl one index
      let masked ← Builder.binary block .and shifted bit
      let zeros ← Builder.constant ty 0
      Builder.compare block .ne masked zeros) := by
    intro index
    apply (Builder.computesIn_binary _ _ _).bind
    intro bit
    apply (Builder.computesIn_binary _ _ _).bind
    intro masked
    apply (Builder.computesIn_constant _ _).bind
    intro zeros
    exact Builder.computesIn_compare _ _ _
  cases direction with
  | left =>
      apply (Builder.computesIn_constant _ _).bind
      intro bits
      exact (Builder.computesIn_binary _ _ _).bind test
  | right => exact (Builder.computesIn_binary _ _ _).bind test

theorem computesIn_selectCarry (count carry previous : ValueId) (ty : Ty) :
    Builder.ComputesIn block (do
      let nonzero ← Builder.compare block .ne count (← Builder.constant ty 0)
      Builder.select block nonzero carry previous) := by
  apply (Builder.computesIn_constant _ _).bind
  intro zeros
  apply (Builder.computesIn_compare _ _ _).bind
  intro nonzero
  exact Builder.computesIn_select _ _ _

theorem computed_bits (producer : ValueId) (first second : Nat) :
    Leads (Computed block) (fun _ _ => True)
      (build do
        let lhs ← testBit block producer first
        let rhs ← testBit block producer second
        Builder.binary block .xor lhs rhs) before := by
  apply leads_build_of_computesIn
  apply (computesIn_testBit _ _).bind
  intro lhs
  apply (computesIn_testBit _ _).bind
  intro rhs
  exact Builder.computesIn_binary _ _ _

theorem computed_deriveZero (test : ValueId) :
    Leads (Computed block) (fun _ _ => True) (deriveZero block test) before := by
  refine (Leads.discard (leads_of_unchanged (final_testWidth test))).bind ?_
  rintro _ middle - -
  apply leads_build_of_computesIn
  apply (Builder.computesIn_tyOf _).bind
  intro ty
  apply (Builder.computesIn_constant _ _).bind
  intro zeros
  exact Builder.computesIn_compare _ _ _

theorem computed_deriveSign (test : ValueId) :
    Leads (Computed block) (fun _ _ => True) (deriveSign block test) before := by
  refine (leads_of_unchanged (final_testWidth test)).bind ?_
  rintro width middle - -
  apply leads_build_of_computesIn
  apply (Builder.computesIn_tyOf _).bind
  intro ty
  apply (Builder.computesIn_constant _ _).bind
  intro top
  apply (Builder.computesIn_binary _ _ _).bind
  intro masked
  exact Builder.computesIn_compare _ _ _

theorem computed_checkedFlag (producer : ValueId) (op : BinaryOp) (check : OverflowCheck) :
    Leads (Computed block) (fun _ _ => True) (checkedFlag flag block family producer op check)
      before := by
  refine (leads_of_unchanged (final_operandsOf producer op)).bind ?_
  rintro ⟨lhs, rhs⟩ middle - -
  exact leads_build_of_computesIn (Builder.computesIn_overflow _ _ _)

theorem computed_deriveOverflow (test : ValueId) :
    Leads (Computed block) (fun _ _ => True) (deriveOverflow block family test) before := by
  refine (leads_of_unchanged rfl).bind ?_
  rintro func middle - -
  dsimp only
  split
  · exact computed_checkedFlag ..
  · exact computed_checkedFlag ..
  · exact computed_checkedFlag ..
  · exact computed_checkedFlag ..
  · refine (leads_of_unchanged (final_testWidth _)).bind ?_
    rintro width middle - -
    exact computed_bits ..
  · refine (leads_of_unchanged (final_testWidth _)).bind ?_
    rintro width middle - -
    split
    · exact leads_throw
    · exact computed_bits ..
  · exact leads_throw
  · exact leads_throw
  · exact leads_throw

/-- The carry rules only compute, apart from those of shifts, which may keep an earlier carry. -/
theorem computed_deriveCarry (test : ValueId) :
    Leads (Computed block) (fun _ _ => True) (deriveCarry graph block family test) before ∨
      ∃ shifted count direction, (deriveCarry graph block family test).run before =
        (shiftCarry graph block family shifted count direction).run before := by
  unfold deriveCarry
  rw [Leads, EStateM.run_bind, EStateM.run_get]
  dsimp only
  rw [← Leads]
  split
  · left
    refine (leads_of_unchanged (final_operandsOf _ _)).bind ?_
    rintro ⟨minuend, operand⟩ middle - -
    dsimp only
    split
    · exact leads_throw
    · exact leads_build_of_computesIn (Builder.computesIn_compare _ _ _)
  · exact Or.inl (computed_checkedFlag ..)
  · exact Or.inl (computed_checkedFlag ..)
  · exact Or.inl (computed_checkedFlag ..)
  · exact Or.inl (computed_checkedFlag ..)
  · left
    refine (Leads.discard (leads_of_unchanged (final_testWidth _))).bind ?_
    rintro _ middle - -
    exact leads_build_of_computesIn (computesIn_testBit _ _)
  · left
    refine (leads_of_unchanged (final_testWidth _)).bind ?_
    rintro width middle - -
    exact leads_build_of_computesIn (computesIn_testBit _ _)
  · split
    · exact Or.inr ⟨_, _, _, rfl⟩
    · exact Or.inl leads_throw
  · split
    · exact Or.inr ⟨_, _, _, rfl⟩
    · exact Or.inl leads_throw
  · split
    · exact Or.inr ⟨_, _, _, rfl⟩
    · exact Or.inl leads_throw
  · exact Or.inl leads_throw

/-- A rule only computes, or it is the one for the carry of a shift. -/
theorem computed_flagValue (test : ValueId) :
    Leads (Computed block) (fun _ _ => True) (flagValue graph flag block family test) before ∨
      flag = .carry ∧ ∃ shifted count direction,
        (flagValue graph flag block family test).run before =
          (shiftCarry graph block family shifted count direction).run before := by
  cases flag with
  | zero => exact Or.inl (computed_deriveZero test)
  | sign => exact Or.inl (computed_deriveSign test)
  | overflow => exact Or.inl (computed_deriveOverflow test)
  | carry => exact (computed_deriveCarry test).imp_right fun shifts => ⟨rfl, shifts⟩
  | parity | adjust | direction => exact Or.inl leads_throw

end Computed

/-! ### Rules that may read the carry -/

/-- A relation that computations in a block and reads of the carry there respect. -/
structure Derives (graph : FlowGraph) (block : BlockId) (related : Raising → Raising → Prop) :
    Prop where
  compute : ∀ (before : Raising) (func : Function),
    before.func.Computations block func → related before { before with func }
  readCarry : ∀ before,
    Leads related (fun _ _ => True) (readLocation graph (.flag .carry) .bool block false true) before

namespace Derives

variable {graph : FlowGraph} {block : BlockId} {related : Raising → Raising → Prop}
  {before : Raising} {flag : Flag} {family : Family}

theorem of_computed {step : Raise ValueId} (derives : Derives graph block related)
    (computed : Leads (Computed block) (fun _ _ => True) step before) :
    Leads related (fun _ _ => True) step before := by
  apply computed.along
  rintro _ ⟨func, computations, rfl⟩
  exact derives.compute before func computations

variable [Std.Refl related] [IsTrans Raising related]

theorem incomingCarry (derives : Derives graph block related) :
    Leads related (fun _ _ => True) (incomingCarry graph block family) before := by
  refine (derives.readCarry before).bind ?_
  rintro (_ | carry) middle - -
  · exact leads_throw
  · exact leads_pure trivial

theorem shiftCarry (derives : Derives graph block related) (shifted count : ValueId)
    (direction : Direction) :
    Leads related (fun _ _ => True) (shiftCarry graph block family shifted count direction)
      before := by
  refine (leads_of_unchanged (final_testWidth _)).bind ?_
  rintro width middle - -
  refine (leads_of_unchanged rfl).bind ?_
  rintro _ middle - -
  dsimp only
  have last : ∀ {before : Raising}, Leads related (fun _ _ => True)
      (build (lastBitOut block width shifted count direction)) before :=
    derives.of_computed (leads_build_of_computesIn (computesIn_lastBitOut _ _ _ _))
  split
  · exact leads_throw
  · split
    · split
      · exact derives.incomingCarry
      · exact last
    · refine last.bind ?_
      rintro carry middle - -
      refine derives.incomingCarry.bind ?_
      rintro previous middle - -
      exact derives.of_computed (leads_build_of_computesIn (computesIn_selectCarry _ _ _ _))

/-- Every rule for a flag respects what computations and reads of the carry respect. -/
theorem flagValue (derives : Derives graph block related) (test : ValueId) :
    Leads related (fun _ _ => True) (flagValue graph flag block family test) before := by
  rcases computed_flagValue test with computed | ⟨-, shifted, count, direction, same⟩
  · exact derives.of_computed computed
  · rw [Leads, same]
    exact derives.shiftCarry shifted count direction

end Derives

section DeriveFlag

variable {graph : FlowGraph} {flag : Flag} {family : Family} {block : BlockId} {test : ValueId}
  {related : Raising → Raising → Prop} {before : Raising} [Std.Refl related] [IsTrans Raising related]

/-- The derivation of a flag leads along a relation if its rule, naming, counting and filing do. -/
theorem leads_deriveFlag_of_flagValue {good : ValueId → Raising → Prop}
    (rule : Leads related good (flagValue graph flag block family test) before)
    (rename : ∀ value derived, good value derived →
      related derived { derived with func := derived.func.withName value flag.name })
    (tally : ∀ (before : Raising) (statistics : Statistics),
      related before { before with statistics })
    (file : ∀ (before : Raising) (set : Flag) (value : ValueId),
      set = flag ∨ twin? flag family = some set →
      Leads related (fun _ _ => True) (define (.flag set) block 1 value) before) :
    Leads related (fun _ _ => True) (deriveFlag graph flag block family test) before := by
  rw [deriveFlag_eq]
  refine (leads_ofExcept _).bind ?_
  rintro location middle - ⟨tracked, rfl⟩
  obtain rfl := location_of_ofFlag tracked
  refine rule.bind ?_
  rintro value middle - given
  have renames : Leads related (fun _ _ => True) (Raise.build (Builder.rename value flag.name))
      middle := .of_ok (run_build ..) (rename value middle given) trivial
  have counts : ∀ before, Leads related (fun _ _ => True)
      (count (Statistics.countFlagDerived family.name)) before :=
    fun before => .of_ok (run_count ..) (tally ..) trivial
  refine renames.bind ?_
  rintro _ middle - -
  refine (file middle flag value (Or.inl rfl)).bind ?_
  rintro _ middle - -
  split
  · next twin alike =>
    exact (file middle twin value (Or.inr alike)).bind fun _ middle _ _ => counts middle
  · exact counts middle

/-- So it respects what computations and reads of the carry respect. -/
theorem Derives.deriveFlag (derives : Derives graph block related)
    (rename : ∀ (before : Raising) (id : ValueId) (name : String),
      related before { before with func := before.func.withName id name })
    (tally : ∀ (before : Raising) (statistics : Statistics),
      related before { before with statistics })
    (file : ∀ (before : Raising) (set : Flag) (value : ValueId),
      set = flag ∨ twin? flag family = some set →
      Leads related (fun _ _ => True) (define (.flag set) block 1 value) before)
    (test : ValueId) :
    Leads related (fun _ _ => True) (deriveFlag graph flag block family test) before :=
  leads_deriveFlag_of_flagValue (derives.flagValue test)
    (fun value derived _ => rename derived value flag.name) tally file

end DeriveFlag

end Raise

end RegisterFlow
