import RegisterFlow.Proofs.Code.Typing
import RegisterFlow.Proofs.Tracking.FlagBits

/-!
# The code of flag rules

Every rule for a flag looks at what it finds before it builds on it: the value that is tested is an
integer, the operands that are read again belong to arithmetic, and the carry that a shift keeps is a
bit. So a relation between states that constants and instructions on such values respect, and reads
of the carry, is respected by every rule, and what the rule answers is a bit.
-/

namespace RegisterFlow.Raise

/--
A relation between states that the steps of flag rules respect: constants, instructions that read
integers of one width, selections of bits, and reads of the carry. In the functions of a kind, it
also respects instructions that read the operands of arithmetic again.
-/
structure RespectsRules (graph : FlowGraph) (block : BlockId) (kind : Function → Prop)
    (related : Raising → Raising → Prop) : Prop where
  grown : ∀ {before after}, related before after → before.func.Extends after.func
  constant : ∀ (before : Raising) (ty : Ty) (payload : UInt64), related before
    { before with func := before.func.withLeaf ty (.constant payload) none }
  binary : ∀ {before : Raising} {lhs rhs : ValueId} {bits : Nat} (op : BinaryOp),
    before.func.HasTy lhs (.int bits) → before.func.HasTy rhs (.int bits) → related before
      { before with func := before.func.withInstruction block (.int bits) (.binary op lhs rhs) }
  compare : ∀ {before : Raising} {lhs rhs : ValueId} {bits : Nat} (comparison : Comparison),
    before.func.HasTy lhs (.int bits) → before.func.HasTy rhs (.int bits) → related before
      { before with func := before.func.withInstruction block .bool (.compare comparison lhs rhs) }
  select : ∀ {before : Raising} {condition ifTrue ifFalse : ValueId},
    before.func.HasTy condition .bool → before.func.HasTy ifTrue .bool →
    before.func.HasTy ifFalse .bool → related before
      { before with
        func := before.func.withInstruction block .bool (.select condition ifTrue ifFalse) }
  check : ∀ {before : Raising} {producer lhs rhs : ValueId} {op : BinaryOp} (check : OverflowCheck),
    kind before.func → before.func.operation producer = .binary op lhs rhs → related before
      { before with func := before.func.withInstruction block .bool (.overflow check lhs rhs) }
  compareBack : ∀ {before : Raising} {producer lhs rhs : ValueId} {op : BinaryOp}
    (comparison : Comparison),
    kind before.func → before.func.operation producer = .binary op lhs rhs → related before
      { before with func := before.func.withInstruction block .bool (.compare comparison rhs lhs) }
  readCarry : ∀ {before : Raising}, before.Flagged graph →
    Leads related (Read graph (.flag .carry) .bool block false true before)
      (readLocation graph (.flag .carry) .bool block false true) before

/-- A step leads along a relation, and what it answers is a bit. -/
abbrev LeadsToBit (related : Raising → Raising → Prop) (step : Raise ValueId) (before : Raising) :
    Prop :=
  Leads related (fun value after => after.func.HasTy value .bool) step before

section Steps

variable {α β : Type} {related : Raising → Raising → Prop} {good : α → Raising → Prop}
  {best : β → Raising → Prop} {before : Raising}

/-- A step that looks at the state first leads where it does from the state that it finds. -/
theorem leads_get_bind {next : Raising → Raise α} (rest : Leads related good (next before) before) :
    Leads related good (get >>= next) before :=
  rest

/-- Building is a sequence of steps if the builder is one. -/
theorem leads_build_bind [IsTrans Raising related] {builder : Builder α} {next : α → Builder β}
    (first : Leads related good (build builder) before)
    (second : ∀ answer middle, related before middle → good answer middle →
      Leads related best (build (next answer)) middle) :
    Leads related best (build (builder >>= next)) before :=
  first.bind second

theorem leads_build_tyOf_bind {next : Ty → Builder α} {value : ValueId} {ty : Ty}
    (held : before.func.HasTy value ty) (rest : Leads related good (build (next ty)) before) :
    Leads related good (build (Builder.tyOf value >>= next)) before := by
  rw [← held.2] at rest
  exact rest

/-- What a rule tests is an integer. -/
theorem leads_testWidth [Std.Refl related] (flag : Flag) (value : ValueId) :
    Leads related (fun width after => after = before ∧ before.func.HasTy value (.int width))
      (testWidth flag value) before := by
  apply leads_get_bind
  dsimp only
  split
  · next width word =>
    have typed := (Ty.wordBits?_eq_some_iff.mp word).1
    exact leads_pure ⟨rfl, Function.hasTy_of_ne (by simp) typed⟩
  · exact leads_throw

/-- The operands that a rule reads again are those of the arithmetic that it expects. -/
theorem leads_operandsOf [Std.Refl related] (flag : Flag) (family : Family) (producer : ValueId)
    (op : BinaryOp) :
    Leads related
      (fun operands after => after = before ∧
        before.func.operation producer = .binary op operands.1 operands.2)
      (operandsOf flag family producer op) before := by
  apply leads_get_bind
  dsimp only
  split
  · next found lhs rhs produced =>
    split
    · exact leads_throw
    · next expected =>
      split
      · exact leads_throw
      · exact leads_pure ⟨rfl, not_not.mp expected ▸ produced⟩
  · exact leads_throw

end Steps

namespace RespectsRules

variable {graph : FlowGraph} {block : BlockId} {kind : Function → Prop}
  {related : Raising → Raising → Prop} {before : Raising} {bits : Nat}
  {lhs rhs value shifted count test : ValueId} {flag : Flag} {family : Family}
  (respects : RespectsRules graph block kind related)
include respects

/-! ### Instructions -/

theorem leads_constant [Std.Refl related] (ty : Ty) (number : UInt64) :
    Leads related (fun value after => after.func.HasTy value ty)
      (build (Builder.constant ty number)) before := by
  rcases Builder.run_constant ty number before.func with ⟨id, held, run, typed, -⟩ | run
  · exact .of_ok (run_build_of_run run) (Std.Refl.refl _) ⟨held, typed⟩
  · exact .of_ok (run_build_of_run run) (respects.constant ..) (by simp [Function.HasTy, Function.ty])

theorem leads_binary (op : BinaryOp) (left : before.func.HasTy lhs (.int bits))
    (right : before.func.HasTy rhs (.int bits)) :
    Leads related (fun value after => after.func.HasTy value (.int bits))
      (build (Builder.binary block op lhs rhs)) before := by
  have run : (Builder.binary block op lhs rhs).run before.func =
      (before.func.values.size,
        before.func.withInstruction block (.int bits) (.binary op lhs rhs)) := by
    rw [← left.2]
    rfl
  exact .of_ok (run_build_of_run run) (respects.binary op left right) Function.hasTy_withInstruction

theorem leads_compare (comparison : Comparison) (left : before.func.HasTy lhs (.int bits))
    (right : before.func.HasTy rhs (.int bits)) :
    LeadsToBit related (build (Builder.compare block comparison lhs rhs)) before :=
  .of_ok (run_build ..) (respects.compare comparison left right) Function.hasTy_withInstruction

/-! ### Tests of bits -/

variable [Std.Refl related] [IsTrans Raising related]

theorem leads_testBit (held : before.func.HasTy value (.int bits)) (index : Nat) :
    LeadsToBit related (build (testBit block value index)) before := by
  apply leads_build_tyOf_bind held
  refine leads_build_bind (respects.leads_constant _ _) fun bit second grown bit_typed => ?_
  refine leads_build_bind (respects.leads_constant _ _) fun zeros third extended zeros_typed => ?_
  have value_typed := (held.mono (respects.grown grown)).mono (respects.grown extended)
  have bit_typed := bit_typed.mono (respects.grown extended)
  refine leads_build_bind (respects.leads_binary _ value_typed bit_typed) ?_
  intro masked fourth masks masked_typed
  exact respects.leads_compare _ masked_typed (zeros_typed.mono (respects.grown masks))

/-- Two bits of an integer are tested and combined. -/
theorem leads_bits (held : before.func.HasTy value (.int bits)) (op : BinaryOp) (low high : Nat) :
    LeadsToBit related
      (build do
        let lhs ← testBit block value low
        let rhs ← testBit block value high
        Builder.binary block op lhs rhs) before := by
  refine leads_build_bind (respects.leads_testBit held low) fun lhs second grown lhs_typed => ?_
  have held := held.mono (respects.grown grown)
  refine leads_build_bind (respects.leads_testBit held high) fun rhs third extended rhs_typed => ?_
  exact respects.leads_binary _ (lhs_typed.mono (respects.grown extended)) rhs_typed

/-- The bit of an integer is tested that an index points to. -/
theorem leads_shiftedTest {one index : ValueId} (held : before.func.HasTy value (.int bits))
    (one_typed : before.func.HasTy one (.int bits))
    (index_typed : before.func.HasTy index (.int bits)) :
    LeadsToBit related
      (build do
        let bit ← Builder.binary block .shl one index
        let masked ← Builder.binary block .and value bit
        let zeros ← Builder.constant (.int bits) 0
        Builder.compare block .ne masked zeros) before := by
  refine leads_build_bind (respects.leads_binary _ one_typed index_typed) ?_
  intro bit second shifts bit_typed
  have held := held.mono (respects.grown shifts)
  refine leads_build_bind (respects.leads_binary _ held bit_typed) ?_
  intro masked third masks masked_typed
  refine leads_build_bind (respects.leads_constant _ _) fun zeros fourth extended zeros_typed => ?_
  exact respects.leads_compare _ (masked_typed.mono (respects.grown extended)) zeros_typed

theorem leads_lastBitOut (shifted_typed : before.func.HasTy shifted (.int bits))
    (count_typed : before.func.HasTy count (.int bits)) (width : Nat) (direction : Direction) :
    LeadsToBit related (build (lastBitOut block width shifted count direction)) before := by
  apply leads_build_tyOf_bind shifted_typed
  refine leads_build_bind (respects.leads_constant _ _) fun one second grown one_typed => ?_
  have shifted_held := shifted_typed.mono (respects.grown grown)
  have count_held := count_typed.mono (respects.grown grown)
  cases direction with
  | left =>
      refine leads_build_bind (respects.leads_constant _ _) fun all third extended all_typed => ?_
      have extended := respects.grown extended
      refine leads_build_bind
        (respects.leads_binary _ all_typed (count_held.mono extended)) ?_
      intro index fourth counts index_typed
      have counts := respects.grown counts
      exact respects.leads_shiftedTest ((shifted_held.mono extended).mono counts)
        ((one_typed.mono extended).mono counts) index_typed
  | right =>
      refine leads_build_bind (respects.leads_binary _ count_held one_typed) ?_
      intro index third counts index_typed
      have counts := respects.grown counts
      exact respects.leads_shiftedTest (shifted_held.mono counts) (one_typed.mono counts) index_typed

/-! ### Rules -/

theorem leads_deriveZero : LeadsToBit related (deriveZero block test) before := by
  refine (leads_testWidth .zero test).discard.bind ?_
  rintro _ _ - ⟨width, rfl, held⟩
  apply leads_build_tyOf_bind held
  refine leads_build_bind (respects.leads_constant _ _) fun zeros second grown zeros_typed => ?_
  exact respects.leads_compare _ (held.mono (respects.grown grown)) zeros_typed

theorem leads_deriveSign : LeadsToBit related (deriveSign block test) before := by
  refine (leads_testWidth .sign test).bind ?_
  rintro width _ - ⟨rfl, held⟩
  apply leads_build_tyOf_bind held
  refine leads_build_bind (respects.leads_constant _ _) fun top second grown top_typed => ?_
  have held := held.mono (respects.grown grown)
  refine leads_build_bind (respects.leads_binary _ held top_typed) ?_
  intro masked third masks masked_typed
  exact respects.leads_compare _ masked_typed (top_typed.mono (respects.grown masks))

theorem leads_checkedFlag (kinds : kind before.func) (producer : ValueId) (op : BinaryOp)
    (check : OverflowCheck) :
    LeadsToBit related (checkedFlag flag block family producer op check) before := by
  refine (leads_operandsOf flag family producer op).bind ?_
  rintro ⟨lhs, rhs⟩ _ - ⟨rfl, produced⟩
  exact .of_ok (run_build ..) (respects.check check kinds produced) Function.hasTy_withInstruction

theorem leads_deriveOverflow (kinds : kind before.func) :
    LeadsToBit related (deriveOverflow block family test) before := by
  apply leads_get_bind
  dsimp only
  split
  · exact respects.leads_checkedFlag kinds ..
  · exact respects.leads_checkedFlag kinds ..
  · exact respects.leads_checkedFlag kinds ..
  · exact respects.leads_checkedFlag kinds ..
  · refine (leads_testWidth _ _).bind ?_
    rintro width _ - ⟨rfl, held⟩
    exact respects.leads_bits held ..
  · refine (leads_testWidth _ _).bind ?_
    rintro width _ - ⟨rfl, held⟩
    split
    · exact leads_throw
    · exact respects.leads_bits held ..
  · exact leads_throw
  · exact leads_throw
  · exact leads_throw

/-- The carry that reaches a block is a bit. -/
theorem leads_incomingCarry (closed : graph.Closed) (flagged : before.Flagged graph) :
    LeadsToBit related (incomingCarry graph block family) before := by
  refine (respects.readCarry flagged).bind ?_
  intro answer middle _ read
  cases answer with
  | none => exact leads_throw
  | some carry =>
      exact leads_pure (Function.hasTy_of_ne (by simp) (read.ty_eq_bool closed flagged))

theorem leads_shiftCarry (closed : graph.Closed) (flagged : before.Flagged graph)
    (shifted count : ValueId) (direction : Direction) :
    LeadsToBit related (shiftCarry graph block family shifted count direction) before := by
  refine (leads_testWidth _ _).bind ?_
  rintro width start - ⟨rfl, shifted_typed⟩
  apply leads_get_bind
  dsimp only
  split
  · exact leads_throw
  · next same =>
    have count_typed : start.func.HasTy count (.int width) := by
      apply Function.hasTy_of_ne (by simp)
      rw [← shifted_typed.2]
      exact not_not.mp same
    have last : LeadsToBit related (build (lastBitOut block width shifted count direction)) start :=
      respects.leads_lastBitOut shifted_typed count_typed width direction
    split
    · split
      · exact respects.leads_incomingCarry closed flagged
      · exact last
    · -- The definitions of flags are not touched before the carry is read.
      have built : Leads related
          (fun value after => after.func.HasTy value .bool ∧ after.tracker = start.tracker)
          (build (lastBitOut block width shifted count direction)) start :=
        .of_ok (run_build ..) (last.ok (run_build ..)).1 ⟨(last.ok (run_build ..)).2, rfl⟩
      refine built.bind ?_
      rintro carry second grown ⟨carry_typed, same_tracker⟩
      have grown := respects.grown grown
      have still_flagged : second.Flagged graph :=
        flagged.of_extends grown fun _ _ => by rw [same_tracker]
      refine (respects.leads_incomingCarry closed still_flagged).bind ?_
      intro previous third extended previous_typed
      have extended := respects.grown extended
      refine leads_build_bind (respects.leads_constant _ _) fun zeros fourth counts zeros_typed => ?_
      have counts := respects.grown counts
      rw [shifted_typed.2] at zeros_typed
      have count_held := ((count_typed.mono grown).mono extended).mono counts
      refine leads_build_bind (respects.leads_compare _ count_held zeros_typed) ?_
      intro nonzero fifth compares nonzero_typed
      have reaches := counts.trans (respects.grown compares)
      have carry_held := (carry_typed.mono extended).mono reaches
      have run : (Builder.select block nonzero carry previous).run fifth.func =
          (fifth.func.values.size,
            fifth.func.withInstruction block .bool (.select nonzero carry previous)) := by
        rw [← carry_held.2]
        rfl
      exact .of_ok (run_build_of_run run)
        (respects.select nonzero_typed carry_held (previous_typed.mono reaches))
        Function.hasTy_withInstruction

theorem leads_deriveCarry (closed : graph.Closed) (flagged : before.Flagged graph)
    (kinds : kind before.func) : LeadsToBit related (deriveCarry graph block family test) before := by
  apply leads_get_bind
  dsimp only
  split
  · refine (leads_operandsOf _ _ _ _).bind ?_
    rintro ⟨minuend, operand⟩ _ - ⟨rfl, produced⟩
    dsimp only
    split
    · exact leads_throw
    · exact .of_ok (run_build ..) (respects.compareBack .ne kinds produced)
        Function.hasTy_withInstruction
  · exact respects.leads_checkedFlag kinds ..
  · exact respects.leads_checkedFlag kinds ..
  · exact respects.leads_checkedFlag kinds ..
  · exact respects.leads_checkedFlag kinds ..
  · refine (leads_testWidth _ _).discard.bind ?_
    rintro _ _ - ⟨width, rfl, held⟩
    exact respects.leads_testBit held _
  · refine (leads_testWidth _ _).bind ?_
    rintro width _ - ⟨rfl, held⟩
    exact respects.leads_testBit held _
  · split
    · exact respects.leads_shiftCarry closed flagged ..
    · exact leads_throw
  · split
    · exact respects.leads_shiftCarry closed flagged ..
    · exact leads_throw
  · split
    · exact respects.leads_shiftCarry closed flagged ..
    · exact leads_throw
  · exact leads_throw

/-- Every rule respects such a relation, and what it derives for a flag is a bit. -/
theorem leads_flagValue (closed : graph.Closed) (flagged : before.Flagged graph)
    (kinds : kind before.func) :
    LeadsToBit related (flagValue graph flag block family test) before := by
  cases flag with
  | zero => exact respects.leads_deriveZero
  | sign => exact respects.leads_deriveSign
  | overflow => exact respects.leads_deriveOverflow kinds
  | carry => exact respects.leads_deriveCarry closed flagged kinds
  | parity | adjust | direction => exact leads_throw

end RespectsRules

end RegisterFlow.Raise
