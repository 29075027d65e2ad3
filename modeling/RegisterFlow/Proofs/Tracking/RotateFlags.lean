import RegisterFlow.Proofs.Tracking.ShiftFlags

/-!
# The flags of rotations

A rotation is raised as a funnel shift of a value with itself. Its carry is the bit that the result
has at the edge where bits are put back in. If the rotation moves at all, this is the last bit that
it moved out. A rotation by zero moves nothing, and still its carry is that bit of the value, not
the carry from before. The overflow of a rotation by one compares the two bits that it should.
-/

namespace RegisterFlow

open Word (ofBits)

theorem truth_toUInt64_inj {first second : Bool} :
    first.toUInt64 = second.toUInt64 ↔ first = second := by
  cases first <;> cases second <;> decide

/-- The family of the rotations in a direction. -/
def Direction.rotation (count : Option Nat) : Direction → Family
  | .left => .rotateLeft count
  | .right => .rotateRight count

/-- The overflow of a rotation by one. -/
def Direction.rotateOverflow {width : Nat} (bits : BitVec width) : Direction → Bool
  | .left => bits.msb ^^ (bits.rotateLeft 1).msb
  | .right => (bits.rotateRight 1).msb ^^ (bits.rotateRight 1).getLsbD (width - 2)

/--
A block rotates an operand by an amount: a funnel shift of the operand with itself produces the
result, perhaps behind conversions that adjust the width.
-/
structure Function.Rotates (func : Function) (block : BlockId) (direction : Direction)
    (width : Nat) (operand amount producer test : ValueId) : Prop where
  mem : producer ∈ func.body block
  produced : func.operation producer = .funnel direction operand operand amount
  operand_ty : func.ty operand = .int width
  producer_ty : func.ty producer = .int width
  adjusts : func.Adjusts producer test

namespace Function.Rotates

variable {func extended : Function} {block : BlockId} {direction : Direction} {width : Nat}
  {operand amount producer test : ValueId}

theorem behindCasts_eq (rotates : func.Rotates block direction width operand amount producer test)
    (grounded : func.Grounded) : func.behindCasts test = producer := by
  apply behindCasts_of_adjusts grounded rotates.adjusts
  simp [rotates.produced]

/-- The producer computes the rotation, in all ways to evaluate the block. -/
theorem words_eq (rotates : func.Rotates block direction width operand amount producer test)
    (positive : 1 ≤ width) (narrow : width ≤ 64) {arguments : Array UInt64} {snapshot : Snapshot}
    {bits : BitVec width} {distance : UInt64} (grown : func.Extends extended)
    (consistent : extended.Consistent arguments block snapshot)
    (operand_word : snapshot.words operand = some (ofBits bits))
    (amount_word : snapshot.words amount = some distance) (below : distance.toNat < width) :
    snapshot.words producer = some (ofBits (direction.rotate bits distance.toNat)) := by
  have operation := grown.operation_of_ne (by simp) rotates.produced
  have typed := wordBits?_of_int positive narrow (grown.ty_of_ne (by simp) rotates.producer_ty)
  have mem := (grown.body_prefix block).subset rotates.mem
  rw [consistent.funnel mem operation typed operand_word operand_word amount_word,
    Nat.mod_eq_of_lt below, direction.shift_self narrow bits below]

end Function.Rotates

namespace Builder

/-- The test whether two bits differ. -/
theorem makes_bitsDiffer {block : BlockId} {func : Function} {width first second : Nat}
    {value : ValueId} (orderly : func.Orderly) (bound : block < func.blocks.size)
    (positive : 1 ≤ width) (narrow : width ≤ 64) (typed : func.ty value = .int width)
    (first_lt : first < width) (second_lt : second < width) :
    Makes block .bool
      (fun snapshot flag => ∀ bits : BitVec width, snapshot.words value = some (ofBits bits) →
        snapshot.words flag = some (bits.getLsbD first ^^ bits.getLsbD second).toUInt64)
      (Raise.testBit block value first >>= fun one =>
        Raise.testBit block value second >>= fun other => binary block .xor one other) func := by
  apply Makes.bind (makes_testBit orderly bound positive narrow typed first_lt)
  intro one middle grown one_bears
  have bound_middle : block < middle.blocks.size := by rwa [grown.blockCount_eq]
  apply Makes.bind (makes_testBit one_bears.orderly bound_middle positive narrow
    (grown.ty_of_ne (by simp) typed) second_lt)
  intro other last grown_last other_bears
  have bound_last : block < last.blocks.size := by rwa [grown_last.blockCount_eq]
  apply Makes.imp (makes_binary other_bears.orderly bound_last .xor (Nat.le_refl 1) (by omega)
    (grown_last.ty_of_ne (by simp) one_bears.ty_eq) other_bears.ty_eq)
  intro snapshot flag mixed other_word one_word bits word
  rw [mixed _ _ (one_word bits word) (other_word bits word), BinaryOp.apply_xor_truths]

end Builder

section Rules

variable {graph : FlowGraph} {before : Raising} {block : BlockId} {direction : Direction}
  {width : Nat} {operand amount producer test : ValueId}

/-- A rule that builds a value with a meaning derives a flag with this meaning. -/
theorem derivesFlag_of_makes {flag : Flag} {family : Family} {ty : Ty}
    {builder : Builder ValueId} {means : Snapshot → ValueId → Prop}
    {meaning : (ValueId → UInt64 → Prop) → ValueId → Prop} (tracked : flag.isTracked = true)
    (rule : (Raise.flagValue graph flag block family test).run before =
      (Raise.build builder).run before)
    (makes : Builder.Makes block ty means builder before.func)
    (meant : ∀ (extended : Function) (arguments : Array UInt64) (snapshot : Snapshot)
      (value : ValueId), before.func.Extends extended →
      extended.Consistent arguments block snapshot → means snapshot value →
      meaning (fun id word => snapshot.words id = some word) value) :
    DerivesFlag graph before flag block family test meaning := by
  rcases makes.exists_run with ⟨value, func, run, quiet, bears⟩
  refine derivesFlag_of_flagValue tracked (rule.trans (Raise.run_build_of_run run)) bears.orderly ?_
  intro extended arguments snapshot grown consistent
  exact meant extended arguments snapshot value (quiet.toExtends.trans grown) consistent
    (bears.meaning extended arguments snapshot grown consistent)

/-- The place of the bit that the overflow of a rotation by one compares with that at the edge. -/
def Direction.comparedPlace (width : Nat) : Direction → Nat
  | .left => width - 1
  | .right => width - 2

/-- Behind a rotation by one, the two places hold the bits that the overflow should compare. -/
theorem Direction.rotateOverflow_eq (wide : 2 ≤ width) (bits : BitVec width) :
    ((direction.rotate bits 1).getLsbD (direction.edge width) ^^
      (direction.rotate bits 1).getLsbD (direction.comparedPlace width)) =
        direction.rotateOverflow bits := by
  cases direction with
  | left =>
      have one_mod : 1 % width = 1 := Nat.mod_eq_of_lt wide
      have moved : (bits.rotateLeft 1).getLsbD 0 = bits.msb := by
        rw [BitVec.getLsbD_rotateLeft, one_mod, BitVec.msb_eq_getLsbD_last]
        simp
      rw [rotateOverflow, BitVec.msb_eq_getLsbD_last (bits.rotateLeft 1), ← moved]
      rfl
  | right =>
      rw [rotateOverflow, BitVec.msb_eq_getLsbD_last]
      rfl

variable (orderly : before.func.Orderly) (wide : 2 ≤ width) (narrow : width ≤ 64)
  (rotates : before.func.Rotates block direction width operand amount producer test)
include orderly wide narrow rotates

theorem run_flagValue_rotateCarry (count : Option Nat) :
    (Raise.flagValue graph .carry block (direction.rotation count) test).run before =
      (Raise.build (Raise.testBit block producer (direction.edge width))).run before := by
  have typed := Function.wordBits?_of_int (Nat.le_of_lt wide) narrow rotates.producer_ty
  have width_run : (Raise.testWidth .carry producer).run before = .ok width before :=
    Raise.run_testWidth typed
  change (Raise.deriveCarry graph block (direction.rotation count) test).run before = _
  rw [Raise.deriveCarry, EStateM.run_bind, EStateM.run_get]
  simp only [rotates.behindCasts_eq orderly.grounded]
  cases direction with
  | left =>
      have dropped : (discard (Raise.testWidth .carry producer)).run before = .ok () before := by
        rw [Raise.run_discard, width_run]
      simp only [Direction.rotation]
      rw [Raise.run_bind_of_ok dropped]
      rfl
  | right =>
      simp only [Direction.rotation]
      rw [Raise.run_bind_of_ok width_run]
      rfl

theorem run_flagValue_rotateOverflow :
    (Raise.flagValue graph .overflow block (direction.rotation (some 1)) test).run before =
      (Raise.build (Raise.testBit block producer (direction.edge width) >>= fun one =>
        Raise.testBit block producer (direction.comparedPlace width) >>= fun other =>
          Builder.binary block .xor one other)).run before := by
  have typed := Function.wordBits?_of_int (Nat.le_of_lt wide) narrow rotates.producer_ty
  have width_run : (Raise.testWidth .overflow producer).run before = .ok width before :=
    Raise.run_testWidth typed
  change (Raise.deriveOverflow block (direction.rotation (some 1)) test).run before = _
  rw [Raise.deriveOverflow, EStateM.run_bind, EStateM.run_get]
  simp only [rotates.behindCasts_eq orderly.grounded]
  cases direction with
  | left =>
      simp only [Direction.rotation]
      rw [Raise.run_bind_of_ok width_run]
      rfl
  | right =>
      simp only [Direction.rotation]
      rw [Raise.run_bind_of_ok width_run, if_neg (Nat.not_lt_of_le wide)]
      rfl

end Rules

/--
The carry of a rotation by less than the width is the bit of the result at the edge. It is the last
bit moved out unless the count is zero, and for the count zero it keeps a carry exactly if this is
the bit that the operand has there. The overflow of a rotation by one is as it should be.
-/
theorem rotate_flags_exact {graph : FlowGraph} {before : Raising} {block : BlockId}
    {direction : Direction} {width : Nat} {operand amount producer test : ValueId}
    (orderly : before.func.Orderly) (bound : block < before.func.blocks.size)
    (wide : 2 ≤ width) (narrow : width ≤ 64)
    (rotates : before.func.Rotates block direction width operand amount producer test) :
    (∀ count, DerivesFlag graph before .carry block (direction.rotation count) test
      fun tells value => ∀ (bits : BitVec width) (distance : UInt64), tells operand (ofBits bits) →
        tells amount distance → distance.toNat < width →
          let carry := (direction.rotate bits distance.toNat).getLsbD (direction.edge width)
          tells value carry.toUInt64 ∧
          (distance ≠ 0 → carry = lastBit direction bits (BitVec.ofNat width distance.toNat)) ∧
          (distance = 0 → ∀ previous (truth : Bool), tells previous truth.toUInt64 →
            ((∀ word, tells value word ↔ tells previous word) ↔
              bits.getLsbD (direction.edge width) = truth))) ∧
    DerivesFlag graph before .overflow block (direction.rotation (some 1)) test
      fun tells value => ∀ bits : BitVec width, tells operand (ofBits bits) → tells amount 1 →
        tells value (direction.rotateOverflow bits).toUInt64 := by
  have positive : 1 ≤ width := Nat.le_of_lt wide
  have edge_lt : direction.edge width < width := by
    cases direction <;> simp only [Direction.edge] <;> omega
  have compared_lt : direction.comparedPlace width < width := by
    cases direction <;> simp only [Direction.comparedPlace] <;> omega
  refine ⟨fun count => ?_, ?_⟩
  · apply derivesFlag_of_makes rfl (run_flagValue_rotateCarry orderly wide narrow rotates count)
      (Builder.makes_testBit orderly bound positive narrow rotates.producer_ty edge_lt)
    intro extended arguments snapshot value grown consistent tested bits distance operand_word
      amount_word below carry
    have told : snapshot.words value = some carry.toUInt64 :=
      tested _ (rotates.words_eq positive narrow grown consistent operand_word amount_word below)
    refine ⟨told, ?_, ?_⟩
    · intro moves
      apply direction.getLsbD_edge_rotate bits _ below
      apply Nat.pos_of_ne_zero
      intro zero
      exact moves (UInt64.toNat_inj.mp zero)
    · rintro rfl previous truth previous_word
      have unmoved : carry = bits.getLsbD (direction.edge width) := by
        simp only [carry, UInt64.toNat_zero, Direction.rotate_zero]
      rw [← unmoved]
      dsimp only at previous_word ⊢
      rw [told, previous_word]
      constructor
      · intro same
        have equal := (same carry.toUInt64).mp rfl
        rw [Option.some.injEq, truth_toUInt64_inj] at equal
        exact equal.symm
      · rintro rfl word
        exact Iff.rfl
  · apply derivesFlag_of_makes rfl (run_flagValue_rotateOverflow orderly wide narrow rotates)
      (Builder.makes_bitsDiffer orderly bound positive narrow rotates.producer_ty edge_lt
        compared_lt)
    intro extended arguments snapshot value grown consistent differs bits operand_word amount_word
    have below : (1 : UInt64).toNat < width := wide
    have rotated := rotates.words_eq positive narrow grown consistent operand_word amount_word below
    rw [← Direction.rotateOverflow_eq wide]
    exact differs _ rotated

/-- A byte was rotated to the right, and the result was widened. -/
def rotatedByte : Function :=
  ((Function.empty "rotate" [.int 8, .int 8] ["entry"]).withInstruction 0 (.int 8)
    (.funnel .right 0 0 1)).withInstruction 0 (.int 32) (.cast .zext 2)

/-- The overflow of the rotation compares the two top bits, if it rotates by one. -/
theorem rotate_flags_exact_byte :
    rotatedByte.Orderly ∧ 0 < rotatedByte.blocks.size ∧ 2 ≤ 8 ∧ 8 ≤ 64 ∧
      rotatedByte.Rotates 0 .right 8 0 1 2 3 ∧
      DerivesFlag entryGraph { func := rotatedByte, tracker := {} } .overflow 0
        (.rotateRight (some 1)) 3 fun tells value => ∀ bits : BitVec 8, tells 0 (ofBits bits) →
          tells 1 1 → tells value (Direction.right.rotateOverflow bits).toUInt64 := by
  have orderly : rotatedByte.Orderly := by
    apply Function.Orderly.withInstruction
    · apply Function.Orderly.withInstruction
      · exact Function.orderly_empty ..
      · decide
    · decide
  have rotates : rotatedByte.Rotates 0 .right 8 0 1 2 3 :=
    ⟨by decide, rfl, rfl, rfl, .single ⟨.zext, rfl, rfl⟩⟩
  have bound : 0 < rotatedByte.blocks.size := by decide
  have flags := @rotate_flags_exact entryGraph { func := rotatedByte, tracker := {} } 0 .right 8 0 1 2
    3 orderly bound (by decide) (by decide) rotates
  exact ⟨orderly, bound, by decide, by decide, rotates, flags.2⟩

/-- A block that sets the carry and then rotates by a count in a register. -/
def rotateGraph : FlowGraph where
  blocks := #[
    { name := "entry", predecessors := [],
      effects := [{ writes := [], family := .rotateLeft none }] }]

def rotateSession : Session :=
  (Session.starting rotateGraph "rotate" [.int 8, .int 8] ["entry"]).after rotateGraph
    [.writeFlag .carry 0 true, .emit 0 (.funnel .left 0 0 1)]

/-- The rotation of zero by zero clears the carry that reached it. -/
theorem not_keeps_carry_rotate :
    Session.Reachable rotateGraph rotateSession ∧
      rotateSession.raising.func.Rotates 0 .left 8 0 1 3 3 ∧
      ∃ read after,
        (Raise.readFlag rotateGraph .carry 0).run rotateSession.raising = .ok (some 2) read ∧
        (Raise.deriveFlag rotateGraph .carry 0 (.rotateLeft none) 3).run rotateSession.raising =
          .ok () after ∧
        after.tracker.valueIn? rotateGraph (.flag .carry) 0 = some 7 ∧
        after.func.Yields #[0, 0] 1 0 ∧ after.func.Yields #[0, 0] 2 1 ∧
        after.func.Yields #[0, 0] 7 0 ∧ ¬ after.func.Yields #[0, 0] 7 1 := by
  have reachable : Session.Reachable rotateGraph rotateSession := by
    refine (Session.Reachable.start (Session.starts_starting rfl ?_)).after ⟨trivial, trivial, trivial⟩
    decide +kernel
  have rotates : rotateSession.raising.func.Rotates 0 .left 8 0 1 3 3 :=
    ⟨by decide +kernel, by cbv, by cbv, by cbv, .refl⟩
  have succeeds : (Raise.deriveFlag rotateGraph .carry 0 (.rotateLeft none) 3).succeeds
      rotateSession.raising = true := by
    cbv
  rcases Raise.exists_of_succeeds succeeds with ⟨answer, after, derives⟩
  have after_eq := Raise.final_of_ok derives
  have grounded : after.func.Grounded := by
    apply Function.grounded_of_lt
    rw [← after_eq]
    decide +kernel
  have reads : ∃ read, (Raise.readFlag rotateGraph .carry 0).run rotateSession.raising =
      .ok (some 2) read := by
    refine ⟨(Raise.readFlag rotateGraph .carry 0).final rotateSession.raising, ?_⟩
    cbv
  rcases reads with ⟨read, reads⟩
  have filed : after.tracker.valueIn? rotateGraph (.flag .carry) 0 = some 7 := by
    rw [← after_eq]
    cbv
  have count_word : after.func.word? #[0, 0] (fun _ => none) 1 = some 0 := by
    rw [← after_eq]
    cbv
  have previous_word : after.func.word? #[0, 0] (fun _ => none) 2 = some 1 := by
    rw [← after_eq]
    cbv
  have carry_word : after.func.word? #[0, 0] (fun _ => none) 7 = some 0 := by
    rw [← after_eq]
    cbv
  refine ⟨reachable, rotates, read, after, reads, derives, filed, ?_⟩
  simp only [Function.yields_iff grounded, count_word, previous_word, carry_word]
  decide

end RegisterFlow
