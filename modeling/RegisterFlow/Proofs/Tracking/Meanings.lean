import RegisterFlow.Proofs.Execution.Shifts
import RegisterFlow.Proofs.Tracking.ArithmeticFlags

/-!
# Code with a meaning

A building step makes a value with a meaning if the value has it in every way to evaluate its block,
whatever else is built later. Steps that make values follow each other, so that the code of a flag
rule gets its meaning from those of its instructions: the test of a bit says whether the bit is set,
and the test of the last bit that a shift moves out says what this bit was.
-/

namespace RegisterFlow

open Word (ofBits)

namespace Function

variable {func : Function} {block : BlockId} {snapshot : Snapshot} {arguments : Array UInt64}
  {id condition ifTrue ifFalse high low amount : ValueId}

theorem Consistent.select {truth : Bool} (consistent : func.Consistent arguments block snapshot)
    (mem : id ∈ func.body block) (operation : func.operation id = .select condition ifTrue ifFalse)
    (condition_word : snapshot.words condition = some truth.toUInt64) :
    snapshot.words id = if truth then snapshot.words ifTrue else snapshot.words ifFalse := by
  rw [consistent id (.inr ⟨mem, by rw [operation]; rfl⟩), wordFrom?, operation]
  have unset : ¬ false.toUInt64 &&& 1 = 1 := by decide
  have set : true.toUInt64 &&& 1 = 1 := by decide
  cases truth
  · simp [condition_word, unset]
  · simp [condition_word, set]

theorem Consistent.funnel {direction : Direction} {width : Nat} {upper lower distance : UInt64}
    (consistent : func.Consistent arguments block snapshot) (mem : id ∈ func.body block)
    (operation : func.operation id = .funnel direction high low amount)
    (typed : (func.ty id).wordBits? = some width)
    (upper_word : snapshot.words high = some upper) (lower_word : snapshot.words low = some lower)
    (distance_word : snapshot.words amount = some distance) :
    snapshot.words id = some (direction.shift width upper lower (distance.toNat % width)) := by
  rw [consistent id (.inr ⟨mem, by rw [operation]; rfl⟩), wordFrom?, operation]
  simp only [typed, upper_word, lower_word, distance_word]
  rfl

/-- A value of a type has a meaning wherever its block is evaluated, also in larger functions. -/
structure Bears (block : BlockId) (ty : Ty) (means : Snapshot → ValueId → Prop) (value : ValueId)
    (func : Function) : Prop where
  orderly : func.Orderly
  ty_eq : func.ty value = ty
  meaning : ∀ (extended : Function) (arguments : Array UInt64) (snapshot : Snapshot),
    func.Extends extended → extended.Consistent arguments block snapshot → means snapshot value

end Function

namespace Builder

/-- A building step lets one block grow quietly, and its result bears a meaning. -/
def Makes (block : BlockId) (ty : Ty) (means : Snapshot → ValueId → Prop)
    (builder : Builder ValueId) (func : Function) : Prop :=
  Emits block (Function.Bears block ty means) builder func

variable {block : BlockId} {func : Function} {ty further : Ty}
  {means others : Snapshot → ValueId → Prop} {width : Nat}

theorem Makes.exists_run {builder : Builder ValueId} (makes : Makes block ty means builder func) :
    ∃ value after, builder.run func = (value, after) ∧ func.GrowsQuietly block after ∧
      after.Bears block ty means value :=
  ⟨_, _, rfl, makes.1, makes.2⟩

/-- What follows a step may rely on what the value of the step means. -/
theorem Makes.bind {step : Builder ValueId} {next : ValueId → Builder ValueId}
    (first : Makes block ty means step func)
    (second : ∀ value middle, func.GrowsQuietly block middle →
      middle.Bears block ty means value →
      Makes block further (fun snapshot result => means snapshot value → others snapshot result)
        (next value) middle) :
    Makes block further others (step >>= next) func := by
  apply Emits.bind first
  intro value middle quiet bears
  rcases second value middle quiet bears with ⟨grown, later⟩
  refine ⟨grown, later.orderly, later.ty_eq, ?_⟩
  intro extended arguments snapshot extends_later consistent
  apply later.meaning extended arguments snapshot extends_later consistent
  exact bears.meaning extended arguments snapshot (grown.toExtends.trans extends_later) consistent

theorem Makes.imp {builder : Builder ValueId} (makes : Makes block ty means builder func)
    (weaken : ∀ snapshot value, means snapshot value → others snapshot value) :
    Makes block ty others builder func := by
  refine ⟨makes.1, makes.2.orderly, makes.2.ty_eq, ?_⟩
  intro extended arguments snapshot grown consistent
  exact weaken _ _ (makes.2.meaning extended arguments snapshot grown consistent)

theorem makes_constant (narrow : width ≤ 64) (bits : BitVec width) (orderly : func.Orderly) :
    Makes block (.int width) (fun snapshot value => snapshot.words value = some (ofBits bits))
      (constant (.int width) (ofBits bits)) func := by
  have quiet := (@emits_constant block func (.int width) (ofBits bits)).1
  rcases Function.exists_run_constant narrow bits orderly with
    ⟨value, after, run, grown, orderly_after, held, typed, word⟩
  rw [run] at quiet
  rw [Makes, Emits, run]
  exact ⟨quiet, orderly_after, typed, fun extended arguments snapshot grown consistent =>
    word extended arguments block snapshot grown consistent⟩

/-- An appended instruction computes, in its block, from values that there are. -/
theorem makes_append {operation : Operation} (orderly : func.Orderly)
    (bound : block < func.blocks.size)
    (held : ∀ operand ∈ operation.operands, operand < func.values.size)
    (pure : operation.isPure = true) (proper : ty ≠ .void)
    (computes : ∀ (extended : Function) (arguments : Array UInt64) (snapshot : Snapshot) (id : ValueId),
      func.Extends extended → extended.Consistent arguments block snapshot →
      id ∈ extended.body block → extended.operation id = operation → extended.ty id = ty →
      means snapshot id) :
    Makes block ty means (append block ty operation) func := by
  have no_return : operation ≠ .ret none := by
    rintro rfl
    cases pure
  have no_store : ∀ slot operand, operation ≠ .store slot operand := by
    rintro slot operand rfl
    cases pure
  rw [Makes, Emits, run_append_eq]
  refine ⟨Function.growsQuietly_withInstruction _ _ _ _ no_store, orderly.withInstruction held, ?_, ?_⟩
  · simp
  · intro extended arguments snapshot grown consistent
    have grown_before := (Function.extends_withInstruction func block ty operation).trans grown
    apply computes extended arguments snapshot _ grown_before consistent
    · exact grown.mem_body_of_withInstruction bound
    · exact grown.operation_of_withInstruction no_return
    · apply grown.ty_of_ne proper
      simp

variable {lhs rhs : ValueId} (orderly : func.Orderly) (bound : block < func.blocks.size)
include orderly bound

theorem makes_binary (op : BinaryOp) (positive : 1 ≤ width) (narrow : width ≤ 64)
    (lhs_ty : func.ty lhs = .int width) (rhs_ty : func.ty rhs = .int width) :
    Makes block (.int width)
      (fun snapshot value => ∀ left right, snapshot.words lhs = some left →
        snapshot.words rhs = some right →
        snapshot.words value = some (op.apply width left right))
      (binary block op lhs rhs) func := by
  have run : (binary block op lhs rhs).run func =
      (append block (func.ty lhs) (.binary op lhs rhs)).run func := rfl
  rw [Makes, Emits, run, lhs_ty]
  apply makes_append orderly bound
  · simp [Operation.operands, Function.lt_size_of_int lhs_ty, Function.lt_size_of_int rhs_ty]
  · rfl
  · simp
  · intro extended arguments snapshot id _ consistent mem operation typed left right left_word
      right_word
    exact consistent.binary mem left_word right_word operation
      (Function.wordBits?_of_int positive narrow typed)

theorem makes_compare (comparison : Comparison) (positive : 1 ≤ width) (narrow : width ≤ 64)
    (lhs_ty : func.ty lhs = .int width) (rhs_ty : func.ty rhs = .int width) :
    Makes block .bool
      (fun snapshot value => ∀ left right, snapshot.words lhs = some left →
        snapshot.words rhs = some right →
        snapshot.words value = some (comparison.holds width left right).toUInt64)
      (compare block comparison lhs rhs) func := by
  apply makes_append orderly bound
  · simp [Operation.operands, Function.lt_size_of_int lhs_ty, Function.lt_size_of_int rhs_ty]
  · rfl
  · simp
  · intro extended arguments snapshot id grown consistent mem operation _ left right left_word
      right_word
    exact consistent.compare mem left_word right_word operation
      (Function.wordBits?_of_int positive narrow (grown.ty_of_ne (by simp) lhs_ty))

theorem makes_select {condition ifTrue ifFalse : ValueId} (condition_ty : func.ty condition = .bool)
    (ifTrue_ty : func.ty ifTrue = .bool) (ifFalse_ty : func.ty ifFalse = .bool) :
    Makes block .bool
      (fun snapshot value => ∀ truth : Bool, snapshot.words condition = some truth.toUInt64 →
        snapshot.words value = if truth then snapshot.words ifTrue else snapshot.words ifFalse)
      (select block condition ifTrue ifFalse) func := by
  have run : (select block condition ifTrue ifFalse).run func =
      (append block (func.ty ifTrue) (.select condition ifTrue ifFalse)).run func := rfl
  rw [Makes, Emits, run, ifTrue_ty]
  apply makes_append orderly bound
  · simp [Operation.operands, Function.lt_size_of_int condition_ty,
      Function.lt_size_of_int ifTrue_ty, Function.lt_size_of_int ifFalse_ty]
  · rfl
  · simp
  · intro extended arguments snapshot id _ consistent mem operation _ truth word
    exact consistent.select mem operation word

/-- The test of a bit says whether it is set. -/
theorem makes_testBit {value : ValueId} {index : Nat} (positive : 1 ≤ width) (narrow : width ≤ 64)
    (typed : func.ty value = .int width) (below : index < width) :
    Makes block .bool
      (fun snapshot test => ∀ bits : BitVec width, snapshot.words value = some (ofBits bits) →
        snapshot.words test = some (bits.getLsbD index).toUInt64)
      (Raise.testBit block value index) func := by
  have run : (Raise.testBit block value index).run func =
      (constant (func.ty value) (UInt64.ofNat (2 ^ index)) >>= fun bit =>
        constant (func.ty value) 0 >>= fun zeros =>
          binary block .and value bit >>= fun masked =>
            compare block .ne masked zeros).run func := rfl
  rw [Makes, Emits, run, typed, ← Word.ofBits_twoPow below, ← @Word.ofBits_zero width]
  apply Makes.bind (makes_constant narrow _ orderly)
  intro bit first grown_first bit_bears
  apply Makes.bind (makes_constant narrow _ bit_bears.orderly)
  intro zeros second grown_second zeros_bears
  have bound_second : block < second.blocks.size := by
    rwa [grown_second.blockCount_eq, grown_first.blockCount_eq]
  have value_second : second.ty value = .int width :=
    (grown_first.toExtends.trans grown_second.toExtends).ty_of_ne (by simp) typed
  have bit_second : second.ty bit = .int width :=
    grown_second.ty_of_ne (by simp) bit_bears.ty_eq
  apply Makes.bind
    (makes_binary zeros_bears.orderly bound_second .and positive narrow value_second bit_second)
  intro masked third grown_third masked_bears
  have bound_third : block < third.blocks.size := by rwa [grown_third.blockCount_eq]
  apply Makes.imp (makes_compare masked_bears.orderly bound_third .ne positive narrow
    masked_bears.ty_eq (grown_third.ty_of_ne (by simp) zeros_bears.ty_eq))
  intro snapshot test compared masked_word zeros_word bit_word bits value_word
  rw [compared _ _ (masked_word _ _ value_word bit_word) zeros_word, BinaryOp.apply_and narrow,
    Comparison.holds_ne narrow, and_twoPow_ne_zero]

/-- A mask that was shifted to a place leaves the bit there, and nothing if there is none. -/
theorem makes_shiftedTest {shifted one index : ValueId} (positive : 1 ≤ width) (narrow : width ≤ 64)
    (shifted_ty : func.ty shifted = .int width) (one_ty : func.ty one = .int width)
    (index_ty : func.ty index = .int width) :
    Makes block .bool
      (fun snapshot test => ∀ bits place : BitVec width,
        snapshot.words shifted = some (ofBits bits) →
        snapshot.words one = some (ofBits (1 : BitVec width)) →
        snapshot.words index = some (ofBits place) →
        snapshot.words test = some (bits.getLsbD place.toNat).toUInt64)
      (binary block .shl one index >>= fun bit =>
        binary block .and shifted bit >>= fun masked =>
          constant (.int width) 0 >>= fun zeros => compare block .ne masked zeros) func := by
  apply Makes.bind (makes_binary orderly bound .shl positive narrow one_ty index_ty)
  intro bit first grown_first bit_bears
  have bound_first : block < first.blocks.size := by rwa [grown_first.blockCount_eq]
  apply Makes.bind (makes_binary bit_bears.orderly bound_first .and positive narrow
    (grown_first.ty_of_ne (by simp) shifted_ty) bit_bears.ty_eq)
  intro masked second grown_second masked_bears
  have bound_second : block < second.blocks.size := by rwa [grown_second.blockCount_eq]
  rw [← @Word.ofBits_zero width]
  apply Makes.bind (makes_constant narrow _ masked_bears.orderly)
  intro zeros third grown_third zeros_bears
  have bound_third : block < third.blocks.size := by rwa [grown_third.blockCount_eq]
  apply Makes.imp (makes_compare zeros_bears.orderly bound_third .ne positive narrow
    (grown_third.ty_of_ne (by simp) masked_bears.ty_eq) zeros_bears.ty_eq)
  intro snapshot test compared zeros_word masked_word bit_word bits place shifted_word one_word
    index_word
  have mask : (1 : BitVec width) <<< place = BitVec.twoPow width place.toNat := rfl
  rw [compared _ _ (masked_word _ _ shifted_word (bit_word _ _ one_word index_word)) zeros_word,
    BinaryOp.apply_shl narrow, BinaryOp.apply_and narrow, Comparison.holds_ne narrow, mask,
    and_twoPow_ne_zero]

/-- The test of the last bit that a shift moves out says whether it is set. -/
theorem makes_lastBitOut {shifted count : ValueId} (direction : Direction) (positive : 1 ≤ width)
    (narrow : width ≤ 64) (shifted_ty : func.ty shifted = .int width)
    (count_ty : func.ty count = .int width) :
    Makes block .bool
      (fun snapshot test => ∀ bits amount : BitVec width, amount ≠ 0 →
        snapshot.words shifted = some (ofBits bits) → snapshot.words count = some (ofBits amount) →
        snapshot.words test = some (lastBit direction bits amount).toUInt64)
      (Raise.lastBitOut block width shifted count direction) func := by
  have one_lt : 1 < 2 ^ width := Nat.one_lt_two_pow (by omega)
  have one_word : (1 : UInt64) = ofBits (1 : BitVec width) := by
    rw [ofBits, BitVec.ofNat_eq_ofNat, BitVec.toNat_ofNat, Nat.mod_eq_of_lt one_lt]
    rfl
  have width_word : UInt64.ofNat width = ofBits (BitVec.ofNat width width) := by
    rw [ofBits, BitVec.toNat_ofNat, Nat.mod_eq_of_lt Nat.lt_two_pow_self]
  cases direction with
  | left =>
      have run : (Raise.lastBitOut block width shifted count .left).run func =
          (constant (func.ty shifted) 1 >>= fun one =>
            constant (func.ty shifted) (UInt64.ofNat width) >>= fun bits =>
              binary block .sub bits count >>= fun index =>
                binary block .shl one index >>= fun bit =>
                  binary block .and shifted bit >>= fun masked =>
                    constant (func.ty shifted) 0 >>= fun zeros =>
                      compare block .ne masked zeros).run func := rfl
      rw [Makes, Emits, run, shifted_ty, one_word, width_word]
      apply Makes.bind (makes_constant narrow _ orderly)
      intro one first grown_first one_bears
      apply Makes.bind (makes_constant narrow _ one_bears.orderly)
      intro bits second grown_second bits_bears
      have grown := grown_first.trans grown_second
      have bound_second : block < second.blocks.size := by rwa [grown.blockCount_eq]
      apply Makes.bind (makes_binary bits_bears.orderly bound_second .sub positive narrow
        bits_bears.ty_eq (grown.ty_of_ne (by simp) count_ty))
      intro index third grown_third index_bears
      have grown := grown.trans grown_third
      have bound_third : block < third.blocks.size := by rwa [grown.blockCount_eq]
      have one_third : third.ty one = .int width :=
        (grown_second.trans grown_third).ty_of_ne (by simp) one_bears.ty_eq
      apply Makes.imp (makes_shiftedTest index_bears.orderly bound_third positive narrow
        (grown.ty_of_ne (by simp) shifted_ty) one_third index_bears.ty_eq)
      intro snapshot test tested index_word bits_word one_word held amount moves shifted_word
        count_word
      have place := index_word _ _ bits_word count_word
      rw [BinaryOp.apply_sub narrow] at place
      rw [tested held _ shifted_word one_word place, lastBit_left held amount moves]
  | right =>
      have run : (Raise.lastBitOut block width shifted count .right).run func =
          (constant (func.ty shifted) 1 >>= fun one =>
            binary block .sub count one >>= fun index =>
              binary block .shl one index >>= fun bit =>
                binary block .and shifted bit >>= fun masked =>
                  constant (func.ty shifted) 0 >>= fun zeros =>
                    compare block .ne masked zeros).run func := rfl
      rw [Makes, Emits, run, shifted_ty, one_word]
      apply Makes.bind (makes_constant narrow _ orderly)
      intro one first grown_first one_bears
      have bound_first : block < first.blocks.size := by rwa [grown_first.blockCount_eq]
      apply Makes.bind (makes_binary one_bears.orderly bound_first .sub positive narrow
        (grown_first.ty_of_ne (by simp) count_ty) one_bears.ty_eq)
      intro index second grown_second index_bears
      have grown := grown_first.trans grown_second
      have bound_second : block < second.blocks.size := by rwa [grown.blockCount_eq]
      apply Makes.imp (makes_shiftedTest index_bears.orderly bound_second positive narrow
        (grown.ty_of_ne (by simp) shifted_ty) (grown_second.ty_of_ne (by simp) one_bears.ty_eq)
        index_bears.ty_eq)
      intro snapshot test tested index_word one_word held amount moves shifted_word count_word
      have place := index_word _ _ count_word one_word
      rw [BinaryOp.apply_sub narrow] at place
      rw [tested held _ shifted_word one_word place, lastBit_right held amount moves]

end Builder

end RegisterFlow
