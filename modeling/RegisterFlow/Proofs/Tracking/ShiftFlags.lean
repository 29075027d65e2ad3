import RegisterFlow.Proofs.Tracking.Incoming
import RegisterFlow.Proofs.Tracking.KeptByTracking

/-!
# The carry of shifts

A shift sets the carry to the last bit that it moves out, and a shift by zero keeps the carry that
reached it. If the count is not known, the code of the rule decides when it runs, and then the rule
needs the carry from before. It fails exactly if it needs a carry where none reaches the block.
-/

namespace RegisterFlow

open Word (ofBits)

/--
How the producer of a shift moves bits out: which value is shifted, by which count, and in which
direction the bits leave.
-/
inductive ShiftsOut (shifted count : ValueId) : Family → Operation → Direction → Prop where
  | shiftLeft : ShiftsOut shifted count .shiftLeft (.binary .shl shifted count) .left
  | shiftLeftDouble (low : ValueId) :
      ShiftsOut shifted count .shiftLeftDouble (.funnel .left shifted low count) .left
  | shiftRightDouble (high : ValueId) :
      ShiftsOut shifted count .shiftRightDouble (.funnel .right high shifted count) .right

/-- The rule for a shift derives its carry from what is shifted, the count and the direction. -/
theorem ShiftsOut.run_flagValue {graph : FlowGraph} {before : Raising} {block : BlockId}
    {family : Family} {producer test shifted count : ValueId} {direction : Direction}
    (shifts : ShiftsOut shifted count family (before.func.operation producer) direction)
    (grounded : before.func.Grounded) (chain : before.func.Adjusts producer test) :
    (Raise.flagValue graph .carry block family test).run before =
      (Raise.shiftCarry graph block family shifted count direction).run before := by
  have behind : before.func.behindCasts test = producer := by
    apply Function.behindCasts_of_adjusts grounded chain
    intro kind operand cast
    rw [cast] at shifts
    cases shifts
  change (Raise.deriveCarry graph block family test).run before = _
  rw [Raise.deriveCarry, EStateM.run_bind, EStateM.run_get]
  simp only [behind]
  generalize before.func.operation producer = operation at shifts
  cases shifts <;> rfl

namespace Builder

/-- The choice between two truths by whether a count is zero. -/
theorem makes_choice {block : BlockId} {func : Function} {width : Nat}
    {count last previous : ValueId} (orderly : func.Orderly) (bound : block < func.blocks.size)
    (positive : 1 ≤ width) (narrow : width ≤ 64) (count_ty : func.ty count = .int width)
    (last_ty : func.ty last = .bool) (previous_ty : func.ty previous = .bool) :
    Makes block .bool
      (fun snapshot value => ∀ amount : BitVec width, snapshot.words count = some (ofBits amount) →
        snapshot.words value =
          if amount = 0 then snapshot.words previous else snapshot.words last)
      (constant (.int width) 0 >>= fun zeros =>
        compare block .ne count zeros >>= fun nonzero => select block nonzero last previous)
      func := by
  rw [← @Word.ofBits_zero width]
  apply Makes.bind (makes_constant narrow _ orderly)
  intro zeros first grown_first zeros_bears
  have bound_first : block < first.blocks.size := by rwa [grown_first.blockCount_eq]
  apply Makes.bind (makes_compare zeros_bears.orderly bound_first .ne positive narrow
    (grown_first.ty_of_ne (by simp) count_ty) zeros_bears.ty_eq)
  intro nonzero second grown_second nonzero_bears
  have grown := grown_first.trans grown_second
  have bound_second : block < second.blocks.size := by rwa [grown.blockCount_eq]
  apply Makes.imp (makes_select nonzero_bears.orderly bound_second nonzero_bears.ty_eq
    (grown.ty_of_ne (by simp) last_ty) (grown.ty_of_ne (by simp) previous_ty))
  intro snapshot value chosen compared zeros_word amount count_word
  rw [chosen _ (compared _ _ count_word zeros_word), Comparison.holds_ne narrow]
  by_cases zero : amount = 0 <;> simp [zero]

end Builder

theorem Function.operation_of_constant? {func : Function} {id : ValueId} {payload : UInt64}
    (known : func.constant? id = some payload) : func.operation id = .constant payload := by
  unfold constant? at known
  split at known
  · next operation =>
    cases known
    exact operation
  · cases known

/-- A count may be zero: it is no constant, or it is the constant zero. -/
def Function.MayBeZero (func : Function) (count : ValueId) : Prop :=
  ∀ payload, func.operation count = .constant payload → payload = 0

/--
A value tells the last bit that a shift moves out. If the count may be zero, the carry can be read
before the value is derived, and for the count zero the value tells the same as that carry.
-/
structure TellsLastBit (graph : FlowGraph) (before : Raising) (block : BlockId) (width : Nat)
    (shifted count : ValueId) (direction : Direction) (value : ValueId) (after : Raising) : Prop where
  orderly : after.func.Orderly
  moved : after.func.Tells block fun tells => ∀ bits amount : BitVec width, amount ≠ 0 →
    tells shifted (ofBits bits) → tells count (ofBits amount) →
      tells value (lastBit direction bits amount).toUInt64
  kept : before.func.MayBeZero count → ∃ carry read previous,
    (Raise.readFlag graph .carry block).run before = .ok (some carry) read ∧
      Function.SameRead before.func block read.func carry after.func previous ∧
      after.func.Tells block fun tells => tells count 0 →
        ∀ word, tells value word ↔ tells previous word

/-- What a value tells does not change when values get names. -/
theorem TellsLastBit.withName {graph : FlowGraph} {before middle after : Raising} {block : BlockId}
    {width : Nat} {shifted count value id : ValueId} {direction : Direction} {name : String}
    (tells : TellsLastBit graph before block width shifted count direction value middle)
    (func_eq : after.func = middle.func.withName id name) :
    TellsLastBit graph before block width shifted count direction value after where
  orderly := func_eq ▸ tells.orderly.withName id name
  moved := func_eq ▸ tells.moved.mono (Function.grows_withName ..).toExtends
  kept mayBeZero := by
    rcases tells.kept mayBeZero with ⟨carry, read, previous, runs, alike, keeps⟩
    rw [func_eq]
    exact ⟨carry, read, previous, runs,
      alike.mono (Function.growsQuietly_withName ..) tells.orderly.numbered,
      keeps.mono (Function.grows_withName ..).toExtends⟩

section ShiftCarry

variable {graph : FlowGraph} {before after : Raising} {block : BlockId} {family : Family}
  {shifted count value : ValueId} {direction : Direction} {width : Nat}

theorem Raise.run_shiftCarry (shifted_ty : before.func.ty shifted = .int width)
    (count_ty : before.func.ty count = .int width) (positive : 1 ≤ width) (narrow : width ≤ 64) :
    (shiftCarry graph block family shifted count direction).run before =
      match before.func.constant? count with
      | some payload =>
        if payload = 0 then (incomingCarry graph block family).run before
        else (build (lastBitOut block width shifted count direction)).run before
      | none =>
        (build (lastBitOut block width shifted count direction) >>= fun last =>
          incomingCarry graph block family >>= fun previous =>
            build (Builder.constant (.int width) 0 >>= fun zeros =>
              Builder.compare block .ne count zeros >>= fun nonzero =>
                Builder.select block nonzero last previous)).run before := by
  have width_run : (testWidth .carry shifted).run before = .ok width before :=
    run_testWidth (Function.wordBits?_of_int positive narrow shifted_ty)
  rw [shiftCarry, run_bind_of_ok width_run, EStateM.run_bind, EStateM.run_get]
  simp only [shifted_ty, count_ty, ne_eq, not_true_eq_false, if_false]
  cases before.func.constant? count with
  | none => rfl
  | some payload =>
      dsimp only
      split <;> rfl

variable (closed : graph.Closed) (kept : before.WellKept graph) (flagged : before.Flagged graph)
  (orderly : before.func.Orderly) (narrow : width ≤ 64)

section Zero

include closed kept flagged orderly narrow

/-- The known count zero keeps the carry. -/
theorem TellsLastBit.exists_of_zero (constant : before.func.operation count = .constant 0)
    {carry : ValueId} {read : Raising}
    (reads : Read graph (.flag .carry) .bool block false true before (some carry) read)
    (runs : (Raise.readFlag graph .carry block).run before = .ok (some carry) read) :
    TellsLastBit graph before block width shifted count direction carry read where
  orderly := (reads.orderly closed flagged orderly).1
  moved := by
    apply Function.tells_of_snapshots
    intro extended arguments snapshot grown consistent bits amount moves _ count_word
    have grown_read := (reads.inquiries fun _ => rfl).moves.proceeds.grows.toExtends
    have zero := consistent.constant ((grown_read.trans grown).operation_of_ne (by simp) constant)
    rw [count_word, Option.some.injEq, ← Word.ofBits_zero, Word.ofBits_inj narrow] at zero
    exact absurd zero moves
  kept _ := by
    rcases reads.alike closed kept flagged (.refl _) reads with ⟨nothing, _⟩ | ⟨_, _, same, also, alike⟩
    · cases nothing
    · cases same
      cases also
      refine ⟨carry, read, carry, runs, alike, ?_⟩
      intro extended arguments tells _ _ _ _ word
      exact Iff.rfl

end Zero

variable (bound : block < before.func.blocks.size) (positive : 1 ≤ width)
  (shifted_ty : before.func.ty shifted = .int width) (count_ty : before.func.ty count = .int width)
include orderly narrow bound positive shifted_ty count_ty

/-- A known count above zero needs no carry. -/
theorem TellsLastBit.exists_of_constant {payload : UInt64}
    (constant : before.func.operation count = .constant payload) (moves : payload ≠ 0) :
    ∃ value after,
      (Raise.shiftCarry graph block family shifted count direction).run before = .ok value after ∧
        TellsLastBit graph before block width shifted count direction value after := by
  have known : before.func.constant? count = some payload := by
    rw [Function.constant?, constant]
  rcases (Builder.makes_lastBitOut orderly bound direction positive narrow shifted_ty
    count_ty).exists_run with ⟨value, func, run, _, bears⟩
  refine ⟨value, { before with func }, ?_, ?_⟩
  · rw [Raise.run_shiftCarry shifted_ty count_ty positive narrow, known]
    dsimp only
    rw [if_neg moves, Raise.run_build_of_run run]
  · exact {
      orderly := bears.orderly
      moved := Function.tells_of_snapshots bears.meaning
      kept := fun mayBeZero => absurd (mayBeZero payload constant) moves }

include closed kept flagged

/-- A count that is not known needs the carry, and there may be none. -/
theorem TellsLastBit.exists_of_unknown (family : Family) (direction : Direction)
    (unknown : before.func.constant? count = none) {answer : Option ValueId} {read : Raising}
    (reads : Read graph (.flag .carry) .bool block false true before answer read)
    (runs : (Raise.readFlag graph .carry block).run before = .ok answer read) :
    (answer = none → ∃ after,
      (Raise.shiftCarry graph block family shifted count direction).run before =
        .error (.noFlagRule .carry family .noIncomingCarry) after) ∧
    (answer ≠ none → ∃ value after,
      (Raise.shiftCarry graph block family shifted count direction).run before = .ok value after ∧
        TellsLastBit graph before block width shifted count direction value after) := by
  rcases (Builder.makes_lastBitOut orderly bound direction positive narrow shifted_ty
    count_ty).exists_run with ⟨last, first, run, quiet, last_bears⟩
  have regrown : Raising.Flagged graph { before with func := first } :=
    flagged.of_extends quiet.toExtends fun _ _ => rfl
  rcases Raise.run_incomingCarry closed regrown block family with
    ⟨again, middle, reread, _, incoming⟩
  rw [Raise.run_shiftCarry shifted_ty count_ty positive narrow, unknown]
  dsimp only
  rw [Raise.run_bind_of_ok (Raise.run_build_of_run run)]
  rcases reads.alike closed kept flagged quiet reread with
    ⟨nothing, also_nothing⟩ | ⟨carry, previous, found, also_found, alike⟩
  · subst nothing also_nothing
    exact ⟨fun _ => ⟨middle, Raise.run_bind_of_error incoming⟩, fun found => absurd rfl found⟩
  · subst found also_found
    refine ⟨fun absent => absurd absent (Option.some_ne_none _), fun _ => ?_⟩
    have grown := (reread.inquiries fun _ => rfl).moves.proceeds.grows
    rcases reread.orderly closed regrown last_bears.orderly with ⟨middle_orderly, previous_ty⟩
    have middle_bound : block < middle.func.blocks.size := by
      rwa [grown.blockCount_eq, quiet.blockCount_eq]
    have middle_count_ty : middle.func.ty count = .int width :=
      (quiet.toExtends.trans grown.toExtends).ty_of_ne (by simp) count_ty
    rcases (Builder.makes_choice middle_orderly middle_bound positive narrow middle_count_ty
      (grown.toExtends.ty_of_ne (by simp) last_bears.ty_eq) (previous_ty _ rfl)).exists_run with
      ⟨value, final, choice, quiet_choice, bears⟩
    refine ⟨value, { middle with func := final }, ?_, ?_⟩
    · rw [Raise.run_bind_of_ok incoming, Raise.run_build_of_run choice]
    · exact {
        orderly := bears.orderly
        moved := by
          apply Function.tells_of_snapshots
          intro extended arguments snapshot later consistent bits amount moves shifted_word
            count_word
          have earlier := grown.toExtends.trans (quiet_choice.toExtends.trans later)
          rw [bears.meaning _ _ _ later consistent amount count_word, if_neg moves]
          exact last_bears.meaning _ _ _ earlier consistent bits amount moves shifted_word count_word
        kept := by
          intro _
          refine ⟨carry, read, previous, runs,
            alike.mono quiet_choice middle_orderly.numbered, ?_⟩
          apply Function.tells_of_snapshots
          intro extended arguments snapshot later consistent zero word
          rw [← @Word.ofBits_zero width] at zero
          have same := bears.meaning _ _ _ later consistent 0 zero
          rw [if_pos rfl] at same
          dsimp only
          rw [same] }

/-- The rule fails exactly if it needs a carry where none reaches the block. -/
theorem TellsLastBit.exists_run (family : Family) (direction : Direction) :
    let uncarried := before.func.MayBeZero count ∧
      ∀ source, ¬ before.tracker.IsSource graph (.flag .carry) source block
    (uncarried → ∃ after,
      (Raise.shiftCarry graph block family shifted count direction).run before =
        .error (.noFlagRule .carry family .noIncomingCarry) after) ∧
    (¬ uncarried → ∃ value after,
      (Raise.shiftCarry graph block family shifted count direction).run before = .ok value after ∧
        TellsLastBit graph before block width shifted count direction value after) := by
  intro uncarried
  rcases Raise.run_incomingCarry closed flagged block family with
    ⟨answer, read, reads, runs, incoming⟩
  have absent := reads.eq_none_iff closed flagged
  cases known : before.func.constant? count with
  | none =>
      have mayBeZero : before.func.MayBeZero count := by
        intro payload constant
        rw [Function.constant?, constant] at known
        cases known
      have rule := exists_of_unknown closed kept flagged orderly narrow bound positive shifted_ty
        count_ty family direction known reads runs
      exact ⟨fun missing => rule.1 (absent.mpr missing.2),
        fun present => rule.2 fun nothing => present ⟨mayBeZero, absent.mp nothing⟩⟩
  | some payload =>
      have constant := Function.operation_of_constant? known
      by_cases zero : payload = 0
      · subst zero
        have mayBeZero : before.func.MayBeZero count := by
          intro payload same
          rw [constant] at same
          cases same
          rfl
        have run_eq : (Raise.shiftCarry graph block family shifted count direction).run before =
            (Raise.incomingCarry graph block family).run before := by
          rw [Raise.run_shiftCarry shifted_ty count_ty positive narrow, known]
          rfl
        rw [run_eq, incoming]
        cases answer with
        | none =>
            exact ⟨fun _ => ⟨read, rfl⟩, fun present => absurd ⟨mayBeZero, absent.mp rfl⟩ present⟩
        | some carry =>
            refine ⟨fun missing => ?_, fun _ => ?_⟩
            · cases absent.mpr missing.2
            · exact ⟨carry, read, rfl, exists_of_zero closed kept flagged orderly narrow constant
                reads runs⟩
      · refine ⟨fun missing => absurd (missing.1 payload constant) zero, fun _ => ?_⟩
        exact exists_of_constant orderly narrow bound positive shifted_ty count_ty constant zero

end ShiftCarry

theorem Raise.run_deriveFlag_of_error {graph : FlowGraph} {flag : Flag} {block : BlockId}
    {family : Family} {test : ValueId} {before after : Raising} {failure : TrackingError}
    (tracked : flag.isTracked = true)
    (fails : (flagValue graph flag block family test).run before = .error failure after) :
    (deriveFlag graph flag block family test).run before = .error failure after := by
  have located : Location.ofFlag flag = .ok (.flag flag) := if_pos tracked
  rw [deriveFlag_eq, located, run_bind_of_ok (run_ofExcept_ok ..), run_bind_of_error fails]

/--
The carry of a shift is the last bit that the shift moves out, at every width and for every count,
whether it is known or not. A count that may be zero keeps the carry that a read in front would have
given, and then the rule fails exactly if no definition of the carry reaches the block.
-/
theorem shift_carry_exact {graph : FlowGraph} {session : Session} {family : Family}
    {block : BlockId} {producer test shifted count : ValueId} {direction : Direction} {width : Nat}
    (closed : graph.Closed) (reachable : Session.Reachable graph session)
    (orderly : session.raising.func.Orderly) (bound : block < graph.blocks.size)
    (positive : 1 ≤ width) (narrow : width ≤ 64)
    (shifted_ty : session.raising.func.ty shifted = .int width)
    (count_ty : session.raising.func.ty count = .int width)
    (chain : session.raising.func.Adjusts producer test)
    (shifts : ShiftsOut shifted count family (session.raising.func.operation producer) direction) :
    let before := session.raising
    let derivation := (Raise.deriveFlag graph .carry block family test).run before
    let uncarried := before.func.MayBeZero count ∧
      ∀ source, ¬ before.tracker.IsSource graph (.flag .carry) source block
    (uncarried → ∃ after, derivation = .error (.noFlagRule .carry family .noIncomingCarry) after) ∧
    (¬ uncarried → ∃ value after, derivation = .ok () after ∧
      after.tracker.valueIn? graph (.flag .carry) block = some value ∧
      TellsLastBit graph before block width shifted count direction value after) := by
  intro before derivation uncarried
  have ordered := reachable.inOrder closed
  have kept : before.WellKept graph := ordered.kept
  have flagged : before.Flagged graph := ordered.flagged
  have bound_func : block < before.func.blocks.size := kept.blockCount_eq ▸ bound
  have rule : (Raise.flagValue graph .carry block family test).run before =
      (Raise.shiftCarry graph block family shifted count direction).run before :=
    shifts.run_flagValue orderly.grounded chain
  rcases TellsLastBit.exists_run closed kept flagged orderly narrow bound_func positive shifted_ty
    count_ty family direction with ⟨fails, succeeds⟩
  refine ⟨fun missing => ?_, fun present => ?_⟩
  · rcases fails missing with ⟨after, fails⟩
    exact ⟨after, Raise.run_deriveFlag_of_error rfl (rule.trans fails)⟩
  · rcases succeeds present with ⟨value, middle, runs, tells⟩
    rcases Raise.exists_run_deriveFlag rfl (rule.trans runs) with ⟨after, derives, func_eq, filed⟩
    exact ⟨value, after, derives, filed _ (Or.inl rfl), tells.withName func_eq⟩

/-! ### A shift behind a join -/

/-- Two blocks that set the carry, and a block in which they join and that shifts. -/
def joinGraph : FlowGraph where
  blocks := #[
    { name := "bb0", predecessors := [], effects := [] },
    { name := "bb1", predecessors := [0], effects := [{ writes := [], family := .other "stc" }] },
    { name := "bb2", predecessors := [0], effects := [{ writes := [], family := .other "clc" }] },
    { name := "bb3", predecessors := [1, 2], effects := [{ writes := [], family := .shiftLeft }] }]

/-- The carry is set in one of the blocks and cleared in the other, and a byte is shifted. -/
def joinSession : Session :=
  (Session.starting joinGraph "shift" [.int 8, .int 8] ["entry", "set", "cleared", "join"]).after
    joinGraph [.writeFlag .carry 1 true, .writeFlag .carry 2 false, .emit 3 (.binary .shl 0 1)]

theorem shift_carry_exact_join :
    joinGraph.Closed ∧ Session.Reachable joinGraph joinSession ∧
      joinSession.raising.func.Orderly ∧ 3 < joinGraph.blocks.size ∧ 1 ≤ 8 ∧ 8 ≤ 64 ∧
      joinSession.raising.func.ty 0 = .int 8 ∧ joinSession.raising.func.ty 1 = .int 8 ∧
      joinSession.raising.func.Adjusts 4 4 ∧
      ShiftsOut 0 1 .shiftLeft (joinSession.raising.func.operation 4) .left ∧
      ∃ value after,
        (Raise.deriveFlag joinGraph .carry 3 .shiftLeft 4).run joinSession.raising =
          .ok () after ∧
        after.tracker.valueIn? joinGraph (.flag .carry) 3 = some value ∧
        TellsLastBit joinGraph joinSession.raising 3 8 0 1 .left value after := by
  have closed : joinGraph.Closed := by decide +kernel
  have built : Session.Built joinGraph joinSession := by
    refine (Session.Built.start (Session.starts_starting rfl ?_)).after
      ⟨trivial, trivial, trivial, trivial⟩ ?_ <;> decide +kernel
  have reachable := built.reachable
  have orderly := built.orderly closed
  have produced : joinSession.raising.func.operation 4 = .binary .shl 0 1 := by cbv
  have shifts : ShiftsOut 0 1 .shiftLeft (joinSession.raising.func.operation 4) .left := by
    rw [produced]
    exact .shiftLeft
  have edge : 1 ∈ joinGraph.predecessors 3 := by decide +kernel
  have source : joinSession.raising.tracker.IsSource joinGraph (.flag .carry) 1 3 := by
    refine ⟨by cbv, Or.inr ⟨[], edge, ?_⟩⟩
    intro later mem _
    rw [List.mem_singleton.mp mem]
    cbv
  have below : 3 < joinGraph.blocks.size := by decide
  have shifted_ty : joinSession.raising.func.ty 0 = .int 8 := by cbv
  have count_ty : joinSession.raising.func.ty 1 = .int 8 := by cbv
  have exact_carry := shift_carry_exact closed reachable orderly below (by decide) (by decide)
    shifted_ty count_ty .refl shifts
  exact ⟨closed, reachable, orderly, below, by decide, by decide, shifted_ty, count_ty, .refl, shifts,
    exact_carry.2 fun missing => missing.2 1 source⟩

end RegisterFlow
