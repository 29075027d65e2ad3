import Mathlib
import RegisterFlow.Proofs.Code.Calls
import RegisterFlow.Proofs.Execution.Runs

/-!
# Repeated runs

A run that returns has computed every word that it reads, and stored into every slot that it loads.
What a state holds from before lies under what the run finds out itself, and is not read: the run
returns the same from there, and only slots that it does not write keep what they held. After a run
itself there are no such slots.
-/

namespace RegisterFlow

namespace Snapshot

/-- What a snapshot shows, and where it shows nothing, what lies under it. -/
def atop (snapshot leftovers : Snapshot) : Snapshot where
  words id := (snapshot.words id).or (leftovers.words id)
  cells slot := (snapshot.cells slot).or (leftovers.cells slot)

variable {snapshot : Snapshot} {id : ValueId} {slot : SlotId} {word : UInt64}

theorem words_atop (known : snapshot.words id = some word) (leftovers : Snapshot) :
    (snapshot.atop leftovers).words id = some word := by
  simp only [atop, known, Option.some_or]

theorem cells_atop (held : snapshot.cells slot = some word) (leftovers : Snapshot) :
    (snapshot.atop leftovers).cells slot = some word := by
  simp only [atop, held, Option.some_or]

theorem atop_learn (snapshot leftovers : Snapshot) (id : ValueId) (word : UInt64) :
    (snapshot.atop leftovers).learn id word = (snapshot.learn id word).atop leftovers := by
  simp only [atop, learn, mk.injEq, and_true]
  funext other
  split <;> rfl

theorem atop_write (snapshot leftovers : Snapshot) (slot : SlotId) (word : UInt64) :
    (snapshot.atop leftovers).write slot word = (snapshot.write slot word).atop leftovers := by
  simp only [atop, write, mk.injEq, true_and]
  funext other
  split <;> rfl

theorem atop_self (snapshot : Snapshot) : snapshot.atop snapshot = snapshot := by
  simp only [atop, Option.or_self]

end Snapshot

namespace Function

variable {func : Function} {arguments : Array UInt64} {start next last : Snapshot} {id : ValueId}
  {word : UInt64} {block : BlockId} {result : Option UInt64}

/-- What can be computed does not depend on what lies under it. -/
theorem wordFrom?_atop (computes : func.wordFrom? arguments start id = some word)
    (leftovers : Snapshot) :
    func.wordFrom? arguments (start.atop leftovers) id = some word := by
  unfold wordFrom? at computes ⊢
  cases operation : func.operation id with
  | argument index | constant payload | slotAddress slot =>
      rw [operation] at computes
      exact computes
  | binary op lhs rhs | compare comparison lhs rhs | overflow check lhs rhs =>
      simp only [operation, bind, Option.bind_eq_some_iff] at computes ⊢
      rcases computes with ⟨width, wide, left, left_eq, right, right_eq, computed⟩
      exact ⟨width, wide, left, Snapshot.words_atop left_eq _, right,
        Snapshot.words_atop right_eq _, computed⟩
  | select condition ifTrue ifFalse =>
      simp only [operation, bind, Option.bind_eq_some_iff] at computes ⊢
      rcases computes with ⟨truth, truth_eq, arm⟩
      refine ⟨truth, Snapshot.words_atop truth_eq _, ?_⟩
      split at arm
      · next taken => rw [if_pos taken, Snapshot.words_atop arm]
      · next other => rw [if_neg other, Snapshot.words_atop arm]
  | cast kind operand =>
      simp only [operation, bind, Option.bind_eq_some_iff] at computes ⊢
      rcases computes with ⟨source, source_eq, computed⟩
      exact ⟨source, Snapshot.words_atop source_eq _, computed⟩
  | funnel direction high low amount =>
      simp only [operation, bind, Option.bind_eq_some_iff] at computes ⊢
      rcases computes with
        ⟨width, wide, upper, upper_eq, lower, lower_eq, count, count_eq, computed⟩
      exact ⟨width, wide, upper, Snapshot.words_atop upper_eq _, lower,
        Snapshot.words_atop lower_eq _, count, Snapshot.words_atop count_eq _, computed⟩
  | load slot =>
      rw [operation] at computes
      exact Snapshot.cells_atop computes leftovers
  | store | branch | branchIf | ret =>
      rw [operation] at computes
      cases computes

theorem advance_atop (step : func.advance arguments start id = some next) (leftovers : Snapshot) :
    func.advance arguments (start.atop leftovers) id = some (next.atop leftovers) := by
  by_cases stores : ∃ slot operand, func.operation id = .store slot operand
  · rcases stores with ⟨slot, operand, stores⟩
    rw [advance_of_store stores] at step ⊢
    rcases Option.map_eq_some_iff.mp step with ⟨word, known, rfl⟩
    rw [Snapshot.words_atop known, Option.map_some, Snapshot.atop_write]
  · have computes : ∀ slot operand, func.operation id ≠ .store slot operand :=
      fun slot operand found => stores ⟨slot, operand, found⟩
    rw [advance_of_not_store computes] at step ⊢
    rcases Option.map_eq_some_iff.mp step with ⟨word, known, rfl⟩
    rw [wordFrom?_atop known, Option.map_some, Snapshot.atop_learn]

theorem traverse_atop {instructions : List ValueId}
    (run : func.traverse arguments start instructions = some next) (leftovers : Snapshot) :
    func.traverse arguments (start.atop leftovers) instructions =
      some (next.atop leftovers) := by
  induction instructions generalizing start with
  | nil =>
      cases run
      rfl
  | cons id rest ih =>
      rcases Option.bind_eq_some_iff.mp run with ⟨middle, step, others⟩
      rw [traverse_cons, advance_atop step, Option.bind_some, ih others]

theorem exitFrom?_atop {exit : Exit} (exits : func.exitFrom? next block = some exit)
    (leftovers : Snapshot) : func.exitFrom? (next.atop leftovers) block = some exit := by
  unfold exitFrom? at exits ⊢
  split at exits
  · exact exits
  · rcases Option.bind_eq_some_iff.mp exits with ⟨word, known, left⟩
    exact Option.bind_eq_some_iff.mpr ⟨word, Snapshot.words_atop known _, left⟩
  · rcases Option.bind_eq_some_iff.mp exits with ⟨word, known, left⟩
    exact Option.bind_eq_some_iff.mpr ⟨word, Snapshot.words_atop known _, left⟩
  · exact exits
  · cases exits

/-- An execution that returns goes the same way over any leftovers. -/
theorem Finishes.atop {needed count : Nat}
    (finishes : func.Finishes arguments result last needed count block start)
    (leftovers : Snapshot) :
    func.Finishes arguments result (last.atop leftovers) needed count block
      (start.atop leftovers) := by
  induction finishes with
  | here run exits => exact .here (traverse_atop run leftovers) (exitFrom?_atop exits leftovers)
  | jump run exits _ ih =>
      exact .jump (traverse_atop run leftovers) (exitFrom?_atop exits leftovers) ih

/-- A fresh state shows leaves only, which every state shows. -/
theorem snapshot_empty_atop (state : EvalState) :
    (func.snapshot arguments {}).atop (func.snapshot arguments state) =
      func.snapshot arguments state := by
  simp only [snapshot, Snapshot.atop, Snapshot.mk.injEq]
  refine ⟨funext fun id => ?_, funext fun slot => ?_⟩
  · split <;> simp
  · simp

/-- A run that returns from a fresh state returns the same over leftovers, and leaves them below. -/
theorem exists_run_atop {fuel : Nat} {final leftovers : EvalState}
    (returns : (func.run arguments fuel).run {} = .ok result final)
    (faithful : func.Faithful arguments leftovers) :
    ∃ after, (func.run arguments fuel).run leftovers = .ok result after ∧
      func.snapshot arguments after =
        (func.snapshot arguments final).atop (func.snapshot arguments leftovers) ∧
      func.Faithful arguments after := by
  rcases exists_finishes_of_run returns with ⟨-, needed, within, count, finishes⟩
  have lifted := finishes.atop (func.snapshot arguments leftovers)
  rw [snapshot_empty_atop] at lifted
  have nothing : func.Seen arguments result
      ((func.snapshot arguments final).atop (func.snapshot arguments leftovers)) count
      (func.snapshot arguments leftovers) [] :=
    ⟨List.nodup_nil, by simp, by simp⟩
  have spends : func.Spends arguments result
      ((func.snapshot arguments final).atop (func.snapshot arguments leftovers)) needed fuel fuel
      ((func.run arguments fuel).run leftovers) :=
    lifted.runs nothing (Nat.le_refl _) faithful rfl
  exact spends.returns within

/--
If a run returns from a fresh state, then it returns the same from the state that it left, which
then shows the same: every slot holds what it held, and the same words can be read. More generally,
it returns the same from every state in which leaves have their words; each slot that the first run
wrote then holds what the first run left there, and every other slot holds what it held.
-/
theorem run_repeats {fuel : Nat} {final : EvalState}
    (returns : (func.run arguments fuel).run {} = .ok result final) :
    (∃ again, (func.run arguments fuel).run final = .ok result again ∧
      (∀ slot : SlotId, again.memory[slot]? = final.memory[slot]?) ∧
      ∀ id word, func.Evaluates arguments again id word ↔
        func.Evaluates arguments final id word) ∧
    ∀ leftovers, func.Faithful arguments leftovers →
      ∃ after, (func.run arguments fuel).run leftovers = .ok result after ∧
        (∀ slot : SlotId,
          after.memory[slot]? = (final.memory[slot]?).or leftovers.memory[slot]?) ∧
        ∀ id word, func.Evaluates arguments final id word →
          func.Evaluates arguments after id word := by
  have faithful : func.Faithful arguments final := (exists_finishes_of_run returns).1
  refine ⟨?_, fun leftovers faithful_leftovers => ?_⟩
  · rcases exists_run_atop returns faithful with ⟨again, returns_again, seen, faithful_again⟩
    rw [Snapshot.atop_self] at seen
    refine ⟨again, returns_again, fun slot => congrArg (Snapshot.cells · slot) seen, ?_⟩
    intro id word
    rw [evaluates_iff faithful_again, evaluates_iff faithful, seen]
  · rcases exists_run_atop returns faithful_leftovers with ⟨after, runs, seen, faithful_after⟩
    refine ⟨after, runs, fun slot => congrArg (Snapshot.cells · slot) seen, ?_⟩
    intro id word known
    rw [evaluates_iff faithful] at known
    rw [evaluates_iff faithful_after, seen]
    exact Snapshot.words_atop known _

/-- Calls that build a loop which counts an argument down in a slot. -/
def countingCalls : List Call :=
  [.allocate (.int 64) "counter", .emit 0 (.store 0 0), .terminate 0 (.branch 1),
    .emit 1 (.load 0), .constant (.int 64) 1, .emit 1 (.binary .sub 4 5), .emit 1 (.store 0 6),
    .constant (.int 64) 0, .emit 1 (.compare .eq 6 8), .terminate 1 (.branchIf 9 2 1),
    .emit 2 (.load 0), .terminate 2 (.ret (some 11))]

def countingSample : Function :=
  ((countingCalls.mapM Call.build).run
    (.empty "sample" [.int 64] ["entry", "body", "exit"])).2

/-- With the counter at zero from the first run, the second one counts down from three again. -/
theorem run_repeats_countingSample :
    ∃ final, (countingSample.run #[3] 14).run {} = .ok (some 0) final ∧
      final.memory[(0 : SlotId)]? = some 0 ∧
      ∃ again, (countingSample.run #[3] 14).run final = .ok (some 0) again ∧
        ∀ slot : SlotId, again.memory[slot]? = final.memory[slot]? := by
  have returns : ∃ final, (countingSample.run #[3] 14).run {} = .ok (some 0) final ∧
      final.memory[(0 : SlotId)]? = some 0 :=
    ⟨_, by cbv, by cbv⟩
  rcases returns with ⟨final, returns, zero⟩
  rcases (run_repeats returns).1 with ⟨again, returns_again, same, -⟩
  exact ⟨final, returns, zero, again, returns_again, same⟩

end Function

end RegisterFlow
