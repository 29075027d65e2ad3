import Mathlib
import RegisterFlow.Proofs.Code.ResultTypes
import RegisterFlow.Proofs.Execution.Inheritance
import RegisterFlow.Proofs.Execution.Points

/-!
# Canonical words

A word of an integer type is canonical if it is below two to the width. Arithmetic makes its result
canonical; selections, loads and funnel shifts that do not move anything pass on what they read.
Where the types of what is passed on match, every word is canonical that an evaluation remembers or
stores, whatever was asked of it before.
-/

namespace RegisterFlow

open Relation (ReflTransGen)

/-- Whether a word is canonical for a type. Words of other than integer types always are. -/
def Ty.Canonical (ty : Ty) (word : UInt64) : Prop :=
  ∀ width, ty = .int width → word.toNat < 2 ^ min width 64

/-- What is asked of an evaluation: to run, or to compute a value on demand. -/
inductive Request where
  | run (fuel : Nat)
  | demand (id : ValueId)

/-- The state that a step leaves, whether it succeeds or fails. -/
def Eval.leaves {α : Type} (step : Eval α) (state : EvalState) : EvalState :=
  match step.run state with
  | .ok _ after | .error _ after => after

theorem Upholds.leaves {α : Type} {kept : EvalState → Prop} {good : α → Prop} {step : Eval α}
    {state : EvalState} (upholds : Upholds kept good step) (held : kept state) :
    kept (step.leaves state) := by
  have whole := upholds state held
  unfold Eval.leaves
  split at whole <;> next ran => simpa [ran] using whole.1

namespace Function

/-- The state after an request, whether it succeeds or fails. -/
def answer (func : Function) (arguments : Array UInt64) (state : EvalState) : Request → EvalState
  | .run fuel => (func.run arguments fuel).leaves state
  | .demand id => (func.demand arguments id).leaves state

/-- The state after requests to one evaluation, one after the other. -/
def answerAll (func : Function) (arguments : Array UInt64) (requests : List Request) : EvalState :=
  requests.foldl (func.answer arguments) {}

/-- The operands that an operation may pass on have one type, and what it stores that of the slot. -/
def Matches (func : Function) : Operation → Prop
  | .select _ ifTrue ifFalse => func.ty ifTrue = func.ty ifFalse
  | .funnel _ high low _ => func.ty high = func.ty low
  | .store slot operand => func.ty operand = (func.slot slot).ty
  | _ => True

instance (func : Function) : DecidablePred func.Matches
  | .select .. | .funnel .. | .store .. => inferInstanceAs (Decidable (_ = _))
  | .argument _ | .constant _ | .binary .. | .compare .. | .cast .. | .overflow ..
  | .slotAddress _ | .load _ | .branch _ | .branchIf .. | .ret _ => isTrue trivial

/-- All operations of a function match. -/
structure Matched (func : Function) : Prop where
  all : ∀ id, func.Matches (func.operation id)

theorem matched_of_lt {func : Function}
    (held : ∀ id < func.values.size, func.Matches (func.operation id)) : func.Matched := by
  refine ⟨fun id => ?_⟩
  by_cases inside : id < func.values.size
  · exact held id inside
  · rw [operation, value_of_size_le (Nat.le_of_not_lt inside)]
    trivial

end Function

namespace Ty

variable {ty : Ty} {word : UInt64}

theorem canonical_truncate (ty : Ty) (word : UInt64) :
    ty.Canonical (Word.truncate ty.bits word) := by
  rintro width rfl
  exact Word.truncate_lt width word

theorem canonical_of_lt (below : ∀ width, ty = .int width → word.toNat < 2 ^ width) :
    ty.Canonical word := by
  intro width typed
  rcases Nat.le_total width 64 with narrow | wide
  · rw [Nat.min_eq_left narrow]
    exact below width typed
  · rw [Nat.min_eq_right wide]
    exact word.toNat_lt

theorem Canonical.lt {width : Nat} (canonical : ty.Canonical word) (typed : ty = .int width)
    (narrow : width ≤ 64) : word.toNat < 2 ^ width := by
  have below := canonical width typed
  rwa [Nat.min_eq_left narrow] at below

theorem canonical_bool (truth : Bool) : Ty.bool.Canonical truth.toUInt64 := by
  rintro width ⟨⟩
  cases truth <;> decide

end Ty

namespace Function

variable {func : Function} {arguments : Array UInt64}

theorem canonical_shift {direction : Direction} {width amount : Nat} {high low : UInt64}
    (high_fits : (Ty.int width).Canonical high) (low_fits : (Ty.int width).Canonical low) :
    (Ty.int width).Canonical (direction.shift width high low amount) := by
  cases direction with
  | left =>
      simp only [Direction.shift]
      split
      · exact high_fits
      · exact Ty.canonical_truncate (.int width) _
  | right =>
      simp only [Direction.shift]
      split
      · exact low_fits
      · exact Ty.canonical_truncate (.int width) _

/-- What is computed from canonical words is canonical. -/
theorem canonical_of_derives (sound : func.Sound) (typed : func.ResultsTyped)
    (matched : func.Matched) {id : ValueId} {word : UInt64}
    (derives : func.Derives arguments (fun operand => (func.ty operand).Canonical)
      (fun slot => (func.slot slot).ty.Canonical) id word) :
    (func.ty id).Canonical word := by
  have gives := typed id
  have fits := matched.all id
  unfold Derives at derives
  cases operation : func.operation id with
  | argument index =>
      rw [operation] at derives
      rcases derives with ⟨given, -, rfl⟩
      exact Ty.canonical_truncate _ _
  | constant payload =>
      rw [operation] at derives
      subst derives
      exact Ty.canonical_of_lt fun width int => sound.fitting id width word int operation
  | slotAddress slot =>
      rw [operation] at gives
      rintro width int
      cases int.symm.trans gives
  | binary op lhs rhs =>
      rw [operation] at derives
      rcases derives with ⟨width, left, right, wide, -, -, rfl⟩
      rw [(Ty.wordBits?_eq_some_iff.mp wide).1]
      exact Ty.canonical_truncate (.int width) _
  | compare comparison lhs rhs =>
      rw [operation] at derives gives
      rcases derives with ⟨width, left, right, -, -, -, rfl⟩
      exact gives ▸ Ty.canonical_bool _
  | select condition ifTrue ifFalse =>
      rw [operation] at derives gives fits
      rcases derives with ⟨truth, -, arm⟩
      split at arm
      · exact gives.2 ▸ arm
      · exact gives.2 ▸ fits ▸ arm
  | cast kind operand =>
      rw [operation] at derives
      rcases derives with ⟨source, -, rfl⟩
      exact Ty.canonical_truncate _ _
  | overflow check lhs rhs =>
      rw [operation] at derives gives
      rcases derives with ⟨width, left, right, -, -, -, rfl⟩
      exact gives ▸ Ty.canonical_bool _
  | funnel direction high low amount =>
      rw [operation] at derives gives fits
      rcases derives with ⟨width, upper, lower, shift, wide, upper_fits, lower_fits, -, rfl⟩
      have int := (Ty.wordBits?_eq_some_iff.mp wide).1
      rw [← fits] at lower_fits
      rw [gives.2, int] at upper_fits lower_fits
      rw [int]
      exact canonical_shift upper_fits lower_fits
  | load slot =>
      rw [operation] at derives gives
      exact gives.2 ▸ derives
  | store | branch | branchIf | ret =>
      rw [operation] at derives
      cases derives

/-- That words are canonical is inherited in matched functions. -/
theorem inherits_canonical (sound : func.Sound) (typed : func.ResultsTyped)
    (matched : func.Matched) :
    func.Inherits arguments (fun id => (func.ty id).Canonical)
      (fun slot => (func.slot slot).ty.Canonical) where
  derives _ _ := canonical_of_derives sound typed matched
  stores id slot operand word stores canonical := by
    have fits := matched.all id
    rw [stores] at fits
    exact fits ▸ canonical

section Inherits

variable {good : ValueId → UInt64 → Prop} {held : SlotId → UInt64 → Prop} {state : EvalState}

theorem Inherits.keeps_answer (inherits : func.Inherits arguments good held)
    (grounded : func.Grounded) (keeps : state.Keeps good held) (request : Request) :
    (func.answer arguments state request).Keeps good held := by
  cases request with
  | run fuel =>
      exact (upholds_runFrom inherits fuel fuel func.blocks.size BlockId.entry _).leaves keeps
  | demand id =>
      exact (upholds_demandWithin grounded inherits (Nat.lt_succ_self id)).leaves keeps

/-- Whatever is asked, the words and contents that are left have an inherited property. -/
theorem Inherits.keeps_answerAll (inherits : func.Inherits arguments good held)
    (grounded : func.Grounded) (requests : List Request) :
    (func.answerAll arguments requests).Keeps good held := by
  suffices further : ∀ state : EvalState, state.Keeps good held →
      (requests.foldl (func.answer arguments) state).Keeps good held from
    further {} EvalState.keeps_empty
  induction requests with
  | nil => exact fun state keeps => keeps
  | cons request requests ih =>
      exact fun state keeps => ih _ (inherits.keeps_answer grounded keeps request)

end Inherits

/--
In a function that is built by calls, and matched, all words are canonical that any requests leave
behind. A further run that returns a word has come to a block that ends with returning some value,
and the word is canonical for the type of this value.
-/
theorem canonical_of_requests (built : func.Built) (matched : func.Matched)
    (arguments : Array UInt64) (requests : List Request) :
    (∀ id width word, func.ty id = .int width → width ≤ 64 →
      (func.answerAll arguments requests).computed[id]? = some word → word.toNat < 2 ^ width) ∧
    (∀ slot width word, (func.slot slot).ty = .int width → width ≤ 64 →
      (func.answerAll arguments requests).memory[slot]? = some word → word.toNat < 2 ^ width) ∧
    ∀ fuel word final,
      (func.run arguments fuel).run (func.answerAll arguments requests) = .ok (some word) final →
      ∃ block before result,
        ReflTransGen (func.Step arguments) (func.start (func.answerAll arguments requests))
          ⟨block, [], before⟩ ∧
        (func.leave arguments block).run before = .ok (.result (some word)) final ∧
        (func.block block).terminator.map func.operation = some (.ret (some result)) ∧
        ∀ width, func.ty result = .int width → width ≤ 64 → word.toNat < 2 ^ width := by
  have inherits : func.Inherits arguments (fun id => (func.ty id).Canonical)
      (fun slot => (func.slot slot).ty.Canonical) :=
    inherits_canonical built.sound built.resultsTyped matched
  have keeps := inherits.keeps_answerAll built.sound.grounded requests
  refine ⟨?_, ?_, ?_⟩
  · intro id width word typed narrow computed
    exact (keeps.computed id word computed).lt typed narrow
  · intro slot width word typed narrow memory
    exact (keeps.memory slot word memory).lt typed narrow
  · intro fuel word final returns
    rcases exists_leaves_of_run returns with ⟨_, path, ⟨leaves⟩⟩
    have kept := inherits.keeps_of_path path keeps
    have left := (upholds_leave inherits _).of_ok kept leaves
    rcases left.2 word rfl with ⟨result, terminator, canonical⟩
    exact ⟨_, _, result, path, leaves, terminator, fun width => canonical.lt⟩

/-- Calls that build a funnel shift of two bytes, a selection, a store and a load. -/
def passingCalls : List Call :=
  [.constant .bool 1, .allocate (.int 8) "kept", .emit 0 (.funnel .left 0 1 0),
    .emit 0 (.select 2 4 0), .emit 0 (.store 0 5), .emit 0 (.load 0),
    .terminate 0 (.ret (some 7))]

def passingSample : Function :=
  ((passingCalls.mapM Call.build).run (.empty "sample" [.int 8, .int 8] ["entry"])).2

theorem built_passingSample : passingSample.Built :=
  ⟨"sample", [.int 8, .int 8], ["entry"], passingCalls, by decide +kernel, rfl⟩

theorem matched_passingSample : passingSample.Matched :=
  matched_of_lt (by decide +kernel)

/-- A run on great arguments, after one that failed in the middle, returns a byte. -/
theorem canonical_of_requests_passingSample :
    ∃ word final, word.toNat < 2 ^ 8 ∧
      (passingSample.run #[300, 1000] 10).run
        (passingSample.answerAll #[300, 1000] [.run 2, .demand 7, .demand 5]) =
          .ok (some word) final := by
  rcases canonical_of_requests built_passingSample matched_passingSample #[300, 1000]
    [.run 2, .demand 7, .demand 5] with ⟨-, -, returned⟩
  have returns : ∃ final, (passingSample.run #[300, 1000] 10).run
      (passingSample.answerAll #[300, 1000] [.run 2, .demand 7, .demand 5]) =
        .ok (some 206) final :=
    ⟨_, by cbv⟩
  rcases returns with ⟨final, returns⟩
  rcases returned 10 206 final returns with ⟨block, before, result, -, -, terminator, canonical⟩
  have byte : passingSample.ty result = .int 8 := by
    cases block with
    | zero =>
        have seven : (passingSample.block 0).terminator.map passingSample.operation =
            some (.ret (some 7)) := by
          decide +kernel
        cases seven.symm.trans terminator
        decide +kernel
    | succ block =>
        have outside : passingSample.blocks.size ≤ block + 1 := by
          rw [show passingSample.blocks.size = 1 by decide +kernel]
          omega
        rw [Function.block, Array.getElem?_eq_none outside] at terminator
        cases terminator
  exact ⟨206, final, canonical 8 byte (by decide), returns⟩

end Function

end RegisterFlow
