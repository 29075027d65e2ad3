import Mathlib
import RegisterFlow.Proofs.Code.Calls
import RegisterFlow.Proofs.Execution.Points

/-!
# Fuel

Fuel bounds a run and changes nothing else. Where every cycle of branches contains a block with an
instruction, an execution makes only so many jumps between instructions, so every run ends by
itself or for want of fuel. The latter happens when the execution comes to an instruction for which
no fuel is left, and what ends otherwise ends the same with more fuel.
-/

namespace RegisterFlow

open Relation (TransGen)

/-- Failures with which a run is cut off, instead of coming to an end by itself. -/
def EvalError.IsCutoff : EvalError → Prop
  | outOfFuel _ | endlessJumps _ => True
  | _ => False

/-- A step is never cut off. -/
def Uncut {α : Type} (step : Eval α) : Prop :=
  ∀ state failure after, step.run state = .error failure after → ¬ failure.IsCutoff

section Uncut

variable {α β : Type} {step : Eval α}

theorem uncut_pure (answer : α) : Uncut (pure answer) := by
  rintro state failure after ⟨⟩

theorem uncut_throw (failure : EvalError) (ordinary : ¬ failure.IsCutoff) :
    Uncut (throw failure : Eval α) := by
  rintro state _ after ⟨⟩
  exact ordinary

theorem uncut_get : Uncut (get : Eval EvalState) := by
  rintro state failure after ⟨⟩

theorem uncut_modify (change : EvalState → EvalState) : Uncut (modify change : Eval PUnit) := by
  rintro state failure after ⟨⟩

theorem Uncut.bind {next : α → Eval β} (first : Uncut step)
    (second : ∀ answer, Uncut (next answer)) : Uncut (step >>= next) := by
  intro state failure after fails
  rw [EStateM.run_bind] at fails
  cases ran : step.run state with
  | error early middle =>
      rw [ran] at fails
      cases fails
      exact first state failure after ran
  | ok answer middle =>
      rw [ran] at fails
      exact second answer middle failure after fails

theorem uncut_widthOf (ty : Ty) : Uncut (Eval.widthOf ty) := by
  unfold Eval.widthOf
  split
  · exact uncut_pure _
  · exact uncut_throw _ fun cut => cut

end Uncut

namespace Function

variable {func : Function} {arguments : Array UInt64}

theorem uncut_compute {read : ValueId → Eval UInt64} (reads : ∀ operand, Uncut (read operand))
    (id : ValueId) : Uncut (func.compute arguments read id) := by
  simp only [compute]
  cases func.operation id with
  | argument index =>
      dsimp only
      split
      · exact uncut_pure _
      · exact uncut_throw _ fun cut => cut
  | constant | slotAddress => exact uncut_pure _
  | binary op lhs rhs | compare comparison lhs rhs | overflow check lhs rhs =>
      exact (uncut_widthOf _).bind fun _ => (reads lhs).bind fun _ => (reads rhs).bind fun _ =>
        uncut_pure _
  | select condition ifTrue ifFalse =>
      refine (reads condition).bind fun word => ?_
      split
      · exact reads ifTrue
      · exact reads ifFalse
  | cast kind operand => exact (reads operand).bind fun _ => uncut_pure _
  | funnel direction high low amount =>
      exact (uncut_widthOf _).bind fun _ => (reads high).bind fun _ => (reads low).bind fun _ =>
        (reads amount).bind fun _ => uncut_pure _
  | load slot =>
      refine uncut_get.bind fun state => ?_
      split
      · exact uncut_pure _
      · exact uncut_throw _ fun cut => cut
  | store | branch | branchIf | ret =>
      exact uncut_throw _ fun cut => cut

theorem uncut_operand (id : ValueId) : Uncut (func.operand arguments id) := by
  refine uncut_get.bind fun state => ?_
  split
  · exact uncut_pure _
  · refine Uncut.bind ?_ fun word => (uncut_modify _).bind fun _ => uncut_pure _
    split
    · apply uncut_compute
      exact fun inner => uncut_throw _ fun cut => cut
    · exact uncut_throw _ fun cut => cut

theorem uncut_execute (id : ValueId) : Uncut (func.execute arguments id) := by
  unfold execute
  split
  · exact (uncut_operand _).bind fun _ => uncut_modify _
  · exact (uncut_compute uncut_operand id).bind fun _ => uncut_modify _

theorem uncut_leave (block : BlockId) : Uncut (func.leave arguments block) := by
  unfold leave
  split
  · exact uncut_pure _
  · exact (uncut_operand _).bind fun _ => uncut_pure _
  · exact (uncut_operand _).bind fun _ => uncut_pure _
  · exact uncut_pure _
  · exact uncut_throw _ fun cut => cut

/-! ### Branches -/

/-- The blocks to which a block may branch. -/
def targets (func : Function) (block : BlockId) : List BlockId :=
  match (func.block block).terminator.map func.operation with
  | some (.branch target) => [target]
  | some (.branchIf _ ifTrue ifFalse) => [ifTrue, ifFalse]
  | _ => []

/-- A block may branch to another one. -/
def BranchesTo (func : Function) (source target : BlockId) : Prop :=
  target ∈ func.targets source

/-- A block without instructions may branch to another one. -/
def IdlesTo (func : Function) (source target : BlockId) : Prop :=
  func.body source = [] ∧ func.BranchesTo source target

/-- Every cycle of branches contains a block with an instruction. -/
def CyclesWork (func : Function) : Prop :=
  ∀ first cycle, (first :: cycle).IsChain func.BranchesTo → cycle.getLast? = some first →
    ∃ block ∈ cycle, func.body block ≠ []

theorem BranchesTo.lt_size {source target : BlockId} (branches : func.BranchesTo source target) :
    source < func.blocks.size := by
  by_contra outside
  have unterminated : (func.block source).terminator = none := by
    rw [Function.block, Array.getElem?_eq_none (Nat.le_of_not_lt outside)]
    rfl
  rw [BranchesTo, targets, unterminated] at branches
  cases branches

theorem branchesTo_of_leave {block target : BlockId} {before after : EvalState}
    (jumps : (func.leave arguments block).run before = .ok (.jump target) after) :
    func.BranchesTo block target := by
  unfold leave at jumps
  split at jumps
  · next ends =>
    cases jumps
    rw [BranchesTo, targets, ends]
    exact List.mem_singleton_self _
  · next condition ifTrue ifFalse ends =>
    rw [EStateM.run_bind] at jumps
    cases read : (func.operand arguments condition).run before with
    | error failure middle =>
        rw [read] at jumps
        cases jumps
    | ok word middle =>
        rw [read] at jumps
        cases jumps
        rw [BranchesTo, targets, ends]
        by_cases taken : word &&& 1 = 1 <;> simp [taken]
  · next result ends =>
    rw [EStateM.run_bind] at jumps
    cases read : (func.operand arguments result).run before with
    | error failure middle | ok word middle =>
        rw [read] at jumps
        cases jumps
  · cases jumps
  · cases jumps

/-- Blocks without instructions that lead to a block are listed on a chain of branches. -/
theorem exists_chain_of_idles {source target : BlockId}
    (idles : TransGen func.IdlesTo source target) :
    func.body source = [] ∧ ∃ path, (source :: path).IsChain func.BranchesTo ∧
      path.getLast? = some target ∧ ∀ block ∈ path, block = target ∨ func.body block = [] := by
  induction idles using TransGen.head_induction_on with
  | single last =>
      refine ⟨last.1, [target], ?_, rfl, ?_⟩
      · exact List.isChain_pair.mpr last.2
      · simp
  | @head source next first _ ih =>
      rcases ih with ⟨next_idle, path, chain, ends, idle⟩
      refine ⟨first.1, next :: path, List.isChain_cons_cons.mpr ⟨first.2, chain⟩, ?_, ?_⟩
      · rw [List.getLast?_cons, ends, Option.getD_some]
      · exact List.forall_mem_cons.mpr ⟨.inr next_idle, idle⟩

theorem CyclesWork.not_idles (works : func.CyclesWork) (block : BlockId) :
    ¬ TransGen func.IdlesTo block block := by
  intro idles
  rcases exists_chain_of_idles idles with ⟨block_idle, path, chain, ends, idle⟩
  rcases works block path chain ends with ⟨busy, mem, instructions⟩
  rcases idle busy mem with rfl | nothing
  · exact instructions block_idle
  · exact instructions nothing

/-! ### Jumps between instructions -/

/--
Different blocks that an execution has left since the last instruction, on its way to what remains
of a block. All but the first one have no instructions.
-/
structure Lately (func : Function) (block : BlockId) (remaining : List ValueId)
    (passed : List BlockId) : Prop where
  nodup : passed.Nodup
  bounded : ∀ earlier ∈ passed, earlier < func.blocks.size
  leads : ∀ earlier ∈ passed, func.body earlier ≠ [] ∨ TransGen func.IdlesTo earlier block
  whole : passed ≠ [] → remaining = func.body block

variable {block target : BlockId} {remaining : List ValueId} {passed : List BlockId}

theorem lately_nil (func : Function) (block : BlockId) (remaining : List ValueId) :
    func.Lately block remaining [] :=
  ⟨List.nodup_nil, by simp, by simp, by simp⟩

theorem Lately.length_le (lately : func.Lately block remaining passed) :
    passed.length ≤ func.blocks.size := by
  have within : passed ⊆ List.range func.blocks.size :=
    fun earlier mem => List.mem_range.mpr (lately.bounded earlier mem)
  simpa using (lately.nodup.subperm within).length_le

/-- A block is not left twice without an instruction in between. -/
theorem Lately.jump (lately : func.Lately block [] passed) (works : func.CyclesWork)
    (branches : func.BranchesTo block target) :
    func.Lately target (func.body target) (block :: passed) := by
  have idle : ∀ earlier ∈ passed, func.body block = [] :=
    fun earlier mem => (lately.whole (List.ne_nil_of_mem mem)).symm
  refine ⟨List.nodup_cons.mpr ⟨?_, lately.nodup⟩, ?_, ?_, fun _ => rfl⟩
  · intro mem
    rcases lately.leads block mem with busy | circle
    · exact busy (idle block mem)
    · exact works.not_idles block circle
  · exact List.forall_mem_cons.mpr ⟨branches.lt_size, lately.bounded⟩
  · intro earlier mem
    rcases List.mem_cons.mp mem with rfl | old
    · by_cases nothing : func.body earlier = []
      · exact .inr (.single ⟨nothing, branches⟩)
      · exact .inl nothing
    · exact (lately.leads earlier old).imp_right (·.tail ⟨idle earlier old, branches⟩)

/-- An execution from a fresh state comes to a point after so many instructions and jumps. -/
inductive Reaches (func : Function) (arguments : Array UInt64) :
    (executed jumped : Nat) → Point → Prop where
  | start : Reaches func arguments 0 0 (func.start {})
  | instruction {executed jumped : Nat} {block : BlockId} {id : ValueId} {rest : List ValueId}
      {before after : EvalState}
      (reaches : Reaches func arguments executed jumped ⟨block, id :: rest, before⟩)
      (executes : (func.execute arguments id).run before = .ok () after) :
      Reaches func arguments (executed + 1) jumped ⟨block, rest, after⟩
  | jump {executed jumped : Nat} {block target : BlockId} {before after : EvalState}
      (reaches : Reaches func arguments executed jumped ⟨block, [], before⟩)
      (jumps : (func.leave arguments block).run before = .ok (.jump target) after) :
      Reaches func arguments executed (jumped + 1) ⟨target, func.body target, after⟩

/-- What a run still has to do when it has come to a point, with the jumps that are left to it. -/
def runOn (func : Function) (arguments : Array UInt64) (limit fuel jumps : Nat) (point : Point) :
    EStateM.Result EvalError EvalState (Option UInt64) :=
  (func.runFrom arguments limit fuel jumps point.block point.remaining).run point.state

/--
An execution makes only so many jumps between instructions, and whatever it reaches, a run with
enough fuel reaches as well.
-/
theorem Reaches.exists_lately (works : func.CyclesWork) {executed jumped : Nat} {point : Point}
    (reaches : func.Reaches arguments executed jumped point) :
    ∃ passed, func.Lately point.block point.remaining passed ∧
      jumped ≤ executed * func.blocks.size + passed.length ∧
      ∀ fuel, executed ≤ fuel → (func.run arguments fuel).run {} =
        func.runOn arguments fuel (fuel - executed) (func.blocks.size - passed.length) point := by
  induction reaches with
  | start => exact ⟨[], lately_nil .., Nat.zero_le _, fun fuel _ => rfl⟩
  | @instruction executed jumped block id rest before after _ executes ih =>
      rcases ih with ⟨passed, lately, bound, runs⟩
      have short := lately.length_le
      refine ⟨[], lately_nil .., ?_, fun fuel enough => ?_⟩
      · rw [Nat.succ_mul, List.length_nil, Nat.add_zero]
        exact Nat.le_trans bound (Nat.add_le_add_left short _)
      · have spent : fuel - executed = fuel - (executed + 1) + 1 := by omega
        rw [runs fuel (Nat.le_of_succ_le enough), runOn, spent, runFrom_succ_cons,
          EStateM.run_bind, executes]
        rfl
  | @jump executed jumped block target before after _ jumps ih =>
      rcases ih with ⟨passed, lately, bound, runs⟩
      have further := lately.jump works (branchesTo_of_leave jumps)
      have short := further.length_le
      rw [List.length_cons] at short
      refine ⟨block :: passed, further, ?_, fun fuel enough => ?_⟩
      · rw [List.length_cons]
        omega
      · have left : func.blocks.size - passed.length =
            func.blocks.size - (block :: passed).length + 1 := by
          rw [List.length_cons]
          omega
        rw [runs fuel enough, runOn, runFrom_nil, EStateM.run_bind, jumps, left]
        rfl

/-- What the outcome of a run says about the execution. -/
def Explains (func : Function) (arguments : Array UInt64) (limit bound : Nat) :
    EStateM.Result EvalError EvalState (Option UInt64) → Prop
  | .ok result final => ∃ executed ≤ bound, ∃ jumped last,
      func.Reaches arguments executed jumped last ∧ func.Leaves arguments result final last
  | .error failure _ => failure.IsCutoff → failure = .outOfFuel limit ∧
      ∃ jumped block id rest before, func.Reaches arguments bound jumped ⟨block, id :: rest, before⟩

/-- What a run does from a point that an execution comes to, the execution does. -/
theorem Reaches.explains (works : func.CyclesWork) {executed jumped limit fuel jumps : Nat}
    {block : BlockId} {remaining : List ValueId} {state : EvalState} {passed : List BlockId}
    (reaches : func.Reaches arguments executed jumped ⟨block, remaining, state⟩)
    (lately : func.Lately block remaining passed)
    (room : func.blocks.size ≤ jumps + passed.length) :
    func.Explains arguments limit (executed + fuel)
      ((func.runFrom arguments limit fuel jumps block remaining).run state) := by
  cases remaining with
  | nil =>
      rw [runFrom_nil, EStateM.run_bind]
      cases leaves : (func.leave arguments block).run state with
      | error failure middle => exact fun cut => absurd cut (uncut_leave _ _ _ _ leaves)
      | ok exit middle =>
          cases exit with
          | result word =>
              exact ⟨executed, Nat.le_add_right .., jumped, _, reaches, .intro leaves⟩
          | jump target =>
              have further := lately.jump works (branchesTo_of_leave leaves)
              have short := further.length_le
              rw [List.length_cons] at short
              cases jumps with
              | zero => omega
              | succ jumps =>
                  apply (reaches.jump leaves).explains works further
                  rw [List.length_cons]
                  omega
  | cons id rest =>
      cases fuel with
      | zero =>
          rw [runFrom_zero_cons]
          exact fun _ => ⟨rfl, jumped, block, id, rest, state, reaches⟩
      | succ fuel =>
          rw [runFrom_succ_cons, EStateM.run_bind]
          cases executes : (func.execute arguments id).run state with
          | error failure middle => exact fun cut => absurd cut (uncut_execute _ _ _ _ executes)
          | ok answer middle =>
              have others : func.Explains arguments limit (executed + 1 + fuel)
                  ((func.runFrom arguments limit fuel func.blocks.size block rest).run middle) :=
                (reaches.instruction executes).explains works (lately_nil ..) (Nat.le_refl _)
              rw [Nat.add_assoc, Nat.add_comm 1] at others
              exact others
termination_by (fuel, jumps)
decreasing_by
  · exact Prod.Lex.right _ (by omega)
  · exact Prod.Lex.left _ _ (by omega)

/-- More fuel changes nothing, except for a run that has used up its fuel. -/
theorem runFrom_more (limit wider : Nat) {fuel extra jumps : Nat} {block : BlockId}
    {remaining : List ValueId} {state : EvalState} :
    (∃ final, (func.runFrom arguments limit fuel jumps block remaining).run state =
        .error (.outOfFuel limit) final) ∨
      (func.runFrom arguments wider (fuel + extra) jumps block remaining).run state =
        (func.runFrom arguments limit fuel jumps block remaining).run state := by
  cases remaining with
  | nil =>
      rw [runFrom_nil, runFrom_nil, EStateM.run_bind, EStateM.run_bind]
      cases (func.leave arguments block).run state with
      | error failure middle => exact .inr rfl
      | ok exit middle =>
          cases exit with
          | result word => exact .inr rfl
          | jump target =>
              cases jumps with
              | zero => exact .inr rfl
              | succ jumps => exact runFrom_more limit wider
  | cons id rest =>
      cases fuel with
      | zero =>
          rw [runFrom_zero_cons]
          exact .inl ⟨state, rfl⟩
      | succ fuel =>
          rw [Nat.succ_add, runFrom_succ_cons, runFrom_succ_cons, EStateM.run_bind,
            EStateM.run_bind]
          cases (func.execute arguments id).run state with
          | error failure middle => exact .inr rfl
          | ok answer middle => exact runFrom_more limit wider
termination_by (fuel, jumps)
decreasing_by
  · exact Prod.Lex.right _ (by omega)
  · exact Prod.Lex.left _ _ (by omega)

theorem explains_run (works : func.CyclesWork) (fuel : Nat) :
    func.Explains arguments fuel fuel ((func.run arguments fuel).run {}) := by
  have explains : func.Explains arguments fuel (0 + fuel) ((func.run arguments fuel).run {}) :=
    Reaches.start.explains works (lately_nil ..) (Nat.le_refl _)
  rwa [Nat.zero_add] at explains

/--
Where every cycle of branches contains a block with an instruction, runs from a fresh state end:
none is cut off because it would jump forever, and an execution makes only so many jumps with each
number of instructions. A run that ends otherwise than for want of fuel ends in the same way and in
the same state with more fuel; it returns just where the execution leaves the function after no more
instructions than there is fuel; and it is out of fuel if and only if the execution comes to an
instruction after as many instructions as there was fuel for.
-/
theorem fuel_bounds_runs (works : func.CyclesWork) (arguments : Array UInt64) :
    (∀ fuel block final,
      (func.run arguments fuel).run {} ≠ .error (.endlessJumps block) final) ∧
    (∀ executed jumped point, func.Reaches arguments executed jumped point →
      jumped ≤ (executed + 1) * func.blocks.size) ∧
    (∀ fuel more, fuel ≤ more →
      (∀ limit final, (func.run arguments fuel).run {} ≠ .error (.outOfFuel limit) final) →
      (func.run arguments more).run {} = (func.run arguments fuel).run {}) ∧
    (∀ fuel result final, (func.run arguments fuel).run {} = .ok result final ↔
      ∃ executed ≤ fuel, ∃ jumped last, func.Reaches arguments executed jumped last ∧
        func.Leaves arguments result final last) ∧
    ∀ fuel, (∃ final, (func.run arguments fuel).run {} = .error (.outOfFuel fuel) final) ↔
      ∃ jumped block id rest before,
        func.Reaches arguments fuel jumped ⟨block, id :: rest, before⟩ := by
  refine ⟨?_, ?_, ?_, ?_, ?_⟩
  · intro fuel block final endless
    have explains : func.Explains arguments fuel fuel ((func.run arguments fuel).run {}) :=
      explains_run works fuel
    rw [endless] at explains
    cases (explains trivial).1
  · intro executed jumped point reaches
    rcases reaches.exists_lately works with ⟨passed, lately, bound, -⟩
    rw [Nat.succ_mul]
    exact Nat.le_trans bound (Nat.add_le_add_left lately.length_le _)
  · intro fuel more enough ended
    rcases Nat.exists_eq_add_of_le enough with ⟨extra, rfl⟩
    rcases runFrom_more fuel (fuel + extra) with ⟨final, spent⟩ | same
    · exact absurd spent (ended fuel final)
    · exact same
  · intro fuel result final
    constructor
    · intro returns
      have explains : func.Explains arguments fuel fuel ((func.run arguments fuel).run {}) :=
        explains_run works fuel
      rwa [returns] at explains
    · rintro ⟨executed, within, jumped, _, reaches, ⟨leaves⟩⟩
      rcases reaches.exists_lately works with ⟨passed, -, -, runs⟩
      rw [runs fuel within, runOn, runFrom_nil, EStateM.run_bind, leaves]
      rfl
  · intro fuel
    constructor
    · rintro ⟨final, spent⟩
      have explains : func.Explains arguments fuel fuel ((func.run arguments fuel).run {}) :=
        explains_run works fuel
      rw [spent] at explains
      exact (explains trivial).2
    · rintro ⟨jumped, block, id, rest, before, reaches⟩
      rcases reaches.exists_lately works with ⟨passed, -, -, runs⟩
      rw [runs fuel (Nat.le_refl _), runOn, Nat.sub_self, runFrom_zero_cons]
      exact ⟨before, rfl⟩

/-- Calls that build a loop over a sum and an empty block, which is left for an even argument. -/
def spinningCalls : List Call :=
  [.emit 0 (.binary .add 0 0), .terminate 0 (.branch 1), .terminate 1 (.branchIf 0 0 2),
    .terminate 2 (.ret (some 1))]

def spinningSample : Function :=
  ((spinningCalls.mapM Call.build).run
    (.empty "sample" [.int 32] ["entry", "rest", "exit"])).2

/-- Both ways around the loop lead through the entry. -/
theorem cyclesWork_spinningSample : spinningSample.CyclesWork := by
  have busy : spinningSample.body 0 ≠ [] := by decide +kernel
  have around : ∀ source < spinningSample.blocks.size, ∀ target ∈ spinningSample.targets source,
      source = 0 ∨ target = 0 ∨ spinningSample.targets target = [] := by
    decide +kernel
  intro first cycle chain ends
  refine ⟨0, ?_, busy⟩
  cases cycle with
  | nil => cases ends
  | cons next path =>
      rw [List.isChain_cons_cons] at chain
      rcases around first chain.1.lt_size next chain.1 with rfl | rfl | final
      · exact List.mem_of_getLast? ends
      · exact List.mem_cons_self
      · cases path with
        | nil =>
            cases ends
            exact absurd chain.1 (by simp [BranchesTo, final])
        | cons other path =>
            rw [List.isChain_cons_cons] at chain
            exact absurd chain.2.1 (by simp [BranchesTo, final])

/-- With an odd argument the loop uses up its fuel; with an even one it takes one instruction. -/
theorem fuel_bounds_runs_spinningSample :
    spinningSample.CyclesWork ∧
      (∃ jumped block id rest before,
        spinningSample.Reaches #[1] 10 jumped ⟨block, id :: rest, before⟩) ∧
      (∃ final, (spinningSample.run #[2] 1).run {} = .ok (some 4) final ∧
        (spinningSample.run #[2] 9).run {} = .ok (some 4) final) := by
  have works := cyclesWork_spinningSample
  rcases fuel_bounds_runs works #[1] with ⟨-, -, -, -, spent⟩
  rcases fuel_bounds_runs works #[2] with ⟨-, -, more, -, -⟩
  have returns : ∃ final, (spinningSample.run #[2] 1).run {} = .ok (some 4) final :=
    ⟨_, by cbv⟩
  refine ⟨works, (spent 10).mp ⟨_, by cbv⟩, ?_⟩
  rcases returns with ⟨final, returns⟩
  refine ⟨final, returns, ?_⟩
  rw [more 1 9 (by decide) (by simp [returns]), returns]

end Function

end RegisterFlow
