import Mathlib.Data.List.Nodup
import Mathlib.Data.List.Perm.Subperm
import RegisterFlow.Execution.Run
import RegisterFlow.Proofs.Execution.Progress

/-!
# Runs and executions

A run of a function follows its execution, block after block. It returns what the execution returns
in the end, or it is cut off: when its fuel is used up, or when it jumps without any instruction in
between and repeats itself. If the execution returns, a run is only ever cut off for want of fuel.
-/

namespace RegisterFlow

namespace Function

/-- What is seen when a block is entered after others were visited. -/
inductive Enters (func : Function) (arguments : Array UInt64) :
    List BlockId → BlockId → Snapshot → Prop where
  | entry : Enters func arguments [] BlockId.entry (func.snapshot arguments {})
  | jump {visited : List BlockId} {nearest block : BlockId} {state : EvalState}
      (ends : func.Ends arguments visited nearest state)
      (exits : func.exitFrom? (func.snapshot arguments state) nearest = some (.jump block)) :
      Enters func arguments (nearest :: visited) block (func.snapshot arguments state)

/-- The execution comes to a return, with a result. -/
def Returns (func : Function) (arguments : Array UInt64) (result : Option UInt64) : Prop :=
  ∃ visited block state, func.Ends arguments visited block state ∧
    func.exitFrom? (func.snapshot arguments state) block = some (.result result)

/-- The execution never gets stuck. -/
structure Total (func : Function) (arguments : Array UInt64) : Prop where
  runs : ∀ visited block start, func.Enters arguments visited block start →
    ∃ after, func.traverse arguments start (func.body block) = some after
  exits : ∀ visited block state, func.Ends arguments visited block state →
    ∃ exit, func.exitFrom? (func.snapshot arguments state) block = some exit

variable {func : Function} {arguments : Array UInt64} {visited : List BlockId} {block : BlockId}
  {start next last : Snapshot} {state : EvalState} {result : Option UInt64}
  {limit fuel jumps : Nat}

theorem Enters.exists_ends (enters : func.Enters arguments visited block start)
    (run : func.traverse arguments start (func.body block) = some next) :
    ∃ state, func.Ends arguments visited block state ∧ func.snapshot arguments state = next := by
  cases enters with
  | entry => exact Ends.exists_entry run
  | jump ends exits => exact ends.exists_jump exits run

theorem Ends.exists_enters (ends : func.Ends arguments visited block state) :
    ∃ start, func.Enters arguments visited block start ∧
      func.traverse arguments start (func.body block) = some (func.snapshot arguments state) := by
  cases ends with
  | entry runs => exact ⟨_, .entry, ((advances_forM faithful_empty _).of_ok runs).1⟩
  | jump ends jumps runs =>
      have left := (shows_leave ends.faithful _).of_ok jumps
      have run := ((advances_forM left.2.2 _).of_ok runs).1
      rw [left.2.1] at run
      exact ⟨_, .jump ends left.1, run⟩

/-- Whenever an executable function enters a block, it comes to the end of the block. -/
theorem Enters.exists_traverse {graph : FlowGraph} (executable : func.Executable graph)
    (supplied : func.arguments.length ≤ arguments.size)
    (enters : func.Enters arguments visited block start) :
    ∃ after, func.traverse arguments start (func.body block) = some after := by
  have progress : graph.Arrives visited block → func.Legal arguments start →
      (∀ source ∈ visited, func.Executed (func.body source) start) →
      ∃ after, func.traverse arguments start (func.body block) = some after := by
    intro arrives legal passed
    rcases Function.exists_traverse executable.wellBuilt executable.covered supplied arrives legal
        passed with
      ⟨after, run, _⟩
    exact ⟨after, run⟩
  cases enters with
  | entry =>
      exact progress executable.entry_eq.symm (legal_empty executable.wellBuilt)
        fun _ mem => absurd mem List.not_mem_nil
  | jump ends exits =>
      have arrived := ends.arrived executable supplied
      exact progress ⟨executable.follows _ _ _ exits, arrived.arrives⟩ arrived.legal arrived.executed

/-! ### What a run does -/

theorem runFrom_zero_cons (id : ValueId) (rest : List ValueId) :
    func.runFrom arguments limit 0 jumps block (id :: rest) = throw (.outOfFuel limit) := by
  rw [runFrom]

theorem runFrom_succ_cons (id : ValueId) (rest : List ValueId) :
    func.runFrom arguments limit (fuel + 1) jumps block (id :: rest) =
      func.execute arguments id >>= fun _ =>
        func.runFrom arguments limit fuel func.blocks.size block rest := by
  rw [runFrom]

theorem runFrom_nil :
    func.runFrom arguments limit fuel jumps block [] =
      func.leave arguments block >>= fun exit =>
        match exit with
        | .result word => pure word
        | .jump target =>
          match jumps with
          | 0 => throw (.endlessJumps block)
          | jumps + 1 => func.runFrom arguments limit fuel jumps target (func.body target) := by
  rw [runFrom]
  rfl

/-- A run returned what the execution returns, or it was cut off. -/
def Accounts (func : Function) (arguments : Array UInt64) (limit : Nat) :
    EStateM.Result EvalError EvalState (Option UInt64) → Prop
  | .ok result _ => func.Returns arguments result
  | .error failure _ => failure = .outOfFuel limit ∨ ∃ cut, failure = .endlessJumps cut

/-- What happens at the end of a block, given what happens after jumps. -/
theorem accounts_leave (total : func.Total arguments) (faithful : func.Faithful arguments state)
    (enters : func.Enters arguments visited block start)
    (reached : func.traverse arguments start (func.body block) =
      some (func.snapshot arguments state))
    (further : ∀ earlier jumps_left target after, jumps = jumps_left + 1 →
      func.Faithful arguments after →
      func.Enters arguments earlier target (func.snapshot arguments after) →
      func.Accounts arguments limit
        ((func.runFrom arguments limit fuel jumps_left target (func.body target)).run after)) :
    func.Accounts arguments limit
      ((func.runFrom arguments limit fuel jumps block []).run state) := by
  rcases enters.exists_ends reached with ⟨twin, ends, same⟩
  rcases total.exits visited block twin ends with ⟨exit, exits⟩
  have shown := shows_leave faithful block
  rw [← same, exits] at shown
  rcases shown with ⟨after, leaves, same_after, faithful_after⟩
  rw [runFrom_nil, EStateM.run_bind, leaves]
  cases exit with
  | result word => exact ⟨visited, block, twin, ends, exits⟩
  | jump target =>
      cases jumps with
      | zero => exact Or.inr ⟨block, rfl⟩
      | succ jumps_left =>
          apply further _ jumps_left target after rfl faithful_after
          rw [same_after, ← same]
          exact .jump ends exits

/-- What a run that stands in a block does is accounted for. -/
theorem accounts_runFrom (total : func.Total arguments) {fuel jumps : Nat}
    {visited : List BlockId} {block : BlockId} {start : Snapshot} {state : EvalState}
    {done remaining : List ValueId} (faithful : func.Faithful arguments state)
    (enters : func.Enters arguments visited block start)
    (split : func.body block = done ++ remaining)
    (reached : func.traverse arguments start done = some (func.snapshot arguments state)) :
    func.Accounts arguments limit
      ((func.runFrom arguments limit fuel jumps block remaining).run state) := by
  cases remaining with
  | nil =>
      rw [List.append_nil] at split
      apply accounts_leave total faithful enters (split ▸ reached)
      intro earlier jumps_left target after same faithful_after enters_target
      exact accounts_runFrom total faithful_after enters_target (List.nil_append _).symm rfl
  | cons id rest =>
      cases fuel with
      | zero =>
          rw [runFrom_zero_cons]
          exact Or.inl rfl
      | succ fuel =>
          rcases total.runs visited block start enters with ⟨last, run⟩
          rw [split, traverse_append, reached, Option.bind_some, traverse_cons] at run
          rcases Option.bind_eq_some_iff.mp run with ⟨middle, step, _⟩
          have advances := advances_execute faithful id
          rw [step] at advances
          rcases advances with ⟨after, executes, same, faithful_after⟩
          rw [runFrom_succ_cons, EStateM.run_bind, executes]
          have further : func.traverse arguments start (done ++ [id]) =
              some (func.snapshot arguments after) := by
            rw [traverse_append, reached, same, Option.bind_some, traverse_cons, step]
            rfl
          rw [← List.singleton_append, ← List.append_assoc] at split
          exact accounts_runFrom total faithful_after enters split further
termination_by (fuel, jumps)
decreasing_by
  · exact Prod.Lex.right _ (by omega)
  · exact Prod.Lex.left _ _ (by omega)

/-- A run returns what the execution returns, or it is cut off. -/
theorem accounts_run (total : func.Total arguments) (fuel : Nat) :
    func.Accounts arguments fuel ((func.run arguments fuel).run {}) :=
  accounts_runFrom total faithful_empty .entry (List.nil_append _).symm rfl

/-! ### Enough fuel -/

/--
From the entry of a block, the execution returns after some jumps. A run executes `needed`
instructions on the way, and `last` is what is seen in the end.
-/
inductive Finishes (func : Function) (arguments : Array UInt64) (result : Option UInt64)
    (last : Snapshot) : (needed count : Nat) → BlockId → Snapshot → Prop where
  | here {block : BlockId} {start : Snapshot}
      (run : func.traverse arguments start (func.body block) = some last)
      (exits : func.exitFrom? last block = some (.result result)) :
      Finishes func arguments result last (func.body block).length 0 block start
  | jump {needed count : Nat} {block target : BlockId} {start next : Snapshot}
      (run : func.traverse arguments start (func.body block) = some next)
      (exits : func.exitFrom? next block = some (.jump target))
      (finishes : Finishes func arguments result last needed count target next) :
      Finishes func arguments result last (needed + (func.body block).length) (count + 1) block
        start

/-- The number of jumps to the return is determined. -/
theorem Finishes.unique {count other needed more : Nat}
    (finishes : func.Finishes arguments result last needed count block start)
    (again : func.Finishes arguments result last more other block start) : count = other := by
  induction finishes generalizing other more with
  | here run exits =>
      cases again with
      | here _ _ => rfl
      | jump run_again exits_again _ =>
          rw [run] at run_again
          cases run_again
          rw [exits] at exits_again
          cases exits_again
  | jump run exits _ ih =>
      cases again with
      | here run_again exits_again =>
          rw [run] at run_again
          cases run_again
          rw [exits] at exits_again
          cases exits_again
      | jump run_again exits_again finishes_again =>
          rw [run] at run_again
          cases run_again
          rw [exits] at exits_again
          cases exits_again
          rw [ih finishes_again]

/-- What returns from a block that is entered, returns from the entry. -/
theorem Enters.finishes {needed count : Nat} (enters : func.Enters arguments visited block start)
    (finishes : func.Finishes arguments result last needed count block start) :
    ∃ needed count, func.Finishes arguments result last needed count BlockId.entry
      (func.snapshot arguments {}) := by
  induction visited generalizing needed count block start with
  | nil =>
      cases enters with
      | entry => exact ⟨needed, count, finishes⟩
  | cons nearest visited ih =>
      cases enters with
      | jump ends exits =>
          rcases ends.exists_enters with ⟨start, enters, run⟩
          exact ih enters (.jump run exits finishes)

theorem lt_size_of_exitFrom? {exit : Exit} (exits : func.exitFrom? next block = some exit) :
    block < func.blocks.size := by
  by_contra outside
  have unterminated : (func.block block).terminator = none := by
    simp only [Function.block, Array.getElem?_eq_none (Nat.le_of_not_lt outside), Option.getD_none]
    rfl
  rw [exitFrom?, unterminated] at exits
  cases exits

/-- A run executes the instructions of a block, which gives it all jumps back if there are any. -/
theorem run_runFrom_instructions (block : BlockId) {instructions : List ValueId}
    (faithful : func.Faithful arguments state)
    (run : func.traverse arguments (func.snapshot arguments state) instructions = some next) :
    ∃ after, func.snapshot arguments after = next ∧ func.Faithful arguments after ∧
      ∀ limit fuel jumps,
        (func.runFrom arguments limit (fuel + instructions.length) jumps block instructions).run
            state =
          (func.runFrom arguments limit fuel
            (if instructions = [] then jumps else func.blocks.size) block []).run after := by
  induction instructions generalizing state with
  | nil =>
      cases run
      exact ⟨state, rfl, faithful, fun _ _ _ => rfl⟩
  | cons id rest ih =>
      rcases Option.bind_eq_some_iff.mp run with ⟨middle, step, others⟩
      have advances := advances_execute faithful id
      rw [step] at advances
      rcases advances with ⟨between, executes, rfl, faithful_between⟩
      rcases ih faithful_between others with ⟨after, same, faithful_after, runs⟩
      refine ⟨after, same, faithful_after, ?_⟩
      intro limit fuel jumps
      rw [List.length_cons, ← Nat.add_assoc, runFrom_succ_cons, EStateM.run_bind, executes]
      refine (runs limit fuel func.blocks.size).trans ?_
      simp

/-- Without fuel for all of its instructions, a run does not leave a block. -/
theorem run_runFrom_short (block : BlockId) {instructions : List ValueId}
    (faithful : func.Faithful arguments state)
    (run : func.traverse arguments (func.snapshot arguments state) instructions = some next)
    (short : fuel < instructions.length) :
    ∃ final, (func.runFrom arguments limit fuel jumps block instructions).run state =
      .error (.outOfFuel limit) final := by
  induction instructions generalizing state fuel jumps with
  | nil => exact absurd short (Nat.not_lt_zero fuel)
  | cons id rest ih =>
      cases fuel with
      | zero =>
          rw [runFrom_zero_cons]
          exact ⟨state, rfl⟩
      | succ fuel =>
          rcases Option.bind_eq_some_iff.mp run with ⟨middle, step, others⟩
          have advances := advances_execute faithful id
          rw [step] at advances
          rcases advances with ⟨between, executes, rfl, faithful_between⟩
          rw [runFrom_succ_cons, EStateM.run_bind, executes]
          exact ih faithful_between others (Nat.lt_of_succ_lt_succ short)

/--
Different blocks that a run has seen since the last instruction, when it returns after `count` jumps:
the one of that instruction, and blocks from which it returns after more jumps.
-/
structure Seen (func : Function) (arguments : Array UInt64) (result : Option UInt64)
    (last : Snapshot) (count : Nat) (start : Snapshot) (seen : List BlockId) : Prop where
  nodup : seen.Nodup
  bounded : ∀ block ∈ seen, block < func.blocks.size
  later : ∀ block ∈ seen, func.body block ≠ [] ∨
    ∃ needed more, count < more ∧ func.Finishes arguments result last needed more block start

theorem Seen.length_le {count : Nat} {seen : List BlockId}
    (seen_before : func.Seen arguments result last count start seen) :
    seen.length ≤ func.blocks.size := by
  have within : seen ⊆ List.range func.blocks.size :=
    fun block mem => List.mem_range.mpr (seen_before.bounded block mem)
  simpa using (seen_before.nodup.subperm within).length_le

/-- A block without instructions has not been seen before, or the run would never return. -/
theorem Seen.cons {needed count : Nat} {seen : List BlockId}
    (seen_before : func.Seen arguments result last (count + 1) start seen)
    (idle : func.body block = []) (block_lt : block < func.blocks.size)
    (finishes : func.Finishes arguments result last needed (count + 1) block start) :
    func.Seen arguments result last count start (block :: seen) where
  nodup := by
    apply List.nodup_cons.mpr ⟨_, seen_before.nodup⟩
    intro mem
    rcases seen_before.later block mem with busy | ⟨_, more, later, again⟩
    · exact busy idle
    · have same_count := again.unique finishes
      omega
  bounded := List.forall_mem_cons.mpr ⟨block_lt, seen_before.bounded⟩
  later := by
    intro other mem
    rcases List.mem_cons.mp mem with rfl | earlier
    · exact Or.inr ⟨_, count + 1, Nat.lt_succ_self _, finishes⟩
    · rcases seen_before.later other earlier with busy | ⟨needed, more, later, again⟩
      · exact Or.inl busy
      · exact Or.inr ⟨needed, more, Nat.lt_of_succ_lt later, again⟩

/-- While fewer blocks have been seen than there are, a run can jump on. -/
theorem Seen.exists_next {needed count : Nat} {target : BlockId} {seen : List BlockId}
    (seen_before : func.Seen arguments result last (count + 1) start seen)
    (room : func.blocks.size ≤ jumps + seen.length)
    (run : func.traverse arguments start (func.body block) = some next)
    (exits : func.exitFrom? next block = some (.jump target))
    (finishes : func.Finishes arguments result last needed count target next) :
    ∃ earlier jumps_left, func.Seen arguments result last count next earlier ∧
      (if func.body block = [] then jumps else func.blocks.size) = jumps_left + 1 ∧
      func.blocks.size ≤ jumps_left + earlier.length := by
  have block_lt := lt_size_of_exitFrom? exits
  by_cases idle : func.body block = []
  · have here := Finishes.jump run exits finishes
    rw [idle] at run
    cases run
    have extended := seen_before.cons idle block_lt here
    have short := extended.length_le
    rw [List.length_cons] at short
    refine ⟨block :: seen, jumps - 1, extended, ?_, ?_⟩
    · rw [if_pos idle]
      omega
    · rw [List.length_cons]
      omega
  · refine ⟨[block], func.blocks.size - 1, ⟨List.nodup_singleton _, ?_, ?_⟩, ?_, ?_⟩
    · simpa using block_lt
    · intro other mem
      exact Or.inl (List.mem_singleton.mp mem ▸ idle)
    · rw [if_neg idle]
      exact (Nat.succ_pred_eq_of_pos (Nat.zero_lt_of_lt block_lt)).symm
    · rw [List.length_singleton]
      exact Nat.le_of_eq (Nat.succ_pred_eq_of_pos (Nat.zero_lt_of_lt block_lt)).symm

/-- A run returns a result if it has the fuel that it needs, and otherwise its fuel is used up. -/
def Needs (needed limit fuel : Nat) (result : Option UInt64)
    (outcome : EStateM.Result EvalError EvalState (Option UInt64)) : Prop :=
  (needed ≤ fuel → ∃ final, outcome = .ok result final) ∧
    (fuel < needed → ∃ final, outcome = .error (.outOfFuel limit) final)

/--
What a run does that needs some fuel: with it, it returns a result and leaves what is seen in the
end; without it, it runs out.
-/
structure Spends (func : Function) (arguments : Array UInt64) (result : Option UInt64)
    (last : Snapshot) (needed limit fuel : Nat)
    (outcome : EStateM.Result EvalError EvalState (Option UInt64)) : Prop where
  returns : needed ≤ fuel → ∃ final, outcome = .ok result final ∧
    func.snapshot arguments final = last ∧ func.Faithful arguments final
  runsOut : fuel < needed → ∃ final, outcome = .error (.outOfFuel limit) final

theorem Spends.needs {needed : Nat}
    {outcome : EStateM.Result EvalError EvalState (Option UInt64)}
    (spends : func.Spends arguments result last needed limit fuel outcome) :
    Needs needed limit fuel result outcome := by
  refine ⟨fun enough => ?_, spends.runsOut⟩
  rcases spends.returns enough with ⟨final, returns, _⟩
  exact ⟨final, returns⟩

/-- With enough jumps, it depends on the fuel only whether a run that enters a block returns. -/
theorem Finishes.runs {needed count : Nat}
    (finishes : func.Finishes arguments result last needed count block start) {seen : List BlockId}
    (seen_before : func.Seen arguments result last count start seen)
    (room : func.blocks.size ≤ jumps + seen.length) (faithful : func.Faithful arguments state)
    (stands : func.snapshot arguments state = start) :
    func.Spends arguments result last needed limit fuel
      ((func.runFrom arguments limit fuel jumps block (func.body block)).run state) := by
  induction finishes generalizing seen fuel jumps state with
  | @here block start run exits =>
      subst stands
      refine ⟨fun enough => ?_, run_runFrom_short block faithful run⟩
      rcases run_runFrom_instructions block faithful run with ⟨after, same, faithful_after, runs⟩
      rcases Nat.exists_eq_add_of_le' enough with ⟨rest, rfl⟩
      have shown := shows_leave faithful_after block
      rw [same, exits] at shown
      rcases shown with ⟨final, leaves, same_final, faithful_final⟩
      refine ⟨final, ?_, same_final.trans same, faithful_final⟩
      rw [runs, runFrom_nil, EStateM.run_bind, leaves]
      rfl
  | @jump needed count block target start next run exits finishes ih =>
      subst stands
      rcases Nat.lt_or_ge fuel (func.body block).length with short | enough
      · exact ⟨fun enough => by omega, fun _ => run_runFrom_short block faithful run short⟩
      rcases run_runFrom_instructions block faithful run with ⟨after, same, faithful_after, runs⟩
      rcases Nat.exists_eq_add_of_le' enough with ⟨rest, rfl⟩
      have shown := shows_leave faithful_after block
      rw [same, exits] at shown
      rcases shown with ⟨left, leaves, same_left, faithful_left⟩
      rcases seen_before.exists_next room run exits finishes with
        ⟨earlier, jumps_left, seen_next, jumps_eq, room_left⟩
      have further : func.Spends arguments result last needed limit rest
          ((func.runFrom arguments limit rest jumps_left target (func.body target)).run left) :=
        ih seen_next room_left faithful_left (same_left.trans same)
      rw [runs, runFrom_nil, EStateM.run_bind, leaves, jumps_eq]
      exact ⟨fun enough => further.returns (Nat.le_of_add_le_add_right enough),
        fun short => further.runsOut (Nat.lt_of_add_lt_add_right short)⟩

/-- Whether a run from the entry returns depends on its fuel only. -/
theorem Finishes.spends {needed count : Nat}
    (finishes : func.Finishes arguments result last needed count BlockId.entry
      (func.snapshot arguments {})) (fuel : Nat) :
    func.Spends arguments result last needed fuel fuel ((func.run arguments fuel).run {}) := by
  have nothing : func.Seen arguments result last count (func.snapshot arguments {}) [] :=
    ⟨List.nodup_nil, by simp, by simp⟩
  exact finishes.runs nothing (Nat.le_refl _) faithful_empty rfl

/-- If the execution returns a result, then a run with enough fuel does, and any other runs out. -/
theorem Returns.exists_needs (returns : func.Returns arguments result) :
    ∃ needed, ∀ fuel, Needs needed fuel fuel result ((func.run arguments fuel).run {}) := by
  rcases returns with ⟨visited, block, state, ends, exits⟩
  rcases ends.exists_enters with ⟨start, enters, run⟩
  rcases enters.finishes (.here run exits) with ⟨needed, count, finishes⟩
  exact ⟨needed, fun fuel => (finishes.spends fuel).needs⟩

/-! ### Runs that return -/

/-- A run that returns had the fuel for the instructions of its block, and could execute them. -/
theorem exists_traverse_of_returns {instructions : List ValueId} {final : EvalState}
    (faithful : func.Faithful arguments state)
    (returns : (func.runFrom arguments limit fuel jumps block instructions).run state =
      .ok result final) :
    instructions.length ≤ fuel ∧ ∃ next,
      func.traverse arguments (func.snapshot arguments state) instructions = some next := by
  induction instructions generalizing state fuel jumps with
  | nil => exact ⟨Nat.zero_le _, _, rfl⟩
  | cons id rest ih =>
      cases fuel with
      | zero =>
          rw [runFrom_zero_cons] at returns
          cases returns
      | succ fuel =>
          rw [runFrom_succ_cons, EStateM.run_bind] at returns
          have advances := advances_execute faithful id
          cases executes : (func.execute arguments id).run state with
          | error failure middle =>
              rw [executes] at returns
              cases returns
          | ok answer middle =>
              rw [executes] at returns
              rcases advances.of_ok executes with ⟨step, faithful_middle⟩
              rcases ih faithful_middle returns with ⟨enough, next, others⟩
              refine ⟨Nat.succ_le_succ enough, next, ?_⟩
              rw [traverse_cons, step, Option.bind_some, others]

/-- A run that returns from a block finishes from there, within its fuel. -/
theorem exists_finishes_of_returns {fuel jumps : Nat} {block : BlockId} {state final : EvalState}
    (faithful : func.Faithful arguments state)
    (returns : (func.runFrom arguments limit fuel jumps block (func.body block)).run state =
      .ok result final) :
    func.Faithful arguments final ∧ ∃ needed ≤ fuel, ∃ count,
      func.Finishes arguments result (func.snapshot arguments final) needed count block
        (func.snapshot arguments state) := by
  rcases exists_traverse_of_returns faithful returns with ⟨enough, next, run⟩
  rcases run_runFrom_instructions block faithful run with ⟨after, same, faithful_after, runs⟩
  rcases Nat.exists_eq_add_of_le' enough with ⟨rest, spent⟩
  rw [spent, runs, runFrom_nil, EStateM.run_bind] at returns
  cases leaves : (func.leave arguments block).run after with
  | error failure left =>
      rw [leaves] at returns
      cases returns
  | ok exit left =>
      rw [leaves] at returns
      rcases (shows_leave faithful_after block).of_ok leaves with
        ⟨exits, same_left, faithful_left⟩
      rw [same] at exits same_left
      cases exit with
      | result word =>
          cases returns
          refine ⟨faithful_left, _, enough, 0, ?_⟩
          rw [same_left]
          exact .here run exits
      | jump target =>
          cases more : (if func.body block = [] then jumps else func.blocks.size) with
          | zero =>
              rw [more] at returns
              cases returns
          | succ jumps_left =>
              rw [more] at returns
              rcases exists_finishes_of_returns faithful_left returns with
                ⟨faithful_final, needed, within, count, finishes⟩
              rw [same_left] at finishes
              exact ⟨faithful_final, _, spent ▸ Nat.add_le_add_right within _, _,
                .jump run exits finishes⟩
termination_by (fuel, jumps)
decreasing_by
  by_cases idle : func.body block = []
  · have same : fuel = rest := by simpa [idle] using spent
    rw [if_pos idle] at more
    rw [same, more]
    exact Prod.Lex.right _ (Nat.lt_succ_self _)
  · have busy := List.length_pos_of_ne_nil idle
    exact Prod.Lex.left _ _ (by omega)

/-- A run from the entry that returns finishes within its fuel. -/
theorem exists_finishes_of_run {final : EvalState}
    (returns : (func.run arguments fuel).run {} = .ok result final) :
    func.Faithful arguments final ∧ ∃ needed ≤ fuel, ∃ count,
      func.Finishes arguments result (func.snapshot arguments final) needed count BlockId.entry
        (func.snapshot arguments {}) :=
  exists_finishes_of_returns faithful_empty returns

end Function

end RegisterFlow
