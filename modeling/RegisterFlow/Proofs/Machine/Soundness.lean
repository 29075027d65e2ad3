import RegisterFlow.Proofs.Machine.Simulation

/-!
# Tracking registers is sound

However a driver raises a function of words: if every register that it reads has been given a value
on every way, and if only different known values meet, then every call succeeds, and the raised code
does with any arguments what the machine does that finds them in its registers.
-/

namespace RegisterFlow

/--
What a machine does with some registers is what a function does with some arguments. The machine
never gets stuck. Whichever blocks an execution visits, the machine visits them with the same
results. If the machine returns a result, then so does every run that has enough fuel, and the fuel
of all other runs is used up. If it does not return, then runs are cut off: their fuel is used up, or
they jump on and on without any instruction.
-/
structure Program.Describes (program : Program) (registers : Register → Option UInt64)
    (func : Function) (arguments : Array UInt64) : Prop where
  total : program.Total registers
  visits : ∀ visited block state, func.Ends arguments visited block state →
    ∃ machine, program.Visits registers visited block machine ∧
      ∀ value word, machine.results value = some word → func.Evaluates arguments state value word
  returns : ∀ result, program.Returns registers result → ∃ needed, ∀ fuel,
    Function.Needs needed fuel fuel result ((func.run arguments fuel).run {})
  returned : ∀ fuel result final, (func.run arguments fuel).run {} = .ok result final →
    program.Returns registers result
  cut : ∀ fuel failure final, (func.run arguments fuel).run {} = .error failure final →
    failure = .outOfFuel fuel ∨ ∃ block, failure = .endlessJumps block

namespace Session.Prepared

variable {graph : FlowGraph} {start : Session} {parts : List Part} {arguments : Array UInt64}

theorem describes (prepared : Prepared graph start parts arguments) :
    (start.raisedProgram graph parts).Describes (start.argumentWords arguments)
      (start.raised graph parts).func arguments where
  total := prepared.total_raisedProgram
  visits visited block state ends := by
    have execution : Executes graph start parts arguments visited block state := ⟨prepared, ends⟩
    rcases execution.exists_visits with ⟨machine, visits, accords⟩
    refine ⟨machine, visits, fun value word known => ?_⟩
    rw [Function.evaluates_iff ends.faithful]
    exact accords.words value word known
  returns result returns := (prepared.returns_iff.mpr returns).exists_needs
  returned fuel result final runs := by
    have accounts := Function.accounts_run prepared.total fuel
    rw [runs] at accounts
    exact prepared.returns_iff.mp accounts
  cut fuel failure final fails := by
    have accounts := Function.accounts_run prepared.total fuel
    rw [fails] at accounts
    exact accounts

end Session.Prepared

/--
A driver raises a function of words along a graph whose blocks can all be reached from an entry
without predecessors: the entry first, and every other block once, each one completely before the
next. Every register that it reads has been given a value on every way, and only different known
values meet. Then every call succeeds, reads have answers, and tracking ends well. With any
arguments, the raised code does what the machine does that finds them in its registers.
-/
theorem raised_code_runs_as_machine {graph : FlowGraph} {start : Session} {parts : List Part}
    (rooted : graph.Rooted) (raises : Session.RaisesFunction graph start parts) :
    Session.SucceedsAll graph start (parts.flatMap Part.actions) ∧
      ∃ summary finished,
        (Raise.conclude graph).run (start.after graph (parts.flatMap Part.actions)).raising =
          .ok summary finished ∧
        ∀ arguments, start.raising.func.arguments.length ≤ arguments.size →
          (start.program graph parts finished.func).Describes (start.argumentWords arguments)
            finished.func arguments := by
  rcases raises.concludes rooted with ⟨summary, concluded⟩
  have succeeds : Session.SucceedsAll graph start (parts.flatMap Part.actions) := by
    rw [← List.append_nil parts] at raises
    exact raises.succeeds rooted
  refine ⟨succeeds, summary, _, concluded, fun arguments supplied => ?_⟩
  have grown := raises.grows_raised rooted (List.nil_append _).symm
  have prepared : Session.Prepared graph start parts arguments := by
    refine ⟨rooted, raises, ?_⟩
    rw [grown.arguments_eq]
    exact supplied
  exact prepared.describes

/-! ### A loop that counts down -/

/-- An entry, a block that is a loop of its own, and an exit. -/
def countdownGraph : FlowGraph where
  blocks := #[
    { name := "bb0", predecessors := [], effects := [{ writes := [.rax], family := .other "mov" }] },
    { name := "bb1", predecessors := [0, 1], effects := [{ writes := [.rax], family := .subtract }] },
    { name := "bb2", predecessors := [1], effects := [] }]

/-- The start of raising a function of one argument. -/
def countdownSession : Session :=
  .starting countdownGraph "countdown" [.int 64] ["entry", "loop", "exit"]

/-- The entry moves the argument into the register that counts. -/
def countdownEntry : Part where
  block := 0
  work := [.readRegister .rdi 0 false true, .writeRegister .rax 0 0]
  ending := .branch 1

/-- The loop subtracts one and goes on unless one is left. -/
def countdownLoop : Part where
  block := 1
  work := [.readRegister .rax 1 false true, .constant (.int 64) 1, .emit 1 (.binary .sub 4 5),
    .writeRegister .rax 1 6, .emit 1 (.compare .ne 6 5)]
  ending := .branchIf 7 1 2

def countdownExit : Part where
  block := 2
  work := [.readRegister .rax 2 false true]
  ending := .ret (some 6)

def countdownParts : List Part :=
  [countdownEntry, countdownLoop, countdownExit]

theorem rooted_countdownGraph : countdownGraph.Rooted where
  closed := by decide +kernel
  entry_eq := rfl
  predecessors_entry := by decide +kernel
  reachable := by
    intro block block_lt
    have cases_block : block = 0 ∨ block = 1 ∨ block = 2 := by
      change block < 3 at block_lt
      omega
    rcases cases_block with rfl | rfl | rfl
    · exact ⟨[], rfl⟩
    · refine ⟨[0], ?_, rfl⟩
      decide +kernel
    · refine ⟨[1, 0], ?_, ?_, rfl⟩
      all_goals decide +kernel

/-- The entry writes the register that counts before any other block is visited. -/
theorem covers_countdown {session : Session} {block : BlockId} {earlier : List Action}
    (inner : block ≠ countdownGraph.entry) :
    session.Covers countdownGraph block earlier (.register .rax) := by
  refine Or.inr (Or.inr fun visited arrives => ⟨0, arrives.entry_mem inner, .rax, ?_, rfl⟩)
  decide +kernel

theorem writes_countdownGraph : countdownGraph.writes = [(0, .rax), (1, .rax)] := by
  decide +kernel

theorem raisesPart_countdownEntry : countdownSession.RaisesPart countdownGraph countdownEntry where
  works := by
    refine .cons ⟨rfl, rfl, nofun, rfl, rfl⟩ (show _ = some 0 by cbv) ?_
    exact .cons ⟨rfl, by decide +kernel, by decide⟩ (show _ = none by cbv) trivial
  covers := by
    intro earlier register allPaths asNative later split
    have mem : .readRegister register 0 allPaths asNative ∈ countdownEntry.work := by
      rw [split]
      exact List.mem_append_right _ List.mem_cons_self
    obtain ⟨rfl, -⟩ : register = .rdi ∧ _ := by
      simpa [countdownEntry] using mem
    left
    cbv
  records := by
    intro register mem
    obtain rfl : register = .rax := by
      simpa [writes_countdownGraph, countdownEntry] using mem
    exact ⟨0, by simp [countdownEntry]⟩
  operands := nofun
  follows := by
    decide +kernel

/-- The session when the entry is done, and when the loop is. -/
abbrev countdownAfter (parts : List Part) : Session :=
  countdownSession.after countdownGraph (parts.flatMap Part.actions)

theorem results_countdownLoop :
    (countdownAfter [countdownEntry]).results countdownGraph countdownLoop.work = [4, 5, 6, 7] := by
  cbv

theorem results_countdownExit :
    (countdownAfter [countdownEntry, countdownLoop]).results countdownGraph countdownExit.work =
      [6] := by
  cbv

theorem raisesPart_countdownLoop :
    (countdownAfter [countdownEntry]).RaisesPart countdownGraph countdownLoop where
  works := by
    refine .cons ⟨rfl, rfl, nofun, rfl, rfl⟩ (show _ = some 4 by cbv) ?_
    refine .cons (Ty.isWord_iff.mpr ⟨64, rfl, by decide⟩) (show _ = some 5 by cbv) ?_
    refine .cons ⟨rfl, rfl, by cbv, by decide⟩ (show _ = some 6 by cbv) ?_
    refine .cons ⟨rfl, by decide +kernel, by decide⟩ (show _ = none by cbv) ?_
    exact .cons ⟨rfl, rfl, rfl, by decide⟩ (show _ = some 7 by cbv) trivial
  covers := by
    intro earlier register allPaths asNative later split
    have mem : .readRegister register 1 allPaths asNative ∈ countdownLoop.work := by
      rw [split]
      exact List.mem_append_right _ List.mem_cons_self
    obtain ⟨rfl, -⟩ : register = .rax ∧ _ := by
      simpa [countdownLoop] using mem
    exact covers_countdown (by decide)
  records := by
    intro register mem
    obtain rfl : register = .rax := by
      simpa [writes_countdownGraph, countdownLoop] using mem
    exact ⟨6, by simp [countdownLoop]⟩
  operands := by
    rw [results_countdownLoop]
    decide
  follows := by
    decide +kernel

theorem raisesPart_countdownExit :
    (countdownAfter [countdownEntry, countdownLoop]).RaisesPart countdownGraph countdownExit where
  works := ⟨⟨rfl, rfl, nofun, rfl, rfl⟩, trivial⟩
  covers := by
    intro earlier register allPaths asNative later split
    have mem : .readRegister register 2 allPaths asNative ∈ countdownExit.work := by
      rw [split]
      exact List.mem_append_right _ List.mem_cons_self
    obtain ⟨rfl, -⟩ : register = .rax ∧ _ := by
      simpa [countdownExit] using mem
    exact covers_countdown (by decide)
  records := by
    intro register mem
    simp [writes_countdownGraph, countdownExit] at mem
  operands := by
    rw [results_countdownExit]
    decide
  follows := nofun

/-- When the loop reads the register that counts, only the entry knows a value of it. -/
theorem distinct_countdown :
    (countdownAfter [countdownEntry]).raising.tracker.Distinct countdownGraph (.register .rax) 1 := by
  have only_entry : ∀ (source : Nat) value,
      Tracker.Reaches countdownGraph (countdownAfter [countdownEntry]).raising.tracker
        (.register .rax) source 1 →
      (countdownAfter [countdownEntry]).raising.tracker.content? countdownGraph (.register .rax)
        source = some (.known value) → source = 0 := by
    intro source value reaches known
    have source_lt : source < 3 := reaches.source_lt rooted_countdownGraph.closed
    have cases_source : source = 0 ∨ source = 1 ∨ source = 2 := by omega
    rcases cases_source with rfl | rfl | rfl
    · rfl
    · rw [show Tracker.content? .. = some .pending by cbv] at known
      cases known
    · rw [show Tracker.content? .. = none by cbv] at known
      cases known
  intro first second value first_reaches second_reaches first_known second_known
  rw [only_entry first value first_reaches first_known,
    only_entry second value second_reaches second_known]

theorem raisesFunction_countdown :
    Session.RaisesFunction countdownGraph countdownSession countdownParts where
  starts := Session.starts_starting rfl (by decide +kernel)
  words := by
    intro argument mem
    obtain rfl := List.mem_singleton.mp mem
    exact Ty.isWord_iff.mpr ⟨64, rfl, by decide⟩
  raises := ⟨raisesPart_countdownEntry, raisesPart_countdownLoop, raisesPart_countdownExit, trivial⟩
  first := rfl
  once := by
    decide +kernel
  distinct := by
    intro location
    iterate 4 refine .cons (Raising.distinctSince_of_unmerged (by cbv)) ?_
    refine .cons ?_ ?_
    · intro merge mem here
      have merged : merge = { location := .register .rax, block := 1, slot := 0, value := 4 } := by
        rw [show Raising.mergesSince .. = [_] by cbv] at mem
        exact List.mem_singleton.mp mem
      rw [← here, merged]
      exact distinct_countdown
    iterate 9 refine .cons (Raising.distinctSince_of_unmerged (by cbv)) ?_
    exact Session.distinctMerges_nil _

/-- The loop is raised before it is known what it writes, and its code counts down. -/
theorem raised_code_runs_as_machine_countdown :
    countdownGraph.Rooted ∧
      Session.RaisesFunction countdownGraph countdownSession countdownParts ∧
      Session.SucceedsAll countdownGraph countdownSession
        (countdownParts.flatMap Part.actions) ∧
      ∃ summary finished,
        (Raise.conclude countdownGraph).run (countdownAfter countdownParts).raising =
          .ok summary finished ∧
        ∀ arguments, countdownSession.raising.func.arguments.length ≤ arguments.size →
          (countdownSession.program countdownGraph countdownParts finished.func).Describes
            (countdownSession.argumentWords arguments) finished.func arguments :=
  ⟨rooted_countdownGraph, raisesFunction_countdown,
    raised_code_runs_as_machine rooted_countdownGraph raisesFunction_countdown⟩

end RegisterFlow
