import RegisterFlow.Proofs.Tracking.ArithmeticFlags
import RegisterFlow.Proofs.Tracking.Deriving
import RegisterFlow.Proofs.Tracking.FlagReads
import RegisterFlow.Proofs.Tracking.Start

/-!
# Derivations that fail

A rule for a flag can fail after it built code, but not after it changed what is tracked: the one
step that can make flags meet is the read of an earlier carry, and what follows it always succeeds.
So a derivation that fails leaves nothing but computations behind that nothing uses, and one that
succeeds changes no definitions but those of the flags that it sets.
-/

namespace RegisterFlow

namespace Raise

variable {α β : Type} {graph : FlowGraph} {block : BlockId} {before middle : Raising} {flag : Flag}
  {family : Family} {test value : ValueId}

/-! ### What a failure leaves -/

/-- When a step fails, it only added computations in a block, and counted. -/
def FailsComputed (block : BlockId) (step : Raise α) (before : Raising) : Prop :=
  ∀ failure after, step.run before = .error failure after →
    ∃ func statistics, before.func.Computations block func ∧ after = { before with func, statistics }

theorem FailsComputed.of_leads {step : Raise α}
    (leads : Leads (Computed block) (fun _ _ => True) step before) :
    FailsComputed block step before := by
  intro failure after fails
  rcases leads.error fails with ⟨func, computations, rfl⟩
  exact ⟨func, before.statistics, computations, rfl⟩

/-- What follows computations may fail as well, if it also only adds some. -/
theorem FailsComputed.bind_of_leads {good : α → Raising → Prop} {step : Raise α}
    {next : α → Raise β} (first : Leads (Computed block) good step before)
    (second : ∀ answer middle, Computed block before middle → good answer middle →
      FailsComputed block (next answer) middle) :
    FailsComputed block (step >>= next) before := by
  intro failure after fails
  cases outcome : step.run before with
  | error refused stopped =>
      rw [run_bind_of_error outcome] at fails
      cases fails
      rcases first.error outcome with ⟨func, computations, rfl⟩
      exact ⟨func, before.statistics, computations, rfl⟩
  | ok answer middle =>
      rw [run_bind_of_ok outcome] at fails
      rcases first.ok outcome with ⟨computed, holds⟩
      rcases second answer middle computed holds failure after fails with
        ⟨func, statistics, computations, rfl⟩
      rcases computed with ⟨between, earlier, rfl⟩
      exact ⟨func, statistics, earlier.trans computations, rfl⟩

/-- What follows a step that may change more must not fail. -/
theorem FailsComputed.bind_of_succeeds {step : Raise α} {next : α → Raise β}
    (first : FailsComputed block step before)
    (second : ∀ answer middle, (next answer).succeeds middle = true) :
    FailsComputed block (step >>= next) before := by
  intro failure after fails
  cases outcome : step.run before with
  | error refused stopped =>
      rw [run_bind_of_error outcome] at fails
      cases fails
      exact first _ _ outcome
  | ok answer middle =>
      rw [run_bind_of_ok outcome] at fails
      rcases exists_of_succeeds (second answer middle) with ⟨result, last, succeeds⟩
      rw [succeeds] at fails
      cases fails

/-- Flags stay in order under computations. -/
theorem Computed.flagged (computed : Computed block before middle)
    (flagged : before.Flagged graph) : middle.Flagged graph := by
  rcases computed with ⟨func, computations, rfl⟩
  exact flagged.of_extends computations.growsQuietly.toExtends fun _ _ => rfl

/-- The read of an earlier carry fails only where none reaches the block. -/
theorem failsComputed_incomingCarry (closed : graph.Closed) (flagged : before.Flagged graph) :
    FailsComputed block (incomingCarry graph block family) before := by
  intro failure after fails
  rcases @run_readFlag graph .carry block before closed flagged rfl with
    ⟨answer, read_after, read, run⟩
  have run_read : (readLocation graph (.flag .carry) .bool block false true).run before =
      .ok answer read_after := run
  rw [incomingCarry, run_bind_of_ok run_read] at fails
  cases read with
  | held _ => cases fails
  | direct _ _ => cases fails
  | met _ _ _ _ => cases fails
  | missing _ _ =>
      cases fails
      exact ⟨before.func, _, .refl, rfl⟩

theorem failsComputed_shiftCarry (closed : graph.Closed) (flagged : before.Flagged graph)
    (shifted count : ValueId) (direction : Direction) :
    FailsComputed block (shiftCarry graph block family shifted count direction) before := by
  refine .bind_of_leads (leads_of_unchanged (final_testWidth _)) ?_
  rintro width _ - rfl
  refine .bind_of_leads (leads_of_unchanged rfl) ?_
  rintro _ middle computed -
  have flagged_middle := computed.flagged flagged
  have last : ∀ {before : Raising}, Leads (Computed block) (fun _ _ => True)
      (build (lastBitOut block width shifted count direction)) before :=
    leads_build_of_computesIn (computesIn_lastBitOut _ _ _ _)
  dsimp only
  split
  · exact .of_leads leads_throw
  · split
    · split
      · exact failsComputed_incomingCarry closed flagged_middle
      · exact .of_leads last
    · -- The code of the last bit is there already when no carry is found.
      refine .bind_of_leads last ?_
      rintro carry later computed_later -
      refine .bind_of_succeeds
        (failsComputed_incomingCarry closed (computed_later.flagged flagged_middle)) ?_
      intro previous later
      rfl

theorem failsComputed_flagValue (closed : graph.Closed) (flagged : before.Flagged graph)
    (test : ValueId) :
    FailsComputed block (flagValue graph flag block family test) before := by
  rcases computed_flagValue test with computed | ⟨-, shifted, count, direction, same⟩
  · exact .of_leads computed
  · intro failure after fails
    rw [same] at fails
    exact failsComputed_shiftCarry closed flagged shifted count direction failure after fails

/-! ### What a success changes -/

/-- The flags that are set when one of them is derived from an instruction of a family. -/
def SetsFlag (flag : Flag) (family : Family) (set : Flag) : Prop :=
  set = flag ∨ twin? flag family = some set

/-- Two tables agree, apart from the definitions of the flags that are set in a block. -/
def TableKept (flag : Flag) (family : Family) (block : BlockId) (before after : Raising) : Prop :=
  ∀ location other, ¬ (other = block ∧ ∃ set, SetsFlag flag family set ∧ location = .flag set) →
    after.tracker.table.get? location other = before.tracker.table.get? location other

theorem TableKept.trans {after : Raising} (first : TableKept flag family block before middle)
    (second : TableKept flag family block middle after) :
    TableKept flag family block before after := by
  intro location other spared
  rw [second location other spared, first location other spared]

instance : Std.Refl (TableKept flag family block) :=
  ⟨fun _ _ _ _ => rfl⟩

instance : IsTrans Raising (TableKept flag family block) :=
  ⟨fun _ _ _ => TableKept.trans⟩

theorem TableKept.of_table_eq {after : Raising}
    (same : after.tracker.table = before.tracker.table) : TableKept flag family block before after := by
  intro location other _
  rw [same]

/-- What is filed for a flag in a block changes nothing for other flags and blocks. -/
theorem tableKept_of_record {after : Raising} {set : Flag} {width : Nat} {middle : Table}
    (sets : SetsFlag flag family set) (same : middle = before.tracker.table)
    (filed : middle.record (.flag set) block width value = .ok after.tracker.table) :
    TableKept flag family block before after := by
  intro location other spared
  rw [Table.get?_record filed, if_neg, same]
  rintro ⟨rfl, rfl⟩
  exact spared ⟨rfl, set, sets, rfl⟩

/-- A read of the carry files at most the carry of the block. -/
theorem tableKept_readCarry (before : Raising) :
    Leads (TableKept .carry family block) (fun _ _ => True)
      (readLocation graph (.flag .carry) .bool block false true) before := by
  rcases run_readLocation graph (.flag .carry) .bool block false true before with
    ⟨answer, after, read, run⟩ | ⟨failure, after, failed, run⟩
  · refine .of_ok run ?_ trivial
    cases read with
    | held _ => exact .of_table_eq rfl
    | missing _ _ => exact .of_table_eq rfl
    | direct _ _ => exact .of_table_eq rfl
    | met _ _ _ met =>
        cases met with
        | intro chain converted filed =>
            refine tableKept_of_record (Or.inl rfl) ?_ filed
            rw [chain.tracker_eq]
            rfl
  · refine .of_error run ?_
    cases failed with
    | intro _ _ _ abandoned =>
        apply TableKept.of_table_eq
        cases abandoned with
        | unsupplied _ chain _ _ _ =>
            rw [chain.tracker_eq]
            rfl
        | unconverted chain _ _ =>
            dsimp only
            rw [chain.tracker_eq]
            rfl
        | unfiled chain _ _ =>
            dsimp only
            rw [chain.tracker_eq]
            rfl

theorem tableKept_flagValue (test : ValueId) :
    Leads (TableKept flag family block) (fun _ _ => True) (flagValue graph flag block family test)
      before := by
  have compute : ∀ (before : Raising) (func : Function), before.func.Computations block func →
      TableKept flag family block before { before with func } :=
    fun _ _ _ => .of_table_eq rfl
  rcases @computed_flagValue graph block before flag family test with
    computed | ⟨rfl, shifted, count, direction, same⟩
  · apply computed.along
    rintro _ ⟨func, computations, rfl⟩
    exact compute before func computations
  · rw [Leads, same]
    exact Derives.shiftCarry ⟨compute, tableKept_readCarry⟩ shifted count direction

/-- A flag can be filed, and only its own definition in the block changes. -/
theorem exists_run_file (set : Flag) (block : BlockId) (value : ValueId) (before : Raising) :
    ∃ after, (define (.flag set) block 1 value).run before = .ok () after ∧
      ∀ location other, after.tracker.table.get? location other =
        if location = .flag set ∧ other = block then
          some { location := .flag set, block, width := 1, content := .known value }
        else before.tracker.table.get? location other := by
  rcases Table.record_eq_ok Nat.one_pos fun _ => rfl with ⟨table, filed⟩
  refine ⟨{ before with tracker := { before.tracker with table } }, ?_, fun _ _ => ?_⟩
  · rw [run_define, filed]
  · exact Table.get?_record filed

/-- The definitions of the flags that are set hold a value, and the other definitions are kept. -/
structure Filed (flag : Flag) (family : Family) (block : BlockId) (value : ValueId)
    (before after : Raising) : Prop where
  kept : TableKept flag family block before after
  filed : ∀ set, SetsFlag flag family set → after.tracker.table.get? (.flag set) block =
    some { location := .flag set, block, width := 1, content := .known value }

/-- Names a derived value, and files it for its flag and for the one that is set alike. -/
def fileFlag (flag : Flag) (family : Family) (location : Location) (block : BlockId)
    (value : ValueId) : Raise Unit := do
  build (Builder.rename value flag.name)
  define location block 1 value
  match twin? flag family with
  | some twin => define (.flag twin) block 1 value
  | none => pure ()
  count (Statistics.countFlagDerived family.name)

theorem deriveFlag_eq_fileFlag (graph : FlowGraph) (flag : Flag) (block : BlockId)
    (family : Family) (test : ValueId) :
    deriveFlag graph flag block family test = (do
      let location ← ofExcept (Location.ofFlag flag)
      let value ← flagValue graph flag block family test
      fileFlag flag family location block value) :=
  deriveFlag_eq ..

/-- A derived value can always be filed. -/
theorem exists_run_fileFlag (flag : Flag) (family : Family) (block : BlockId) (value : ValueId)
    (before : Raising) :
    ∃ after, Filed flag family block value before after ∧
      (fileFlag flag family (.flag flag) block value).run before = .ok () after := by
  have named : (build (Builder.rename value flag.name)).run before =
      .ok () { before with func := before.func.withName value flag.name } := run_build ..
  rcases exists_run_file flag block value
    { before with func := before.func.withName value flag.name } with ⟨first, defines, first_get?⟩
  rw [fileFlag, run_bind_of_ok named, run_bind_of_ok defines]
  cases alike : twin? flag family with
  | none =>
      refine ⟨_, ⟨?_, ?_⟩, rfl⟩
      · intro location other spared
        refine (first_get? location other).trans (if_neg ?_)
        rintro ⟨rfl, rfl⟩
        exact spared ⟨rfl, flag, Or.inl rfl, rfl⟩
      · rintro set (rfl | sets)
        · exact (first_get? _ _).trans (if_pos ⟨rfl, rfl⟩)
        · rw [alike] at sets
          cases sets
  | some twin =>
      rcases exists_run_file twin block value first with ⟨second, defines_twin, second_get?⟩
      refine ⟨_, ⟨?_, ?_⟩, run_bind_of_ok defines_twin⟩
      · intro location other spared
        refine ((second_get? location other).trans (if_neg ?_)).trans
          ((first_get? location other).trans (if_neg ?_))
        · rintro ⟨rfl, rfl⟩
          exact spared ⟨rfl, twin, Or.inr alike, rfl⟩
        · rintro ⟨rfl, rfl⟩
          exact spared ⟨rfl, flag, Or.inl rfl, rfl⟩
      · intro set sets
        refine (second_get? _ _).trans ?_
        by_cases again : set = twin
        · simp [again]
        · rw [if_neg (by simpa using again)]
          rcases sets with rfl | sets
          · exact (first_get? _ _).trans (if_pos ⟨rfl, rfl⟩)
          · rw [alike, Option.some.injEq] at sets
            exact absurd sets.symm again

/-- A derivation fails only where its rule does. -/
theorem failsComputed_deriveFlag (closed : graph.Closed) (flagged : before.Flagged graph)
    (test : ValueId) : FailsComputed block (deriveFlag graph flag block family test) before := by
  rw [deriveFlag_eq_fileFlag]
  refine .bind_of_leads (leads_ofExcept _) ?_
  rintro location middle computed ⟨tracked, rfl⟩
  obtain rfl := location_of_ofFlag tracked
  refine .bind_of_succeeds (failsComputed_flagValue closed flagged test) ?_
  intro value middle
  rcases exists_run_fileFlag flag family block value middle with ⟨after, -, files⟩
  rw [succeeds, files]

/-- A derivation that succeeds files what its rule derived. -/
theorem filed_of_run_deriveFlag {after : Raising}
    (run : (deriveFlag graph flag block family test).run before = .ok () after) :
    ∃ value, Filed flag family block value before after := by
  rw [deriveFlag_eq_fileFlag] at run
  rcases run_bind_eq_ok_iff.mp run with ⟨location, first, located, run⟩
  rcases run_bind_eq_ok_iff.mp run with ⟨value, middle, derived, run⟩
  have tracked : Location.ofFlag flag = .ok location ∧ first = before :=
    (leads_ofExcept (Location.ofFlag flag)
      : Leads (Computed block) _ (ofExcept (Location.ofFlag flag)) before).ok located |>.2
  rcases tracked with ⟨tracked, rfl⟩
  obtain rfl := location_of_ofFlag tracked
  rcases exists_run_fileFlag flag family block value middle with ⟨last, filed, files⟩
  rw [run, EStateM.Result.ok.injEq] at files
  rcases files with ⟨-, rfl⟩
  exact ⟨value, .trans ((tableKept_flagValue test).ok derived).1 filed.kept, filed.filed⟩

/-- Only signed products set two flags alike. -/
theorem twin?_eq_some_iff {twin : Flag} :
    twin? flag family = some twin ↔ family = .signedMultiply ∧
      (flag = .carry ∧ twin = .overflow ∨ flag = .overflow ∧ twin = .carry) := by
  cases family <;> cases flag <;> simp [twin?, eq_comm]

end Raise

/--
When the derivation of a flag fails, nothing that is tracked has changed, and the function only has
further constants and computations at the end of the block, which nothing reads that was there
before. When it succeeds, the flag and the one that signed products set alike hold one value in the
block, and no other definition has changed.
-/
theorem flag_derivation_confined {graph : FlowGraph} {session : Session} (closed : graph.Closed)
    (reachable : Session.Reachable graph session) (flag : Flag) (block : BlockId) (family : Family)
    (test : ValueId) :
    let before := session.raising
    (∀ failure after,
      (Raise.deriveFlag graph flag block family test).run before = .error failure after →
      after.tracker = before.tracker ∧ before.func.ComputesMore block after.func ∧
      (∀ slot, after.func.slotStores slot = before.func.slotStores slot ∧
        after.func.slotLoads slot = before.func.slotLoads slot) ∧
      ((∀ id, ∀ operand ∈ (before.func.operation id).operands,
          operand < before.func.values.size) →
        ∀ user < before.func.values.size, ∀ operand ∈ (after.func.operation user).operands,
          operand < before.func.values.size)) ∧
    ∀ after, (Raise.deriveFlag graph flag block family test).run before = .ok () after →
      ∃ value, ∀ location other,
        let set := location = .flag flag ∨ family = .signedMultiply ∧
          (flag = .carry ∧ location = .flag .overflow ∨
            flag = .overflow ∧ location = .flag .carry)
        (other = block ∧ set → after.tracker.table.get? location other =
          some { location, block, width := 1, content := .known value }) ∧
        (¬ (other = block ∧ set) → after.tracker.table.get? location other =
          before.tracker.table.get? location other) := by
  intro before
  have ordered := reachable.inOrder closed
  refine ⟨?_, ?_⟩
  · intro failure after fails
    rcases Raise.failsComputed_deriveFlag closed ordered.flagged test failure after fails with
      ⟨func, statistics, computations, rfl⟩
    have more := computations.computesMore
    refine ⟨rfl, more, fun slot => ⟨?_, ?_⟩, ?_⟩
    · exact more.slotStores_eq ordered.kept.numbered.lt_size slot
    · exact more.slotLoads_eq ordered.kept.numbered.lt_size slot
    · intro held user old operand reads
      exact more.lt_size_of_mem_operands held old reads
  · intro after succeeds
    rcases Raise.filed_of_run_deriveFlag succeeds with ⟨value, filed⟩
    refine ⟨value, fun location other => ?_⟩
    have sets_iff : (∃ set, Raise.SetsFlag flag family set ∧ location = .flag set) ↔
        location = .flag flag ∨ family = .signedMultiply ∧
          (flag = .carry ∧ location = .flag .overflow ∨
            flag = .overflow ∧ location = .flag .carry) := by
      simp only [Raise.SetsFlag, Raise.twin?_eq_some_iff]
      aesop
    rw [← sets_iff]
    refine ⟨?_, filed.kept location other⟩
    rintro ⟨rfl, set, sets, rfl⟩
    exact filed.filed set sets

/-- A block shifts a byte by a count in a register, and multiplies it. -/
def shiftedSession : Session :=
  (Session.starting entryGraph "shifted" [.int 8, .int 8] ["entry"]).after entryGraph
    [.emit 0 (.binary .shl 0 1), .emit 0 (.binary .mul 0 1)]

/-- No carry reaches the shift, so its code is built in vain; the product sets both flags. -/
theorem flag_derivation_confined_shifted :
    entryGraph.Closed ∧ Session.Reachable entryGraph shiftedSession ∧
      (∃ after, (Raise.deriveFlag entryGraph .carry 0 .shiftLeft 2).run shiftedSession.raising =
          .error (.noFlagRule .carry .shiftLeft .noIncomingCarry) after ∧
        after.func.values.size = 11 ∧ after.tracker = shiftedSession.raising.tracker ∧
        shiftedSession.raising.func.ComputesMore 0 after.func) ∧
      ∃ after value,
        (Raise.deriveFlag entryGraph .carry 0 .signedMultiply 3).run shiftedSession.raising =
          .ok () after ∧
        after.tracker.table.get? (.flag .overflow) 0 =
          some { location := .flag .overflow, block := 0, width := 1, content := .known value } ∧
        after.tracker.table.get? (.register .rdi) 0 =
          shiftedSession.raising.tracker.table.get? (.register .rdi) 0 := by
  have closed : entryGraph.Closed := by decide +kernel
  have reachable : Session.Reachable entryGraph shiftedSession := by
    refine (Session.Reachable.start (Session.starts_starting rfl ?_)).after
      ⟨trivial, trivial, trivial⟩
    decide +kernel
  have fails : ∃ after,
      (Raise.deriveFlag entryGraph .carry 0 .shiftLeft 2).run shiftedSession.raising =
        .error (.noFlagRule .carry .shiftLeft .noIncomingCarry) after := ⟨_, by cbv⟩
  have succeeds : (Raise.deriveFlag entryGraph .carry 0 .signedMultiply 3).succeeds
      shiftedSession.raising = true := by
    decide +kernel
  have grown : ((Raise.deriveFlag entryGraph .carry 0 .shiftLeft 2).final
      shiftedSession.raising).func.values.size = 11 := by
    decide +kernel
  rcases fails with ⟨failed, fails⟩
  rcases Raise.exists_of_succeeds succeeds with ⟨_, after, succeeds⟩
  rw [Raise.final_of_error fails] at grown
  have shift := (flag_derivation_confined closed reachable .carry 0 .shiftLeft 2).1 _ _ fails
  rcases (flag_derivation_confined closed reachable .carry 0 .signedMultiply 3).2 _ succeeds with
    ⟨value, changes⟩
  refine ⟨closed, reachable, ⟨failed, fails, grown, shift.1, shift.2.1⟩, after, value, succeeds,
    ?_, ?_⟩
  · exact (changes (.flag .overflow) 0).1 (by simp)
  · exact (changes (.register .rdi) 0).2 (by simp)

end RegisterFlow
