import RegisterFlow.Proofs.Code.Growth
import RegisterFlow.Tracking.Deferred
import RegisterFlow.Tracking.Flags

/-!
# Steps of raising

The laws of the steps that raising consists of: what each elementary step answers and the state it
leaves, how a sequence of steps succeeds or fails, and how a relation between the states before and
after carries over from the elementary steps to every sequence of them.
-/

namespace RegisterFlow.Raise

variable {α β : Type}

/-- The state that a step leaves, whether it succeeds or fails. -/
def final (step : Raise α) (raising : Raising) : Raising :=
  match step.run raising with
  | .ok _ after => after
  | .error _ after => after

/-- Whether a step succeeds. -/
def succeeds (step : Raise α) (raising : Raising) : Bool :=
  match step.run raising with
  | .ok .. => true
  | .error .. => false

theorem exists_of_succeeds {step : Raise α} {raising : Raising}
    (succeeds : step.succeeds raising = true) :
    ∃ answer after, step.run raising = .ok answer after := by
  unfold Raise.succeeds at succeeds
  split at succeeds
  · next outcome => exact ⟨_, _, outcome⟩
  · cases succeeds

theorem final_of_ok {step : Raise α} {before after : Raising} {answer : α}
    (succeeds : step.run before = .ok answer after) : step.final before = after := by
  simp [final, succeeds]

theorem final_of_error {step : Raise α} {before after : Raising} {failure : TrackingError}
    (fails : step.run before = .error failure after) : step.final before = after := by
  simp [final, fails]

@[simp]
theorem run_build (builder : Builder α) (raising : Raising) :
    (build builder).run raising =
      .ok (builder.run raising.func).1 { raising with func := (builder.run raising.func).2 } :=
  rfl

theorem run_build_of_run {builder : Builder α} {raising : Raising} {answer : α} {func : Function}
    (run : builder.run raising.func = (answer, func)) :
    (build builder).run raising = .ok answer { raising with func } := by
  rw [run_build, run]

@[simp]
theorem run_count (tally : Statistics → Statistics) (raising : Raising) :
    (count tally).run raising =
      .ok () { raising with statistics := tally raising.statistics } :=
  rfl

@[simp]
theorem run_update (change : Tracker → Tracker) (raising : Raising) :
    (update change).run raising = .ok () { raising with tracker := change raising.tracker } :=
  rfl

@[simp]
theorem run_ofExcept_ok (answer : α) (raising : Raising) :
    (ofExcept (.ok answer)).run raising = .ok answer raising :=
  rfl

@[simp]
theorem run_ofExcept_error (failure : TrackingError) (raising : Raising) :
    (ofExcept (.error failure : Except TrackingError α)).run raising = .error failure raising :=
  rfl

@[simp]
theorem run_throw (failure : TrackingError) (raising : Raising) :
    (throw failure : Raise α).run raising = .error failure raising :=
  rfl

@[simp]
theorem run_definitionIn? (graph : FlowGraph) (location : Location) (block : BlockId)
    (raising : Raising) :
    (definitionIn? graph location block).run raising =
      .ok (raising.tracker.definitionIn? graph location block) raising :=
  rfl

/-- A definition is filed, or its width is refused and nothing changes. -/
theorem run_define (location : Location) (block : BlockId) (width : Nat) (value : ValueId)
    (raising : Raising) :
    (define location block width value).run raising =
      match raising.tracker.table.record location block width value with
      | .ok table => .ok () { raising with tracker := { raising.tracker with table } }
      | .error failure => .error failure raising := by
  simp only [define, EStateM.run_bind, EStateM.run_get]
  cases raising.tracker.table.record location block width value <;> rfl

theorem run_discard (step : Raise α) (before : Raising) :
    (discard step).run before =
      match step.run before with
      | .ok _ after => .ok () after
      | .error failure after => .error failure after := by
  cases outcome : step.run before <;>
    simp_all [discard, Functor.mapConst, EStateM.map, EStateM.run]

theorem run_bind_of_ok {step : Raise α} {next : α → Raise β} {before after : Raising} {answer : α}
    (succeeds : step.run before = .ok answer after) :
    (step >>= next).run before = (next answer).run after := by
  rw [EStateM.run_bind, succeeds]

theorem run_bind_of_error {step : Raise α} {next : α → Raise β} {before after : Raising}
    {failure : TrackingError} (fails : step.run before = .error failure after) :
    (step >>= next).run before = .error failure after := by
  rw [EStateM.run_bind, fails]

/-- The answer of a step does not matter for the state that it leaves. -/
theorem final_bind_pure (step : Raise α) (answer : α → β) (before : Raising) :
    (step >>= fun first => pure (answer first)).final before = step.final before := by
  unfold final
  rw [EStateM.run_bind]
  cases step.run before <;> rfl

theorem succeeds_bind_pure (step : Raise α) (answer : α → β) (before : Raising) :
    (step >>= fun first => pure (answer first)).succeeds before = step.succeeds before := by
  unfold succeeds
  rw [EStateM.run_bind]
  cases step.run before <;> rfl

theorem final_discard (step : Raise α) (before : Raising) :
    (discard step).final before = step.final before := by
  unfold final
  rw [run_discard]
  cases step.run before <;> rfl

/-- A sequence succeeds if its first step does and what follows does from there. -/
theorem run_bind_eq_ok_iff {step : Raise α} {next : α → Raise β} {before after : Raising}
    {answer : β} :
    (step >>= next).run before = .ok answer after ↔
      ∃ first middle, step.run before = .ok first middle ∧
        (next first).run middle = .ok answer after := by
  rw [EStateM.run_bind]
  cases outcome : step.run before with
  | ok first middle => simp
  | error failure middle => simp

/-! ### Repeated steps -/

/-- One change after the other, one for each item of a list. -/
inductive Chain {ι : Type} (changes : ι → Raising → Raising → Prop) :
    List ι → Raising → Raising → Prop where
  | nil (raising : Raising) : Chain changes [] raising raising
  | cons {item : ι} {items : List ι} {before middle after : Raising}
      (first : changes item before middle) (rest : Chain changes items middle after) :
      Chain changes (item :: items) before after

/-- What every change keeps, a chain of changes keeps. -/
theorem Chain.keeps {ι : Type} {changes : ι → Raising → Raising → Prop} {items : List ι}
    {before after : Raising} (chain : Chain changes items before after) (holds : Raising → Prop)
    (step : ∀ item before after, changes item before after → holds before → holds after)
    (started : holds before) : holds after := by
  induction chain with
  | nil => exact started
  | cons first _ ih => exact ih (step _ _ _ first started)

/--
A step that is repeated for the items of a list makes its change for all of them, or it stops at
the first item that it refuses.
-/
theorem run_forM {ι : Type} {step : ι → Raise Unit} (changes : ι → Raising → Raising → Prop)
    (outcome : ∀ item before,
      (∃ after, changes item before after ∧ (step item).run before = .ok () after) ∨
        ∃ failure, (step item).run before = .error failure before)
    (items : List ι) (before : Raising) :
    (∃ after, Chain changes items before after ∧
        (items.forM step).run before = .ok () after) ∨
      ∃ done refused rest after failure, items = done ++ refused :: rest ∧
        Chain changes done before after ∧ (step refused).run after = .error failure after ∧
        (items.forM step).run before = .error failure after := by
  induction items generalizing before with
  | nil => exact Or.inl ⟨before, .nil before, rfl⟩
  | cons item items ih =>
      simp only [List.forM_eq_forM] at ih ⊢
      rw [List.forM_cons]
      rcases outcome item before with ⟨middle, first, succeeds⟩ | ⟨failure, fails⟩
      · rw [run_bind_of_ok succeeds]
        rcases ih middle with
          ⟨after, rest, run⟩ | ⟨done, refused, rest, after, failure, split, chain, fails, run⟩
        · exact Or.inl ⟨after, .cons first rest, run⟩
        · right
          refine ⟨item :: done, refused, rest, after, failure, ?_, .cons first chain, fails, run⟩
          rw [split]
          rfl
      · right
        exact ⟨[], item, items, before, failure, rfl, .nil before, fails, run_bind_of_error fails⟩

/-! ### Steps along a relation -/

/--
A step leads from a state to a related one, also when it fails. When it succeeds, its answer is a
good one in the state after it.
-/
def Leads (related : Raising → Raising → Prop) (good : α → Raising → Prop) (step : Raise α)
    (before : Raising) : Prop :=
  match step.run before with
  | .ok answer after => related before after ∧ good answer after
  | .error _ after => related before after

section Leads

variable {related : Raising → Raising → Prop} {good : α → Raising → Prop}
  {best : β → Raising → Prop} {step : Raise α} {next : α → Raise β} {before after : Raising}

theorem Leads.of_ok {answer : α} (succeeds : step.run before = .ok answer after)
    (along : related before after) (holds : good answer after) :
    Leads related good step before := by
  rw [Leads, succeeds]
  exact ⟨along, holds⟩

theorem Leads.of_error {failure : TrackingError} (fails : step.run before = .error failure after)
    (along : related before after) : Leads related good step before := by
  rw [Leads, fails]
  exact along

theorem Leads.ok {answer : α} (leads : Leads related good step before)
    (succeeds : step.run before = .ok answer after) :
    related before after ∧ good answer after := by
  rwa [Leads, succeeds] at leads

theorem Leads.error {failure : TrackingError} (leads : Leads related good step before)
    (fails : step.run before = .error failure after) : related before after := by
  rwa [Leads, fails] at leads

/-- The state that a step leaves is related to the one before, whether it succeeds or fails. -/
theorem Leads.final (leads : Leads related good step before) :
    related before (step.final before) := by
  cases outcome : step.run before with
  | ok answer after => exact final_of_ok outcome ▸ (leads.ok outcome).1
  | error failure after => exact final_of_error outcome ▸ leads.error outcome

theorem leads_pure [Std.Refl related] {answer : α} (holds : good answer before) :
    Leads related good (pure answer) before :=
  .of_ok rfl (Std.Refl.refl _) holds

theorem leads_throw [Std.Refl related] {failure : TrackingError} :
    Leads related good (throw failure) before :=
  .of_error rfl (Std.Refl.refl _)

/-- A sequence leads along a transitive relation if its first step and what follows do. -/
theorem Leads.bind [IsTrans Raising related] (first : Leads related good step before)
    (second : ∀ answer middle, related before middle → good answer middle →
      Leads related best (next answer) middle) :
    Leads related best (step >>= next) before := by
  cases outcome : step.run before with
  | ok answer middle =>
      have started := first.ok outcome
      have continues := second answer middle started.1 started.2
      rw [Leads, run_bind_of_ok outcome]
      cases rest : (next answer).run middle with
      | ok result after =>
          have done := continues.ok rest
          exact ⟨IsTrans.trans _ _ _ started.1 done.1, done.2⟩
      | error failure after => exact IsTrans.trans _ _ _ started.1 (continues.error rest)
  | error failure middle => exact .of_error (run_bind_of_error outcome) (first.error outcome)

theorem Leads.along {further : Raising → Raising → Prop} (leads : Leads related good step before)
    (weaker : ∀ after, related before after → further before after) :
    Leads further good step before := by
  cases outcome : step.run before with
  | ok answer after =>
      have done := leads.ok outcome
      exact .of_ok outcome (weaker after done.1) done.2
  | error failure after => exact .of_error outcome (weaker after (leads.error outcome))

theorem leads_ofExcept [Std.Refl related] (result : Except TrackingError α) :
    Leads related (fun answer after => result = .ok answer ∧ after = before) (ofExcept result)
      before := by
  cases result with
  | ok answer => exact .of_ok rfl (Std.Refl.refl _) ⟨rfl, rfl⟩
  | error failure => exact .of_error rfl (Std.Refl.refl _)

theorem Leads.discard (leads : Leads related good step before) :
    Leads related (fun _ after => ∃ answer, good answer after) (discard step) before := by
  have run_eq := run_discard step before
  cases outcome : step.run before with
  | ok answer after =>
      rw [outcome] at run_eq
      exact .of_ok run_eq (leads.ok outcome).1 ⟨answer, (leads.ok outcome).2⟩
  | error failure after =>
      rw [outcome] at run_eq
      exact .of_error run_eq (leads.error outcome)

theorem Leads.imp {better : α → Raising → Prop} (leads : Leads related good step before)
    (weaker : ∀ answer after, related before after → good answer after → better answer after) :
    Leads related better step before := by
  cases outcome : step.run before with
  | ok answer after =>
      have done := leads.ok outcome
      exact .of_ok outcome done.1 (weaker answer after done.1 done.2)
  | error failure after => exact .of_error outcome (leads.error outcome)

end Leads

end RegisterFlow.Raise
