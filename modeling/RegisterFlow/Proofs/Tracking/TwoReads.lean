import RegisterFlow.Proofs.Tracking.Inertness
import RegisterFlow.Proofs.Tracking.MergedReads

/-!
# Two reads of the same definitions

Two reads that find the same definitions, in functions that grew aside from a common one, are
supplied by the same block on the same way. So what they load is the same, and they differ at most
in the width to which they convert it.
-/

namespace RegisterFlow

/-! ### Numbers of two executions -/

namespace Function

/--
Whenever executions of two functions stand at the end of a block, with the same arguments and after
the same visits, a value of the first and a value of the second have the same number.
-/
def SameNumber (first second : Function) (block : BlockId) (value other : ValueId) : Prop :=
  ∀ arguments visited left right, first.Ends arguments visited block left →
    second.Ends arguments visited block right →
      ∀ number, first.Evaluates arguments left value number ↔
        second.Evaluates arguments right other number

/-- In such executions the second value has the low bits of the first one, as many as are given. -/
def SameLowBits (first second : Function) (width : Nat) (block : BlockId)
    (value other : ValueId) : Prop :=
  ∀ arguments visited left right, first.Ends arguments visited block left →
    second.Ends arguments visited block right →
      ∃ number shown, first.Evaluates arguments left value number ∧
        second.Evaluates arguments right other shown ∧
        Word.truncate width shown = Word.truncate width number

variable {base first second : Function} {block : BlockId} {value other : ValueId}

theorem sameNumber_of_words
    (same : ∀ arguments visited left right, first.Ends arguments visited block left →
      second.Ends arguments visited block right →
        (second.snapshot arguments right).words other =
          (first.snapshot arguments left).words value) :
    first.SameNumber second block value other := by
  intro arguments visited left right ends ends_again number
  rw [evaluates_iff ends.faithful, evaluates_iff ends_again.faithful,
    same arguments visited left right ends ends_again]

/-- Functions that grew aside from a common one agree in the numbers of its values. -/
theorem GrowsAside.sameNumber (aside : base.GrowsAside base.slots.size first)
    (aside_again : base.GrowsAside base.slots.size second) (contained : base.SelfContained)
    (held : value < base.values.size) : first.SameNumber second block value value := by
  apply sameNumber_of_words
  intro arguments visited left right ends ends_again
  rcases aside.exists_word contained ends held with ⟨reached, ends_base, same⟩
  rcases aside_again.exists_word contained ends_again held with ⟨_, ends_base_again, same_again⟩
  cases ends_base.unique ends_base_again
  rw [← same, same_again]

end Function

/-! ### The same definitions -/

/-- The type of a slot depends on the types of the values that meet in it. -/
theorem meetingTy_congr {first second : Function} {fullWidth : Nat}
    {hits : List ReachingDefinition}
    (same : ∀ source given, { block := source, content := .known given } ∈ hits →
      second.ty given = first.ty given) :
    meetingTy second fullWidth hits = meetingTy first fullWidth hits := by
  have widths : ∀ hit ∈ hits, hit.integerWidth? second = hit.integerWidth? first := by
    rintro ⟨source, content⟩ mem
    cases content with
    | pending => rfl
    | known given =>
        simp [ReachingDefinition.integerWidth?, Content.value?, same source given mem]
  have mapped : hits.mapM (·.integerWidth? second) = hits.mapM (·.integerWidth? first) := by
    clear same
    induction hits with
    | nil => rfl
    | cons hit hits ih =>
        rw [List.mapM_cons, List.mapM_cons, widths hit List.mem_cons_self,
          ih fun other mem => widths other (List.mem_cons_of_mem _ mem)]
  rw [meetingTy, meetingTy, mapped]

namespace Tracker

variable {graph : FlowGraph} {first second : Tracker} {location : Location}

theorem search_congr
    (same : ∀ block, second.definitionIn? graph location block =
      first.definitionIn? graph location block) (unseen queue : List BlockId) :
    second.search graph location unseen queue = first.search graph location unseen queue := by
  induction unseen, queue using search.induct graph first location with
  | case1 unseen => rw [search, search]
  | case2 unseen block queue mem definition defined ih =>
      rw [search, search, if_pos mem, if_pos mem, same, defined, ih]
  | case3 unseen block queue mem undefined ih =>
      rw [search, search, if_pos mem, if_pos mem, same, undefined, ih]
  | case4 unseen block queue seen ih =>
      rw [search, search, if_neg seen, if_neg seen, ih]

/-- What is found depends on the definitions of the location. -/
theorem reaching_congr
    (same : ∀ block, second.definitionIn? graph location block =
      first.definitionIn? graph location block) (block : BlockId) (allPaths : Bool) :
    second.reaching graph location block allPaths =
      first.reaching graph location block allPaths := by
  have ends : second.reachingEnd graph location = first.reachingEnd graph location :=
    funext fun predecessor => search_congr same _ [predecessor]
  rw [reaching, reaching, ends]

end Tracker

/-! ### Two merged reads -/

theorem MergedRead.of_met {graph : FlowGraph} {location : Location} {width : Nat}
    {block : BlockId} {hits : List ReachingDefinition} {before after : Raising} {value : ValueId}
    (kept : before.WellKept graph)
    (reached : before.tracker.reaching graph location block false = hits)
    (unknown : before.tracker.valueIn? graph location block = none)
    (several : ReachingDefinition.Several hits)
    (met : Met location (before.slotTy graph location hits) block hits (some (.int width)) before
      value after) :
    MergedRead graph location width block hits before value after after.func where
  kept
  reached
  unknown
  several
  met
  grown := .refl _
  numbered := met.grows.numbered kept.numbered
  stores _ := rfl

section TwoReads

variable {graph : FlowGraph} {location : Location} {width narrow : Nat} {block : BlockId}
  {hits : List ReachingDefinition} {before other after later : Raising} {value shown : ValueId}
  {base : Function}

/-- What two reads of the same definitions load on the same way is the same. -/
theorem MergedRead.exists_loaded_both {arguments : Array UInt64} {visited : List BlockId}
    {left right : EvalState}
    (merged : MergedRead graph location width block hits before value after after.func)
    (again : MergedRead graph location narrow block hits other shown later later.func)
    (closed : graph.Closed) (contained : base.SelfContained)
    (held : ReachingDefinition.AllHeld hits base)
    (aside : base.GrowsAside base.slots.size after.func)
    (aside_again : base.GrowsAside base.slots.size later.func)
    (ends : after.func.Ends arguments visited block left)
    (ends_again : later.func.Ends arguments visited block right) :
    ∃ word, (after.func.snapshot arguments left).words value =
        some ((before.slotTy graph location hits).adjust (.int width) word) ∧
      (later.func.snapshot arguments right).words shown =
        some ((before.slotTy graph location hits).adjust (.int narrow) word) := by
  have types : ∀ source given, { block := source, content := .known given } ∈ hits →
      other.func.ty given = before.func.ty given := by
    intro source given mem
    have given_held := held _ mem given rfl
    rw [← (again.given_lt closed mem).2, ← (merged.given_lt closed mem).2,
      aside_again.ty_eq given given_held, aside.ty_eq given given_held]
  have slotTy_eq : other.slotTy graph location hits = before.slotTy graph location hits :=
    meetingTy_congr types
  rcases merged.exists_latest closed ends with ⟨between, source, given, earlier, rfl, latest⟩
  rcases merged.words_of_latest closed latest ends with ⟨_, word, ends_source, known, read⟩
  rcases again.words_of_latest closed latest ends_again with
    ⟨_, number, ends_source_again, known_again, read_again⟩
  have given_held := held _ latest.mem given rfl
  rcases aside.exists_word contained ends_source given_held with ⟨reached, ends_base, same⟩
  rcases aside_again.exists_word contained ends_source_again given_held with
    ⟨_, ends_base_again, same_again⟩
  cases ends_base.unique ends_base_again
  rw [same, known, known_again, Option.some.injEq] at same_again
  subst same_again
  rw [slotTy_eq, types source given latest.mem] at read_again
  exact ⟨_, read, read_again⟩

/-- A narrow and a wide read of the same definitions agree in the low bits that both have. -/
theorem MergedRead.sameLowBits (le : narrow ≤ width)
    (merged : MergedRead graph location width block hits before value after after.func)
    (again : MergedRead graph location narrow block hits other shown later later.func)
    (closed : graph.Closed) (contained : base.SelfContained)
    (held : ReachingDefinition.AllHeld hits base)
    (aside : base.GrowsAside base.slots.size after.func)
    (aside_again : base.GrowsAside base.slots.size later.func) :
    after.func.SameLowBits later.func narrow block value shown := by
  intro arguments visited left right ends ends_again
  rcases merged.exists_loaded_both again closed contained held aside aside_again ends ends_again
    with ⟨word, read, read_again⟩
  refine ⟨_, _, (Function.evaluates_iff ends.faithful).mpr read,
    (Function.evaluates_iff ends_again.faithful).mpr read_again, ?_⟩
  rw [Ty.truncate_adjust (Nat.le_refl narrow), Ty.truncate_adjust le]

/--
Reads of a register in states that hold the same definitions give values with the same number, if
the functions grew aside from a common one to which the known values belong.
-/
theorem Read.sameNumber
    (read : Read graph location (.int width) block false true before (some value) after)
    (again : Read graph location (.int width) block false true other (some shown) later)
    (closed : graph.Closed) (kept : before.WellKept graph) (kept_again : other.WellKept graph)
    (same : ∀ place, other.tracker.definitionIn? graph location place =
      before.tracker.definitionIn? graph location place)
    (contained : before.func.SelfContained)
    (aside : before.func.GrowsAside before.func.slots.size after.func)
    (aside_again : before.func.GrowsAside before.func.slots.size later.func) :
    after.func.SameNumber later.func block value shown := by
  have same_value : other.tracker.valueIn? graph location block =
      before.tracker.valueIn? graph location block := by
    rw [Tracker.valueIn?, same, Tracker.valueIn?]
  have same_hits := Tracker.reaching_congr same block false
  cases read with
  | held known =>
      have value_held := kept.ranged.lt_size (Tracker.valueIn?_eq_some_iff.mp known)
      rw [← same_value] at known
      cases again with
      | held known_again =>
          cases known.symm.trans known_again
          exact aside.sameNumber aside_again contained value_held
      | direct unknown _ | met unknown _ _ _ => simp [unknown] at known
  | @direct source _ unknown reached =>
      rw [← same_value] at unknown
      have mem : { block := source, content := .known value } ∈
          before.tracker.reaching graph location block false := by simp [reached]
      have value_held := kept.ranged.lt_size (Tracker.reaches_of_mem_reaching closed mem).2
      rw [← same_hits] at reached
      cases again with
      | held known => simp [unknown] at known
      | direct _ reached_again =>
          cases reached.symm.trans reached_again
          exact aside.sameNumber aside_again contained value_held
      | met _ reached_again several _ =>
          exact absurd (reached_again.symm.trans reached) (several.2 _ _)
  | met unknown reached several met =>
      have merged := MergedRead.of_met (kept.tally _) reached unknown several met
      rw [← same_value] at unknown
      cases again with
      | held known => simp [unknown] at known
      | direct _ reached_again =>
          rw [same_hits, reached] at reached_again
          exact absurd reached_again (several.2 _ _)
      | met unknown_again reached_again several_again met_again =>
          rw [same_hits, reached] at reached_again
          subst reached_again
          have merged_again := MergedRead.of_met (kept_again.tally _) (same_hits.trans reached)
            unknown_again several_again met_again
          have held : ReachingDefinition.AllHeld _ before.func :=
            reached ▸ kept.ranged.allHeld closed false
          apply Function.sameNumber_of_words
          intro arguments visited left right ends ends_again
          rcases merged.exists_loaded_both merged_again closed contained held aside aside_again ends
            ends_again with ⟨word, shows, shows_again⟩
          rw [shows, shows_again]

end TwoReads

end RegisterFlow
