import RegisterFlow.Proofs.Tracking.Contents
import RegisterFlow.Proofs.Tracking.Lasting
import RegisterFlow.Proofs.Tracking.Obligations

/-!
# The life of definitions

Whatever is done in a session, and whether it succeeds or fails, the table holds one definition at
most for each location and block, in order, and their widths make sense. What is pending has been so
since the start, and it ends in one of two ways: a value is recorded in its place, or its block is
ended. A known value stays on record.
-/

namespace RegisterFlow

namespace Tracker

variable {graph : FlowGraph} {func : Function} {tracker : Tracker} {location : Location}
  {block elsewhere : BlockId}

theorem enduring_wellFormed : Enduring graph (fun tracker => tracker.table.WellFormed) where
  congr first second same _ wellFormed := by
    rw [same]
    exact wellFormed
  file _ _ _ _ _ _ _ filed wellFormed := wellFormed.insert filed
  drop _ _ wellFormed := wellFormed.withoutPending

/-- The table of a session stays well formed. -/
theorem wellFormed_after {session : Session} (actions : List Action)
    (wellFormed : session.raising.tracker.table.WellFormed) :
    (session.after graph actions).raising.tracker.table.WellFormed :=
  enduring_wellFormed.after (fun _ _ _ _ _ _ _ _ _ filed wellFormed => wellFormed.insert filed)
    wellFormed

/-- A known value stays on record. -/
theorem hasValue_after {session : Session} (actions : List Action)
    (recorded : session.raising.tracker.table.HasValue location block) :
    (session.after graph actions).raising.tracker.table.HasValue location block := by
  have enduring : Enduring graph fun tracker => tracker.table.HasValue location block := by
    refine ⟨⟨?_, fun _ _ _ _ _ _ _ filed recorded => recorded.record filed⟩,
      fun dropped _ recorded => recorded.withoutPending dropped⟩
    intro first second same _ recorded
    rw [same]
    exact recorded
  exact enduring.after (fun _ _ _ _ _ _ _ _ _ filed recorded => recorded.record filed) recorded

theorem not_isPending_of_hasValue (recorded : tracker.table.HasValue location block) :
    ¬ tracker.IsPending location block := by
  rintro ⟨definition, found, pending⟩
  rw [Table.HasValue, found, Option.bind_some, Definition.value?, pending] at recorded
  cases recorded

/-- Dropping what is pending in a block takes away just that. -/
theorem isPending_withoutPending_iff (ordered : tracker.table.Ordered) :
    ({ tracker with table := tracker.table.withoutPending block } : Tracker).IsPending location
      elsewhere ↔ elsewhere ≠ block ∧ tracker.IsPending location elsewhere := by
  unfold IsPending
  dsimp only
  rw [ordered.get?_withoutPending]
  constructor
  · rintro ⟨definition, found, pending⟩
    rcases Option.filter_eq_some_iff.mp found with ⟨filed, kept⟩
    refine ⟨?_, definition, filed, pending⟩
    rintro rfl
    have placed := (ordered.get?_eq_some_iff.mp filed).2.2
    simp [Table.isPendingIn, placed, pending] at kept
  · rintro ⟨different, definition, filed, pending⟩
    have placed := (ordered.get?_eq_some_iff.mp filed).2.2
    refine ⟨definition, Option.filter_eq_some_iff.mpr ⟨filed, ?_⟩, pending⟩
    simp [Table.isPendingIn, placed, different]

/-- Nothing becomes pending. -/
theorem isPending_of_after {session : Session} {actions : List Action}
    (ordered : session.raising.tracker.table.Ordered)
    (pending : (session.after graph actions).raising.tracker.IsPending location block) :
    session.raising.tracker.IsPending location block := by
  have enduring : Enduring graph fun tracker => tracker.table.Ordered ∧
      (tracker.IsPending location block → session.raising.tracker.IsPending location block) := by
    refine ⟨⟨?_, ?_⟩, ?_⟩
    · intro first second same _ holds
      rw [IsPending, same]
      exact holds
    · intro tracker other elsewhere width value table _ filed holds
      exact ⟨holds.1.record filed, fun left => holds.2 ((isPending_record_iff filed).mp left).2⟩
    · intro dropped tracker holds
      exact ⟨holds.1.withoutPending,
        fun left => holds.2 ((isPending_withoutPending_iff holds.1).mp left).2⟩
  have holds : (session.after graph actions).raising.tracker.table.Ordered ∧
      ((session.after graph actions).raising.tracker.IsPending location block →
        session.raising.tracker.IsPending location block) := enduring.after
    (fun action _ other elsewhere _ tracker width value table filed holds =>
      ⟨holds.1.record filed, fun left => holds.2 ((isPending_record_iff filed).mp left).2⟩)
    ⟨ordered, id⟩
  exact holds.2 pending

end Tracker

/--
The table is well formed at all times, and what it lists is what is found in each place. At the
start, exactly what blocks write is pending; nothing becomes pending later, and what has a known
value keeps one. The end of a block drops what is pending there and nothing else, and nothing is
pending in the block from then on.
-/
theorem definitions_live {graph : FlowGraph} {start : Session}
    (starts : Tracker.start graph start.raising.func = .ok start.raising.tracker)
    (earlier later : List Action) :
    let reached := (start.after graph earlier).raising.tracker
    let further := (start.after graph (earlier ++ later)).raising.tracker
    reached.table.WellFormed ∧
    (∀ location block definition, reached.table.get? location block = some definition ↔
      definition ∈ reached.table.definitions ∧ definition.location = location ∧
        definition.block = block) ∧
    (∀ location block,
      start.raising.tracker.IsPending location block ↔ graph.Writes block location) ∧
    (∀ location block, further.IsPending location block → reached.IsPending location block) ∧
    (∀ location block, reached.table.HasValue location block →
      further.table.HasValue location block ∧ ¬ further.IsPending location block) ∧
    ∀ block,
      (start.after graph (earlier ++ [.endBlock block])).raising.tracker.table.definitions =
        reached.table.definitions.filter (! Table.isPendingIn block ·) ∧
      (.endBlock block ∈ earlier → ∀ location, ¬ reached.IsPending location block) := by
  have wellFormed : (start.after graph earlier).raising.tracker.table.WellFormed :=
    Tracker.wellFormed_after earlier (Tracker.wellFormed_of_start starts)
  dsimp only
  rw [Session.after_append]
  refine ⟨wellFormed, fun _ _ _ => wellFormed.ordered.get?_eq_some_iff,
    fun _ _ => Tracker.isPending_start_iff starts,
    fun _ _ => Tracker.isPending_of_after wellFormed.ordered, ?_, ?_⟩
  · intro location block recorded
    have kept : ((start.after graph earlier).after graph later).raising.tracker.table.HasValue
        location block := Tracker.hasValue_after later recorded
    exact ⟨kept, Tracker.not_isPending_of_hasValue kept⟩
  · intro block
    refine ⟨by rw [Session.after_append]; rfl, fun ended location pending => ?_⟩
    rcases List.append_of_mem ended with ⟨front, back, rfl⟩
    have ordered : (start.after graph front).raising.tracker.table.Ordered :=
      Tracker.ordered_after front (Tracker.wellFormed_of_start starts).ordered
    rw [Session.after_append] at pending
    have still_ordered := @Tracker.ordered_after graph _ [.endBlock block] ordered
    have left := Tracker.isPending_of_after still_ordered pending
    exact ((Tracker.isPending_withoutPending_iff ordered).mp left).1 rfl

/-- What is pending in the second of three blocks in a row is gone when a value is recorded. -/
theorem definitions_live_row :
    Tracker.start rowGraph rowSession.raising.func = .ok rowSession.raising.tracker ∧
      rowSession.raising.tracker.IsPending (.register .rax) 1 ∧
      (rowSession.after rowGraph (rowActions ++ [.endBlock 1])).raising.tracker.table.HasValue
        (.register .rax) 1 ∧
      ¬ (rowSession.after rowGraph (rowActions ++ [.endBlock 1])).raising.tracker.IsPending
        (.register .rax) 1 := by
  have starts := starts_rowSession.tracker_eq
  rcases definitions_live starts rowActions [.endBlock 1] with ⟨-, -, noted, -, kept, -⟩
  have writes : rowGraph.Writes 1 (.register .rax) := ⟨.rax, by decide, rfl⟩
  have recorded : (rowSession.after rowGraph rowActions).raising.tracker.table.HasValue
      (.register .rax) 1 := by
    rw [Table.HasValue]
    cbv
  exact ⟨starts, (noted _ _).mpr writes, kept _ _ recorded⟩

end RegisterFlow
