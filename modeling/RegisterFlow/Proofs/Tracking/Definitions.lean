import Mathlib.Tactic.Common
import RegisterFlow.Proofs.Tracking.Walk

/-!
# Definitions after a change

What the tracker knows about the locations of a block after a definition was filed, and after the
pending definitions of a block were dropped.
-/

namespace RegisterFlow

namespace Table

variable {table after : Table} {location other : Location} {block elsewhere : BlockId}
  {width : Nat} {value : ValueId} {definition : Definition}

/-- Only a definition that passes its check is inserted. -/
theorem insert_eq_ok (inserts : table.insert definition = .ok after) :
    (definition.width ≠ 0 ∧ (definition.location.isFlag → definition.width = 1)) ∧
      after.definitions = place definition table.definitions := by
  unfold insert Definition.check at inserts
  split at inserts
  · cases inserts
  · next positive =>
    split at inserts
    · cases inserts
    · next narrow =>
      cases inserts
      refine ⟨⟨positive, fun flagged => ?_⟩, rfl⟩
      exact Decidable.not_not.mp fun wide => narrow ⟨flagged, wide⟩

theorem definitions_of_record (filed : table.record location block width value = .ok after) :
    after.definitions =
      place { location, block, width, content := .known value } table.definitions :=
  (insert_eq_ok filed).2

theorem definitions_of_markPending (marked : table.markPending location block width = .ok after) :
    after.definitions =
      place { location, block, width, content := .pending } table.definitions :=
  (insert_eq_ok marked).2

/-- A definition that takes its place is found there; all others stay what they were. -/
theorem get?_of_place
    (placed : after.definitions = place definition table.definitions) :
    after.get? other elsewhere =
      if other = definition.location ∧ elsewhere = definition.block then some definition
      else table.get? other elsewhere := by
  rw [get?, placed, find?_place]
  by_cases same : other = definition.location ∧ elsewhere = definition.block
  · rw [if_pos same, if_pos]
    simp [Definition.isAt, same.1, same.2]
  · rw [if_neg same, if_neg]
    · rfl
    · simp only [Definition.isAt, decide_eq_true_eq]
      rintro ⟨same_block, same_location⟩
      exact same ⟨same_location.symm, same_block.symm⟩

theorem get?_record (filed : table.record location block width value = .ok after) :
    after.get? other elsewhere =
      if other = location ∧ elsewhere = block then
        some { location, block, width, content := .known value }
      else table.get? other elsewhere :=
  get?_of_place (definitions_of_record filed)

theorem get?_markPending (marked : table.markPending location block width = .ok after) :
    after.get? other elsewhere =
      if other = location ∧ elsewhere = block then
        some { location, block, width, content := .pending }
      else table.get? other elsewhere :=
  get?_of_place (definitions_of_markPending marked)

/-- A record is refused only for its width. -/
theorem record_eq_ok (positive : 0 < width) (narrow : location.isFlag → width = 1) :
    ∃ after, table.record location block width value = .ok after := by
  unfold record insert Definition.check
  rw [if_neg (Nat.ne_of_gt positive), if_neg (fun holds => holds.2 (narrow holds.1))]
  exact ⟨_, rfl⟩

theorem mem_place {found : Definition} (definitions : List Definition)
    (mem : found ∈ place definition definitions) : found = definition ∨ found ∈ definitions := by
  induction definitions with
  | nil => exact Or.inl (List.mem_singleton.mp mem)
  | cons first rest ih =>
      rw [place] at mem
      split at mem
      · rcases List.mem_cons.mp mem with here | later
        · exact Or.inl here
        · exact Or.inr (List.mem_cons_of_mem _ later)
      · split at mem
        · exact List.mem_cons.mp mem
        · rcases List.mem_cons.mp mem with rfl | later
          · exact Or.inr List.mem_cons_self
          · exact (ih later).imp_right (List.mem_cons_of_mem _)

/-- Dropping the pending definitions of a block changes nothing where none is pending. -/
theorem get?_withoutPending
    (settled : ∀ definition, table.get? location elsewhere = some definition →
      isPendingIn block definition = false) :
    (table.withoutPending block).get? location elsewhere = table.get? location elsewhere := by
  unfold get? at settled ⊢
  simp only [withoutPending, List.find?_filter]
  generalize table.definitions = definitions at settled ⊢
  induction definitions with
  | nil => rfl
  | cons first rest ih =>
      rw [List.find?_cons, List.find?_cons]
      rw [List.find?_cons] at settled
      cases found : first.isAt location elsewhere with
      | true =>
          rw [found] at settled
          simp [settled first rfl]
      | false =>
          rw [found] at settled
          simpa using ih settled

end Table

namespace Tracker

variable {graph : FlowGraph} {tracker : Tracker} {table : Table} {location other : Location}
  {block elsewhere : BlockId} {width : Nat} {value : ValueId}

theorem definitionIn?_congr_at {first second : Tracker}
    (bound : first.bindingAt? location = second.bindingAt? location)
    (table : first.table.get? location block = second.table.get? location block) :
    first.definitionIn? graph location block = second.definitionIn? graph location block := by
  simp only [definitionIn?, table, bound]

theorem definitionIn?_congr {first second : Tracker} (bindings : first.bindings = second.bindings)
    (table : first.table.get? location block = second.table.get? location block) :
    first.definitionIn? graph location block = second.definitionIn? graph location block := by
  refine definitionIn?_congr_at ?_ table
  cases location <;> simp [bindingAt?, binding?, bindings]

/-- A filed value is the content of its place; all others stay what they were. -/
theorem content?_record (filed : tracker.table.record location block width value = .ok table) :
    ({ tracker with table } : Tracker).content? graph other elsewhere =
      if other = location ∧ elsewhere = block then some (.known value)
      else tracker.content? graph other elsewhere := by
  have found := @Table.get?_record _ _ _ other _ elsewhere _ _ filed
  split
  · next same =>
    rw [if_pos same] at found
    simp [content?, definitionIn?, found, Definition.value?, Content.value?]
  · next different =>
    rw [if_neg different] at found
    have same : ({ tracker with table } : Tracker).definitionIn? graph other elsewhere =
        tracker.definitionIn? graph other elsewhere := definitionIn?_congr rfl found
    rw [content?, same, content?]

theorem content?_addMerge (merge : Merge) :
    (tracker.addMerge merge).content? graph location block =
      tracker.content? graph location block :=
  rfl

/-- Dropping pending definitions changes no content where none is dropped. -/
theorem content?_withoutPending
    (settled : ∀ definition, tracker.table.get? location elsewhere = some definition →
      Table.isPendingIn block definition = false) :
    ({ tracker with table := tracker.table.withoutPending block } : Tracker).content? graph location
        elsewhere = tracker.content? graph location elsewhere := by
  have same : ({ tracker with table := tracker.table.withoutPending block } : Tracker).definitionIn?
      graph location elsewhere = tracker.definitionIn? graph location elsewhere :=
    definitionIn?_congr rfl (Table.get?_withoutPending settled)
  rw [content?, same, content?]

end Tracker

end RegisterFlow
