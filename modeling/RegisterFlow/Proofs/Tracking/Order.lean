import Mathlib.Data.List.Nodup
import Mathlib.Data.String.Basic
import RegisterFlow.Proofs.Tracking.Deriving

/-!
# The order of the table

No two locations have the same name. The definition table, which is ordered by block and then by the
name of the location, therefore holds one definition at most for each location and block, and
dropping what is pending in a block leaves all other definitions where they are.
-/

namespace RegisterFlow

namespace Location

/-- All locations. -/
def all : List Location :=
  (Register.generals ++ Register.others).map register ++ Flag.all.map flag

theorem mem_all (location : Location) : location ∈ all := by
  cases location with
  | flag bit => cases bit <;> simp [all, Flag.all]
  | register held =>
      suffices mem : held ∈ Register.generals ++ Register.others by
        exact List.mem_append_left _ (List.mem_map_of_mem mem)
      cases held with
      | segment kind => cases kind <;> simp [Register.others]
      | general part number => cases part <;> simp [Register.generals]
      | vector part number => cases part <;> simp [Register.others]
      | _ => simp [Register.generals, Register.others]

/--
Whether numbers differ from each other and from the places of the bits that are set in `seen`. Every
number is looked at once, which makes this fast to evaluate.
-/
def areFresh (seen : Nat) : List Nat → Bool
  | [] => true
  | place :: places => ! seen.testBit place && areFresh (seen ||| 2 ^ place) places

theorem nodup_of_areFresh {seen : Nat} {places : List Nat} (fresh : areFresh seen places = true) :
    places.Nodup ∧ ∀ place ∈ places, seen.testBit place = false := by
  induction places generalizing seen with
  | nil => exact ⟨.nil, fun _ mem => absurd mem List.not_mem_nil⟩
  | cons place places ih =>
      rw [areFresh, Bool.and_eq_true, Bool.not_eq_true'] at fresh
      rcases ih fresh.2 with ⟨distinct, unseen⟩
      have later : ∀ other ∈ places, seen.testBit other = false ∧ place ≠ other := by
        intro other mem
        have unmarked := unseen other mem
        rw [Nat.testBit_or, Bool.or_eq_false_iff, Nat.testBit_two_pow] at unmarked
        exact ⟨unmarked.1, of_decide_eq_false unmarked.2⟩
      refine ⟨List.nodup_cons.mpr ⟨fun mem => (later place mem).2 rfl, distinct⟩, ?_⟩
      rintro other (_ | ⟨_, mem⟩)
      · exact fresh.1
      · exact (later other mem).1

/-- A small number for a text. The modulus is the first one that tells all names apart. -/
def textPlace (text : String) : Nat :=
  text.toList.foldl (fun place letter => (place * 256 + letter.toNat) % 3048) 0

theorem nodup_textPlaces : (all.map (textPlace ∘ name)).Nodup := by
  have fresh : areFresh 0 (all.map (textPlace ∘ name)) = true := by decide +kernel
  exact (nodup_of_areFresh fresh).1

/-- A location is known by its name. -/
theorem name_injective : Function.Injective name := by
  intro first second same
  exact List.inj_on_of_nodup_map nodup_textPlaces (mem_all first) (mem_all second)
    (congrArg textPlace same)

end Location

namespace Definition

variable {first second third : Definition}

theorem Precedes.trans (left : first.Precedes second) (right : second.Precedes third) :
    first.Precedes third := by
  rcases left with earlier | ⟨same, before⟩
  · rcases right with later | ⟨same, -⟩
    · exact Or.inl (Nat.lt_trans earlier later)
    · exact Or.inl (same ▸ earlier)
  · rcases right with later | ⟨same_again, after⟩
    · exact Or.inl (same ▸ later)
    · exact Or.inr ⟨same.trans same_again, lt_trans before after⟩

/-- Of two definitions for different places, one precedes the other. -/
theorem precedes_of_not (different : first.isAt second.location second.block = false)
    (unordered : ¬ second.Precedes first) : first.Precedes second := by
  simp only [isAt, decide_eq_false_iff_not] at different
  simp only [Precedes, not_or, not_and] at unordered
  rcases Nat.lt_trichotomy first.block second.block with earlier | same | later
  · exact Or.inl earlier
  · refine Or.inr ⟨same, ?_⟩
    rcases lt_trichotomy first.location.name second.location.name with before | equal | after
    · exact before
    · exact absurd ⟨same, Location.name_injective equal⟩ different
    · exact absurd after (unordered.2 same.symm)
  · exact absurd later unordered.1

theorem Precedes.not_isAt (precedes : first.Precedes second) {location : Location}
    {block : BlockId} (here : first.isAt location block = true) :
    second.isAt location block = false := by
  simp only [isAt, decide_eq_true_eq, decide_eq_false_iff_not] at here ⊢
  rintro ⟨same_block, same_location⟩
  rcases precedes with earlier | ⟨-, before⟩
  · rw [here.1, same_block] at earlier
    exact absurd earlier (Nat.lt_irrefl _)
  · rw [here.2, same_location] at before
    exact absurd before (lt_irrefl _)

end Definition

namespace Table

/-- Every definition precedes those behind it. -/
def Ordered (table : Table) : Prop :=
  table.definitions.Pairwise Definition.Precedes

theorem pairwise_place (definition : Definition) {definitions : List Definition}
    (ordered : definitions.Pairwise Definition.Precedes) :
    (place definition definitions).Pairwise Definition.Precedes := by
  induction definitions with
  | nil => exact List.pairwise_singleton ..
  | cons first rest ih =>
      rw [List.pairwise_cons] at ordered
      rw [place]
      split
      · next same =>
        simp only [Definition.isAt, decide_eq_true_eq] at same
        refine List.pairwise_cons.mpr ⟨fun later mem => ?_, ordered.2⟩
        have precedes := ordered.1 later mem
        rwa [Definition.Precedes, same.1, same.2] at precedes
      · next different =>
        split
        · next precedes =>
          refine List.pairwise_cons.mpr ⟨fun later mem => ?_, List.pairwise_cons.mpr ordered⟩
          rcases List.mem_cons.mp mem with rfl | behind
          · exact precedes
          · exact precedes.trans (ordered.1 later behind)
        · next unordered =>
          refine List.pairwise_cons.mpr ⟨fun later mem => ?_, ih ordered.2⟩
          rcases mem_place rest mem with rfl | behind
          · exact Definition.precedes_of_not (Bool.not_eq_true _ ▸ different) unordered
          · exact ordered.1 later behind

namespace Ordered

variable {table after : Table} {location : Location} {block elsewhere : BlockId} {width : Nat}
  {value : ValueId} {definition : Definition}

theorem record (ordered : table.Ordered)
    (filed : table.record location block width value = .ok after) : after.Ordered := by
  rw [Ordered, definitions_of_record filed]
  exact pairwise_place _ ordered

theorem withoutPending (ordered : table.Ordered) : (table.withoutPending block).Ordered :=
  ordered.filter _

/-- Dropping what is pending in a block takes nothing else out of the table. -/
theorem get?_withoutPending (ordered : table.Ordered) :
    (table.withoutPending block).get? location elsewhere =
      (table.get? location elsewhere).filter (! isPendingIn block ·) := by
  unfold Ordered at ordered
  unfold get? Table.withoutPending
  rw [List.find?_filter]
  generalize table.definitions = definitions at ordered ⊢
  induction definitions with
  | nil => rfl
  | cons first rest ih =>
      rw [List.pairwise_cons] at ordered
      rw [List.find?_cons, List.find?_cons]
      cases here : first.isAt location elsewhere with
      | false => simpa using ih ordered.2
      | true =>
          have alone : ∀ later ∈ rest, later.isAt location elsewhere = false :=
            fun later mem => (ordered.1 later mem).not_isAt here
          have none_behind : rest.find? (fun later => ! isPendingIn block later ∧
              later.isAt location elsewhere = true) = none := by
            rw [List.find?_eq_none]
            intro later mem
            simp [alone later mem]
          cases pending : isPendingIn block first with
          | false => simp [Option.filter, pending]
          | true => simpa [Option.filter, pending] using none_behind

/-- In an ordered table, what is listed is what is found in its place. -/
theorem get?_eq_some_iff (ordered : table.Ordered) :
    table.get? location block = some definition ↔
      definition ∈ table.definitions ∧ definition.location = location ∧
        definition.block = block := by
  constructor
  · intro found
    have filed := List.find?_some found
    rw [Definition.isAt, decide_eq_true_eq] at filed
    exact ⟨List.mem_of_find?_eq_some found, filed.2, filed.1⟩
  · rintro ⟨mem, rfl, rfl⟩
    have here : definition.isAt definition.location definition.block = true := by
      simp [Definition.isAt]
    rcases List.append_of_mem mem with ⟨front, back, split⟩
    rw [get?, List.find?_eq_some_iff_append]
    refine ⟨here, front, back, split, fun earlier before => ?_⟩
    rw [Ordered, split, List.pairwise_append] at ordered
    have precedes := ordered.2.2 earlier before definition List.mem_cons_self
    cases same : earlier.isAt definition.location definition.block with
    | false => rfl
    | true => exact absurd here (by simp [precedes.not_isAt same])

end Ordered

variable {table after : Table} {block : BlockId} {definition : Definition}

/-- The definitions are in order, no width is zero, and flags have one bit. -/
structure WellFormed (table : Table) : Prop where
  ordered : table.Ordered
  positive : ∀ definition ∈ table.definitions, definition.width ≠ 0
  narrow : ∀ definition ∈ table.definitions, definition.location.isFlag → definition.width = 1

theorem wellFormed_empty : ({} : Table).WellFormed where
  ordered := .nil
  positive _ mem := absurd mem List.not_mem_nil
  narrow _ mem := absurd mem List.not_mem_nil

namespace WellFormed

theorem insert (wellFormed : table.WellFormed) (inserts : table.insert definition = .ok after) :
    after.WellFormed := by
  rcases insert_eq_ok inserts with ⟨⟨positive, narrow⟩, placed⟩
  have cases_of_mem : ∀ found ∈ after.definitions, found = definition ∨
      found ∈ table.definitions := by
    intro found mem
    rw [placed] at mem
    exact mem_place _ mem
  constructor
  · rw [Ordered, placed]
    exact pairwise_place _ wellFormed.ordered
  · intro found mem
    rcases cases_of_mem found mem with rfl | old
    · exact positive
    · exact wellFormed.positive found old
  · intro found mem
    rcases cases_of_mem found mem with rfl | old
    · exact narrow
    · exact wellFormed.narrow found old

theorem withoutPending (wellFormed : table.WellFormed) :
    (table.withoutPending block).WellFormed where
  ordered := wellFormed.ordered.withoutPending
  positive definition mem := wellFormed.positive definition (List.mem_of_mem_filter mem)
  narrow definition mem := wellFormed.narrow definition (List.mem_of_mem_filter mem)

end WellFormed

end Table

end RegisterFlow
