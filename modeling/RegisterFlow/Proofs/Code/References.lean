import Mathlib
import RegisterFlow.Code.Frame
import RegisterFlow.Code.Render
import RegisterFlow.Location

/-!
# References to values

The text that refers to a value is written in one of four ways: constants by their number, slot
addresses by the name of the slot, other values by their own number, and named ones among them by
their name and number. All but the first open with a mark, only names of merge slots have a dash in
them, and only a named value has a dot without one. Where all names are those of locations and of
merges, a reference therefore tells which value it is for.
-/

namespace RegisterFlow

/-! ### Letters and digits -/

theorem Register.isAlphanum_name (register : Register) :
    register.name.toList.all Char.isAlphanum = true := by
  cases register with
  | null | eip | rip => decide +kernel
  | general part number => cases part <;> revert number <;> decide +kernel
  | segment kind => cases kind <;> decide +kernel
  | vector part number => cases part <;> revert number <;> decide +kernel
  | highByte number | control number | debug number | mmx number | x87 number | opmask number
  | bounds number | test number | tile number | reserved number =>
      revert number
      decide +kernel

/-- The names of locations consist of letters and digits. -/
theorem Location.isAlphanum_of_mem_name {location : Location} {char : Char}
    (mem : char ∈ location.name.toList) : char.isAlphanum = true := by
  cases location with
  | register held => exact List.all_eq_true.mp held.isAlphanum_name char mem
  | flag bit =>
      have letters : bit.name.toList.all Char.isAlphanum = true := by
        cases bit <;> decide +kernel
      exact List.all_eq_true.mp letters char mem

theorem isAlphanum_of_mem_toDigits {number : Nat} {char : Char}
    (mem : char ∈ Nat.toDigits 10 number) : char.isAlphanum = true := by
  have digit := Nat.isDigit_of_mem_toDigits (by decide) (by decide) mem
  simp [Char.isAlphanum, digit]

/-! ### Ways to refer to a value -/

/-- The name of the slot of a merge. -/
def IsMergeName (name : String) : Prop :=
  ∃ (location : Location) (index : Nat),
    name = Frame.candidateName (location.name ++ "-merge") index

theorem IsMergeName.dash_mem {name : String} (merges : IsMergeName name) : '-' ∈ name.toList := by
  rcases merges with ⟨location, _ | index, rfl⟩
  all_goals simp [Frame.candidateName]

theorem IsMergeName.isAlphanum_or_mark {name : String} {char : Char} (merges : IsMergeName name)
    (mem : char ∈ name.toList) : char.isAlphanum = true ∨ char = '-' ∨ char = '.' := by
  rcases merges with ⟨location, _ | index, rfl⟩
  · simp only [Frame.candidateName, String.toList_append, List.mem_append] at mem
    rcases mem with named | merge
    · exact .inl (Location.isAlphanum_of_mem_name named)
    · simp at merge
      rcases merge with rfl | rfl | rfl | rfl | rfl | rfl <;> decide
  · simp only [Frame.candidateName, String.toList_append, List.mem_append] at mem
    rcases mem with ((named | merge) | dot) | digits
    · exact .inl (Location.isAlphanum_of_mem_name named)
    · simp at merge
      rcases merge with rfl | rfl | rfl | rfl | rfl | rfl <;> decide
    · simp at dot
      exact .inr (.inr dot)
    · rw [Nat.toString_eq_repr, Nat.toList_repr] at digits
      exact .inl (isAlphanum_of_mem_toDigits digits)

/-- The ways to refer to a value. -/
inductive Reference where
  | constant (digits : String)
  | slot (name : String)
  | named (name : String) (id : ValueId)
  | numbered (id : ValueId)

namespace Reference

/-- The text of a reference. -/
def text : Reference → String
  | constant digits => digits
  | slot name => "%" ++ name
  | named name id => "%" ++ name ++ "." ++ toString id
  | numbered id => "%" ++ toString id

/-- The names in a reference are those that tracking gives. -/
def Proper : Reference → Prop
  | constant digits => ∀ char ∈ digits.toList, char.isAlphanum = true
  | slot name => IsMergeName name
  | named name _ => ∃ location : Location, name = location.name
  | numbered _ => True

variable {reference first second : Reference}

/-- Only constants are written without the mark. -/
theorem Proper.percent_mem_iff (proper : reference.Proper) :
    '%' ∈ reference.text.toList ↔ ∀ digits, reference ≠ constant digits := by
  cases reference with
  | constant digits =>
      have unmarked : '%' ∉ digits.toList := fun mem => absurd (proper '%' mem) (by decide)
      simpa [text] using unmarked
  | slot | named | numbered => simp [text]

/-- Only slots have a dash in their name. -/
theorem Proper.dash_mem_iff (proper : reference.Proper) :
    '-' ∈ reference.text.toList ↔ ∃ name, reference = slot name := by
  have undashed : ∀ number : Nat, '-' ∉ Nat.toDigits 10 number :=
    fun _ mem => absurd (isAlphanum_of_mem_toDigits mem) (by decide)
  cases reference with
  | constant digits =>
      have absent : '-' ∉ digits.toList := fun mem => absurd (proper '-' mem) (by decide)
      simpa [text] using absent
  | slot name => simpa [text] using proper.dash_mem
  | named name id =>
      rcases proper with ⟨location, rfl⟩
      have absent : '-' ∉ location.name.toList :=
        fun mem => absurd (Location.isAlphanum_of_mem_name mem) (by decide)
      simp [text, absent, undashed]
  | numbered id => simp [text, undashed]

/-- References consist of letters, digits and marks. -/
theorem Proper.isAlphanum_or_mark (proper : reference.Proper) {char : Char}
    (mem : char ∈ reference.text.toList) : char.isAlphanum = true ∨ char ∈ ['%', '-', '.'] := by
  cases reference with
  | constant digits => exact .inl (proper char mem)
  | slot name =>
      simp only [text, String.toList_append, List.mem_append] at mem
      rcases mem with percent | named
      · exact .inr (by simp_all)
      · have marks := proper.isAlphanum_or_mark named
        simp
        tauto
  | named name id =>
      rcases proper with ⟨location, rfl⟩
      simp only [text, String.toList_append, List.mem_append] at mem
      rcases mem with ((percent | named) | dot) | digits
      · exact .inr (by simp_all)
      · exact .inl (Location.isAlphanum_of_mem_name named)
      · exact .inr (by simp_all)
      · exact .inl (isAlphanum_of_mem_toDigits (by simpa using digits))
  | numbered id =>
      simp only [text, String.toList_append, List.mem_append] at mem
      rcases mem with percent | digits
      · exact .inr (by simp_all)
      · exact .inl (isAlphanum_of_mem_toDigits (by simpa using digits))

/-- Of the references without a dash, only those by name and number have a dot. -/
theorem dot_mem_named (name : String) (id : ValueId) : '.' ∈ (named name id).text.toList := by
  simp [text]

theorem dot_notMem_toDigits (number : Nat) : '.' ∉ Nat.toDigits 10 number :=
  fun mem => absurd (isAlphanum_of_mem_toDigits mem) (by decide)

theorem dot_notMem_numbered (id : ValueId) : '.' ∉ (numbered id).text.toList := by
  simp [text, dot_notMem_toDigits]

/-- The dot separates the name from the number. -/
theorem named_eq_of_text_eq {location other : Location} {id number : ValueId}
    (same : (named location.name id).text = (named other.name number).text) :
    named location.name id = named other.name number := by
  have undotted : '.' ∉ location.name.toList :=
    fun mem => absurd (Location.isAlphanum_of_mem_name mem) (by decide)
  have chars := congrArg String.toList same
  simp only [text, String.toList_append, List.append_assoc, List.append_cancel_left_eq] at chars
  have parts : location.name.toList ++ '.' :: Nat.toDigits 10 id =
      other.name.toList ++ '.' :: Nat.toDigits 10 number := by
    simpa using chars
  rw [List.append_cons_inj_of_notMem undotted (dot_notMem_toDigits id)] at parts
  rcases parts with ⟨names, -, digits⟩
  rw [String.toList_inj.mp names, Nat.repr_inj.mp (congrArg String.ofList digits)]

/-- A reference can be told from its text. -/
theorem Proper.eq_of_text_eq (proper : first.Proper) (other : second.Proper)
    (same : first.text = second.text) : first = second := by
  have percent := proper.percent_mem_iff
  rw [same, other.percent_mem_iff] at percent
  have dash := proper.dash_mem_iff
  rw [same, other.dash_mem_iff] at dash
  cases first with
  | constant digits =>
      cases second with
      | constant others => rw [show digits = others from same]
      | slot | named | numbered => simp at percent
  | slot name =>
      cases second with
      | slot others => rw [(String.append_right_inj "%").mp same]
      | constant | named | numbered => simp at dash
  | named name id =>
      cases second with
      | constant | slot => simp at percent dash
      | named others number =>
          rcases proper with ⟨location, rfl⟩
          rcases other with ⟨another, rfl⟩
          exact named_eq_of_text_eq same
      | numbered number => exact absurd (same ▸ dot_mem_named name id) (dot_notMem_numbered number)
  | numbered id =>
      cases second with
      | constant | slot => simp at percent dash
      | named others number =>
          exact absurd (same ▸ dot_mem_named others number) (dot_notMem_numbered id)
      | numbered number => rw [Nat.repr_inj.mp ((String.append_right_inj "%").mp same)]

end Reference

/-! ### What functions refer to -/

/-- The text of a constant of a type. -/
def Ty.constantText (ty : Ty) (payload : UInt64) : String :=
  if ty = .bool then toString (payload ≠ 0 : Bool) else toString payload.toNat

namespace Ty

variable {ty other : Ty} {payload : UInt64}

theorem isAlphanum_of_mem_constantText {char : Char}
    (mem : char ∈ (ty.constantText payload).toList) : char.isAlphanum = true := by
  unfold constantText at mem
  split at mem
  · have letters : ∀ truth : Bool, (toString truth).toList.all Char.isAlphanum = true := by
      decide
    exact List.all_eq_true.mp (letters _) char mem
  · exact isAlphanum_of_mem_toDigits (by simpa using mem)

/-- The text of a constant tells its payload, if truth values are 0 or 1. -/
theorem constantText_inj {first second : UInt64} (small : ty = .bool → first.toNat < 2)
    (others : ty = .bool → second.toNat < 2)
    (same : ty.constantText first = ty.constantText second) : first = second := by
  unfold constantText at same
  split at same
  · next truth =>
    have first_lt := small truth
    have second_lt := others truth
    have zeros : (first ≠ 0) ↔ (second ≠ 0) := by
      have words : toString true ≠ toString false := by decide
      by_cases first = 0 <;> by_cases second = 0 <;> simp_all [words.symm]
    rw [← UInt64.toNat_inj]
    simp only [ne_eq, ← UInt64.toNat_inj, UInt64.toNat_zero] at zeros
    omega
  · exact UInt64.toNat_inj.mp (Nat.repr_inj.mp same)

/-- The texts of types consist of letters and digits. -/
theorem isAlphanum_of_mem_text {char : Char} (mem : char ∈ ty.text.toList) :
    char.isAlphanum = true := by
  have letters : ∀ ty ∈ [void, ptr, f32, f64], ty.text.toList.all Char.isAlphanum = true := by
    decide
  cases ty with
  | int bits =>
      have parts : char = 'i' ∨ char ∈ Nat.toDigits 10 bits := by
        simpa [text] using mem
      rcases parts with rfl | digits
      · decide
      · exact isAlphanum_of_mem_toDigits digits
  | void | ptr | f32 | f64 => exact List.all_eq_true.mp (letters _ (by decide)) char mem

theorem text_injective : Function.Injective text := by
  intro first second same
  have chars := congrArg String.toList same
  cases first with
  | int bits =>
      cases second with
      | int others => rw [Nat.repr_inj.mp ((String.append_right_inj "i").mp same)]
      | void | ptr | f32 | f64 => simp [text] at chars
  | void | ptr | f32 | f64 =>
      cases second with
      | int others => simp [text] at chars
      | void | ptr | f32 | f64 => first | rfl | exact absurd same (by decide)

end Ty

namespace Function

/-- A function refers to a value in one of the ways that there are. -/
inductive RefersBy (func : Function) (id : ValueId) : Reference → Prop where
  | constant {payload : UInt64} (held : func.operation id = .constant payload) :
      RefersBy func id (.constant ((func.ty id).constantText payload))
  | slot {slot : SlotId} {name : String} (addresses : func.operation id = .slotAddress slot)
      (named : (func.value id).name = some name) : RefersBy func id (.slot name)
  | named {name : String} (unheld : func.constant? id = none)
      (elsewhere : ∀ slot, func.operation id ≠ .slotAddress slot)
      (named : (func.value id).name = some name) : RefersBy func id (.named name id)
  | numbered (unheld : func.constant? id = none) (unnamed : (func.value id).name = none) :
      RefersBy func id (.numbered id)

theorem constant?_eq_none_iff {func : Function} {id : ValueId} :
    func.constant? id = none ↔ ∀ payload, func.operation id ≠ .constant payload := by
  unfold constant?
  split
  · next payload held => simp [held]
  · next unheld => simpa using unheld

theorem reference_of_constant {func : Function} {id : ValueId} {payload : UInt64}
    (held : func.operation id = .constant payload) :
    func.reference id = (func.ty id).constantText payload := by
  have operation_eq : (func.value id).operation = .constant payload := held
  simp only [reference, operation_eq]
  rfl

/-- The text of a reference is that of one of the ways to refer to the value. -/
theorem exists_refersBy (func : Function) (id : ValueId) :
    ∃ reference, func.RefersBy id reference ∧ func.reference id = reference.text := by
  dsimp only [reference]
  split
  · next held => exact ⟨_, .constant held, rfl⟩
  · next addresses named => exact ⟨_, .slot addresses named, rfl⟩
  · next named unheld elsewhere =>
    exact ⟨_, .named (constant?_eq_none_iff.mpr unheld) elsewhere named, rfl⟩
  · next unnamed unheld =>
    exact ⟨_, .numbered (constant?_eq_none_iff.mpr unheld) unnamed, rfl⟩

end Function

end RegisterFlow
