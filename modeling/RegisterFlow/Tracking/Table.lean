import RegisterFlow.Tracking.Error

/-!
# Definition table

For every location and block, the table keeps the last definition of the location in the block. A
definition is pending while the block is known to redefine the location but the value is not known
yet. The table is ordered by block and then by the name of the location.
-/

namespace RegisterFlow

/-- What is known about the value of a definition. -/
inductive Content where
  /-- The block redefines the location; the value is not known yet. -/
  | pending
  | known (value : ValueId)
  deriving DecidableEq, Repr

/-- The value of a definition, if it is known. -/
def Content.value? : Content → Option ValueId
  | pending => none
  | known value => some value

/-- A definition of a location in a block, with the width of the register that was written. -/
structure Definition where
  location : Location
  block : BlockId
  width : Nat
  content : Content
  deriving DecidableEq, Repr

namespace Definition

/-- The value of a definition, if it is known. -/
def value? (definition : Definition) : Option ValueId :=
  definition.content.value?

/-- Whether a definition is filed under a location and block. -/
def isAt (location : Location) (block : BlockId) (definition : Definition) : Bool :=
  definition.block = block ∧ definition.location = location

/-- The order of the table: by block, then by the name of the location. -/
def Precedes (first second : Definition) : Prop :=
  first.block < second.block ∨
    first.block = second.block ∧ first.location.name < second.location.name

instance (first second : Definition) : Decidable (first.Precedes second) :=
  inferInstanceAs (Decidable (_ ∨ _))

/-- Widths are positive, and flags have one bit. -/
def check (definition : Definition) : Except TrackingError Unit :=
  if definition.width = 0 then
    .error (.inconsistentWidth definition.location .zeroWidth)
  else if definition.location.isFlag ∧ definition.width ≠ 1 then
    .error (.inconsistentWidth definition.location (.wideFlag definition.width))
  else
    .ok ()

end Definition

/-- The definitions of a function, in order. -/
structure Table where
  definitions : List Definition := []
  deriving DecidableEq, Repr

namespace Table

/-- The definition of a location in a block. -/
def get? (table : Table) (location : Location) (block : BlockId) : Option Definition :=
  table.definitions.find? (·.isAt location block)

/-- Puts a definition in its place in an ordered list. -/
def place (definition : Definition) : List Definition → List Definition
  | [] => [definition]
  | first :: rest =>
    if first.isAt definition.location definition.block then definition :: rest
    else if definition.Precedes first then definition :: first :: rest
    else first :: place definition rest

/-- Files a definition in place of an earlier one for the same location and block. -/
def insert (table : Table) (definition : Definition) : Except TrackingError Table := do
  definition.check
  return { definitions := place definition table.definitions }

/-- Notes that a block redefines a location, with a value that is not known yet. -/
def markPending (table : Table) (location : Location) (block : BlockId) (width : Nat) :
    Except TrackingError Table :=
  table.insert { location, block, width, content := .pending }

/-- Files the value of a location in a block. -/
def record (table : Table) (location : Location) (block : BlockId) (width : Nat) (value : ValueId) :
    Except TrackingError Table :=
  table.insert { location, block, width, content := .known value }

/-- What is found after a definition takes its place: itself, or what was found before. -/
theorem find?_place (definition : Definition) (definitions : List Definition)
    (location : Location) (block : BlockId) :
    (place definition definitions).find? (·.isAt location block) =
      if definition.isAt location block then some definition
      else definitions.find? (·.isAt location block) := by
  induction definitions with
  | nil => cases found : definition.isAt location block <;> simp [place, found]
  | cons first rest ih =>
    simp only [place]
    split
    · next same =>
      have isAt_first : first.isAt location block = definition.isAt location block := by
        simp only [Definition.isAt, decide_eq_true_eq] at same ⊢
        rw [same.1, same.2]
      cases found : definition.isAt location block <;> simp [isAt_first, found]
    · next different =>
      split
      · cases found : definition.isAt location block <;> simp [found]
      · have ne_first (found : definition.isAt location block = true) :
            first.isAt location block = false := by
          simp only [Definition.isAt, decide_eq_true_eq, decide_eq_false_iff_not] at *
          rwa [← found.1, ← found.2]
        cases found : definition.isAt location block with
        | true => simp [ih, found, ne_first found]
        | false => simp [List.find?_cons, ih, found]

/-- Whether a definition is pending in a block. -/
def isPendingIn (block : BlockId) (definition : Definition) : Bool :=
  definition.block = block ∧ definition.content = .pending

/-- The locations that are pending in a block. -/
def pendingIn (table : Table) (block : BlockId) : List Location :=
  (table.definitions.filter (isPendingIn block)).map Definition.location

/-- The table without the pending definitions of a block. -/
def withoutPending (table : Table) (block : BlockId) : Table where
  definitions := table.definitions.filter (! isPendingIn block ·)

end Table

end RegisterFlow
