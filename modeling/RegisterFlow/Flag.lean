/-!
# Status flags

The bits of the flag register. Four of them are tracked like registers of one bit; the others are
known by name only.
-/

namespace RegisterFlow

/-- A bit of the flag register. -/
inductive Flag where
  | carry | parity | adjust | zero | sign | direction | overflow
  deriving DecidableEq, Repr

namespace Flag

/-- All flags. -/
def all : List Flag :=
  [carry, parity, adjust, zero, sign, direction, overflow]

/-- Whether the definitions of a flag are tracked. -/
def isTracked : Flag → Bool
  | carry | zero | sign | overflow => true
  | parity | adjust | direction => false

/-- The lower-case name of a flag. -/
def name : Flag → String
  | carry => "cf"
  | parity => "pf"
  | adjust => "af"
  | zero => "zf"
  | sign => "sf"
  | direction => "df"
  | overflow => "of"

/-- The flag with a name, in any case. -/
def ofName? (name : String) : Option Flag :=
  all.find? (·.name == name.toLower)

end Flag

end RegisterFlow
