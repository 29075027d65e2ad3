import RegisterFlow.Flag
import RegisterFlow.Register.Name

/-!
# Locations

A location is what definitions are kept for: a register that stands for all those that overlap with
it, or a flag.
-/

namespace RegisterFlow

/-- A place that holds a value and whose definitions are tracked. -/
inductive Location where
  | register (held : Register)
  | flag (bit : Flag)
  deriving DecidableEq, Repr

namespace Location

/-- Whether a location is a flag. -/
def isFlag : Location → Bool
  | register _ => false
  | flag _ => true

/-- The name of a location. -/
def name : Location → String
  | register held => held.name
  | flag bit => bit.name

end Location

end RegisterFlow
