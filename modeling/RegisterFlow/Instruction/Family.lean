/-!
# Instruction families

Instructions are grouped by how their flags follow from their result. A rotate carries its count
when the count is part of the instruction, because its overflow flag is defined for one count only.
-/

namespace RegisterFlow

/-- A group of instructions with the same flag rules. -/
inductive Family where
  | add
  | subtract
  | compare
  | negate
  /-- A rotate to the left. The count is unknown when it comes from a register. -/
  | rotateLeft (count : Option Nat)
  /-- A rotate to the right. The count is unknown when it comes from a register. -/
  | rotateRight (count : Option Nat)
  | shiftLeft
  | shiftLeftDouble
  | shiftRightDouble
  | signedMultiply
  /-- Instructions without flag rules. -/
  | other (mnemonic : String)
  deriving DecidableEq, Repr

namespace Family

/-- The name of a family, which is a mnemonic of its instructions. -/
def name : Family → String
  | add => "add"
  | subtract => "sub"
  | compare => "cmp"
  | negate => "neg"
  | rotateLeft _ => "rol"
  | rotateRight _ => "ror"
  | shiftLeft => "shl"
  | shiftLeftDouble => "shld"
  | shiftRightDouble => "shrd"
  | signedMultiply => "imul"
  | other mnemonic => mnemonic

/-- The family with a name; the count matters for rotates only. -/
def ofName (name : String) (count : Option Nat) : Family :=
  match name with
  | "add" => add
  | "sub" => subtract
  | "cmp" => compare
  | "neg" => negate
  | "rol" => rotateLeft count
  | "ror" => rotateRight count
  | "shl" => shiftLeft
  | "shld" => shiftLeftDouble
  | "shrd" => shiftRightDouble
  | "imul" => signedMultiply
  | _ => other name

/--
The family of the instructions with a mnemonic. Shifts to the left have two mnemonics, of which one
names the family.
-/
def ofMnemonic (mnemonic : String) (count : Option Nat) : Family :=
  ofName (if mnemonic = "sal" then "shl" else mnemonic) count

/-- The count of a rotate, where it is known. -/
def rotateCount? : Family → Option Nat
  | rotateLeft count | rotateRight count => count
  | _ => none

end Family

end RegisterFlow
