import RegisterFlow.Instruction.Encoding

/-!
# Decoding instructions

A sequence of bytes is decoded one instruction after the other until no byte is left.
-/

namespace RegisterFlow

/-- An instruction at an address. -/
structure Instruction where
  address : Nat
  encoding : Encoding
  deriving DecidableEq, Repr

/-- The written form of an instruction. -/
def Instruction.text (instruction : Instruction) : String :=
  instruction.encoding.textAt instruction.address

/-- The number of bytes of an instruction. -/
def Instruction.length (instruction : Instruction) : Nat :=
  instruction.encoding.length

/--
A decoder answers the instructions that a sequence of bytes consists of, the first one at an
address, or nothing.
-/
abbrev Decoder :=
  Nat → List UInt8 → Option (List Instruction)

namespace Encoding

/-- The instruction that a sequence of bytes starts with. -/
def first? (bytes : List UInt8) : Option Encoding :=
  all.find? fun encoding => encoding.bytes.isPrefixOf bytes

/-- Every encoding has at least one byte. -/
theorem length_pos {encoding : Encoding} (known : encoding ∈ all) : 0 < encoding.length := by
  revert encoding
  decide +kernel

/--
The instructions that a sequence of bytes consists of, the first one at `address`. There is no
answer if some of the bytes are no instruction.
-/
def decode? (address : Nat) (bytes : List UInt8) : Option (List Instruction) :=
  if bytes.isEmpty then some []
  else
    match _ : first? bytes with
    | none => none
    | some encoding =>
      (decode? (address + encoding.length) (bytes.drop encoding.length)).map
        ({ address, encoding } :: ·)
termination_by bytes.length
decreasing_by
  rename_i found
  have known := List.mem_of_find?_eq_some found
  have positive := length_pos known
  have nonempty : 0 < bytes.length := by
    rcases bytes with _ | ⟨byte, rest⟩
    · contradiction
    · simp
  simp only [List.length_drop]
  omega

end Encoding

end RegisterFlow
