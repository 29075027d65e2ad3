import Mathlib.Algebra.GroupWithZero.Nat
import RegisterFlow.Instruction.Decode

/-!
# What decoders do

A decoder is exact if its instructions take up the bytes that it was given, one after the other. It is
relative if the address at which it starts only moves the instructions. The decoder of known
instructions is both.
-/

namespace RegisterFlow

namespace Instruction

/-- Instructions lie next to each other, the first one at an address. -/
def RunFrom : (address : Nat) → List Instruction → Prop
  | _, [] => True
  | address, first :: others =>
    first.address = address ∧ RunFrom (address + first.length) others

/-- The number of bytes of a list of instructions. -/
def totalLength (instructions : List Instruction) : Nat :=
  (instructions.map length).sum

/-- The instruction at an address that is higher by a number of bytes. -/
def moved (bytes : Nat) (instruction : Instruction) : Instruction :=
  { instruction with address := instruction.address + bytes }

variable {address : Nat} {first second : List Instruction}

@[simp]
theorem totalLength_append :
    totalLength (first ++ second) = totalLength first + totalLength second := by
  simp [totalLength]

theorem runFrom_append :
    RunFrom address (first ++ second) ↔
      RunFrom address first ∧ RunFrom (address + totalLength first) second := by
  induction first generalizing address with
  | nil => simp [RunFrom, totalLength]
  | cons instruction rest ih =>
      simp [RunFrom, ih, totalLength, and_assoc, Nat.add_assoc]

end Instruction

namespace Decoder

/-- The instructions take up all bytes, and none of them twice. -/
structure Exact (decode : Decoder) : Prop where
  run : ∀ address bytes instructions, decode address bytes = some instructions →
    Instruction.RunFrom address instructions
  total : ∀ address bytes instructions, decode address bytes = some instructions →
    Instruction.totalLength instructions = bytes.length

/-- At an address that is higher, the same instructions are found, moved by the difference. -/
def Relative (decode : Decoder) : Prop :=
  ∀ address bytes distance, decode (address + distance) bytes =
    (decode address bytes).map (List.map (Instruction.moved distance))

end Decoder

namespace Encoding

theorem length_le_of_first? {bytes : List UInt8} {encoding : Encoding}
    (found : first? bytes = some encoding) : encoding.length ≤ bytes.length := by
  have starts := List.find?_some found
  exact (List.isPrefixOf_iff_prefix.mp starts).length_le

theorem exact_decode? : Decoder.Exact decode? where
  run address bytes instructions decoded := by
    fun_induction decode? address bytes generalizing instructions with
    | case1 =>
      cases decoded
      trivial
    | case2 => cases decoded
    | case3 address bytes more encoding found ih =>
      rcases Option.map_eq_some_iff.mp decoded with ⟨others, rest, rfl⟩
      exact ⟨rfl, ih others rest⟩
  total address bytes instructions decoded := by
    fun_induction decode? address bytes generalizing instructions with
    | case1 address bytes nothing =>
      cases decoded
      simp [List.isEmpty_iff.mp nothing, Instruction.totalLength]
    | case2 => cases decoded
    | case3 address bytes more encoding found ih =>
      rcases Option.map_eq_some_iff.mp decoded with ⟨others, rest, rfl⟩
      have total := ih others rest
      have fits := length_le_of_first? found
      simp only [Instruction.totalLength, List.map_cons, List.sum_cons, Instruction.length,
        List.length_drop] at total ⊢
      omega

theorem relative_decode? : Decoder.Relative decode? := by
  intro address bytes distance
  fun_induction decode? address bytes with
  | case1 address bytes nothing =>
    rw [decode?, if_pos nothing]
    rfl
  | case2 address bytes more missing =>
    rw [decode?, if_neg more]
    split
    · rfl
    · next other found => simp [missing] at found
  | case3 address bytes more encoding found ih =>
    rw [decode?, if_neg more]
    split
    · next missing => simp [missing] at found
    · next other again =>
      have same : other = encoding := Option.some.inj (again.symm.trans found)
      subst same
      rw [Nat.add_right_comm, ih, Option.map_map, Option.map_map]
      rfl

end Encoding

end RegisterFlow
