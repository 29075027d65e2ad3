import RegisterFlow.Code.Builder

/-!
# Frame slots

Allocation of slots in the frame of a function. The frame grows downwards from its base: a slot
takes the bytes below those of all earlier slots, at an address that is a multiple of its
alignment. Slot names differ from each other.
-/

namespace RegisterFlow

namespace Frame

/-- The alignment of a slot of some bytes: the next power of two, at most 16. -/
def alignment (byteSize : Nat) : Nat :=
  if byteSize ≤ 1 then 1 else if byteSize ≤ 2 then 2 else if byteSize ≤ 4 then 4
  else if byteSize ≤ 8 then 8 else 16

/-- The least multiple of `align` that is at least `size`. -/
def roundUp (align size : Nat) : Nat :=
  (size + align - 1) / align * align

/-- The size of a frame after it takes in a slot of some bytes. -/
def extend (frameSize byteSize : Nat) : Nat :=
  roundUp (alignment byteSize) (frameSize + byteSize)

/-- The names that a slot may take, in order of preference: `base`, `base.1`, `base.2`, … -/
def candidateName (base : String) : Nat → String
  | 0 => base
  | index + 1 => base ++ "." ++ toString (index + 1)

/--
The first candidate name that is not in use. There is one more candidate than there are names in
use, so one of them is free.
-/
def freshName (used : List String) (base : String) : String :=
  (((List.range (used.length + 1)).map (candidateName base)).find? (· ∉ used)).getD base

theorem alignment_pos (byteSize : Nat) : 0 < alignment byteSize := by
  unfold alignment
  split <;> (try split) <;> (try split) <;> (try split) <;> omega

theorem le_roundUp {align : Nat} (positive : 0 < align) (size : Nat) :
    size ≤ roundUp align size := by
  have division := Nat.div_add_mod (size + align - 1) align
  have remainder := Nat.mod_lt (size + align - 1) positive
  rw [Nat.mul_comm] at division
  unfold roundUp
  omega

theorem dvd_roundUp (align size : Nat) : align ∣ roundUp align size :=
  Nat.dvd_mul_left ..

/-- A frame has room for what it held and for the new slot. -/
theorem add_le_extend (frameSize byteSize : Nat) :
    frameSize + byteSize ≤ extend frameSize byteSize :=
  le_roundUp (alignment_pos byteSize) _

end Frame

namespace Builder

/-- Allocates a frame slot of a type, with the first free name that starts with `base`. -/
def allocate (ty : Ty) (base : String) : Builder SlotId := do
  let func ← get
  let slot : SlotId := func.slots.size
  let name := Frame.freshName (func.slots.toList.map Slot.name) base
  let frameSize := Frame.extend func.frameSize ty.byteSize
  let address ← add { ty := .ptr, operation := .slotAddress slot, name := some name }
  modify fun func => { func with
    frameSize
    slots := func.slots.push
      { name, ty, address, offset := -frameSize, align := Frame.alignment ty.byteSize } }
  pure slot

end Builder

end RegisterFlow
