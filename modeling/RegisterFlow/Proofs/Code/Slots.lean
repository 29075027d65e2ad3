import Mathlib
import RegisterFlow.Proofs.Code.Calls

/-!
# Slots of a frame

The slots of a function share no byte of its frame and no name, however they were asked for: each
new slot lies below the frame as it was, at an aligned offset, and takes the first name in its row
of candidates that is free. What was allocated stays where it is.
-/

namespace RegisterFlow

namespace Frame

/-! ### Sizes -/

/-- An alignment is a power of two of at most 16. -/
theorem exists_alignment_eq (byteSize : Nat) :
    ∃ exponent ≤ 4, alignment byteSize = 2 ^ exponent := by
  unfold alignment
  split
  · exact ⟨0, by decide, rfl⟩
  split
  · exact ⟨1, by decide, rfl⟩
  split
  · exact ⟨2, by decide, rfl⟩
  split
  · exact ⟨3, by decide, rfl⟩
  · exact ⟨4, by decide, rfl⟩

theorem alignment_le (byteSize : Nat) : alignment byteSize ≤ 16 := by
  rcases exists_alignment_eq byteSize with ⟨exponent, small, same⟩
  rw [same]
  exact Nat.pow_le_pow_right (by decide) small

/-- Slots of up to 16 bytes are aligned to their size at least. -/
theorem min_le_alignment (byteSize : Nat) : min byteSize 16 ≤ alignment byteSize := by
  unfold alignment
  split
  · omega
  split
  · omega
  split
  · omega
  split <;> omega

theorem dvd_extend (frameSize byteSize : Nat) :
    alignment byteSize ∣ extend frameSize byteSize :=
  dvd_roundUp ..

/-! ### Names -/

theorem candidateName_injective (base : String) : Function.Injective (candidateName base) := by
  have longer : ∀ index, candidateName base 0 ≠ candidateName base (index + 1) := by
    intro index same
    have lengths := congrArg String.length same
    rw [candidateName, candidateName, String.length_append, String.length_append] at lengths
    have dot : ".".length = 1 := rfl
    omega
  intro first second same
  cases first with
  | zero =>
      cases second with
      | zero => rfl
      | succ second => exact absurd same (longer second)
  | succ first =>
      cases second with
      | zero => exact absurd same.symm (longer first)
      | succ second =>
          rw [candidateName, candidateName, String.append_right_inj] at same
          exact Nat.repr_inj.mp same

/-- The name that is taken is the first candidate that is free. -/
theorem exists_freshName_eq (used : List String) (base : String) :
    ∃ index ≤ used.length, freshName used base = candidateName base index ∧
      candidateName base index ∉ used ∧ ∀ smaller < index, candidateName base smaller ∈ used := by
  rw [freshName, List.find?_map]
  cases found : (List.range (used.length + 1)).find? ((· ∉ used) ∘ candidateName base) with
  | none =>
      -- More candidates than names in use cannot all be in use.
      rw [List.find?_eq_none] at found
      have taken : (List.range (used.length + 1)).map (candidateName base) ⊆ used := by
        intro name mem
        rcases List.mem_map.mp mem with ⟨index, index_mem, rfl⟩
        simpa using found index index_mem
      have distinct : ((List.range (used.length + 1)).map (candidateName base)).Nodup :=
        List.nodup_range.map (candidateName_injective base)
      have short := (distinct.subperm taken).length_le
      rw [List.length_map, List.length_range] at short
      omega
  | some index =>
      rw [List.find?_range_eq_some] at found
      rcases found with ⟨free, bound, earlier⟩
      refine ⟨index, Nat.le_of_lt_succ (List.mem_range.mp bound), rfl, by simpa using free, ?_⟩
      intro smaller below
      simpa using earlier smaller below

end Frame

/-! ### Places -/

/-- The bytes of the frame that a slot takes, counted from the base of the frame. -/
def Slot.bytes (slot : Slot) : Set Int :=
  Set.Ico slot.offset (slot.offset + slot.ty.byteSize)

/-- A slot lies in the frame, at an offset that is aligned as its size asks for. -/
structure Slot.Placed (slot : Slot) (frameSize : Nat) : Prop where
  nonpos : slot.offset ≤ 0
  aligned : (slot.align : Int) ∣ slot.offset
  power : ∃ exponent, slot.align = 2 ^ exponent
  align_le : slot.align ≤ 16
  le_align : min slot.ty.byteSize 16 ≤ slot.align
  within : slot.bytes ⊆ Set.Ico (-frameSize) 0

theorem Slot.Placed.mono {slot : Slot} {smaller larger : Nat} (placed : slot.Placed smaller)
    (grown : smaller ≤ larger) : slot.Placed larger where
  __ := placed
  within := placed.within.trans (Set.Ico_subset_Ico_left (by omega))

/-- A slot lies below an earlier one and has another name. -/
def Slot.KeepsApart (earlier later : Slot) : Prop :=
  later.offset + later.ty.byteSize ≤ earlier.offset ∧ earlier.name ≠ later.name

theorem Slot.KeepsApart.disjoint {earlier later : Slot} (apart : earlier.KeepsApart later) :
    Disjoint earlier.bytes later.bytes := by
  rw [Set.disjoint_left]
  intro byte first second
  rw [Slot.bytes, Set.mem_Ico] at first second
  have below := apart.1
  omega

namespace Function

/-- The slots of a function are placed in its frame, each below the ones before. -/
structure FrameSound (func : Function) : Prop where
  placed : ∀ slot ∈ func.slots.toList, slot.Placed func.frameSize
  reached : ∀ slot ∈ func.slots.toList, -(func.frameSize : Int) ≤ slot.offset
  apart : func.slots.toList.Pairwise Slot.KeepsApart

/-- The slot that is allocated next for a type and a name. -/
def nextSlot (func : Function) (ty : Ty) (base : String) : Slot where
  name := Frame.freshName (func.slots.toList.map Slot.name) base
  ty
  address := func.values.size
  offset := -(Frame.extend func.frameSize ty.byteSize : Nat)
  align := Frame.alignment ty.byteSize

variable {func : Function}

theorem slots_withSlot_eq (ty : Ty) (base : String) :
    (func.withSlot ty base).slots = func.slots.push (func.nextSlot ty base) :=
  rfl

/-- The next slot has another name than those that are there. -/
theorem name_ne_nextSlot {slot : Slot} (held : slot ∈ func.slots.toList) (ty : Ty)
    (base : String) : slot.name ≠ (func.nextSlot ty base).name := by
  rcases Frame.exists_freshName_eq (func.slots.toList.map Slot.name) base with
    ⟨index, -, named, free, -⟩
  intro same
  apply free
  rw [← named]
  exact List.mem_map.mpr ⟨slot, held, same⟩

theorem frameSize_withSlot (ty : Ty) (base : String) :
    (func.withSlot ty base).frameSize = Frame.extend func.frameSize ty.byteSize :=
  rfl

theorem add_le_frameSize_withSlot (ty : Ty) (base : String) :
    func.frameSize + ty.byteSize ≤ (func.withSlot ty base).frameSize :=
  Frame.add_le_extend ..

theorem placed_nextSlot (func : Function) (ty : Ty) (base : String) :
    (func.nextSlot ty base).Placed (func.withSlot ty base).frameSize where
  nonpos := by simp [nextSlot]
  aligned := by
    rw [nextSlot, Int.dvd_neg]
    exact Int.natCast_dvd_natCast.mpr (Frame.dvd_extend ..)
  power := by
    rcases Frame.exists_alignment_eq ty.byteSize with ⟨exponent, -, same⟩
    exact ⟨exponent, same⟩
  align_le := Frame.alignment_le _
  le_align := Frame.min_le_alignment _
  within := by
    have room := @add_le_frameSize_withSlot func ty base
    apply Set.Ico_subset_Ico
    · simp [nextSlot, frameSize_withSlot]
    · rw [frameSize_withSlot] at room
      simp only [nextSlot]
      omega

theorem frameSound_empty (name : String) (argumentTypes : List Ty) (blockNames : List String) :
    (empty name argumentTypes blockNames).FrameSound where
  placed _ mem := by cases mem
  reached _ mem := by cases mem
  apart := .nil

/-- What is allocated next lies below the frame as it was, and its name is new. -/
theorem FrameSound.withSlot (sound : func.FrameSound) (ty : Ty) (base : String) :
    (func.withSlot ty base).FrameSound := by
  have room := @add_le_frameSize_withSlot func ty base
  have grown : func.frameSize ≤ (func.withSlot ty base).frameSize := by omega
  constructor
  · intro slot mem
    rw [slots_withSlot_eq, Array.toList_push, List.mem_append, List.mem_singleton] at mem
    rcases mem with old | rfl
    · exact (sound.placed slot old).mono grown
    · exact placed_nextSlot ..
  · intro slot mem
    rw [slots_withSlot_eq, Array.toList_push, List.mem_append, List.mem_singleton] at mem
    rcases mem with old | rfl
    · have reached := sound.reached slot old
      omega
    · simp [nextSlot, frameSize_withSlot]
  · rw [slots_withSlot_eq, Array.toList_push, List.pairwise_append]
    refine ⟨sound.apart, List.pairwise_singleton .., ?_⟩
    intro slot old other new
    obtain rfl := List.mem_singleton.mp new
    constructor
    · have reached := sound.reached slot old
      rw [frameSize_withSlot] at room
      simp only [nextSlot]
      omega
    · exact name_ne_nextSlot old ty base

end Function

/-! ### Calls -/

namespace Call

variable {func : Function}

/-- Only an allocation changes the frame. -/
theorem frame_after (call : Call) :
    (∃ ty base, call.after func = func.withSlot ty base) ∨
      (call.after func).slots = func.slots ∧ (call.after func).frameSize = func.frameSize := by
  have constant_frame : ∀ ty number, ((constant ty number).after func).slots = func.slots ∧
      ((constant ty number).after func).frameSize = func.frameSize := by
    intro ty number
    rcases Builder.run_constant ty number func with ⟨id, _, run, _⟩ | run
    all_goals
      rw [after, show (constant ty number).build.run func =
        (some ((Builder.constant ty number).run func).1, ((Builder.constant ty number).run func).2)
        from rfl, run]
      exact ⟨rfl, rfl⟩
  cases call with
  | constant ty number => exact .inr (constant_frame ty number)
  | boolean truth => exact .inr (constant_frame .bool truth.toUInt64)
  | allocate ty base => exact .inl ⟨ty, base, rfl⟩
  | rename id name => exact .inr ⟨rfl, rfl⟩
  | emit block emission =>
      rw [after_emit]
      exact .inr ⟨rfl, rfl⟩
  | terminate block ending =>
      rw [after_terminate]
      exact .inr ⟨rfl, rfl⟩

theorem frameSound_after (sound : func.FrameSound) (call : Call) :
    (call.after func).FrameSound := by
  rcases @frame_after func call with ⟨ty, base, same⟩ | ⟨slots_eq, frameSize_eq⟩
  · rw [same]
    exact sound.withSlot ty base
  · exact ⟨by rw [slots_eq, frameSize_eq]; exact sound.placed,
      by rw [slots_eq, frameSize_eq]; exact sound.reached, by rw [slots_eq]; exact sound.apart⟩

theorem frameSound_afterAll (sound : func.FrameSound) (calls : List Call) :
    (calls.foldl after func).FrameSound := by
  induction calls generalizing func with
  | nil => exact sound
  | cons call calls ih => exact ih (frameSound_after sound call)

theorem frame_grows (call : Call) :
    func.slots.toList <+: (call.after func).slots.toList ∧
      func.frameSize ≤ (call.after func).frameSize := by
  rcases @frame_after func call with ⟨ty, base, same⟩ | ⟨slots_eq, frameSize_eq⟩
  · rw [same, Function.slots_withSlot_eq, Array.toList_push]
    exact ⟨List.prefix_append .., Nat.le_of_add_right_le (Function.add_le_frameSize_withSlot ..)⟩
  · rw [slots_eq, frameSize_eq]
    exact ⟨List.prefix_refl _, Nat.le_refl _⟩

/-- Calls leave the slots that are there alone, and never make the frame smaller. -/
theorem frame_growsAll (func : Function) (calls : List Call) :
    func.slots.toList <+: (calls.foldl after func).slots.toList ∧
      func.frameSize ≤ (calls.foldl after func).frameSize := by
  induction calls generalizing func with
  | nil => exact ⟨List.prefix_refl _, Nat.le_refl _⟩
  | cons call calls ih =>
      have first := @frame_grows func call
      have others := ih (call.after func)
      exact ⟨first.1.trans others.1, Nat.le_trans first.2 others.2⟩

end Call

/--
Whatever calls build a function, each of its slots lies in the frame, at an aligned offset; no two
slots share a byte or a name; further calls never move a slot or make the frame smaller. A slot that
is allocated next comes after those that are there, ends the frame at its own offset, and takes the
first of the names `base`, `base.1`, `base.2`, … that no slot has, which stands behind no more names
than there are slots.
-/
theorem slots_keep_apart (name : String) (argumentTypes : List Ty) (blockNames : List String)
    (calls further : List Call) :
    let before := calls.foldl Call.after (.empty name argumentTypes blockNames)
    let after := further.foldl Call.after before
    (∀ slot ∈ before.slots.toList, slot.Placed before.frameSize) ∧
    (before.slots.toList.Pairwise fun earlier later =>
      Disjoint earlier.bytes later.bytes ∧ earlier.name ≠ later.name) ∧
    before.slots.toList <+: after.slots.toList ∧ before.frameSize ≤ after.frameSize ∧
    ∀ ty base, ∃ slot : Slot, ∃ index ≤ before.slots.size,
      ((Call.allocate ty base).after before).slots = before.slots.push slot ∧
      slot.ty = ty ∧ slot.offset = -((Call.allocate ty base).after before).frameSize ∧
      slot.name = Frame.candidateName base index ∧
      (∀ earlier ∈ before.slots.toList, earlier.name ≠ slot.name) ∧
      ∀ smaller < index, ∃ earlier ∈ before.slots.toList,
        earlier.name = Frame.candidateName base smaller := by
  intro before after
  have sound : before.FrameSound := Call.frameSound_afterAll (Function.frameSound_empty ..) calls
  have grown := Call.frame_growsAll before further
  refine ⟨sound.placed, ?_, grown.1, grown.2, ?_⟩
  · exact sound.apart.imp fun apart => ⟨apart.disjoint, apart.2⟩
  · intro ty base
    rcases Frame.exists_freshName_eq (before.slots.toList.map Slot.name) base with
      ⟨index, short, named, -, taken⟩
    refine ⟨before.nextSlot ty base, index, by simpa using short, rfl, rfl, rfl, named, ?_, ?_⟩
    · exact fun earlier mem => Function.name_ne_nextSlot mem ty base
    · exact fun smaller below => List.mem_map.mp (taken smaller below)

/-- A name that was asked for is passed over like one that was made. -/
example :
    ([Call.allocate .ptr "x", .allocate .ptr "x.1", .allocate .ptr "x"].foldl Call.after
      (.empty "sample" [] [])).slots.toList.map Slot.name = ["x", "x.1", "x.2"] := by
  decide +kernel

end RegisterFlow
