import RegisterFlow.Proofs.Code.Building
import RegisterFlow.Proofs.Tracking.Changes

/-!
# Words that meet

Definitions whose values are words can always meet. The slot is as wide as the widest of them, or as
the register if one of them is pending, so what is stored and loaded is at most widened on the way,
and all that a meeting builds is well built.
-/

namespace RegisterFlow

namespace Ty

theorem isWord_iff {ty : Ty} : ty.IsWord ↔ ∃ width, ty = .int width ∧ 1 ≤ width ∧ width ≤ 64 := by
  simp only [IsWord, wordBits?_eq_some_iff]

/-- One type of words is at most as wide as another one. -/
structure Within (narrow wide : Ty) : Prop where
  narrow_word : narrow.IsWord
  wide_word : wide.IsWord
  bits_le : narrow.bits ≤ wide.bits

theorem IsWord.within {ty : Ty} (word : ty.IsWord) : ty.Within (.int 64) where
  narrow_word := word
  wide_word := isWord_iff.mpr ⟨64, rfl, by omega, by omega⟩
  bits_le := by
    rcases isWord_iff.mp word with ⟨width, rfl, _, le⟩
    exact le

/-- A word is widened to another type. -/
theorem Within.between? {narrow wide : Ty} (within : narrow.Within wide) (differs : narrow ≠ wide) :
    Conversion.between? narrow wide = some .zext := by
  rcases isWord_iff.mp within.narrow_word with ⟨source, rfl, _, _⟩
  rcases isWord_iff.mp within.wide_word with ⟨target, rfl, _, _⟩
  have le : source ≤ target := within.bits_le
  have ne : source ≠ target := fun same => differs (congrArg Ty.int same)
  simp [Conversion.between?, Nat.lt_of_le_of_ne le ne]

end Ty

section MeetingTy

theorem le_foldl_max {width start : Nat} {widths : List Nat}
    (held : width ≤ start ∨ width ∈ widths) : width ≤ widths.foldl max start := by
  induction widths generalizing start with
  | nil => simpa using held
  | cons first rest ih =>
      apply ih
      rcases held with le | mem
      · exact Or.inl (Nat.le_trans le (Nat.le_max_left _ _))
      · rcases List.mem_cons.mp mem with rfl | mem
        · exact Or.inl (Nat.le_max_right _ _)
        · exact Or.inr mem

theorem foldl_max_le {bound start : Nat} {widths : List Nat} (start_le : start ≤ bound)
    (widths_le : ∀ width ∈ widths, width ≤ bound) : widths.foldl max start ≤ bound := by
  induction widths generalizing start with
  | nil => exact start_le
  | cons first rest ih =>
      apply ih
      · exact Nat.max_le.mpr ⟨start_le, widths_le first List.mem_cons_self⟩
      · exact fun width mem => widths_le width (List.mem_cons_of_mem _ mem)

/-- What a successful map gives, it gives for an item, and every item gives something. -/
theorem mem_of_mapM_eq_some {α β : Type} {step : α → Option β} {items : List α} {results : List β}
    (mapped : items.mapM step = some results) :
    (∀ item ∈ items, ∃ result ∈ results, step item = some result) ∧
      ∀ result ∈ results, ∃ item ∈ items, step item = some result := by
  induction items generalizing results with
  | nil =>
      cases mapped
      simp
  | cons first rest ih =>
      rw [List.mapM_cons] at mapped
      rcases Option.bind_eq_some_iff.mp mapped with ⟨result, first_eq, mapped⟩
      rcases Option.bind_eq_some_iff.mp mapped with ⟨others, rest_eq, collected⟩
      cases collected
      rcases ih rest_eq with ⟨forward, backward⟩
      constructor
      · intro item mem
        rcases List.mem_cons.mp mem with rfl | mem
        · exact ⟨result, List.mem_cons_self, first_eq⟩
        · rcases forward item mem with ⟨other, other_mem, given⟩
          exact ⟨other, List.mem_cons_of_mem _ other_mem, given⟩
      · intro other mem
        rcases List.mem_cons.mp mem with rfl | mem
        · exact ⟨first, List.mem_cons_self, first_eq⟩
        · rcases backward other mem with ⟨item, item_mem, given⟩
          exact ⟨item, List.mem_cons_of_mem _ item_mem, given⟩

variable {func : Function} {hits : List ReachingDefinition}

theorem ReachingDefinition.integerWidth?_eq_some_iff {hit : ReachingDefinition} {width : Nat} :
    hit.integerWidth? func = some width ↔
      ∃ value, hit.content = .known value ∧ func.ty value = .int width := by
  cases content : hit.content with
  | pending => simp [integerWidth?, content, Content.value?]
  | known value =>
      cases typed : func.ty value <;> simp [integerWidth?, content, Content.value?, typed, Ty.intBits?]

/-- Words meet in a slot that holds each of them, and of the full width if one is pending. -/
theorem meetingTy_of_words (nonempty : hits ≠ [])
    (words : ∀ hit ∈ hits, ∀ value, hit.content = .known value → (func.ty value).IsWord) :
    (meetingTy func 64 hits).IsWord ∧
      ∀ hit ∈ hits,
        (∀ value, hit.content = .known value → (func.ty value).Within (meetingTy func 64 hits)) ∧
        (hit.content = .pending → meetingTy func 64 hits = .int 64) := by
  unfold meetingTy
  cases mapped : hits.mapM (·.integerWidth? func) with
  | none =>
      refine ⟨Ty.isWord_iff.mpr ⟨64, rfl, by omega, by omega⟩, fun hit mem => ⟨?_, fun _ => rfl⟩⟩
      exact fun value known => (words hit mem value known).within
  | some widths =>
      rcases mem_of_mapM_eq_some mapped with ⟨all_known, all_widths⟩
      have bounded : ∀ width ∈ widths, 1 ≤ width ∧ width ≤ 64 := by
        intro width mem
        rcases all_widths width mem with ⟨hit, hit_mem, given⟩
        rcases ReachingDefinition.integerWidth?_eq_some_iff.mp given with ⟨value, known, typed⟩
        rcases Ty.isWord_iff.mp (words hit hit_mem value known) with ⟨other, same, range⟩
        rw [typed] at same
        cases same
        exact range
      have wide_word : (Ty.int (widths.foldl max 0)).IsWord := by
        rcases List.exists_mem_of_ne_nil _ nonempty with ⟨hit, mem⟩
        rcases all_known hit mem with ⟨width, width_mem, _⟩
        refine Ty.isWord_iff.mpr ⟨_, rfl, ?_, ?_⟩
        · exact Nat.le_trans (bounded width width_mem).1 (le_foldl_max (Or.inr width_mem))
        · exact foldl_max_le (by omega) fun width mem => (bounded width mem).2
      refine ⟨wide_word, fun hit mem => ?_⟩
      rcases all_known hit mem with ⟨width, width_mem, given⟩
      rcases ReachingDefinition.integerWidth?_eq_some_iff.mp given with ⟨value, known, typed⟩
      constructor
      · intro other same
        rw [known] at same
        cases same
        refine ⟨words hit mem value known, wide_word, ?_⟩
        rw [typed]
        exact le_foldl_max (Or.inr width_mem)
      · intro pending
        rw [known] at pending
        cases pending

end MeetingTy

namespace Function

variable {graph : FlowGraph} {func : Function} {block : BlockId} {ty : Ty} {operation : Operation}

/-- An instruction that computes a word can be read in its block. -/
theorem usable_withInstruction (word : ty.IsWord) (result : operation.hasResult = true) :
    (func.withInstruction block ty operation).Usable graph block func.values.size where
  word := by simpa using word
  computed _ := ⟨by simpa using result, block, by simp, Or.inl rfl⟩

/-- A leaf that is a word can be read anywhere. -/
theorem usable_withLeaf {name : Option String} (word : ty.IsWord)
    (leaf : operation.isLeaf = true) :
    (func.withLeaf ty operation name).Usable graph block func.values.size where
  word := by simpa [Function.ty] using word
  computed inner := by simp [Function.operation, leaf] at inner

end Function

/-! ### What meetings build -/

section Builds

open RegisterFlow.Function (Builds Extension)

variable {graph : FlowGraph} {before after : Function} {block : BlockId} {value stored : ValueId}
  {target : Ty} {slot : SlotId}

/-- A word is widened by an instruction that is well built. -/
theorem Converted.builds (graph : FlowGraph)
    (converted : Converted before block value target stored after)
    (within : (before.ty value).Within target) (usable : before.Usable graph block value)
    (bound : block < before.blocks.size) :
    Builds graph before after ∧ after.Usable graph block stored ∧ after.ty stored = target := by
  cases converted with
  | same typed => exact ⟨.refl, usable, typed⟩
  | @cast kind _ _ =>
      refine ⟨.single (.instruction bound rfl within.wide_word ?_),
        Function.usable_withInstruction within.wide_word rfl, by simp⟩
      simpa [Operation.operands] using usable

/-- A word is stored, widened to the type of the slot. -/
theorem Stored.builds (stored : Stored before block slot value after)
    (within : (before.ty value).Within (before.slot slot).ty)
    (usable : before.Usable graph block value) (bound : block < before.blocks.size)
    (slot_lt : slot < before.slots.size) : Builds graph before after := by
  cases stored with
  | @intro operand middle converted =>
      have quiet := converted.growsQuietly
      rcases converted.builds graph within usable bound with ⟨builds, usable, typed⟩
      refine builds.tail (.instruction (quiet.blockCount_eq ▸ bound) rfl ⟨?_, ?_⟩ ?_)
      · rwa [quiet.slots_eq]
      · rw [typed, quiet.slotTy_eq slot slot_lt]
      · simpa [Operation.operands] using usable

/-- Definitions can be supplied to a slot: the known ones are usable where they are made, and fit. -/
def Suppliable (graph : FlowGraph) (func : Function) (ty : Ty) (hits : List ReachingDefinition) :
    Prop :=
  ∀ hit ∈ hits, hit.block < func.blocks.size ∧ ∀ value, hit.content = .known value →
    func.Usable graph hit.block value ∧ (func.ty value).Within ty

theorem Suppliable.mono {ty : Ty} {hits : List ReachingDefinition}
    (suppliable : Suppliable graph before ty hits) (grown : before.Extends after) :
    Suppliable graph after ty hits := by
  intro hit mem
  rcases suppliable hit mem with ⟨bound, known⟩
  refine ⟨grown.blockCount_eq ▸ bound, fun value content => ?_⟩
  rcases known value content with ⟨usable, within⟩
  exact ⟨usable.mono grown, grown.ty_eq value usable.lt_size ▸ within⟩

end Builds

section Meeting

open RegisterFlow.Function (Builds Extension)

variable {graph : FlowGraph} {location : Location} {ty : Ty} {slot : SlotId} {block : BlockId}
  {hits : List ReachingDefinition} {native : Option Ty} {value : ValueId} {before after : Raising}

theorem Raise.Chain.builds (chain : Raise.Chain (Supplied location slot) hits before after)
    (suppliable : Suppliable graph before.func (before.func.slot slot).ty hits)
    (slot_lt : slot < before.func.slots.size) : Builds graph before.func after.func := by
  induction chain with
  | nil _ => exact .refl
  | @cons hit rest before middle after first _ ih =>
      have grown := first.grows.toExtends
      have first_builds : Builds graph before.func middle.func := by
        rcases suppliable hit List.mem_cons_self with ⟨bound, known⟩
        cases first with
        | pending => exact .refl
        | known stored =>
            rcases known _ rfl with ⟨usable, within⟩
            exact stored.builds within usable bound slot_lt
      refine first_builds.trans (ih ?_ (Nat.lt_of_lt_of_le slot_lt grown.slotCount_le))
      rw [grown.slotTy_eq slot slot_lt]
      exact Suppliable.mono (fun hit mem => suppliable hit (List.mem_cons_of_mem _ mem)) grown

theorem Raise.Chain.builds_opened (graph : FlowGraph)
    (chain : Raise.Chain (Supplied location before.func.slots.size) hits
      (before.opened location ty) after)
    (suppliable : Suppliable graph before.func ty hits) : Builds graph before.func after.func := by
  have opened : Builds graph before.func (before.opened location ty).func := .single (.slot ..)
  refine opened.trans (chain.builds ?_ (by simp [Raising.opened]))
  simpa [Raising.opened] using suppliable.mono opened.grows.toExtends

/-- Words that meet are stored and loaded by code that is well built. -/
theorem Met.builds (met : Met location ty block hits native before value after)
    (suppliable : Suppliable graph before.func ty hits) (bound : block < before.func.blocks.size)
    (within : ty.Within (native.getD ty)) :
    Builds graph before.func after.func ∧ after.func.Usable graph block value ∧
      after.func.ty value = native.getD ty := by
  cases met with
  | @intro supplied _ func table chain converted filed =>
      have supplied_builds := chain.builds_opened graph suppliable
      have grown := supplied_builds.grows.toExtends
      have slot_ty := Raise.slotTy_of_chain chain
      have slot_lt : before.func.slots.size < supplied.func.slots.size := by
        rw [chain.slots_eq]
        simp [Raising.opened]
      have block_lt : block < supplied.func.blocks.size := grown.blockCount_eq ▸ bound
      have loads : Extension graph supplied.func
          (supplied.func.withInstruction block ty (.load before.func.slots.size)) := by
        refine .instruction block_lt rfl ⟨slot_lt, slot_ty.symm, within.narrow_word⟩ ?_
        simp [Operation.operands]
      rcases converted.builds graph (by simpa using within)
        (Function.usable_withInstruction within.narrow_word rfl)
        (by simpa using block_lt) with ⟨converts, usable, typed⟩
      refine ⟨((supplied_builds.tail loads).trans converts).tail (.name ..), ?_, by simpa using typed⟩
      exact usable.mono (Function.extends_withName ..)

/-- Words can always meet in a register. -/
theorem Abandoned.false_of_words
    (abandoned : Abandoned location ty block hits native before after)
    (suppliable : Suppliable graph before.func ty hits) (bound : block < before.func.blocks.size)
    (within : ty.Within (native.getD ty)) (register : location.isFlag = false) : False := by
  cases abandoned with
  | @unsupplied done rest refused value _ split chain known inconvertible differs =>
      have builds := chain.builds_opened graph fun hit mem =>
        suppliable hit (by rw [split]; exact List.mem_append_left _ mem)
      rcases (suppliable.mono builds.grows.toExtends refused (by simp [split])).2 value known with
        ⟨_, within⟩
      rw [within.between? differs] at inconvertible
      cases inconvertible
  | unconverted _ inconvertible differs =>
      rw [within.between? differs] at inconvertible
      cases inconvertible
  | @unfiled supplied value func failure chain converted refused =>
      have grown := (chain.builds_opened graph suppliable).grows.toExtends
      have block_lt : block < supplied.func.blocks.size := grown.blockCount_eq ▸ bound
      rcases converted.builds graph (by simpa using within)
        (Function.usable_withInstruction within.narrow_word rfl)
        (by simpa using block_lt) with ⟨_, _, typed⟩
      have positive : 0 < (func.ty value).bits := by
        rw [typed]
        rcases Ty.isWord_iff.mp within.wide_word with ⟨width, ty_eq, positive, _⟩
        rw [ty_eq]
        exact positive
      rcases @Table.record_eq_ok supplied.tracker.table location block _ value positive
        (by simp [register]) with ⟨table, filed⟩
      rw [filed] at refused
      cases refused

/-- A store that waited is made by code that is well built, if a word of the slot's type is known. -/
theorem Settled.builds {store : DeferredStore} (settled : Settled graph store before after)
    (usable : ∀ value, before.tracker.valueIn? graph store.location store.block = some value →
      before.func.Usable graph store.block value ∧
        (before.func.ty value).Within (before.func.slot store.slot).ty)
    (bound : store.block < before.func.blocks.size)
    (slot_lt : store.slot < before.func.slots.size) : Builds graph before.func after.func := by
  cases settled with
  | intro known stored =>
      rcases usable _ known with ⟨usable, within⟩
      exact stored.builds within usable bound slot_lt

end Meeting

end RegisterFlow
