import RegisterFlow.Proofs.Execution.Progress
import RegisterFlow.Proofs.Tracking.Stores
import RegisterFlow.Proofs.Tracking.WordMeetings

/-!
# Numbers at other widths

What becomes of a number when it is stored into the slot of a meeting and read from there at the
width of a register. A conversion keeps the low bits, as many as the new type has. The slot is as
wide as the widest definition or as the whole register, so of a number that fits its type, nothing
is lost on the way but the bits above the width of the register that is read.
-/

namespace RegisterFlow

/-! ### Numbers -/

namespace Word

variable {narrow wide : Nat}

/-- Of two truncations, only the narrower one matters. -/
theorem truncate_truncate (le : narrow ≤ wide) (word : UInt64) :
    truncate narrow (truncate wide word) = truncate narrow word := by
  rw [← UInt64.toNat_inj, toNat_truncate, toNat_truncate, toNat_truncate]
  apply Nat.mod_mod_of_dvd
  apply Nat.pow_dvd_pow
  omega

end Word

namespace Ty

variable {source : Ty} {word : UInt64}

/-- The number of a value after the value was converted to a type, if it has another one. -/
def adjust (source target : Ty) (word : UInt64) : UInt64 :=
  if source = target then word else Word.truncate target.bits word

/-- A number that fits its type is truncated, if anything. -/
theorem Fits.adjust_eq (fits : source.Fits word) (target : Ty) :
    source.adjust target word = Word.truncate target.bits word := by
  unfold adjust
  split
  · next same => exact (same ▸ fits).truncate_eq.symm
  · rfl

theorem Fits.adjust (fits : source.Fits word) (target : Ty) :
    target.Fits (source.adjust target word) := by
  rw [fits.adjust_eq]
  exact fits_truncate target word

/-- The low bits that all types on the way have are not touched. -/
theorem truncate_adjust {width : Nat} {target : Ty} (le : width ≤ target.bits) :
    Word.truncate width (source.adjust target word) = Word.truncate width word := by
  unfold adjust
  split
  · rfl
  · exact Word.truncate_truncate le word

end Ty

/-- The conversions between two types truncate to the width of the second one. -/
theorem Conversion.convert_of_between? {source target : Ty} {kind : Conversion}
    (convertible : between? source target = some kind) (word : UInt64) :
    kind.convert source.bits target.bits word = Word.truncate target.bits word := by
  cases kind with
  | sext =>
      unfold between? at convertible
      split at convertible <;> try cases convertible
      split at convertible <;> cases convertible
  | _ => rfl

/--
A number that fits the type of a definition, stored into the slot in which the definition meets
others and read from there at a width, is truncated to that width.
-/
theorem adjust_meetingTy {func : Function} {fullWidth width : Nat}
    {hits : List ReachingDefinition} {hit : ReachingDefinition} {given : ValueId} {word : UInt64}
    (mem : hit ∈ hits) (known : hit.content = .known given) (fits : (func.ty given).Fits word)
    (within : width ≤ fullWidth) :
    (meetingTy func fullWidth hits).adjust (.int width)
        ((func.ty given).adjust (meetingTy func fullWidth hits) word) =
      Word.truncate width word := by
  rw [(fits.adjust _).adjust_eq, fits.adjust_eq]
  change Word.truncate width _ = _
  by_cases le : width ≤ (meetingTy func fullWidth hits).bits
  · exact Word.truncate_truncate le word
  · -- The slot is narrower than the register, so all definitions are integers that fit it.
    suffices room : (meetingTy func fullWidth hits).Fits word by
      rw [room.truncate_eq]
    cases mapped : hits.mapM (·.integerWidth? func) with
    | none =>
        rw [meetingTy, mapped] at le
        exact absurd within le
    | some widths =>
        rcases (mem_of_mapM_eq_some mapped).1 hit mem with ⟨bits, bits_mem, integer⟩
        apply fits.mono
        simp only [ReachingDefinition.integerWidth?, known, Content.value?, Option.bind_some]
          at integer
        cases typed : func.ty given with
        | int held =>
            rw [typed, Ty.intBits?] at integer
            cases integer
            rw [meetingTy, mapped]
            exact le_foldl_max (Or.inr bits_mem)
        | _ => simp [typed, Ty.intBits?] at integer

/-! ### Values -/

/--
At the end of a block, a value stands for another one at a type: it is that value, if this has the
type, or the block converts that value before.
-/
inductive Adjusts (func : Function) (block : BlockId) (value : ValueId) (target : Ty) :
    ValueId → Prop where
  | same (typed : func.ty value = target) : Adjusts func block value target value
  | cast {kind : Conversion} {converted : ValueId} (differs : func.ty value ≠ target)
      (convertible : Conversion.between? (func.ty value) target = some kind)
      (operation : func.operation converted = .cast kind value)
      (typed : func.ty converted = target) (mem : converted ∈ func.body block)
      (later : value < converted) : Adjusts func block value target converted

namespace Adjusts

variable {before after func : Function} {block : BlockId} {value converted : ValueId} {target : Ty}

theorem mono (adjusts : Adjusts before block value target converted)
    (grown : before.Extends after) (held : value < before.values.size)
    (numbered : before.Numbered) : Adjusts after block value target converted := by
  have source := grown.ty_eq value held
  cases adjusts with
  | same typed => exact .same (source.trans typed)
  | cast differs convertible operation typed mem later =>
      have converted_held := numbered.lt_size block converted mem
      refine .cast (source ▸ differs) (source ▸ convertible) ?_ ?_ ?_ later
      · rw [grown.operation_eq converted converted_held, operation]
      · rw [grown.ty_eq converted converted_held, typed]
      · exact (grown.body_prefix block).subset mem

/-- Its number is that of the other value, converted to the type. -/
theorem words_eq {arguments : Array UInt64} {visited : List BlockId} {state : EvalState}
    (adjusts : Adjusts func block value target converted) (numbered : func.Numbered)
    (ends : func.Ends arguments visited block state) :
    (func.snapshot arguments state).words converted =
      ((func.snapshot arguments state).words value).map ((func.ty value).adjust target) := by
  cases adjusts with
  | same typed =>
      have unchanged : (func.ty value).adjust target = id := by
        funext word
        rw [Ty.adjust, if_pos typed, id]
      rw [unchanged, Option.map_id, id]
  | cast differs convertible operation typed mem later =>
      rcases ends.exists_start with ⟨start, run⟩
      have computed := Function.words_of_mem (numbered.sorted block) run mem (by simp [operation])
        (by simp [operation]) (by simpa [operation, Operation.operands] using later)
      rw [computed]
      simp only [Function.wordFrom?, operation, typed, Conversion.convert_of_between? convertible]
      cases (func.snapshot arguments state).words value with
      | none => rfl
      | some word => simp [Ty.adjust, differs]

end Adjusts

/-! ### Stores and loads of a meeting -/

theorem Converted.adjusts {before after : Function} {block : BlockId} {value converted : ValueId}
    {target : Ty} (converts : Converted before block value target converted after)
    (held : value < before.values.size) (bound : block < before.blocks.size) :
    Adjusts after block value target converted := by
  cases converts with
  | same typed => exact .same typed
  | @cast kind differs convertible =>
      have source : (before.withInstruction block target (.cast kind value)).ty value =
          before.ty value :=
        (Function.extends_withInstruction ..).ty_eq value held
      refine .cast (source.symm ▸ differs) (source.symm ▸ convertible) ?_ ?_ ?_ held
      all_goals simp [bound]

/-- A block stores a value at the type of the slot. -/
theorem Stored.exists_adjusts {before after : Function} {block : BlockId} {slot : SlotId}
    {value : ValueId} (stored : Stored before block slot value after) (numbered : before.Numbered)
    (held : value < before.values.size) (bound : block < before.blocks.size) :
    ∃ converted, after.storedIn slot block = before.storedIn slot block ++ [converted] ∧
      Adjusts after block value (before.slot slot).ty converted := by
  cases stored with
  | @intro converted middle conversion =>
      have quiet := conversion.growsQuietly
      refine ⟨converted, ?_, ?_⟩
      · rw [Function.storedIn_withInstruction_store (quiet.numbered numbered),
          quiet.storedIn_eq numbered, if_pos ⟨rfl, quiet.blockCount_eq ▸ bound⟩]
      · exact (conversion.adjusts held bound).mono (Function.extends_withInstruction ..)
          (Nat.lt_of_lt_of_le held quiet.size_le) (quiet.numbered numbered)

/-- Of definitions in different blocks, each known one is stored once, at the type of the slot. -/
theorem Raise.Chain.exists_adjusts {location : Location} {slot : SlotId}
    {hits : List ReachingDefinition} {before after : Raising} {source : BlockId} {given : ValueId}
    (chain : Raise.Chain (Supplied location slot) hits before after)
    (numbered : before.func.Numbered) (distinct : (hits.map ReachingDefinition.block).Nodup)
    (mem : { block := source, content := .known given } ∈ hits)
    (unused : before.func.storedIn slot source = []) (held : given < before.func.values.size)
    (bound : source < before.func.blocks.size) :
    ∃ converted, after.func.storedIn slot source = [converted] ∧
      Adjusts after.func source given (before.func.slot slot).ty converted := by
  induction chain with
  | nil _ => cases mem
  | @cons hit hits before middle after first rest ih =>
      rw [List.map_cons, List.nodup_cons] at distinct
      have numbered_middle := first.grows.numbered numbered
      have slot_eq : middle.func.slot slot = before.func.slot slot := by
        rw [Function.slot, first.slots_eq, Function.slot]
      have held_middle := Nat.lt_of_lt_of_le held first.grows.size_le
      rcases List.mem_cons.mp mem with rfl | later
      · cases first with
        | known stored =>
            rcases stored.exists_adjusts numbered held bound with ⟨converted, stores, adjusts⟩
            refine ⟨converted, ?_, ?_⟩
            · have elsewhere : ∀ other ∈ hits, source ≠ other.block := by
                intro other other_mem same
                exact distinct.1 (List.mem_map.mpr ⟨other, other_mem, same.symm⟩)
              rw [rest.grows.toExtends.storedIn_of_body numbered_middle (rest.body_of_ne elsewhere),
                stores, unused, List.nil_append]
            · exact adjusts.mono rest.grows.toExtends held_middle numbered_middle
      · have elsewhere : source ≠ hit.block := fun same =>
          distinct.1 (List.mem_map.mpr ⟨_, later, same⟩)
        have unused_middle : middle.func.storedIn slot source = [] := by
          rw [first.grows.toExtends.storedIn_of_body numbered (first.body_of_ne elsewhere), unused]
        rw [← slot_eq]
        exact ih numbered_middle distinct.2 later unused_middle held_middle
          (first.grows.blockCount_eq.symm ▸ bound)

end RegisterFlow
