import Mathlib.Data.List.Forall2
import RegisterFlow.Proofs.Code.Bodies
import RegisterFlow.Proofs.Tracking.Steps

/-!
# How definitions meet

What a read does to the function when several definitions reach it. The slot in which they meet is
new; each known definition is stored into it, converted if need be, and each pending one leaves a
deferred store. The relations of this file say what has been built and noted once a step succeeded.
When a meeting fails, the definitions in front of the refused one have been supplied.
-/

namespace RegisterFlow

/-- A value at a type: itself, or a conversion of it that was appended to a block. -/
inductive Converted (before : Function) (block : BlockId) (value : ValueId) (target : Ty) :
    ValueId → Function → Prop where
  | same (typed : before.ty value = target) :
      Converted before block value target value before
  | cast {kind : Conversion} (differs : before.ty value ≠ target)
      (convertible : Conversion.between? (before.ty value) target = some kind) :
      Converted before block value target before.values.size
        (before.withInstruction block target (.cast kind value))

/-- A value of a type that stands for another one: the value itself, or a conversion of it. -/
inductive Converts (func : Function) (block : BlockId) (value : ValueId) (target : Ty) :
    ValueId → Prop where
  | same (typed : func.ty value = target) : Converts func block value target value
  | cast {kind : Conversion} {converted : ValueId} (differs : func.ty value ≠ target)
      (convertible : Conversion.between? (func.ty value) target = some kind)
      (operation : func.operation converted = .cast kind value)
      (typed : func.ty converted = target)
      (owner : (func.value converted).block = some block) :
      Converts func block value target converted

/-- A value was stored, at the type of the slot, at the end of a block. -/
inductive Stored (before : Function) (block : BlockId) (slot : SlotId) (value : ValueId) :
    Function → Prop where
  | intro {stored : ValueId} {middle : Function}
      (converted : Converted before block value (before.slot slot).ty stored middle) :
      Stored before block slot value (middle.withInstruction block .void (.store slot stored))

/-- A reaching definition was supplied to a slot: stored if it is known, deferred if not. -/
inductive Supplied (location : Location) (slot : SlotId) :
    ReachingDefinition → Raising → Raising → Prop where
  | known {block : BlockId} {value : ValueId} {func : Function} {before : Raising}
      (stored : Stored before.func block slot value func) :
      Supplied location slot { block, content := .known value } before { before with func }
  | pending {block : BlockId} {before : Raising} :
      Supplied location slot { block, content := .pending } before
        { before with
          tracker := before.tracker.defer { location, block, slot }
          statistics := before.statistics.countDeferred }

namespace ReachingDefinition

/-- The deferred store that a pending definition leaves when it is supplied to a slot. -/
def waiting? (location : Location) (slot : SlotId) (hit : ReachingDefinition) :
    Option DeferredStore :=
  match hit.content with
  | .known _ => none
  | .pending => some { location, block := hit.block, slot }

/-- The value of a definition that is known in a block. -/
def valueIn? (block : BlockId) (hit : ReachingDefinition) : Option ValueId :=
  if hit.block = block then hit.content.value? else none

end ReachingDefinition

/-- The state after the slot was allocated in which definitions of a location meet. -/
def Raising.opened (raising : Raising) (location : Location) (ty : Ty) : Raising :=
  { raising with
    func := raising.func.withSlot ty (location.name ++ "-merge")
    statistics := raising.statistics.countPromotion }

/--
Definitions met in a new slot. What was loaded from it, at the type `native` if there is one, is the
definition of the block from then on.
-/
inductive Met (location : Location) (ty : Ty) (block : BlockId) (hits : List ReachingDefinition)
    (native : Option Ty) (before : Raising) : ValueId → Raising → Prop where
  | intro {supplied : Raising} {value : ValueId} {func : Function} {table : Table}
      (chain : Raise.Chain (Supplied location before.func.slots.size) hits
        (before.opened location ty) supplied)
      (converted : Converted
        (supplied.func.withInstruction block ty (.load before.func.slots.size)) block
        supplied.func.values.size (native.getD ty) value func)
      (filed : supplied.tracker.table.record location block (func.ty value).bits value = .ok table) :
      Met location ty block hits native before value
        { supplied with
          func := func.withName value location.name
          tracker := { supplied.tracker with table }.addMerge
            { location, block, slot := before.func.slots.size, value } }

/--
A meeting was given up: at a definition whose value has no conversion to the type of the slot,
because what was loaded has none to `native`, or because the table refused its width.
-/
inductive Abandoned (location : Location) (ty : Ty) (block : BlockId)
    (hits : List ReachingDefinition) (native : Option Ty) (before : Raising) : Raising → Prop where
  | unsupplied {done rest : List ReachingDefinition} {refused : ReachingDefinition}
      {value : ValueId} {after : Raising} (split : hits = done ++ refused :: rest)
      (chain : Raise.Chain (Supplied location before.func.slots.size) done
        (before.opened location ty) after)
      (known : refused.content = .known value)
      (inconvertible : Conversion.between? (after.func.ty value) ty = none)
      (differs : after.func.ty value ≠ ty) :
      Abandoned location ty block hits native before after
  | unconverted {supplied : Raising}
      (chain : Raise.Chain (Supplied location before.func.slots.size) hits
        (before.opened location ty) supplied)
      (inconvertible : Conversion.between? ty (native.getD ty) = none)
      (differs : ty ≠ native.getD ty) :
      Abandoned location ty block hits native before
        { supplied with
          func := supplied.func.withInstruction block ty (.load before.func.slots.size) }
  | unfiled {supplied : Raising} {value : ValueId} {func : Function} {failure : TrackingError}
      (chain : Raise.Chain (Supplied location before.func.slots.size) hits
        (before.opened location ty) supplied)
      (converted : Converted
        (supplied.func.withInstruction block ty (.load before.func.slots.size)) block
        supplied.func.values.size (native.getD ty) value func)
      (refused : supplied.tracker.table.record location block (func.ty value).bits value =
        .error failure) :
      Abandoned location ty block hits native before
        { supplied with func := func.withName value location.name }

theorem Conversion.ne_void_of_between? {source target : Ty} {kind : Conversion}
    (convertible : between? source target = some kind) : source ≠ .void := by
  rintro rfl
  cases target <;> cases convertible

/-- A conversion stays one while the function grows. -/
theorem Converts.mono {before after : Function} {block : BlockId} {value converted : ValueId}
    {target : Ty} (converts : Converts before block value target converted)
    (proper : target ≠ .void) (grown : before.Extends after) :
    Converts after block value target converted := by
  cases converts with
  | same typed => exact .same (grown.ty_of_ne proper typed)
  | @cast kind _ differs convertible operation typed owner =>
      have source : after.ty value = before.ty value :=
        grown.ty_of_ne (Conversion.ne_void_of_between? convertible) rfl
      have held : converted < before.values.size := Function.lt_size_of_ty proper typed
      refine .cast (source ▸ differs)
        ((congrArg (Conversion.between? · target) source).trans convertible) ?_ ?_ ?_
      · rw [grown.operation_eq converted held, operation]
      · rw [grown.ty_eq converted held, typed]
      · rw [grown.owner_eq converted held, owner]

namespace Converted

variable {before after : Function} {block : BlockId} {value converted : ValueId} {target : Ty}

theorem growsQuietly (converts : Converted before block value target converted after) :
    before.GrowsQuietly block after := by
  cases converts with
  | same _ => exact .refl _
  | cast _ _ => exact Function.growsQuietly_withInstruction _ _ _ _ (fun _ _ => by simp)

theorem converts (converts : Converted before block value target converted after) :
    Converts after block value target converted := by
  cases converts with
  | same typed => exact .same typed
  | @cast kind differs convertible =>
      have source : (before.withInstruction block target (.cast kind value)).ty value =
          before.ty value :=
        (Function.extends_withInstruction ..).ty_of_ne
          (Conversion.ne_void_of_between? convertible) rfl
      refine .cast (source.symm ▸ differs)
        ((congrArg (Conversion.between? · target) source).trans convertible) ?_ ?_ ?_
      all_goals simp [Function.operation, Function.ty]

end Converted

namespace Stored

variable {before after : Function} {block : BlockId} {slot : SlotId} {value : ValueId}

theorem grows (stored : Stored before block slot value after) : before.Grows after := by
  cases stored with
  | intro converted =>
      exact converted.growsQuietly.toGrows.trans (Function.grows_withInstruction ..)

theorem slots_eq (stored : Stored before block slot value after) : after.slots = before.slots := by
  cases stored with
  | intro converted => exact converted.growsQuietly.slots_eq

theorem body_of_ne {other : BlockId} (stored : Stored before block slot value after)
    (different : other ≠ block) : after.body other = before.body other := by
  cases stored with
  | intro converted =>
      rw [Function.body_withInstruction, if_neg (fun holds => different holds.1),
        converted.growsQuietly.body_of_ne other different]

/-- The stores of a block after one was appended to it: the new one stores the value, converted. -/
theorem storedIn_self (stored : Stored before block slot value after) (numbered : before.Numbered)
    (proper : (before.slot slot).ty ≠ .void) (bound : block < before.blocks.size) :
    ∃ converted, after.storedIn slot block = before.storedIn slot block ++ [converted] ∧
      Converts after block value (before.slot slot).ty converted := by
  cases stored with
  | @intro converted middle conversion =>
      refine ⟨converted, ?_, conversion.converts.mono proper (Function.extends_withInstruction ..)⟩
      have quiet := conversion.growsQuietly
      rw [Function.storedIn_withInstruction_store (quiet.numbered numbered),
        quiet.storedIn_eq numbered, if_pos ⟨rfl, quiet.blockCount_eq ▸ bound⟩]

/-- A store into one slot is none into another, and one in a block none in another. -/
theorem storedIn_of_ne {other : SlotId} {elsewhere : BlockId}
    (stored : Stored before block slot value after) (numbered : before.Numbered)
    (different : other ≠ slot ∨ elsewhere ≠ block) :
    after.storedIn other elsewhere = before.storedIn other elsewhere := by
  cases stored with
  | @intro converted middle conversion =>
      have quiet := conversion.growsQuietly
      rcases different with slots_ne | blocks_ne
      · rw [Function.storedIn_withInstruction_of_ne (quiet.numbered numbered),
          quiet.storedIn_eq numbered]
        intro operand same
        rw [Operation.store.injEq] at same
        exact slots_ne same.1.symm
      · rw [Function.storedIn_withInstruction (quiet.numbered numbered),
          if_neg (fun holds => blocks_ne holds.1), List.append_nil, quiet.storedIn_eq numbered]

end Stored

namespace Supplied

variable {location : Location} {slot : SlotId} {hit : ReachingDefinition} {before after : Raising}

theorem grows (supplied : Supplied location slot hit before after) :
    before.func.Grows after.func := by
  cases supplied with
  | known stored => exact stored.grows
  | pending => exact .refl _

theorem slots_eq (supplied : Supplied location slot hit before after) :
    after.func.slots = before.func.slots := by
  cases supplied with
  | known stored => exact stored.slots_eq
  | pending => rfl

theorem tracker_eq (supplied : Supplied location slot hit before after) :
    after.tracker =
      { before.tracker with
        deferred := before.tracker.deferred ++ (hit.waiting? location slot).toList } := by
  cases supplied with
  | known stored => simp [ReachingDefinition.waiting?]
  | pending => rfl

theorem body_of_ne {block : BlockId} (supplied : Supplied location slot hit before after)
    (different : block ≠ hit.block) : after.func.body block = before.func.body block := by
  cases supplied with
  | known stored => exact stored.body_of_ne different
  | pending => rfl

theorem storedIn_of_ne {other : SlotId} {block : BlockId}
    (supplied : Supplied location slot hit before after) (numbered : before.func.Numbered)
    (different : other ≠ slot) :
    after.func.storedIn other block = before.func.storedIn other block := by
  cases supplied with
  | known stored => exact stored.storedIn_of_ne numbered (Or.inl different)
  | pending => rfl

/-- A block stores one more value if the definition is known there, and none otherwise. -/
theorem storedIn_self {block : BlockId} (supplied : Supplied location slot hit before after)
    (numbered : before.func.Numbered) (proper : (before.func.slot slot).ty ≠ .void)
    (bound : block < before.func.blocks.size) :
    ∃ stored, after.func.storedIn slot block = before.func.storedIn slot block ++ stored ∧
      List.Forall₂ (Converts after.func block · (before.func.slot slot).ty)
        (hit.valueIn? block).toList stored := by
  cases supplied with
  | @known source value func _ stores =>
      by_cases same : source = block
      · subst same
        obtain ⟨converted, appended, converts⟩ := stores.storedIn_self numbered proper bound
        refine ⟨[converted], appended, ?_⟩
        simpa [ReachingDefinition.valueIn?, Content.value?] using converts
      · refine ⟨[], ?_, ?_⟩
        · rw [List.append_nil]
          exact stores.storedIn_of_ne numbered (Or.inr (Ne.symm same))
        · simp [ReachingDefinition.valueIn?, same]
  | @pending source _ =>
      refine ⟨[], (List.append_nil _).symm, ?_⟩
      by_cases same : source = block <;> simp [ReachingDefinition.valueIn?, Content.value?, same]

end Supplied

namespace Raise.Chain

variable {location : Location} {slot : SlotId} {hits : List ReachingDefinition}
  {before after : Raising}

theorem grows (chain : Chain (Supplied location slot) hits before after) :
    before.func.Grows after.func := by
  induction chain with
  | nil _ => exact .refl _
  | cons first _ ih => exact first.grows.trans ih

theorem slots_eq (chain : Chain (Supplied location slot) hits before after) :
    after.func.slots = before.func.slots := by
  induction chain with
  | nil _ => rfl
  | cons first _ ih => exact ih.trans first.slots_eq

theorem slotCount_opened {ty : Ty}
    (chain : Chain (Supplied location slot) hits (before.opened location ty) after) :
    after.func.slots.size = before.func.slots.size + 1 := by
  rw [chain.slots_eq]
  exact Function.slotCount_withSlot ..

theorem slot_lt_opened {ty : Ty}
    (chain : Chain (Supplied location slot) hits (before.opened location ty) after) :
    before.func.slots.size < after.func.slots.size := by
  rw [chain.slotCount_opened]
  exact Nat.lt_succ_self _

theorem tracker_eq (chain : Chain (Supplied location slot) hits before after) :
    after.tracker =
      { before.tracker with
        deferred := before.tracker.deferred ++ hits.filterMap (·.waiting? location slot) } := by
  induction chain with
  | nil _ => simp
  | @cons hit hits before middle after first _ ih =>
      rw [ih, first.tracker_eq]
      cases waits : hit.waiting? location slot <;> simp [waits]

theorem body_of_ne {block : BlockId} (chain : Chain (Supplied location slot) hits before after)
    (different : ∀ hit ∈ hits, block ≠ hit.block) :
    after.func.body block = before.func.body block := by
  induction chain with
  | nil _ => rfl
  | cons first _ ih =>
      rw [ih (fun hit mem => different hit (List.mem_cons_of_mem _ mem)),
        first.body_of_ne (different _ List.mem_cons_self)]

theorem storedIn_of_ne {other : SlotId} {block : BlockId}
    (chain : Chain (Supplied location slot) hits before after) (numbered : before.func.Numbered)
    (different : other ≠ slot) :
    after.func.storedIn other block = before.func.storedIn other block := by
  induction chain with
  | nil _ => rfl
  | cons first _ ih =>
      rw [ih (first.grows.numbered numbered), first.storedIn_of_ne numbered different]

/-- A block stores the values of the definitions that are known there, each converted, in order. -/
theorem storedIn_self {block : BlockId}
    (chain : Chain (Supplied location slot) hits before after) (numbered : before.func.Numbered)
    (proper : (before.func.slot slot).ty ≠ .void) (bound : block < before.func.blocks.size) :
    ∃ stored, after.func.storedIn slot block = before.func.storedIn slot block ++ stored ∧
      List.Forall₂ (Converts after.func block · (before.func.slot slot).ty)
        (hits.filterMap (·.valueIn? block)) stored := by
  induction chain with
  | nil _ => exact ⟨[], (List.append_nil _).symm, .nil⟩
  | @cons hit hits before middle after first rest ih =>
      have slot_eq : middle.func.slot slot = before.func.slot slot := by
        rw [Function.slot, first.slots_eq, Function.slot]
      obtain ⟨one, one_eq, one_converts⟩ := first.storedIn_self numbered proper bound
      obtain ⟨others, others_eq, others_convert⟩ := ih (first.grows.numbered numbered)
        (slot_eq ▸ proper) (first.grows.blockCount_eq ▸ bound)
      rw [slot_eq] at others_convert
      refine ⟨one ++ others, ?_, ?_⟩
      · rw [others_eq, one_eq, List.append_assoc]
      · have later := one_converts.imp fun _ _ converts =>
          converts.mono proper rest.grows.toExtends
        have split : (hit :: hits).filterMap (·.valueIn? block) =
            (hit.valueIn? block).toList ++ hits.filterMap (·.valueIn? block) := by
          cases known : hit.valueIn? block <;> simp [known]
        rw [split]
        exact List.rel_append later others_convert

end Raise.Chain

namespace Raise

variable {location : Location} {block : BlockId} {slot : SlotId} {value : ValueId} {target : Ty}

/-- A conversion succeeds without touching the tracker, or fails without touching anything. -/
theorem run_convert (location : Location) (block : BlockId) (value : ValueId) (target : Ty)
    (before : Raising) :
    (∃ converted func, Converted before.func block value target converted func ∧
        (convert location block value target).run before =
          .ok converted { before with func }) ∨
      (before.func.ty value ≠ target ∧
        Conversion.between? (before.func.ty value) target = none ∧
        (convert location block value target).run before =
          .error (.inconsistentWidth location
            (.conversion (before.func.ty value) target)) before) := by
  simp only [convert, EStateM.run_bind, EStateM.run_get]
  by_cases typed : before.func.ty value = target
  · left
    refine ⟨value, before.func, .same typed, ?_⟩
    rw [if_pos typed]
    rfl
  · rw [if_neg typed]
    cases convertible : Conversion.between? (before.func.ty value) target with
    | some kind =>
        left
        exact ⟨_, _, .cast typed convertible, rfl⟩
    | none =>
        right
        exact ⟨typed, rfl, rfl⟩

/-- A value is stored, or it has no conversion to the type of the slot and nothing changes. -/
theorem run_storeConverted (location : Location) (block : BlockId) (slot : SlotId)
    (value : ValueId) (before : Raising) :
    (∃ func, Stored before.func block slot value func ∧
        (storeConverted location block slot value).run before = .ok () { before with func }) ∨
      ((before.func.ty value ≠ (before.func.slot slot).ty ∧
        Conversion.between? (before.func.ty value) (before.func.slot slot).ty = none) ∧
        ∃ fault, (storeConverted location block slot value).run before =
          .error (.inconsistentWidth location fault) before) := by
  simp only [storeConverted, EStateM.run_bind, EStateM.run_get]
  rcases run_convert location block value (before.func.slot slot).ty before with
    ⟨stored, func, converted, succeeds⟩ | ⟨differs, inconvertible, fails⟩
  · left
    refine ⟨_, .intro converted, ?_⟩
    rw [succeeds]
    rfl
  · right
    refine ⟨⟨differs, inconvertible⟩,
      .conversion (before.func.ty value) (before.func.slot slot).ty, ?_⟩
    rw [fails]

/-- A definition is supplied, or it is a known value that has no conversion to the slot's type. -/
theorem run_supply (location : Location) (slot : SlotId) (hit : ReachingDefinition)
    (before : Raising) :
    (∃ after, Supplied location slot hit before after ∧
        (supply location slot hit).run before = .ok () after) ∨
      (∃ value, hit.content = .known value ∧
        Conversion.between? (before.func.ty value) (before.func.slot slot).ty = none ∧
        before.func.ty value ≠ (before.func.slot slot).ty) ∧
      ∃ failure, (supply location slot hit).run before = .error failure before := by
  rcases hit with ⟨block, content⟩
  cases content with
  | known value =>
      rcases run_storeConverted location block slot value before with
        ⟨func, stored, succeeds⟩ | ⟨⟨differs, inconvertible⟩, _, fails⟩
      · exact Or.inl ⟨_, .known stored, succeeds⟩
      · exact Or.inr ⟨⟨value, rfl, inconvertible, differs⟩, _, fails⟩
  | pending => exact Or.inl ⟨_, .pending, rfl⟩

theorem slotTy_of_chain {before supplied : Raising} {ty : Ty} {hits : List ReachingDefinition}
    (chain : Chain (Supplied location before.func.slots.size) hits
      (before.opened location ty) supplied) :
    (supplied.func.slot before.func.slots.size).ty = ty := by
  have opened : ((before.opened location ty).func.slot before.func.slots.size).ty = ty := by
    simp [Raising.opened]
  rw [Function.slot, chain.slots_eq]
  exact opened

/-- Converts what was loaded to the type `native`, if there is one. -/
def convertLoaded (location : Location) (native : Option Ty) (block : BlockId)
    (loaded : ValueId) : Raise ValueId :=
  match native with
  | some native => convert location block loaded native
  | none => pure loaded

/-- What follows in a meeting once all definitions have been supplied. -/
def deliver (location : Location) (native : Option Ty) (block : BlockId) (slot : SlotId) :
    Raise ValueId := do
  let loaded ← build (Builder.load block slot)
  let value ← convertLoaded location native block loaded
  build (Builder.rename value location.name)
  define location block ((← get).func.ty value).bits value
  update (·.addMerge { location, block, slot, value })
  return value

theorem run_merge_eq (graph : FlowGraph) (location : Location) (native : Ty) (block : BlockId)
    (hits : List ReachingDefinition) (asNative : Bool) (before : Raising) :
    (merge graph location native block hits asNative).run before =
      (hits.forM (supply location before.func.slots.size) >>= fun _ =>
        deliver location (if asNative then some native else none) block
          before.func.slots.size).run
        (before.opened location
          (meetingTy before.func (graph.convention.fullWidth location) hits)) := by
  cases asNative <;> rfl

/-- What was loaded is converted, unless it keeps its type or has no conversion to the other one. -/
theorem run_convertLoaded (location : Location) (native : Option Ty) (block : BlockId)
    (loaded : ValueId) (before : Raising) :
    (∃ value func,
        Converted before.func block loaded (native.getD (before.func.ty loaded)) value func ∧
        (convertLoaded location native block loaded).run before =
          .ok value { before with func }) ∨
      (before.func.ty loaded ≠ native.getD (before.func.ty loaded) ∧
        Conversion.between? (before.func.ty loaded) (native.getD (before.func.ty loaded)) = none ∧
        ∃ failure, (convertLoaded location native block loaded).run before =
          .error failure before) := by
  cases native with
  | some native =>
      rcases run_convert location block loaded native before with
        converted | ⟨differs, inconvertible, fails⟩
      · exact Or.inl converted
      · exact Or.inr ⟨differs, inconvertible, _, fails⟩
  | none => exact Or.inl ⟨loaded, before.func, .same rfl, rfl⟩

/-- A meeting takes place, or it is given up. -/
theorem run_merge (graph : FlowGraph) (location : Location) (native : Ty) (block : BlockId)
    (hits : List ReachingDefinition) (asNative : Bool) (before : Raising) :
    (∃ value after,
        Met location (meetingTy before.func (graph.convention.fullWidth location) hits) block hits
          (if asNative then some native else none) before value after ∧
        (merge graph location native block hits asNative).run before = .ok value after) ∨
      ∃ failure after,
        Abandoned location (meetingTy before.func (graph.convention.fullWidth location) hits) block
          hits (if asNative then some native else none) before after ∧
        (merge graph location native block hits asNative).run before = .error failure after := by
  rw [run_merge_eq]
  generalize meetingTy before.func (graph.convention.fullWidth location) hits = ty
  generalize (if asNative then some native else none) = native
  rcases run_forM (Supplied location before.func.slots.size)
      (fun hit before => (run_supply location _ hit before).imp_right And.right)
      hits (before.opened location ty) with
    ⟨supplied, chain, succeeds⟩ | ⟨done, refused, rest, after, failure, split, chain, stops, fails⟩
  · have slotTy := slotTy_of_chain chain
    rw [run_bind_of_ok succeeds, deliver, EStateM.run_bind, run_build, Builder.run_load, slotTy]
    dsimp only
    set loading : Raising :=
      { supplied with
        func := supplied.func.withInstruction block ty (.load before.func.slots.size) }
    have loadedTy : loading.func.ty supplied.func.values.size = ty := by
      simp [loading, Function.ty]
    have outcome := run_convertLoaded location native block supplied.func.values.size loading
    rw [loadedTy] at outcome
    rcases outcome with ⟨value, func, converted, delivers⟩ | ⟨differs, inconvertible, failure, stops⟩
    · rw [run_bind_of_ok delivers]
      simp only [EStateM.run_bind, run_build, Builder.run_rename, EStateM.run_get, run_define,
        Function.ty_withName, loading]
      cases filed : supplied.tracker.table.record location block (func.ty value).bits value with
      | ok table => exact Or.inl ⟨value, _, .intro chain converted filed, rfl⟩
      | error failure => exact Or.inr ⟨failure, _, .unfiled chain converted filed, rfl⟩
    · right
      exact ⟨failure, _, .unconverted chain inconvertible differs, run_bind_of_error stops⟩
  · right
    rcases run_supply location before.func.slots.size refused after with
      ⟨_, _, succeeds⟩ | ⟨⟨value, known, inconvertible, differs⟩, _⟩
    · rw [succeeds] at stops
      cases stops
    · rw [slotTy_of_chain chain] at inconvertible differs
      exact ⟨failure, after, .unsupplied split chain known inconvertible differs,
        run_bind_of_error fails⟩

end Raise

end RegisterFlow
