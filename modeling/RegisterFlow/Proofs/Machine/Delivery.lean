import RegisterFlow.Proofs.Machine.Conclusion

/-!
# What reads deliver

Whenever an execution comes to the end of a block that read a register, what it read has the word
that the register was given at the latest visit to a block that defines it. If a single value reached
the block, then it has not been computed anew since that visit. If several definitions met, then the
slot in which they met was last stored into at that visit.
-/

namespace RegisterFlow

/--
A value delivers a location to a block: at the end of the block, it has the word of a definition of
the location in a block that was visited before, and no block visited in between writes the location.
-/
def Raising.Delivers (graph : FlowGraph) (location : Location) (block : BlockId) (value : ValueId)
    (final : Raising) : Prop :=
  ∀ arguments visited state, final.func.arguments.length ≤ arguments.size →
    final.func.Ends arguments visited block state →
    ∃ passed source earlier given before, visited = passed ++ source :: earlier ∧
      (∀ other ∈ passed, ¬ graph.Writes other location) ∧
      final.tracker.content? graph location source = some (.known given) ∧
      final.func.Ends arguments earlier source before ∧
      (final.func.snapshot arguments state).words value =
        (final.func.snapshot arguments before).words given

/-! ### Widened words -/

section Widened

variable {graph : FlowGraph} {func : Function} {arguments : Array UInt64} {visited : List BlockId}
  {block : BlockId} {state : EvalState} {id operand : ValueId}

/-- Widening does not change a word. -/
theorem Function.Ends.words_of_zext (ends : func.Ends arguments visited block state)
    (executable : func.Executable graph) (supplied : func.arguments.length ≤ arguments.size)
    (mem : id ∈ func.body block) (operation : func.operation id = .cast .zext operand)
    (within : (func.ty operand).Within (func.ty id)) :
    (func.snapshot arguments state).words id = (func.snapshot arguments state).words operand := by
  have numbered := executable.wellBuilt.numbered
  have built := executable.wellBuilt.built id (numbered.lt_size block id mem)
  have legal := (ends.arrived executable supplied).legal
  rcases ends.exists_start with ⟨start, run⟩
  have computed := Function.words_of_mem (numbered.sorted block) run mem (by simp [operation])
    (by simp [operation]) built.grounded
  rw [computed]
  simp only [Function.wordFrom?, operation]
  cases known : (func.snapshot arguments state).words operand with
  | none => rfl
  | some word =>
      have fits := (legal.words_fit operand word known).mono within.bits_le
      simp [Conversion.convert, fits.truncate_eq]

/-- A word that was converted to a type in which it fits is still the same. -/
theorem Converts.words_eq {value converted : ValueId} {target : Ty}
    (converts : Converts func block value target converted)
    (ends : func.Ends arguments visited block state) (executable : func.Executable graph)
    (supplied : func.arguments.length ≤ arguments.size)
    (within : (func.ty value).Within target) :
    (func.snapshot arguments state).words converted =
      (func.snapshot arguments state).words value := by
  cases converts with
  | same typed => rfl
  | cast differs convertible operation typed owner =>
      rw [within.between? differs] at convertible
      cases convertible
      have held : converted < func.values.size := Function.lt_size_of_operation (by simp [operation])
      have mem := (executable.wellBuilt.built converted held).placed block owner
        (by simp [operation, Operation.isTerminator])
      exact ends.words_of_zext executable supplied mem operation (typed.symm ▸ within)

end Widened

/-! ### A single value -/

section Single

variable {graph : FlowGraph} {reading final : Raising} {location : Location}
  {block found : BlockId} {value : ValueId}

/-- The single value that reaches a block delivers the location. -/
theorem Raising.delivers_of_single (closed : graph.Closed)
    (executable : final.func.Executable graph)
    (everywhere : reading.tracker.OnEveryWay graph location block)
    (readable : reading.tracker.Readable graph reading.func)
    (held : ∀ source, graph.Writes source location →
      (reading.tracker.content? graph location source).isSome)
    (reached : reading.tracker.reaching graph location block false =
      [{ block := found, content := .known value }])
    (grown : reading.func.Extends final.func)
    (lasts : ∀ source, reading.tracker.content? graph location source = some (.known value) →
      final.tracker.content? graph location source = some (.known value)) :
    final.Delivers graph location block value := by
  intro arguments visited state supplied ends
  have arrives := (ends.arrived executable supplied).arrives
  rcases Tracker.exists_latest_definition arrives (everywhere visited arrives) with
    ⟨passed, source, earlier, rfl, reaches, transparent⟩
  have known := reaches.known_of_single closed reached
  have usable := readable location source value known
  have numbered := executable.wellBuilt.numbered
  -- The value is computed neither in the block nor on the way to it.
  have outside : ∀ other ∈ block :: passed, value ∉ final.func.body other := by
    intro other mem listed
    have inner := (executable.wellBuilt.built value (numbered.lt_size other value listed)).inner
      other listed
    have owned := numbered.owner other value listed
    rw [grown.operation_eq value usable.lt_size] at inner
    rw [grown.owner_eq value usable.lt_size] at owned
    have not_leaf : (reading.func.operation value).isLeaf = false := by
      cases leaf : (reading.func.operation value).isLeaf with
      | false => rfl
      | true => simp [Operation.isInner, leaf] at inner
    exact everywhere.not_computed_of_single closed readable reached not_leaf owned arrives
      transparent mem
  rcases ends.exists_passage with ⟨before, start, ends_source, run, -, words⟩
  refine ⟨passed, source, earlier, value, before, rfl, ?_, lasts source known, ends_source, ?_⟩
  · intro other mem writes
    have unheld := held other writes
    rw [transparent other mem] at unheld
    cases unheld
  · rw [Function.words_traverse_of_not_mem run (outside block List.mem_cons_self)]
    exact words value fun other mem => outside other (List.mem_cons_of_mem _ mem)

end Single

/-! ### Definitions that met -/

/--
In the end, the slot in which definitions met holds what they say: each block whose definition
reached the reading block stores it there, no other block that could be visited in between does, and
the reading block loads the slot before anything else is stored there.
-/
structure Raising.Supplies (graph : FlowGraph) (location : Location) (block : BlockId)
    (slot : SlotId) (load : ValueId) (reading final : Raising) : Prop where
  mem : load ∈ final.func.body block
  loads : final.func.operation load = .load slot
  late : ∀ id ∈ final.func.body block, ∀ operand,
    final.func.operation id = .store slot operand → load < id
  stored : ∀ source, Tracker.Reaches graph reading.tracker location source block →
    ∃ given converted, final.tracker.content? graph location source = some (.known given) ∧
      final.func.storedIn slot source = [converted] ∧
      Converts final.func source given (final.func.slot slot).ty converted ∧
      (final.func.ty given).Within (final.func.slot slot).ty
  unstored : ∀ source, reading.tracker.content? graph location source = none →
    final.func.storedIn slot source = []

section Supplies

variable {graph : FlowGraph} {reading final : Raising} {location : Location} {block : BlockId}
  {slot : SlotId} {load value : ValueId} {target : Ty}

/-- What was loaded from the slot, and perhaps widened, delivers the location. -/
theorem Raising.Supplies.delivers (supplies : reading.Supplies graph location block slot load final)
    (executable : final.func.Executable graph)
    (everywhere : reading.tracker.OnEveryWay graph location block)
    (held : ∀ source, graph.Writes source location →
      (reading.tracker.content? graph location source).isSome)
    (converts : Converts final.func block load target value)
    (within : (final.func.ty load).Within target) : final.Delivers graph location block value := by
  intro arguments visited state supplied ends
  have arrives := (ends.arrived executable supplied).arrives
  rcases Tracker.exists_latest_definition arrives (everywhere visited arrives) with
    ⟨passed, source, earlier, rfl, reaches, transparent⟩
  rcases supplies.stored source reaches with ⟨given, converted, known, stored, stores, fits⟩
  have numbered := executable.wellBuilt.numbered
  have timely : ∀ id ∈ final.func.body source,
      final.func.operation id = .store slot converted → converted < id := by
    intro id mem operation
    apply (executable.wellBuilt.built id (numbered.lt_size source id mem)).grounded
    simp [operation, Operation.operands]
  have stored_last : final.func.storedIn slot source = [] ++ [converted] := stored
  rcases ends.words_of_load numbered supplies.mem supplies.loads supplies.late
      (fun other mem => supplies.unstored other (transparent other mem)) stored_last timely with
    ⟨before, ends_source, loaded⟩
  refine ⟨passed, source, earlier, given, before, rfl, ?_, known, ends_source, ?_⟩
  · intro other mem writes
    have unheld := held other writes
    rw [transparent other mem] at unheld
    cases unheld
  · calc (final.func.snapshot arguments state).words value
      _ = (final.func.snapshot arguments state).words load :=
        converts.words_eq ends executable supplied within
      _ = (final.func.snapshot arguments before).words converted := loaded
      _ = (final.func.snapshot arguments before).words given :=
        stores.words_eq ends_source executable supplied fits

end Supplies

/-! ### The rest of the work -/

namespace Session

variable {graph : FlowGraph} {start : Session} {front back : List Part} {part : Part}
  {earlier later : List Action} {location : Location} {source : BlockId} {value : ValueId}

/-- The session after some of the work in a part, on top of the parts in front. -/
abbrev amid (graph : FlowGraph) (start : Session) (front : List Part) (earlier : List Action) :
    Session :=
  (start.after graph (front.flatMap Part.actions)).after graph earlier

/-- What a driver still does after some of the work in a part. -/
def remaining (later : List Action) (part : Part) (back : List Part) : List Action :=
  later ++ [.endBlock part.block, .terminate part.block part.ending] ++ back.flatMap Part.actions

theorem flatMap_actions_eq (split : part.work = earlier ++ later) :
    (front ++ part :: back).flatMap Part.actions =
      front.flatMap Part.actions ++ (earlier ++ remaining later part back) := by
  simp [remaining, Part.actions, split]

theorem after_remaining (split : part.work = earlier ++ later) :
    (amid graph start front earlier).after graph (remaining later part back) =
      start.after graph ((front ++ part :: back).flatMap Part.actions) := by
  rw [flatMap_actions_eq split, after_append, after_append]

namespace RaisesFunction

/-- Code only grows until tracking has ended. -/
theorem grows_raised {parts : List Part} (raises : RaisesFunction graph start parts)
    (rooted : graph.Rooted) (split : parts.flatMap Part.actions = earlier ++ later) :
    (start.after graph earlier).raising.func.Grows
      (start.after graph (wholeWork parts)).raising.func := by
  have done := raises.allDone rooted
  have allowed := done.allowed
  rw [split, allowsAll_append] at allowed
  have grows := (raises.starts.inOrder.of_allowsAll rooted.closed allowed.1).grows_after
    rooted.closed allowed.2
  rw [← after_append, ← split] at grows
  rw [after_wholeWork]
  exact grows.trans (done.ordered.grows_perform rooted.closed trivial)

/-- What a block holds is not changed any more once the work in it is over. -/
theorem content?_of_idle {parts : List Part} (raises : RaisesFunction graph start parts)
    (rooted : graph.Rooted) (split : parts.flatMap Part.actions = earlier ++ later)
    (idle : ∀ action ∈ later, action.block? ≠ some source) :
    (start.after graph (wholeWork parts)).raising.tracker.content? graph location source =
      (start.after graph earlier).raising.tracker.content? graph location source := by
  have allowed := (raises.allDone rooted).allowed
  rw [split, allowsAll_append] at allowed
  rw [after_wholeWork, content?_drain, split, after_append]
  exact (raises.starts.inOrder.of_allowsAll rooted.closed allowed.1).content?_after rooted.closed
    allowed.2 idle

/-- What a driver does for a part, it does in the block of the part, and it drains nothing. -/
theorem block_eq_of_mem {parts : List Part} {action : Action}
    (raises : RaisesFunction graph start parts) (mem : part ∈ parts)
    (action_mem : action ∈ part.actions) :
    action ≠ .drain ∧ ∀ worked, action.block? = some worked → worked = part.block := by
  rcases List.append_of_mem mem with ⟨front, back, rfl⟩
  rcases List.mem_append.mp action_mem with working | ending
  · rcases List.append_of_mem working with ⟨earlier, later, split⟩
    have works := raises.raisesPart.1.works
    rw [split] at works
    have permitted := works.permits
    cases action with
    | readRegister | emit | writeRegister =>
        refine ⟨by simp, ?_⟩
        rintro _ ⟨⟩
        exact permitted.1
    | constant => exact ⟨by simp, by simp [Action.block?]⟩
    | _ => exact permitted.elim
  · simp only [List.mem_cons, List.not_mem_nil, or_false] at ending
    rcases ending with rfl | rfl
    · refine ⟨by simp, ?_⟩
      rintro _ ⟨⟩
      rfl
    · exact ⟨by simp, by simp [Action.block?]⟩

/-- What a block holds when its work is done is not changed any more. -/
theorem content?_of_worked (raises : RaisesFunction graph start (front ++ part :: back))
    (rooted : graph.Rooted) (location : Location) :
    (start.after graph (wholeWork (front ++ part :: back))).raising.tracker.content? graph location
        part.block =
      (amid graph start front part.work).raising.tracker.content? graph location part.block := by
  have inWork := raises.inWork rooted (List.append_nil part.work).symm
  rw [← inWork.content?_actions raises.raisesPart.1, ← after_append]
  have cut : (front ++ part :: back).flatMap Part.actions =
      (front.flatMap Part.actions ++ part.actions) ++ back.flatMap Part.actions := by simp
  refine raises.content?_of_idle rooted cut fun action mem works => ?_
  rcases List.mem_flatMap.mp mem with ⟨other, other_mem, action_mem⟩
  have nodup := raises.nodup
  rw [List.map_append, List.map_cons, List.nodup_append, List.nodup_cons] at nodup
  apply nodup.2.1.1
  rw [(raises.block_eq_of_mem (by simp [other_mem]) action_mem).2 _ works]
  exact List.mem_map_of_mem other_mem

variable (raises : RaisesFunction graph start (front ++ part :: back))
  (split : part.work = earlier ++ later)
include raises split

theorem mem_remaining {action : Action} (mem : action ∈ remaining later part back) :
    action ≠ .drain ∧ ∀ worked, action.block? = some worked →
      worked ∈ part.block :: back.map Part.block := by
  have of_part : ∀ other ∈ part :: back, action ∈ other.actions →
      action ≠ .drain ∧ ∀ worked, action.block? = some worked →
        worked ∈ part.block :: back.map Part.block := by
    intro other other_mem action_mem
    rcases raises.block_eq_of_mem (List.mem_append_right _ other_mem) action_mem with ⟨quiet, works⟩
    refine ⟨quiet, fun worked same => ?_⟩
    rw [works worked same]
    exact List.mem_map_of_mem other_mem
  rcases List.mem_append.mp mem with here | behind
  · apply of_part part List.mem_cons_self
    rw [Part.actions, split, List.append_assoc]
    exact List.mem_append_right _ here
  · rcases List.mem_flatMap.mp behind with ⟨other, other_mem, action_mem⟩
    exact of_part other (List.mem_cons_of_mem _ other_mem) action_mem

variable (rooted : graph.Rooted)
include rooted

theorem allowsAll_remaining : AllowsAll graph (amid graph start front earlier)
    (remaining later part back) := by
  have allowed := (raises.allDone rooted).allowed
  rw [flatMap_actions_eq split, allowsAll_append, allowsAll_append] at allowed
  exact allowed.2.2

/-- What is known elsewhere is known in blocks that are done. -/
theorem mem_doneBlocks_of_known
    (known : (amid graph start front earlier).raising.tracker.content? graph location source =
      some (.known value)) (elsewhere : source ≠ part.block) : source ∈ doneBlocks front := by
  have worked := (raises.inWork rooted split).standing.known location source value known
  rcases List.mem_cons.mp worked with rfl | worked
  · have first := raises.first
    cases front with
    | nil => exact absurd (Option.some.inj first).symm elsewhere
    | cons head front =>
        have head_eq : head.block = graph.entry := Option.some.inj first
        simp [doneBlocks, head_eq]
  · exact (List.mem_cons.mp worked).resolve_left elsewhere

/-- What blocks hold that are done is not changed any more. -/
theorem content?_of_done (done : source ∈ doneBlocks front) :
    (start.after graph (wholeWork (front ++ part :: back))).raising.tracker.content? graph location
        source =
      (amid graph start front earlier).raising.tracker.content? graph location source := by
  rw [amid, ← after_append]
  have cut : (front ++ part :: back).flatMap Part.actions =
      (front.flatMap Part.actions ++ earlier) ++ remaining later part back := by
    rw [flatMap_actions_eq split, List.append_assoc]
  refine raises.content?_of_idle rooted cut fun action mem works => ?_
  have worked := (raises.mem_remaining split mem).2 source works
  have nodup := raises.nodup
  rw [List.map_append, List.map_cons, List.nodup_append] at nodup
  rw [doneBlocks, List.mem_reverse] at done
  exact nodup.2.2 source done source worked rfl

theorem content?_of_known
    (known : (amid graph start front earlier).raising.tracker.content? graph location source =
      some (.known value)) (elsewhere : source ≠ part.block) :
    (start.after graph (wholeWork (front ++ part :: back))).raising.tracker.content? graph location
      source = some (.known value) := by
  rw [raises.content?_of_done split rooted
    (raises.mem_doneBlocks_of_known split rooted known elsewhere), known]

theorem grows_wholeWork : (amid graph start front earlier).raising.func.Grows
    (start.after graph (wholeWork (front ++ part :: back))).raising.func := by
  have cut : (front ++ part :: back).flatMap Part.actions =
      (front.flatMap Part.actions ++ earlier) ++ remaining later part back := by
    rw [flatMap_actions_eq split, List.append_assoc]
  rw [amid, ← after_append]
  exact raises.grows_raised rooted cut

end RaisesFunction

end Session

/-! ### Meetings in a session -/

section Meeting

variable {graph : FlowGraph} {location : Location} {ty : Ty} {block source : BlockId}
  {hits : List ReachingDefinition} {native : Option Ty} {value : ValueId}

/-- The reading block loads the slot of a meeting and converts what it loaded. -/
theorem Met.exists_converted_load {before after : Raising}
    (met : Met location ty block hits native before value after)
    (bound : block < before.func.blocks.size) :
    ∃ load ∈ after.func.body block, after.func.operation load = .load before.func.slots.size ∧
      after.func.ty load = ty ∧ Converts after.func block load (native.getD ty) value := by
  rcases met.exists_load bound with
    ⟨load, mem, loads, typed, ⟨rfl, same⟩ | ⟨differs, -, -, kind, convertible, operation⟩⟩
  · exact ⟨value, mem, loads, typed, .same (typed.trans same.symm)⟩
  · have computes : after.func.Computes block (native.getD ty) value := met.computes
    refine ⟨load, mem, loads, typed, ?_⟩
    exact .cast (typed ▸ differs) (typed ▸ convertible) operation computes.ty_eq computes.owner_eq

/-- A block stores nothing more into the slot of a meeting if its definition was not pending. -/
theorem Met.quiet {before after : Session} (ordered : before.InOrder graph)
    (owned_eq : after.owned = before.owned) (closed : graph.Closed)
    (reached : before.raising.tracker.reaching graph location block false = hits)
    (met : Met location ty block hits native (before.raising.tally Statistics.countPredecessorWalk)
      value after.raising)
    (settled : before.raising.tracker.content? graph location source ≠ some .pending) :
    after.Quiet before.raising.func.slots.size source where
  slot_lt := met.slot_lt
  unowned := by
    rw [owned_eq]
    exact fun mem => Nat.lt_irrefl _ (ordered.owned_lt _ mem)
  unawaited store mem := by
    rcases met.mem_deferred_iff.mp mem with old | ⟨hit, hit_mem, pending, rfl⟩
    · exact Or.inl (Nat.ne_of_gt (ordered.kept.waiting_slot store old))
    · right
      rintro rfl
      have content := (Tracker.reaches_of_mem_reaching closed (reached ▸ hit_mem)).2
      exact settled (content.trans (congrArg some pending))

end Meeting

namespace Session

/-- Between two sessions, definitions of a location met that reach a block, because it is read there. -/
structure Meets (graph : FlowGraph) (location : Location) (block : BlockId)
    (hits : List ReachingDefinition) (native : Option Ty) (value : ValueId)
    (reading next : Session) : Prop where
  full : graph.convention.fullWidth location = 64
  unknown : reading.raising.tracker.valueIn? graph location block = none
  reached : reading.raising.tracker.reaching graph location block false = hits
  nonempty : hits ≠ []
  distinct : reading.raising.tracker.Distinct graph location block
  within : (reading.raising.slotTy graph location hits).Within
    (native.getD (reading.raising.slotTy graph location hits))
  met : Met location (reading.raising.slotTy graph location hits) block hits native
    (reading.raising.tally Statistics.countPredecessorWalk) value next.raising
  owned_eq : next.owned = reading.owned

namespace RaisesFunction

variable {graph : FlowGraph} {start : Session} {front back : List Part} {part : Part}
  {earlier later : List Action} {action : Action} {location : Location} {value : ValueId}
  {hits : List ReachingDefinition} {native : Option Ty} {source : BlockId} {slot : SlotId}

/-- What is stored at a quiet place stays until the end. -/
theorem storedIn_of_quiet (raises : RaisesFunction graph start (front ++ part :: back))
    (split : part.work = earlier ++ later) (rooted : graph.Rooted)
    (quiet : (amid graph start front earlier).Quiet slot source) :
    (start.after graph (wholeWork (front ++ part :: back))).raising.func.storedIn slot source =
      (amid graph start front earlier).raising.func.storedIn slot source := by
  have allowed : AllowsAll graph (amid graph start front earlier)
      (remaining later part back ++ [.drain]) :=
    allowsAll_append.mpr ⟨raises.allowsAll_remaining split rooted, trivial, trivial⟩
  have stays := quiet.storedIn_after rooted.closed (raises.inWork rooted split).ordered allowed
  rwa [after_append, after_remaining split, ← after_append] at stays

/-- A store that waits is made in the end, with the definition that its block has then. -/
theorem completes_of_waits (raises : RaisesFunction graph start (front ++ part :: back))
    (split : part.work = earlier ++ later) (rooted : graph.Rooted) {store : DeferredStore}
    (waits : store ∈ (amid graph start front earlier).raising.tracker.deferred) :
    (start.after graph ((front ++ part :: back).flatMap Part.actions)).raising.Completes graph
      (start.after graph (wholeWork (front ++ part :: back))).raising.func store := by
  have undrained : ∀ front_actions back_actions : List Action,
      remaining later part back ≠ front_actions ++ .drain :: back_actions := by
    intro front_actions back_actions same
    exact (raises.mem_remaining split (same ▸ by simp)).1 rfl
  have done := raises.allDone rooted
  rw [after_wholeWork]
  rcases waits_or_completes rooted.closed (raises.inWork rooted split).ordered
      (raises.allowsAll_remaining split rooted)
      (fun _ _ same => absurd same (undrained _ _)) waits with waits | ⟨_, _, same, -⟩
  · rw [after_remaining split] at waits
    exact (raises.drains done).1.completes done.ordered waits
  · exact absurd same (undrained _ _)

section Meets

variable (raises : RaisesFunction graph start (front ++ part :: back)) (rooted : graph.Rooted)
  (split : part.work = earlier ++ action :: later)
  (meets : Meets graph location part.block hits native value (amid graph start front earlier)
    (amid graph start front (earlier ++ [action])))
include raises rooted split meets

/-- Every definition that met is stored into the slot in the end. -/
theorem stored_of_meets
    (reaches : Tracker.Reaches graph (amid graph start front earlier).raising.tracker location source
      part.block) :
    let final := (start.after graph (wholeWork (front ++ part :: back))).raising
    let slot := (amid graph start front earlier).raising.func.slots.size
    ∃ given converted, final.tracker.content? graph location source = some (.known given) ∧
      final.func.storedIn slot source = [converted] ∧
      Converts final.func source given (final.func.slot slot).ty converted ∧
      (final.func.ty given).Within (final.func.slot slot).ty := by
  intro final slot
  rcases meets with ⟨full, unknown, reached, nonempty, distinct, -, met, owned_eq⟩
  have next : part.work = (earlier ++ [action]) ++ later := by
    rw [split, List.append_assoc, List.singleton_append]
  have standing := (raises.inWork rooted split).standing
  have ordered := (raises.inWork rooted split).ordered
  have grown := (raises.grows_wholeWork split rooted).toExtends
  have grown_next := (raises.grows_wholeWork next rooted).toExtends
  have kept := ordered.kept.tally Statistics.countPredecessorWalk
  rcases standing.suppliable ordered.kept rooted.closed full reached nonempty with
    ⟨-, suppliable, wide⟩
  have slot_ty : (final.func.slot slot).ty =
      (amid graph start front earlier).raising.slotTy graph location hits := by
    rw [grown_next.slotTy_eq slot met.slot_lt]
    exact met.slotTy_eq
  rcases Option.isSome_iff_exists.mp reaches.isSome_content? with ⟨content, held⟩
  have mem := distinct.mem_reaching rooted.closed (reached ▸ nonempty) reaches held
  rw [reached] at mem
  rw [slot_ty]
  cases content with
  | known given =>
      have elsewhere : source ≠ part.block := by
        rintro rfl
        rw [Tracker.valueIn?_eq_some_iff.mpr held] at unknown
        cases unknown
      rcases met.storedIn_of_reaches rooted.closed kept (meetingTy_ne_void _ _ _) reached nonempty
        distinct reaches held with ⟨converted, stored, converts⟩
      have quiet := met.quiet ordered owned_eq rooted.closed reached (by rw [held]; simp)
      have stays := raises.storedIn_of_quiet next rooted quiet
      rcases (suppliable _ mem).2 given rfl with ⟨usable, within⟩
      refine ⟨given, converted, raises.content?_of_known split rooted held elsewhere,
        stays.trans stored, converts.mono (meetingTy_ne_void _ _ _) grown_next, ?_⟩
      rw [grown.ty_eq given usable.lt_size]
      exact within
  | pending =>
      have waits : { location, block := source, slot } ∈
          (amid graph start front (earlier ++ [action])).raising.tracker.deferred :=
        met.mem_deferred_iff.mpr (Or.inr ⟨_, mem, rfl, rfl⟩)
      rcases raises.completes_of_waits next rooted waits with
        ⟨-, given, converted, known, stored, converts⟩
      have done := raises.allDone rooted
      rw [Tracker.valueIn?_eq_some_iff] at known
      have usable := done.standing.readable _ _ _ known
      refine ⟨given, converted, ?_, stored, slot_ty ▸ converts, ?_⟩
      · change (start.after graph (wholeWork (front ++ part :: back))).raising.tracker.content? graph
          location source = some (.known given)
        rw [after_wholeWork, content?_drain]
        exact known
      · have drained := (raises.drains done).1.grows.toExtends
        rw [← after_wholeWork] at drained
        rw [drained.ty_eq given usable.lt_size, wide _ mem rfl]
        exact usable.word.within

/-- In the end, the slot in which definitions met is supplied with all of them. -/
theorem supplies_of_meets (block_lt : part.block < graph.blocks.size) :
    let reading := (amid graph start front earlier).raising
    let final := (start.after graph (wholeWork (front ++ part :: back))).raising
    ∃ load, reading.Supplies graph location part.block reading.func.slots.size load final ∧
      final.func.ty load = reading.slotTy graph location hits ∧
      Converts final.func part.block load (native.getD (reading.slotTy graph location hits)) value := by
  intro reading final
  have stored := fun source => @stored_of_meets graph start front back part earlier later action
    location value hits native source raises rooted split meets
  rcases meets with ⟨-, unknown, reached, -, -, within, met, owned_eq⟩
  have next : part.work = (earlier ++ [action]) ++ later := by
    rw [split, List.append_assoc, List.singleton_append]
  have ordered := (raises.inWork rooted split).ordered
  have kept_next := (raises.inWork rooted next).ordered.kept
  have grows := raises.grows_wholeWork next rooted
  have grown := grows.toExtends
  have kept := ordered.kept.tally Statistics.countPredecessorWalk
  -- Right after the meeting, only blocks with known definitions have stored into the slot.
  have unstored : ∀ source, (∀ given, reading.tracker.content? graph location source ≠
        some (.known given)) →
      (amid graph start front (earlier ++ [action])).raising.func.storedIn
          reading.func.slots.size source = [] := by
    intro source unknown
    by_contra stores
    rcases met.reaches_of_storedIn rooted.closed kept (meetingTy_ne_void _ _ _) reached stores with
      ⟨-, given, known⟩
    exact unknown given known
  have unknown_here : ∀ given, reading.tracker.content? graph location part.block ≠
      some (.known given) := by
    intro given known
    rw [Tracker.valueIn?_eq_some_iff.mpr known] at unknown
    cases unknown
  have proper : native.getD (reading.slotTy graph location hits) ≠ .void := by
    intro void
    rcases Ty.isWord_iff.mp within.wide_word with ⟨width, typed, -⟩
    rw [void] at typed
    cases typed
  rcases met.exists_converted_load (ordered.kept.blockCount_eq.symm ▸ block_lt) with
    ⟨load, mem, loads, typed, converts⟩
  have final_ty : final.func.ty load = reading.slotTy graph location hits :=
    grown.ty_of_ne (meetingTy_ne_void _ _ _) typed
  refine ⟨load, ⟨(grown.body_prefix part.block).subset mem,
    grown.operation_of_ne (by simp) loads, ?_, stored, ?_⟩, final_ty, converts.mono proper grown⟩
  · intro id listed operand stores
    have sorted := (grows.numbered kept_next.numbered).sorted part.block
    rcases grown.body_prefix part.block with ⟨added, body⟩
    rw [← body] at listed sorted
    rcases List.mem_append.mp listed with old | new
    · rw [grown.operation_eq id (kept_next.numbered.lt_size part.block id old)] at stores
      have early := Function.mem_storedIn_iff.mpr ⟨id, old, stores⟩
      rw [unstored part.block unknown_here] at early
      cases early
    · exact (List.pairwise_append.mp sorted).2.2 load mem id new
  · intro source absent
    have quiet := met.quiet ordered owned_eq rooted.closed reached (by rw [absent]; simp)
    rw [raises.storedIn_of_quiet next rooted quiet]
    exact unstored source (by rw [absent]; simp)

end Meets

/-- A read has an answer. -/
theorem exists_read (raises : RaisesFunction graph start (front ++ part :: back))
    (rooted : graph.Rooted) {register : Register} {allPaths asNative : Bool}
    (split : part.work = earlier ++ .readRegister register part.block allPaths asNative :: later) :
    graph.convention.canonical register = register ∧
      graph.convention.fullWidth (.register register) = 64 ∧
      ∃ value after, Read graph (.register register) (.int 64) part.block false asNative
          (amid graph start front earlier).raising (some value) after ∧
        (amid graph start front earlier).answer? graph
          (.readRegister register part.block allPaths asNative) = some value ∧
        (amid graph start front (earlier ++
          [.readRegister register part.block allPaths asNative])).raising = after := by
  rcases raises.raisesPart with ⟨raisesPart, block_lt, -, -⟩
  have works := raisesPart.works
  rw [split] at works
  rcases works.permits with ⟨-, rfl, proper, canonical, wide⟩
  have inWork := raises.inWork rooted split
  have everywhere := inWork.onEveryWay (raisesPart.covers _ _ _ _ _ split)
  have run := Action.run_readRegister proper canonical wide part.block asNative
    (amid graph start front earlier).raising
  have full : graph.convention.fullWidth (.register register) = 64 := wide
  rcases inWork.standing.exists_read inWork.ordered.kept rooted.closed full rfl
      (rooted.reachable part.block block_lt) everywhere asNative with ⟨value, after, read, reads⟩
  have reads := run.trans reads
  refine ⟨canonical, full, value, after, read, ?_, ?_⟩
  · rw [answer?, reads]
  · rw [amid, after_append]
    exact Raise.final_of_ok reads

/-- What is read in a block that does not know the register delivers it to the block. -/
theorem delivers (raises : RaisesFunction graph start (front ++ part :: back)) (rooted : graph.Rooted)
    {register : Register} {allPaths asNative : Bool}
    (split : part.work = earlier ++ .readRegister register part.block allPaths asNative :: later)
    (answers : (amid graph start front earlier).answer? graph
      (.readRegister register part.block allPaths asNative) = some value)
    (unknown : (amid graph start front earlier).raising.tracker.valueIn? graph (.register register)
      part.block = none) :
    (start.after graph (wholeWork (front ++ part :: back))).raising.Delivers graph
      (.register register) part.block value := by
  rcases raises.raisesPart with ⟨raisesPart, block_lt, -, distinct⟩
  have inWork := raises.inWork rooted split
  have everywhere := inWork.onEveryWay (raisesPart.covers _ _ _ _ _ split) unknown
  have finished := raises.finished rooted
  rcases raises.exists_read rooted split with ⟨-, full, answer, after, read, same, performed⟩
  obtain rfl : answer = value := by
    rw [same] at answers
    exact Option.some.inj answers
  cases read with
  | held known =>
      rw [known] at unknown
      cases unknown
  | direct _ reached =>
      have grown := (raises.grows_wholeWork split rooted).toExtends
      refine Raising.delivers_of_single rooted.closed finished.executable everywhere
        inWork.standing.readable (inWork.standing.held _) reached grown fun source known => ?_
      refine raises.content?_of_known split rooted known ?_
      rintro rfl
      rw [Tracker.valueIn?_eq_some_iff.mpr known] at unknown
      cases unknown
  | met _ reached several met =>
      have next_eq : amid graph start front (earlier ++
          [.readRegister register part.block allPaths asNative]) =
          (amid graph start front earlier).perform graph
            (.readRegister register part.block allPaths asNative) := after_append ..
      have distinct_here := distinct (.register register) _ _ _ split
      rw [← next_eq, performed] at distinct_here
      rcases inWork.standing.suppliable inWork.ordered.kept rooted.closed full reached several.1 with
        ⟨word, -, -⟩
      have meets : Meets graph (.register register) part.block _ _ answer
          (amid graph start front earlier)
          (amid graph start front (earlier ++
            [.readRegister register part.block allPaths asNative])) :=
        { full, unknown, reached
          nonempty := several.1
          distinct := met.distinct distinct_here
          within := word.within_getD asNative
          met := performed ▸ met
          owned_eq := by rw [next_eq]; rfl }
      rcases raises.supplies_of_meets rooted split meets block_lt with
        ⟨load, supplies, typed, converts⟩
      exact supplies.delivers finished.executable everywhere (inWork.standing.held _) converts
        (typed ▸ word.within_getD asNative)

end RaisesFunction

end Session

end RegisterFlow
