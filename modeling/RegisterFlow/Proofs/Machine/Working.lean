import RegisterFlow.Proofs.Execution.Progress
import RegisterFlow.Proofs.Machine.Standing

/-!
# Working in a block

Whatever a driver is permitted to do in a block succeeds, and every read has an answer. What it gets
can be read in the block, and matters go on standing as they should, until the block is done.
-/

namespace RegisterFlow

/-! ### Reads -/

section Reading

variable {graph : FlowGraph} {worked done : List BlockId} {before after : Raising}
  {location : Location} {block : BlockId} {value : ValueId} {asNative : Bool}

theorem Ty.IsWord.within_getD {ty : Ty} (word : ty.IsWord) (asNative : Bool) :
    ty.Within ((if asNative then some (.int 64) else none).getD ty) := by
  cases asNative with
  | true => exact word.within
  | false => exact ⟨word, word, Nat.le_refl _⟩

/-- A location that is known in the block or defined on every way to it can be read. -/
theorem Raising.Standing.exists_read (standing : before.Standing graph worked done)
    (kept : before.WellKept graph) (closed : graph.Closed)
    (full : graph.convention.fullWidth location = 64) (register : location.isFlag = false)
    (reachable : ∃ visited, graph.Arrives visited block)
    (everywhere : before.tracker.valueIn? graph location block = none →
      before.tracker.OnEveryWay graph location block) (asNative : Bool) :
    ∃ value after, Read graph location (.int 64) block false asNative before (some value) after ∧
      (Raise.readLocation graph location (.int 64) block false asNative).run before =
        .ok (some value) after := by
  rcases reachable with ⟨visited, arrives⟩
  rcases Raise.run_readLocation graph location (.int 64) block false asNative before with
    ⟨answer, after, read, run⟩ | ⟨failure, after, failed, -⟩
  · cases answer with
    | some value => exact ⟨value, after, read, run⟩
    | none =>
        cases read with
        | missing unknown unreached =>
            exact absurd unreached ((everywhere unknown).reaching_ne_nil closed arrives)
  · cases failed with
    | @intro hits _ unknown reached several abandoned =>
        have nonempty : hits ≠ [] := several.1
        rcases standing.suppliable kept closed full reached nonempty with ⟨word, suppliable, -⟩
        have bound : block < before.func.blocks.size :=
          kept.blockCount_eq ▸ Tracker.lt_size_of_reaching closed reached nonempty
        exact (abandoned.false_of_words suppliable bound (word.within_getD asNative) register).elim

/-- Where values are distinct since a read that let definitions meet, these had distinct values. -/
theorem Met.distinct {ty : Ty} {hits : List ReachingDefinition} {native : Option Ty}
    {tally : Statistics → Statistics}
    (met : Met location ty block hits native (before.tally tally) value after)
    (distinct : before.DistinctSince graph location after) :
    before.tracker.Distinct graph location block := by
  rcases met.exists_chain with ⟨supplied, chain, -, -, merges_eq⟩
  refine distinct { location, block, slot := before.func.slots.size, value } ?_ rfl
  rw [Raising.mergesSince, merges_eq, chain.tracker_eq]
  simp [Raising.opened, Raising.tally]

/-- A read builds code that is well built, and its answer can be read in the block. -/
theorem Read.standing (read : Read graph location (.int 64) block false asNative before
      (some value) after)
    (standing : before.Standing graph worked done) (kept : before.WellKept graph)
    (closed : graph.Closed) (full : graph.convention.fullWidth location = 64)
    (register : location.isFlag = false) (reachable : ∃ visited, graph.Arrives visited block)
    (everywhere : before.tracker.valueIn? graph location block = none →
      before.tracker.OnEveryWay graph location block)
    (distinct : before.DistinctSince graph location after) (working : block ∈ worked) :
    Function.Builds graph before.func after.func ∧ after.func.Usable graph block value ∧
      after.Standing graph worked done := by
  cases read with
  | held known =>
      refine ⟨.refl, ?_, standing.tally _⟩
      exact standing.readable location block value (Tracker.valueIn?_eq_some_iff.mp known)
  | direct unknown reached =>
      rcases reachable with ⟨visited, arrives⟩
      refine ⟨.refl, ?_, standing.tally _⟩
      exact (everywhere unknown).usable_of_single closed standing.readable reached arrives
  | @met hits _ _ unknown reached several met =>
      have nonempty : hits ≠ [] := several.1
      rcases standing.suppliable kept closed full reached nonempty with ⟨word, suppliable, -⟩
      have bound : block < before.func.blocks.size :=
        kept.blockCount_eq ▸ Tracker.lt_size_of_reaching closed reached nonempty
      rcases met.builds suppliable bound (word.within_getD asNative) with ⟨builds, usable, -⟩
      refine ⟨builds, usable, ?_⟩
      exact (standing.tally Statistics.countPredecessorWalk).met (kept.tally _) closed full register
        (everywhere unknown) reached nonempty (met.distinct distinct) working builds usable met

end Reading

/-! ### Actions -/

theorem Ty.IsWord.fits_payloadOf {ty : Ty} (word : ty.IsWord) (number : UInt64) :
    ty.Fits (Builder.payloadOf ty number) := by
  rcases Ty.isWord_iff.mp word with ⟨width, rfl, -, -⟩
  change Ty.Fits (.int width) (Word.truncate (Ty.int width).bits number)
  exact Ty.fits_truncate _ _

/-- A constant that is a word is well built, and it can be read anywhere. -/
theorem Builder.exists_run_constant {ty : Ty} (word : ty.IsWord) (number : UInt64)
    (graph : FlowGraph) (block : BlockId) (before : Function) :
    ∃ value after, (constant ty number).run before = (value, after) ∧
      Function.Builds graph before after ∧ before.GrowsSparing (fun _ => True) after ∧
      after.Usable graph block value := by
  rcases run_constant ty number before with ⟨value, -, run, typed, operation⟩ | run
  · refine ⟨value, _, run, .refl, .refl _, typed.symm ▸ word, fun inner => ?_⟩
    rw [operation] at inner
    cases inner
  · exact ⟨_, _, run, .single (.leaf rfl (word.fits_payloadOf number)),
      Function.growsSparing_withLeaf .., Function.usable_withLeaf word rfl⟩

/-- A whole register is read at its own location. -/
theorem Action.run_readRegister {graph : FlowGraph} {register : Register} (proper : register ≠ .null)
    (canonical : graph.convention.canonical register = register)
    (wide : graph.convention.width register = 64) (block : BlockId) (asNative : Bool)
    (before : Raising) :
    ((Action.readRegister register block false asNative).step graph).run before =
      (Raise.readLocation graph (.register register) (.int 64) block false asNative).run before := by
  rw [step, Raise.readRegister, Convention.locationOf, if_neg proper, canonical, wide]
  rfl

theorem Action.run_constant {graph : FlowGraph} {ty : Ty} {number : UInt64} {value : ValueId}
    {func : Function} {before : Raising}
    (run : (Builder.constant ty number).run before.func = (value, func)) :
    ((Action.constant ty number).step graph).run before =
      .ok (some value) { before with func } := by
  rw [step, Raise.run_bind_of_ok (Raise.run_build ..), run]
  rfl

theorem Action.run_emit (graph : FlowGraph) (block : BlockId) (emission : Emission)
    (before : Raising) :
    ((Action.emit block emission).step graph).run before =
      .ok (some before.func.values.size)
        { before with
          func := before.func.withInstruction block (emission.ty before.func)
            emission.operation } := by
  rw [step, Raise.run_bind_of_ok (Raise.run_build ..), Emission.run_build]
  rfl

namespace Session

/--
How matters stand after some of the work in a block, on top of other blocks that are done. All
results can be read in the block, and what was recorded there is not pending.
-/
structure InWork (graph : FlowGraph) (done : List BlockId) (block : BlockId) (origin : Session)
    (work : List Action) : Prop where
  ordered : (origin.after graph work).InOrder graph
  allowed : AllowsAll graph origin work
  builds : Function.Builds graph origin.raising.func (origin.after graph work).raising.func
  standing : (origin.after graph work).raising.Standing graph (block :: done) done
  usable : ∀ value ∈ origin.results graph work,
    (origin.after graph work).raising.func.Usable graph block value
  recorded : ∀ action ∈ work, ∀ location, action.Records graph location block →
    graph.Writes block location ∧
      ¬ (origin.after graph work).raising.tracker.IsPending location block

/-- An action succeeds, and matters stand as they should after it. -/
def Continues (graph : FlowGraph) (done : List BlockId) (block : BlockId) (origin : Session)
    (work : List Action) (action : Action) : Prop :=
  (origin.after graph work).SucceedsAt graph action ∧
    InWork graph done block origin (work ++ [action])

variable {graph : FlowGraph} {done : List BlockId} {block : BlockId} {origin : Session}
  {work : List Action} {action : Action}

/-- What an action has to do so that matters stand as they should after it. -/
theorem InWork.continues {answer : Option ValueId} {after : Raising}
    (inWork : InWork graph done block origin work) (closed : graph.Closed)
    (allowed : (origin.after graph work).Allows action)
    (run : (action.step graph).run (origin.after graph work).raising = .ok answer after)
    (answers : ∀ location other allPaths, action.Reads graph location other allPaths → answer.isSome)
    (builds : Function.Builds graph (origin.after graph work).raising.func after.func)
    (standing : after.Standing graph (block :: done) done)
    (usable : ∀ value, answer = some value → after.func.Usable graph block value)
    (settled : ∀ location, after.tracker.IsPending location block →
      (origin.after graph work).raising.tracker.IsPending location block)
    (recorded : ∀ location, action.Records graph location block →
      graph.Writes block location ∧ ¬ after.tracker.IsPending location block) :
    Continues graph done block origin work action := by
  have raising_eq : (origin.after graph (work ++ [action])).raising = after := by
    rw [after_append]
    exact Raise.final_of_ok run
  have answer_eq : (origin.after graph work).answer? graph action = answer := by
    rw [answer?, run]
  refine ⟨⟨answer, after, run, answers⟩, ?_, ?_, ?_, ?_, ?_, ?_⟩
  · rw [after_append]
    exact inWork.ordered.perform closed allowed
  · exact allowsAll_append.mpr ⟨inWork.allowed, allowed, trivial⟩
  · rw [raising_eq]
    exact inWork.builds.trans builds
  · rw [raising_eq]
    exact standing
  · intro value mem
    rw [results_append_singleton, answer_eq] at mem
    rw [raising_eq]
    rcases List.mem_append.mp mem with old | new
    · exact (inWork.usable value old).mono builds.grows.toExtends
    · exact usable value (Option.mem_toList.mp new)
  · intro other mem location records
    rw [raising_eq]
    rcases List.mem_append.mp mem with old | new
    · rcases inWork.recorded other old location records with ⟨writes, unpending⟩
      exact ⟨writes, fun pending => unpending (settled location pending)⟩
    · rw [List.mem_singleton.mp new] at records
      exact recorded location records

theorem bindingAt?_after (graph : FlowGraph) (session : Session) (actions : List Action)
    (location : Location) :
    (session.after graph actions).raising.tracker.bindingAt? location =
      session.raising.tracker.bindingAt? location := by
  cases location with
  | flag _ => rfl
  | register register =>
      rw [Tracker.bindingAt?, Tracker.bindingAt?, Tracker.binding?, Tracker.binding?,
        Tracker.bindings_after]

/-- Where a location is read that the block does not know, it is defined on every way. -/
theorem InWork.onEveryWay {location : Location} (inWork : InWork graph done block origin work)
    (covers : origin.Covers graph block work location)
    (unknown : (origin.after graph work).raising.tracker.valueIn? graph location block = none) :
    (origin.after graph work).raising.tracker.OnEveryWay graph location block := by
  have unknown_here : ∀ value,
      (origin.after graph work).raising.tracker.content? graph location block ≠
        some (.known value) := by
    intro value known
    rw [← Tracker.valueIn?_eq_some_iff, unknown] at known
    cases known
  intro visited arrives
  rcases covers with bound | ⟨action, mem, records⟩ | written
  · rw [← bindingAt?_after graph origin work] at bound
    rcases Option.isSome_iff_exists.mp bound with ⟨binding, carried⟩
    rcases @Tracker.exists_known_of_bindingAt? graph _ _ _ carried with ⟨value, known⟩
    have inner : block ≠ graph.entry := by
      rintro rfl
      exact unknown_here value known
    exact ⟨graph.entry, arrives.entry_mem inner, by simp [known]⟩
  · rcases inWork.recorded action mem location records with ⟨writes, unpending⟩
    rcases Option.isSome_iff_exists.mp (inWork.standing.held location block writes) with
      ⟨content, held⟩
    cases content with
    | pending => exact absurd (Tracker.isPending_of_content? held).1 unpending
    | known value => exact absurd held (unknown_here value)
  · rcases written visited arrives with ⟨source, mem, writes⟩
    exact ⟨source, mem, inWork.standing.held location source writes⟩

/-- Reads succeed. -/
theorem InWork.continues_read {register : Register} {asNative : Bool}
    (inWork : InWork graph done block origin work) (rooted : graph.Rooted)
    (block_lt : block < graph.blocks.size) (proper : register ≠ .null)
    (canonical : graph.convention.canonical register = register)
    (wide : graph.convention.width register = 64)
    (covers : origin.Covers graph block work (.register register))
    (distinct : (origin.after graph work).raising.DistinctSince graph (.register register)
      ((origin.after graph work).perform graph (.readRegister register block false asNative)).raising) :
    Continues graph done block origin work (.readRegister register block false asNative) := by
  have closed := rooted.closed
  have full : graph.convention.fullWidth (.register register) = 64 := wide
  have reachable := rooted.reachable block block_lt
  have everywhere := inWork.onEveryWay covers
  have kept := inWork.ordered.kept
  rcases inWork.standing.exists_read kept closed full rfl reachable everywhere asNative with
    ⟨value, after, read, run⟩
  have step_run : ((Action.readRegister register block false asNative).step graph).run
      (origin.after graph work).raising = .ok (some value) after :=
    (Action.run_readRegister proper canonical wide ..).trans run
  rw [Session.perform, Raise.final_of_ok step_run] at distinct
  rcases read.standing inWork.standing kept closed full rfl reachable everywhere distinct
    List.mem_cons_self with ⟨builds, usable, standing⟩
  refine inWork.continues closed trivial step_run (fun _ _ _ _ => rfl) builds standing ?_ ?_ ?_
  · rintro _ ⟨⟩
    exact usable
  · intro location pending
    have inquiries := ((Raise.leads_readRegister register false asNative).ok step_run).1
    exact inquiries.moves.isPending pending
  · rintro location ⟨flag, -, ⟨⟩⟩

/-- Recording a result succeeds. -/
theorem InWork.continues_write {register : Register} {value : ValueId}
    (inWork : InWork graph done block origin work) (closed : graph.Closed)
    (writes : (block, register) ∈ graph.writes) (wide : graph.convention.width register ≠ 0)
    (result : value ∈ origin.results graph work) :
    Continues graph done block origin work (.writeRegister register block value) := by
  have located := FlowGraph.locationOf_of_mem_writes writes
  have usable := inWork.usable value result
  rcases Action.run_writeRegister located wide block value (origin.after graph work).raising with
    ⟨table, filed, run⟩
  refine inWork.continues closed usable.lt_size run ?_ .refl ?_ ?_ ?_ ?_
  · rintro location other allPaths ⟨⟩
  · exact (inWork.standing.file usable List.mem_cons_self filed).tally _
  · rintro _ ⟨⟩
  · exact fun location pending => ((Tracker.isPending_record_iff filed).mp pending).2
  · rintro location ⟨-, recorded⟩
    rw [located] at recorded
    cases recorded
    refine ⟨⟨register, writes, located⟩, fun pending => ?_⟩
    exact ((Tracker.isPending_record_iff filed).mp pending).1 ⟨rfl, rfl⟩

/-- Making a constant succeeds. -/
theorem InWork.continues_constant {ty : Ty} (inWork : InWork graph done block origin work)
    (closed : graph.Closed) (word : ty.IsWord) (number : UInt64) :
    Continues graph done block origin work (.constant ty number) := by
  have kept := inWork.ordered.kept
  rcases Builder.exists_run_constant word number graph block
    (origin.after graph work).raising.func with ⟨value, func, run, builds, sparing, usable⟩
  refine inWork.continues closed trivial (Action.run_constant run) ?_ builds ?_ ?_ (fun _ => id) ?_
  · rintro location other allPaths ⟨⟩
  · exact inWork.standing.grow kept (builds.wellBuilt inWork.standing.wellBuilt) sparing
  · rintro _ ⟨⟩
    exact usable
  · rintro location ⟨flag, -, ⟨⟩⟩

/-- Computing from results succeeds. -/
theorem InWork.continues_emit {emission : Emission}
    (inWork : InWork graph done block origin work) (closed : graph.Closed)
    (block_lt : block < graph.blocks.size) (pure : emission.operation.isPure = true)
    (proper : (origin.after graph work).raising.func.Proper
      (emission.ty (origin.after graph work).raising.func) emission.operation)
    (operands : ∀ operand ∈ emission.operation.operands, operand ∈ origin.results graph work) :
    Continues graph done block origin work (.emit block emission) := by
  have kept := inWork.ordered.kept
  have usable : ∀ operand ∈ emission.operation.operands,
      (origin.after graph work).raising.func.Usable graph block operand :=
    fun operand mem => inWork.usable operand (operands operand mem)
  have inner : emission.operation.isInner = true := by
    cases emission <;> rfl
  have result : emission.operation.hasResult = true := by
    cases emission <;> first | rfl | cases pure
  have word : (emission.ty (origin.after graph work).raising.func).IsWord := by
    have bool : Ty.bool.IsWord := Ty.isWord_iff.mpr ⟨1, rfl, by omega, by omega⟩
    cases emission with
    | binary op lhs rhs => exact (usable lhs (by simp [Emission.operation, Operation.operands])).word
    | compare | overflow => exact bool
    | select condition ifTrue ifFalse =>
        exact (usable ifTrue (by simp [Emission.operation, Operation.operands])).word
    | cast kind operand target => exact proper
    | funnel direction high low amount =>
        exact (usable high (by simp [Emission.operation, Operation.operands])).word
    | load _ | store _ _ => cases pure
  have builds : Function.Builds graph (origin.after graph work).raising.func
      ((origin.after graph work).raising.func.withInstruction block
        (emission.ty (origin.after graph work).raising.func) emission.operation) :=
    .single (.instruction (kept.blockCount_eq ▸ block_lt) inner proper usable)
  have allowed : (origin.after graph work).Allows (.emit block emission) := by
    cases emission with
    | store _ _ => cases pure
    | _ => trivial
  refine inWork.continues closed allowed (Action.run_emit ..) ?_ builds ?_ ?_ (fun _ => id) ?_
  · rintro location other allPaths ⟨⟩
  · refine inWork.standing.grow kept (builds.wellBuilt inWork.standing.wellBuilt)
      (Function.growsSparing_withInstruction _ _ _ _ _ fun slot _ loads => ?_)
    rw [loads] at pure
    cases pure
  · rintro _ ⟨⟩
    exact Function.usable_withInstruction word result
  · rintro location ⟨flag, -, ⟨⟩⟩

/-! ### Parts -/

variable {part : Part}

/-- What a driver does in a block succeeds when its turn comes. -/
theorem RaisesPart.continues {earlier later : List Action} (rooted : graph.Rooted)
    (raises : origin.RaisesPart graph part) (block_lt : part.block < graph.blocks.size)
    (wide : ∀ register, (part.block, register) ∈ graph.writes →
      graph.convention.width register ≠ 0)
    (distinct : ∀ location, origin.DistinctMerges graph part.work location)
    (split : part.work = earlier ++ action :: later)
    (inWork : InWork graph done part.block origin earlier) :
    Continues graph done part.block origin earlier action := by
  have works := raises.works
  rw [split] at works
  have permitted := works.permits
  rw [List.nil_append] at permitted
  cases action with
  | readRegister register worked allPaths asNative =>
      rcases permitted with ⟨rfl, rfl, proper, canonical, full⟩
      exact inWork.continues_read rooted block_lt proper canonical full
        (raises.covers earlier register false asNative later split) (distinct _ _ _ _ split)
  | writeRegister register worked value =>
      rcases permitted with ⟨rfl, writes, result⟩
      exact inWork.continues_write rooted.closed writes (wide register writes) result
  | constant ty number => exact inWork.continues_constant rooted.closed permitted number
  | emit worked emission =>
      rcases permitted with ⟨rfl, pure, proper, operands⟩
      exact inWork.continues_emit rooted.closed block_lt pure proper operands
  | _ => exact permitted.elim

/-- Matters stand as they should all through the work in a block. -/
theorem RaisesPart.inWork {earlier later : List Action} (rooted : graph.Rooted)
    (raises : origin.RaisesPart graph part) (ordered : origin.InOrder graph)
    (standing : origin.raising.Standing graph done done)
    (block_lt : part.block < graph.blocks.size)
    (wide : ∀ register, (part.block, register) ∈ graph.writes →
      graph.convention.width register ≠ 0)
    (distinct : ∀ location, origin.DistinctMerges graph part.work location)
    (split : part.work = earlier ++ later) : InWork graph done part.block origin earlier := by
  induction earlier using List.reverseRecOn generalizing later with
  | nil =>
      exact {
        ordered := ordered
        allowed := trivial
        builds := .refl
        standing := standing.mono (List.subset_cons_self _ _)
        usable := fun _ mem => absurd mem List.not_mem_nil
        recorded := fun _ mem => absurd mem List.not_mem_nil }
  | append_singleton earlier action ih =>
      rw [List.append_assoc, List.singleton_append] at split
      have inWork := ih split
      exact (raises.continues rooted block_lt wide distinct split inWork).2

end Session

end RegisterFlow
