import RegisterFlow.Proofs.Execution.Paths
import RegisterFlow.Proofs.Tracking.FlagSessions

/-!
# What a read of a flag evaluates to

A block that reads a flag sees the definitions of the blocks in front of it only: flags that blocks
behind it set, such as those at the end of a loop, were not noted before. On every execution, what
it read evaluates to what was given at the latest visit that it can see. That visit is the latest
one that set the flag exactly if the setting block lies in front of the reading one, and in front of
all blocks on the way that had read the flag by then.
-/

namespace RegisterFlow

/--
A block sees the visit of a source. Of the blocks visited since then, the latest one in front of it
that holds a definition has not set it but read it, and sees the visit itself.
-/
inductive Sees (holds sets : BlockId → Prop) (source : BlockId) : List BlockId → BlockId → Prop where
  | last {passed : List BlockId} {block : BlockId} (front : source < block)
      (passes : ∀ other ∈ passed, other < block → ¬ holds other) :
      Sees holds sets source passed block
  | through {passed between : List BlockId} {nearest block : BlockId} (front : nearest < block)
      (held : holds nearest) (unset : ¬ sets nearest)
      (passes : ∀ other ∈ passed, other < block → ¬ holds other)
      (sees : Sees holds sets source between nearest) :
      Sees holds sets source (passed ++ nearest :: between) block

namespace Sees

variable {holds sets : BlockId → Prop} {source block other : BlockId} {between : List BlockId}

theorem pass (sees : Sees holds sets source between block)
    (passes : other < block → ¬ holds other) : Sees holds sets source (other :: between) block := by
  cases sees with
  | last front passes_before =>
      apply Sees.last front
      intro later mem
      rcases List.mem_cons.mp mem with rfl | old
      · exact passes
      · exact passes_before later old
  | through front held unset passes_before sees =>
      rw [← List.cons_append]
      apply Sees.through front held unset _ sees
      intro later mem
      rcases List.mem_cons.mp mem with rfl | old
      · exact passes
      · exact passes_before later old

/-- Of the blocks visited since then, some block in front is the latest that holds a definition. -/
theorem exists_nearest {graph : FlowGraph} (sees : Sees holds sets source between block)
    (path : graph.Path source between block) :
    ∃ nearest passed, graph.Path nearest passed block ∧ nearest < block ∧
      (nearest = source ∨ holds nearest) ∧ ∀ other ∈ passed, other < block → ¬ holds other := by
  cases sees with
  | last front passes => exact ⟨source, _, path, front, Or.inl rfl, passes⟩
  | through front held _ passes _ =>
      exact ⟨_, _, (FlowGraph.path_append.mp path).1, front, Or.inr held, passes⟩

/-- If no block in between sets anything, then all depends on the order of the blocks. -/
theorem iff_of_unset (unset : ∀ other ∈ between, ¬ sets other) :
    Sees holds sets source between block ↔
      source < block ∧ ∀ other ∈ between, other < block → holds other → source < other := by
  constructor
  · intro sees
    induction sees with
    | last front passes =>
        exact ⟨front, fun other mem earlier held => absurd held (passes other mem earlier)⟩
    | @through passed between nearest block front held _ passes _ ih =>
        rcases ih fun other mem => unset other (by simp [mem]) with ⟨first, others⟩
        refine ⟨Nat.lt_trans first front, ?_⟩
        intro other mem earlier holding
        rcases List.mem_append.mp mem with later | mem
        · exact absurd holding (passes other later earlier)
        rcases List.mem_cons.mp mem with rfl | mem
        · exact first
        · by_cases before : other < nearest
          · exact others other mem before holding
          · exact Nat.lt_of_lt_of_le first (Nat.le_of_not_lt before)
  · rintro ⟨front, order⟩
    induction between generalizing block with
    | nil => exact .last front fun _ mem => absurd mem List.not_mem_nil
    | cons nearest between ih =>
        have unset_rest : ∀ other ∈ between, ¬ sets other :=
          fun other mem => unset other (List.mem_cons_of_mem _ mem)
        by_cases seen : nearest < block ∧ holds nearest
        · rcases seen with ⟨earlier, held⟩
          have first := order nearest List.mem_cons_self earlier held
          have inner := ih unset_rest first fun other mem before holding =>
            order other (List.mem_cons_of_mem _ mem) (Nat.lt_trans before earlier) holding
          have nothing : ∀ other ∈ ([] : List BlockId), other < block → ¬ holds other :=
            fun _ mem => absurd mem List.not_mem_nil
          exact .through earlier held (unset nearest List.mem_cons_self) nothing inner
        · have inner := ih unset_rest front fun other mem before holding =>
            order other (List.mem_cons_of_mem _ mem) before holding
          exact inner.pass fun earlier held => seen ⟨earlier, held⟩

end Sees

/--
A value carries a flag into a block: on every path from a block in front with a definition, over
blocks that hold none or lie behind, it has the word that the definition had.
-/
def Raising.Carries (graph : FlowGraph) (flag : Flag) (block : BlockId) (value : ValueId)
    (finished : Raising) : Prop :=
  ∀ source passed given arguments visited state, graph.Path source passed block → source < block →
    finished.tracker.content? graph (.flag flag) source = some (.known given) →
    (∀ other ∈ passed, other < block →
      finished.tracker.content? graph (.flag flag) other = none) →
    finished.func.Ends arguments (passed ++ source :: visited) block state →
    ∃ before, finished.func.Ends arguments visited source before ∧
      (finished.func.snapshot arguments state).words value =
        (finished.func.snapshot arguments before).words given

section Carries

variable {graph : FlowGraph} {flag : Flag} {source block : BlockId} {value given : ValueId}
  {slot : SlotId} {finished : Raising} {between visited : List BlockId}
  {arguments : Array UInt64} {state : EvalState} {sets : BlockId → Prop}

/-- A loaded flag carries it: the latest block in front wrote the slot that is loaded. -/
theorem FlagLoad.carries (load : FlagLoad graph flag block value slot finished)
    (numbered : finished.func.Numbered) : finished.Carries graph flag block value := by
  intro source passed given arguments visited state path front known passes ends
  have unstored : ∀ other, ¬ (other < block ∧
      (finished.tracker.content? graph (.flag flag) other).isSome) →
      finished.func.storedIn slot other = [] := by
    intro other hidden
    by_contra stores
    exact hidden (load.supplier other stores)
  have stored : finished.func.storedIn slot source = [] ++ [given] :=
    load.supplied source passed given path front known passes
  refine ends.words_of_load numbered load.mem load.loads ?_ ?_ stored ?_
  · intro other mem operand stores
    have late := Function.mem_storedIn_iff.mpr ⟨other, mem, stores⟩
    rw [unstored block fun seen => Nat.lt_irrefl _ seen.1] at late
    cases late
  · intro other mem
    apply unstored
    rintro ⟨earlier, held⟩
    rw [passes other mem earlier] at held
    cases held
  · exact fun id mem stores => load.timely source id mem given stores

/-- What is carried into a block has the word of the definition that the block sees. -/
theorem Sees.words {holds : BlockId → Prop}
    (holds_iff : ∀ other, holds other ↔
      (finished.tracker.content? graph (.flag flag) other).isSome)
    (carried : ∀ other known, ¬ sets other →
      finished.tracker.content? graph (.flag flag) other = some (.known known) →
      finished.Carries graph flag other known)
    (flagged : finished.Flagged graph)
    (known : finished.tracker.content? graph (.flag flag) source = some (.known given))
    (sees : Sees holds sets source between block) (carries : finished.Carries graph flag block value)
    (path : graph.Path source between block)
    (ends : finished.func.Ends arguments (between ++ source :: visited) block state) :
    ∃ before, finished.func.Ends arguments visited source before ∧
      (finished.func.snapshot arguments state).words value =
        (finished.func.snapshot arguments before).words given := by
  have transparent : ∀ {other}, ¬ holds other →
      finished.tracker.content? graph (.flag flag) other = none := by
    intro other hidden
    rw [holds_iff, Bool.not_eq_true, Option.isSome_eq_false_iff, Option.isNone_iff_eq_none]
      at hidden
    exact hidden
  induction sees generalizing value state with
  | last front passes =>
      exact carries source _ given arguments visited state path front known
        (fun other mem earlier => transparent (passes other mem earlier)) ends
  | @through passed between nearest block front held unset passes _ ih =>
      rw [FlowGraph.path_append] at path
      rw [List.append_assoc, List.cons_append] at ends
      rcases Option.isSome_iff_exists.mp ((holds_iff nearest).mp held) with ⟨content, holding⟩
      rcases flagged flag nearest content holding with ⟨loaded, rfl, _⟩
      rcases carries nearest passed loaded arguments _ state path.1 front holding
          (fun other mem earlier => transparent (passes other mem earlier)) ends with
        ⟨middle, ends_nearest, same⟩
      rcases ih (carried nearest loaded unset holding) path.2 ends_nearest with
        ⟨before, ends_source, words⟩
      exact ⟨before, ends_source, same.trans words⟩

/-- A flag value belongs to no block that holds no definition of the flag, unless it is a leaf. -/
theorem Raising.Flagged.not_mem_body {before : Raising} {owner other : BlockId}
    (flagged : before.Flagged graph) (grown : before.func.Extends finished.func)
    (numbered : finished.func.Numbered)
    (known : before.tracker.content? graph (.flag flag) owner = some (.known value))
    (absent : before.tracker.content? graph (.flag flag) other = none)
    (inner : (finished.func.operation value).isLeaf = false) :
    value ∉ finished.func.body other := by
  intro mem
  rcases flagged flag owner _ known with ⟨_, same, fits⟩
  cases same
  have held := Function.lt_size_of_ty (by simp) fits.ty_eq
  have owned := numbered.owner other value mem
  rw [grown.owner_eq value held] at owned
  rw [grown.operation_eq value held] at inner
  rcases fits.grounded inner other owned with rfl | defined
  · rw [absent] at known
    cases known
  · rw [absent] at defined
    cases defined

/-- The one value that reaches a block carries the flag into it. -/
theorem carries_of_reaching {before : Raising} {allPaths : Bool} (closed : graph.Closed)
    (flagged : before.Flagged graph) (limited : before.FlagsUpTo graph block)
    (unknown : before.tracker.valueIn? graph (.flag flag) block = none)
    (reached : before.tracker.reaching graph (.flag flag) block allPaths =
      [{ block := source, content := .known value }])
    (grown : before.func.Extends finished.func) (numbered : finished.func.Numbered)
    (content : ∀ other < block, finished.tracker.content? graph (.flag flag) other =
      before.tracker.content? graph (.flag flag) other) :
    finished.Carries graph flag block value := by
  intro holder passed given arguments visited state path front known passes ends
  have absent := flagged.content?_of_unknown unknown
  have known_value : before.tracker.content? graph (.flag flag) source = some (.known value) := by
    have mem : { block := source, content := .known value } ∈
        before.tracker.reaching graph (.flag flag) block allPaths := reached ▸ List.mem_cons_self
    exact (Tracker.reaches_of_mem_reaching closed mem).2
  have transparent : ∀ other ∈ passed,
      before.tracker.content? graph (.flag flag) other = none := by
    intro other mem
    by_contra held
    have bound := limited flag other (Option.ne_none_iff_isSome.mp held)
    rcases Nat.lt_or_eq_of_le bound with earlier | rfl
    · rw [← content other earlier] at held
      exact held (passes other mem earlier)
    · exact held absent
  have same : given = value := by
    rw [content holder front] at known
    have reaches := Tracker.reaches_of_path path (by simp [known]) transparent
    have nonempty : before.tracker.reaching graph (.flag flag) block allPaths ≠ [] := by
      simp [reached]
    rcases Tracker.exists_mem_reaching closed nonempty reaches known with
      ⟨hit, hit_mem, hit_content, _⟩
    rw [reached, List.mem_singleton] at hit_mem
    subst hit_mem
    cases hit_content
    rfl
  subst same
  rcases ends.exists_passage with ⟨first, start, ends_first, run, _, words⟩
  refine ⟨first, ends_first, ?_⟩
  cases leaf : (finished.func.operation given).isLeaf with
  | true => rw [Function.words_snapshot_of_isLeaf leaf, Function.words_snapshot_of_isLeaf leaf]
  | false =>
      have outside := fun other hidden =>
        @Raising.Flagged.not_mem_body graph flag given finished before source other flagged grown
          numbered known_value hidden leaf
      rw [Function.words_traverse_of_not_mem run (outside block absent)]
      exact words given fun other mem => outside other (transparent other mem)

end Carries

namespace Raise

variable {graph : FlowGraph} {flag : Flag} {block : BlockId} {before after : Raising}
  {hits : List ReachingDefinition} {allPaths : Bool}

/-- Definitions of a flag always can meet. -/
theorem not_abandoned (closed : graph.Closed) (flagged : before.Flagged graph)
    (reached : before.tracker.reaching graph (.flag flag) block allPaths = hits)
    (nonempty : hits ≠ []) :
    ¬ Abandoned (.flag flag) (before.slotTy graph (.flag flag) hits) block hits (some .bool) before
      after := by
  rw [flagged.slotTy_eq closed reached nonempty]
  intro abandoned
  cases abandoned with
  | @unsupplied done rest refused value _ split chain known _ differs =>
      have mem : refused ∈ hits := by simp [split]
      rcases flagged.of_mem_reaching closed (reached ▸ mem) with ⟨truth, same, typed⟩
      rw [known] at same
      cases same
      have grows : before.func.Grows after.func :=
        (Function.grows_withSlot ..).trans chain.grows
      exact differs (grows.ty_of_ne (by simp) typed)
  | unconverted _ _ differs => exact differs rfl
  | @unfiled supplied value func failure _ converted refused =>
      have typed : func.ty value = .bool := by
        cases converted with
        | same typed => exact typed
        | cast _ _ => simp
      rw [typed] at refused
      rcases supplied.tracker.table.record_eq_ok Nat.one_pos fun _ => rfl with ⟨table, filed⟩
      have clash := refused.symm.trans filed
      cases clash

/-- A tracked flag can always be read. -/
theorem run_readFlag (closed : graph.Closed) (flagged : before.Flagged graph)
    (tracked : flag.isTracked = true) :
    ∃ answer after, Read graph (.flag flag) .bool block false true before answer after ∧
      (readFlag graph flag block).run before = .ok answer after := by
  have run_eq : (readFlag graph flag block).run before =
      (readLocation graph (.flag flag) .bool block false true).run before := by
    rw [readFlag, Location.ofFlag, if_pos tracked, run_bind_of_ok (run_ofExcept_ok ..)]
  rw [run_eq]
  rcases run_readLocation graph (.flag flag) .bool block false true before with
    read | ⟨_, _, failed, _⟩
  · exact read
  · cases failed with
    | intro unknown reached several abandoned =>
        have walked : (before.tally Statistics.countPredecessorWalk).Flagged graph :=
          flagged.of_extends (.refl _) fun _ _ => rfl
        exact absurd abandoned (not_abandoned closed walked reached several.1)

end Raise

namespace Session

variable {graph : FlowGraph} {start : Session} {earlier later : List Action} {flag : Flag}
  {block : BlockId} {value : ValueId} {after : Raising}

/-- In layout order, what the blocks in front hold of a flag stays when the last block is worked in. -/
theorem RaisesInOrder.content?_of_lt {action : Action} {other : BlockId} (closed : graph.Closed)
    (raises : RaisesInOrder graph start (earlier ++ action :: later))
    (works : action.block? = some block) (front : other < block) :
    (start.after graph (earlier ++ action :: later)).raising.tracker.content? graph (.flag flag)
        other =
      (start.after graph earlier).raising.tracker.content? graph (.flag flag) other := by
  have behind := (raises.le_block works).2
  rw [after_append]
  apply (raises.front.inOrder closed).content?_after closed (allowsAll_append.mp raises.allowed).2
  intro further mem works_further
  rcases List.mem_cons.mp mem with rfl | later_mem
  · rw [works, Option.some.injEq] at works_further
    exact Nat.ne_of_gt front works_further
  · exact Nat.not_lt_of_le (behind further later_mem other works_further) front

/-- What a block that has not set a flag reads carries the flag into the block. -/
theorem carries_of_read (closed : graph.Closed)
    (raises : RaisesInOrder graph start (earlier ++ .readFlag flag block :: later))
    (distinct : start.DistinctMerges graph (earlier ++ .readFlag flag block :: later) (.flag flag))
    (unset : ¬ start.SetsFlag graph earlier flag block)
    (read : Read graph (.flag flag) .bool block false true (start.after graph earlier).raising
      (some value) after)
    (performed : ((start.after graph earlier).perform graph (.readFlag flag block)).raising =
      after) :
    (start.after graph (earlier ++ .readFlag flag block :: later)).raising.Carries graph flag block
      value := by
  have split : earlier ++ .readFlag flag block :: later =
      (earlier ++ [.readFlag flag block]) ++ later := by
    simp
  have after_read : start.after graph (earlier ++ [.readFlag flag block]) =
      (start.after graph earlier).perform graph (.readFlag flag block) := after_append ..
  rcases raises.le_block rfl with ⟨in_front, behind⟩
  have finished := raises.inOrder closed
  have raises_read := (split ▸ raises).front
  have next := raises_read.inOrder closed
  have allowed_later := (allowsAll_append.mp (split ▸ raises).allowed).2
  have loaded : (start.after graph (earlier ++ [.readFlag flag block])).raising.tracker.content?
      graph (.flag flag) block = some (.known value) →
      (start.after graph (earlier ++ .readFlag flag block :: later)).raising.Carries graph flag
        block value := by
    intro known
    have traced := raises_read.flagTraced closed (split ▸ distinct).of_append
    rcases traced.loaded block value known with sets | ⟨slot, load, quiet⟩
    · exact absurd (sets.of_append_singleton (by simp [Action.Sets])) unset
    · have kept := next.flagLoad_after closed allowed_later load quiet behind
      rw [← after_append, ← split] at kept
      exact kept.carries finished.kept.numbered
  cases read with
  | held known =>
      apply loaded
      rw [after_read, performed]
      exact Tracker.valueIn?_eq_some_iff.mp known
  | direct unknown reached =>
      have traced := raises.front.flagTraced closed distinct.of_append
      have before := raises.front.inOrder closed
      have allowed_rest := (allowsAll_append.mp raises.allowed).2
      have grown := before.grows_after closed allowed_rest
      rw [← after_append] at grown
      apply carries_of_reaching closed before.flagged (traced.flagsUpTo in_front) unknown reached
        grown.toExtends finished.kept.numbered
      exact fun other front => raises.content?_of_lt closed rfl front
  | met unknown reached several met =>
      apply loaded
      rw [after_read, performed, met.content?, if_pos ⟨rfl, rfl⟩]

/-- What a block holds of a flag that it has not set carries the flag into the block. -/
theorem FlagTraced.carries {actions : List Action} (closed : graph.Closed)
    (raises : RaisesInOrder graph start actions) (traced : FlagTraced graph start actions flag)
    (unset : ¬ start.SetsFlag graph actions flag block)
    (known : (start.after graph actions).raising.tracker.content? graph (.flag flag) block =
      some (.known value)) :
    (start.after graph actions).raising.Carries graph flag block value := by
  rcases traced.loaded block value known with sets | ⟨slot, load, _⟩
  · exact absurd sets unset
  · exact load.carries (raises.inOrder closed).kept.numbered

/-- A tracked flag that a visible block holds is read. -/
theorem exists_read (closed : graph.Closed) (tracked : flag.isTracked = true)
    (raises : RaisesInOrder graph start (earlier ++ .readFlag flag block :: later))
    (distinct : start.DistinctMerges graph earlier (.flag flag)) {nearest : BlockId}
    {passed : List BlockId} (path : graph.Path nearest passed block) (front : nearest < block)
    (held : ((start.after graph (earlier ++ .readFlag flag block :: later)).raising.tracker.content?
      graph (.flag flag) nearest).isSome)
    (passes : ∀ other ∈ passed, other < block →
      ¬ ((start.after graph (earlier ++ .readFlag flag block :: later)).raising.tracker.content?
        graph (.flag flag) other).isSome) :
    ∃ value after,
      Read graph (.flag flag) .bool block false true (start.after graph earlier).raising
        (some value) after ∧
      (Raise.readFlag graph flag block).run (start.after graph earlier).raising =
        .ok (some value) after := by
  have before := raises.front.inOrder closed
  have traced := raises.front.flagTraced closed distinct
  have in_front := (raises.le_block rfl).1
  have unchanged : ∀ other < block,
      (start.after graph (earlier ++ .readFlag flag block :: later)).raising.tracker.content? graph
          (.flag flag) other =
        (start.after graph earlier).raising.tracker.content? graph (.flag flag) other :=
    fun other front => raises.content?_of_lt closed rfl front
  rcases Raise.run_readFlag closed before.flagged tracked with ⟨answer, after, read, runs⟩
  cases read with
  | missing unknown unreached =>
      have absent := before.flagged.content?_of_unknown unknown
      have transparent : ∀ other ∈ passed,
          (start.after graph earlier).raising.tracker.content? graph (.flag flag) other = none := by
        intro other mem
        by_contra holds
        have bound := traced.flagsUpTo in_front flag other (Option.ne_none_iff_isSome.mp holds)
        rcases Nat.lt_or_eq_of_le bound with earlier | same
        · rw [← unchanged other earlier] at holds
          exact passes other mem earlier (Option.ne_none_iff_isSome.mp holds)
        · exact holds (same ▸ absent)
      rw [unchanged nearest front] at held
      have reaches := Tracker.reaches_of_path path held transparent
      exact absurd unreached (Tracker.reaching_ne_nil closed reaches)
  | held known => exact ⟨_, _, .held known, runs⟩
  | direct unknown reached => exact ⟨_, _, .direct unknown reached, runs⟩
  | met unknown reached several met => exact ⟨_, _, .met unknown reached several met, runs⟩

end Session

/--
A block that has not set a flag reads it, and the execution later visits the block on a path from a
block that set the flag. If the read sees that visit, it succeeds, and what it read evaluates to
what the flag was given at the visit. If no block on the path sets the flag, the read sees the visit
exactly if the setting block lies in front of the reading one, and in front of every block on the
path that lies in front of the reading one and holds a definition.
-/
theorem readFlag_evaluates_of_sees {graph : FlowGraph} {start : Session}
    {earlier later : List Action} {flag : Flag} {source block : BlockId} {between : List BlockId}
    {summary : Summary} {finished : Raising} (closed : graph.Closed)
    (tracked : flag.isTracked = true)
    (raises : Session.RaisesInOrder graph start (earlier ++ .readFlag flag block :: later))
    (concluded : (Raise.conclude graph).run
      (start.after graph (earlier ++ .readFlag flag block :: later)).raising = .ok summary finished)
    (unset : ¬ start.SetsFlag graph earlier flag block)
    (sets : start.SetsFlag graph (earlier ++ .readFlag flag block :: later) flag source)
    (path : graph.Path source between block)
    (distinct : start.DistinctMerges graph (earlier ++ .readFlag flag block :: later)
      (.flag flag)) :
    let holds := fun other => (finished.tracker.content? graph (.flag flag) other).isSome = true
    let isSet := start.SetsFlag graph (earlier ++ .readFlag flag block :: later) flag
    ((∀ other ∈ between, ¬ isSet other) →
      (Sees holds isSet source between block ↔
        source < block ∧ ∀ other ∈ between, other < block → holds other → source < other)) ∧
    (Sees holds isSet source between block →
      ∃ given value after,
        finished.tracker.valueIn? graph (.flag flag) source = some given ∧
        (Raise.readFlag graph flag block).run (start.after graph earlier).raising =
          .ok (some value) after ∧
        ∀ arguments visited state,
          finished.func.Ends arguments (between ++ source :: visited) block state →
          ∃ before, finished.func.Ends arguments visited source before ∧
            ∀ word, finished.func.Evaluates arguments state value word ↔
              finished.func.Evaluates arguments before given word) := by
  intro holds isSet
  refine ⟨Sees.iff_of_unset, fun sees => ?_⟩
  have drained := raises.drain
  have distinct_drained := distinct.drain
  have ordered := drained.inOrder closed
  have traced := drained.flagTraced closed distinct_drained
  have after_drain : start.after graph (earlier ++ .readFlag flag block :: later ++ [.drain]) =
      (start.after graph (earlier ++ .readFlag flag block :: later)).perform graph .drain :=
    Session.after_append ..
  have finished_eq := (Session.conclude_eq_ok concluded).2
  rw [← after_drain] at finished_eq
  have carried : ∀ other known, ¬ isSet other →
      finished.tracker.content? graph (.flag flag) other = some (.known known) →
      finished.Carries graph flag other known := by
    intro other known unset_other holding
    have never : ¬ start.SetsFlag graph (earlier ++ .readFlag flag block :: later ++ [.drain]) flag
        other :=
      fun sets => unset_other (sets.of_append_singleton (by simp [Action.Sets]))
    subst finished_eq
    exact traced.carries closed drained never holding
  have given : ∃ given,
      finished.tracker.content? graph (.flag flag) source = some (.known given) := by
    have held := (sets.append [.drain]).isSome closed drained.starts.inOrder drained.allowed
    rcases Option.isSome_iff_exists.mp held with ⟨content, holding⟩
    rcases ordered.flagged flag source content holding with ⟨given, rfl, _⟩
    exact ⟨given, finished_eq ▸ holding⟩
  rcases given with ⟨given, known⟩
  have split : earlier ++ .readFlag flag block :: later ++ [.drain] =
      earlier ++ .readFlag flag block :: (later ++ [.drain]) := by
    simp
  rw [split] at drained distinct_drained finished_eq
  have content_eq : finished.tracker.content? graph (.flag flag) =
      (start.after graph
        (earlier ++ .readFlag flag block :: (later ++ [.drain]))).raising.tracker.content?
        graph (.flag flag) := by
    rw [finished_eq]
    rfl
  rcases sees.exists_nearest path with ⟨nearest, passed, short, front, holding, passes⟩
  have held : holds nearest := by
    rcases holding with rfl | held
    · simp [holds, known]
    · exact held
  rcases Session.exists_read closed tracked drained distinct.of_append short front
      (by rwa [← content_eq]) (by rwa [← content_eq]) with
    ⟨value, after, read, runs⟩
  refine ⟨given, value, after, Tracker.valueIn?_eq_some_iff.mpr known, runs, ?_⟩
  intro arguments visited state ends
  have performed : ((start.after graph earlier).perform graph (.readFlag flag block)).raising =
      after :=
    Raise.final_of_ok runs
  have carries : finished.Carries graph flag block value := by
    have read_carries := Session.carries_of_read closed drained distinct_drained unset read performed
    rw [finished_eq]
    exact read_carries
  have flagged : finished.Flagged graph := by
    rw [finished_eq]
    exact (drained.inOrder closed).flagged.of_extends (.refl _) fun _ _ => rfl
  rcases sees.words (fun _ => Iff.rfl) carried flagged known carries path ends with
    ⟨before, ends_source, words⟩
  refine ⟨before, ends_source, fun word => ?_⟩
  rw [Function.evaluates_iff ends.faithful, Function.evaluates_iff ends_source.faithful, words]

/-! ### A loop -/

/-- An entry, the header and the body of a loop, and an exit. -/
def loopGraph : FlowGraph where
  blocks := #[
    { name := "bb0", predecessors := [], effects := [] },
    { name := "bb1", predecessors := [0, 2], effects := [] },
    { name := "bb2", predecessors := [1],
      effects := [{ writes := [], family := .other "test" }] },
    { name := "bb3", predecessors := [1], effects := [] }]

/-- The start of raising a function of one argument with a loop. -/
def loopSession : Session :=
  .starting loopGraph "loop" [.int 64] ["entry", "header", "body", "exit"]

def loopEntry : List Action :=
  [.writeFlag .carry 0 true, .terminate 0 (.branch 1)]

/-- The header leaves the loop unless the flag is set, and the body clears it. -/
def loopRest : List Action :=
  [.terminate 1 (.branchIf 1 2 3), .emit 2 (.binary .add 0 0), .writeFlag .carry 2 false,
    .terminate 2 (.branch 1), .terminate 3 (.ret (some 0))]

def loopActions : List Action :=
  loopEntry ++ .readFlag .carry 1 :: loopRest

theorem closed_loopGraph : loopGraph.Closed := by
  decide +kernel

theorem raisesInOrder_loop : Session.RaisesInOrder loopGraph loopSession loopActions where
  starts := Session.starts_starting rfl (by decide +kernel)
  allowed := ⟨trivial, trivial, trivial, trivial, trivial, trivial, trivial, trivial, trivial⟩
  layout := by
    rw [Action.InLayoutOrder]
    decide

theorem not_setsFlag_loopEntry : ¬ loopSession.SetsFlag loopGraph loopEntry .carry 1 := by
  rintro ⟨earlier, action, later, split, sets, _⟩
  have mem : action ∈ loopEntry := by
    simp [split]
  rw [loopEntry, List.mem_pair] at mem
  rcases mem with rfl | rfl
  · cases sets.1
  · exact sets

theorem distinctMerges_loop :
    loopSession.DistinctMerges loopGraph loopActions (.flag .carry) := by
  iterate 8 refine .cons (Raising.distinctSince_of_unmerged (by cbv)) ?_
  exact Session.distinctMerges_nil _

/-- What the header reads evaluates to what the entry set, when it comes from the entry. -/
theorem readFlag_evaluates_loop :
    loopGraph.Closed ∧ Flag.carry.isTracked = true ∧
      Session.RaisesInOrder loopGraph loopSession loopActions ∧
      ¬ loopSession.SetsFlag loopGraph loopEntry .carry 1 ∧
      loopSession.SetsFlag loopGraph loopActions .carry 0 ∧
      loopGraph.Path 0 [] 1 ∧
      loopSession.DistinctMerges loopGraph loopActions (.flag .carry) ∧
      ∃ summary finished,
        (Raise.conclude loopGraph).run (loopSession.after loopGraph loopActions).raising =
          .ok summary finished ∧
        let holds := fun other =>
          (finished.tracker.content? loopGraph (.flag .carry) other).isSome = true
        let isSet := loopSession.SetsFlag loopGraph loopActions .carry
        ((∀ other ∈ [], ¬ isSet other) →
          (Sees holds isSet 0 [] 1 ↔
            0 < 1 ∧ ∀ other ∈ ([] : List BlockId), other < 1 → holds other → 0 < other)) ∧
        (Sees holds isSet 0 [] 1 →
          ∃ given value after,
            finished.tracker.valueIn? loopGraph (.flag .carry) 0 = some given ∧
            (Raise.readFlag loopGraph .carry 1).run (loopSession.after loopGraph loopEntry).raising =
              .ok (some value) after ∧
            ∀ arguments visited state, finished.func.Ends arguments ([] ++ 0 :: visited) 1 state →
              ∃ before, finished.func.Ends arguments visited 0 before ∧
                ∀ word, finished.func.Evaluates arguments state value word ↔
                  finished.func.Evaluates arguments before given word) := by
  have succeeds : (Raise.conclude loopGraph).succeeds
      (loopSession.after loopGraph loopActions).raising = true := by
    cbv
  rcases Raise.exists_of_succeeds succeeds with ⟨summary, finished, concluded⟩
  have sets : loopSession.SetsFlag loopGraph loopActions .carry 0 := by
    refine ⟨[], _, _, rfl, ⟨rfl, rfl⟩, ?_⟩
    cbv
  have path : loopGraph.Path 0 [] 1 := by
    change 0 ∈ loopGraph.predecessors 1
    decide +kernel
  exact ⟨closed_loopGraph, rfl, raisesInOrder_loop, not_setsFlag_loopEntry, sets, path,
    distinctMerges_loop, summary, finished, concluded,
    readFlag_evaluates_of_sees closed_loopGraph rfl raisesInOrder_loop concluded
      not_setsFlag_loopEntry sets path distinctMerges_loop⟩

/--
When the header comes from the body, which cleared the flag, what it read still says that the flag
is set.
-/
theorem not_evaluates_loop :
    loopGraph.Closed ∧ Flag.carry.isTracked = true ∧
      Session.RaisesInOrder loopGraph loopSession loopActions ∧
      ¬ loopSession.SetsFlag loopGraph loopEntry .carry 1 ∧
      loopSession.SetsFlag loopGraph loopActions .carry 2 ∧
      loopGraph.Path 2 [] 1 ∧
      loopSession.DistinctMerges loopGraph loopActions (.flag .carry) ∧
      ∃ summary finished given value after state before,
        (Raise.conclude loopGraph).run (loopSession.after loopGraph loopActions).raising =
          .ok summary finished ∧
        finished.tracker.valueIn? loopGraph (.flag .carry) 2 = some given ∧
        (Raise.readFlag loopGraph .carry 1).run (loopSession.after loopGraph loopEntry).raising =
          .ok (some value) after ∧
        finished.func.Ends #[5] [2, 1, 0] 1 state ∧ finished.func.Ends #[5] [1, 0] 2 before ∧
        finished.func.Evaluates #[5] state value 1 ∧ finished.func.Evaluates #[5] before given 0 ∧
        ¬ ∀ word, finished.func.Evaluates #[5] state value word ↔
          finished.func.Evaluates #[5] before given word := by
  have succeeds : (Raise.conclude loopGraph).succeeds
      (loopSession.after loopGraph loopActions).raising = true := by
    cbv
  rcases Raise.exists_of_succeeds succeeds with ⟨summary, finished, concluded⟩
  have finished_eq := Raise.final_of_ok concluded
  have sets : loopSession.SetsFlag loopGraph loopActions .carry 2 := by
    refine ⟨loopEntry ++ .readFlag .carry 1 :: loopRest.take 2, _, _, rfl, ⟨rfl, rfl⟩, ?_⟩
    cbv
  have path : loopGraph.Path 2 [] 1 := by
    change 2 ∈ loopGraph.predecessors 1
    decide +kernel
  have known : finished.tracker.valueIn? loopGraph (.flag .carry) 2 = some 5 := by
    rw [← finished_eq]
    cbv
  have reads : ∃ after,
      (Raise.readFlag loopGraph .carry 1).run (loopSession.after loopGraph loopEntry).raising =
        .ok (some 1) after := by
    refine ⟨(Raise.readFlag loopGraph .carry 1).final
      (loopSession.after loopGraph loopEntry).raising, ?_⟩
    cbv
  rcases reads with ⟨after, reads⟩
  have at_entry : finished.func.traverse #[5] (finished.func.snapshot #[5] {})
      (finished.func.body BlockId.entry) = some (finished.func.snapshot #[5] {}) := by
    rw [← finished_eq]
    cbv
  rcases Function.Ends.exists_entry at_entry with ⟨first, ends_entry, snapshot_first⟩
  have to_header : finished.func.exitFrom? (finished.func.snapshot #[5] first) BlockId.entry =
        some (.jump 1) ∧
      finished.func.traverse #[5] (finished.func.snapshot #[5] first) (finished.func.body 1) =
        some (finished.func.snapshot #[5] {}) := by
    rw [snapshot_first, ← finished_eq]
    constructor <;> cbv
  rcases ends_entry.exists_jump to_header.1 to_header.2 with ⟨second, ends_header, snapshot_second⟩
  have to_body : finished.func.exitFrom? (finished.func.snapshot #[5] second) 1 =
        some (.jump 2) ∧
      finished.func.traverse #[5] (finished.func.snapshot #[5] second) (finished.func.body 2) =
        some ((finished.func.snapshot #[5] {}).learn 4 10) := by
    rw [snapshot_second, ← finished_eq]
    constructor <;> cbv
  rcases ends_header.exists_jump to_body.1 to_body.2 with ⟨before, ends_body, snapshot_before⟩
  have back : finished.func.exitFrom? (finished.func.snapshot #[5] before) 2 = some (.jump 1) ∧
      finished.func.traverse #[5] (finished.func.snapshot #[5] before) (finished.func.body 1) =
        some ((finished.func.snapshot #[5] {}).learn 4 10) := by
    rw [snapshot_before, ← finished_eq]
    constructor <;> cbv
  rcases ends_body.exists_jump back.1 back.2 with ⟨state, ends_again, snapshot_state⟩
  have says_set : finished.func.Evaluates #[5] state 1 1 := by
    rw [Function.evaluates_iff ends_again.faithful, snapshot_state, ← finished_eq]
    cbv
  have was_cleared : ∀ word, finished.func.Evaluates #[5] before 5 word ↔ word = 0 := by
    intro word
    have cleared : (finished.func.snapshot #[5] before).words 5 = some 0 := by
      rw [snapshot_before, ← finished_eq]
      cbv
    rw [Function.evaluates_iff ends_body.faithful, cleared, Option.some.injEq, eq_comm]
  refine ⟨closed_loopGraph, rfl, raisesInOrder_loop, not_setsFlag_loopEntry, sets, path,
    distinctMerges_loop, summary, finished, 5, 1, after, state, before, concluded, known, reads,
    ends_again, ends_body, says_set, (was_cleared 0).mpr rfl, ?_⟩
  intro agree
  have contradiction := (was_cleared 1).mp ((agree 1).mp says_set)
  cases contradiction

end RegisterFlow
