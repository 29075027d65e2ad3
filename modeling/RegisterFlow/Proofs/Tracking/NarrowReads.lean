import RegisterFlow.Proofs.Tracking.KeptByTracking
import RegisterFlow.Proofs.Tracking.Merges
import RegisterFlow.Proofs.Tracking.TwoReads

/-!
# A narrow read in front of a wide one

Where several definitions of a register meet, a read leaves what it gives as the definition of its
block, at the width at which it was made. A wider read that comes later finds this value. In the
block it gives the very same value, and behind the block it has lost the high bits wherever the
execution came through the block after the latest definition.
-/

namespace RegisterFlow

/-! ### What a merged read leaves -/

/-- Between a definition that was recorded and a block behind, everything is as it was. -/
theorem Tracker.ReachesEnd.of_recorded {graph : FlowGraph} {first second : Tracker}
    {location : Location} {block source place : BlockId}
    (reaches : ReachesEnd graph second location source place) (differs : source ≠ block)
    (recorded : (second.content? graph location block).isSome)
    (same : ∀ other ≠ block,
      second.content? graph location other = first.content? graph location other) :
    ReachesEnd graph first location source place := by
  induction reaches with
  | here holds => exact .here (same _ differs ▸ holds)
  | @through passed _ transparent edge _ ih =>
      refine .through ?_ edge ih
      rw [← same, transparent]
      rintro rfl
      simp [transparent] at recorded

/-- What reaches a block that holds no definition reaches its successors. -/
theorem Tracker.Reaches.behind {graph : FlowGraph} {tracker : Tracker} {location : Location}
    {source block next : BlockId} (reaches : Reaches graph tracker location source block)
    (unheld : tracker.content? graph location block = none)
    (edge : block ∈ graph.predecessors next) : Reaches graph tracker location source next := by
  rcases reaches with ⟨predecessor, earlier, reaches⟩
  exact ⟨block, edge, .through unheld earlier reaches⟩

namespace MergedRead

variable {graph : FlowGraph} {location : Location} {width : Nat} {block next source : BlockId}
  {hits : List ReachingDefinition} {before after : Raising} {value given : ValueId}
  {final : Function} (merged : MergedRead graph location width block hits before value after final)

include merged

theorem content? (other : BlockId) :
    after.tracker.content? graph location other =
      if other = block then some (.known value)
      else before.tracker.content? graph location other := by
  rw [merged.met.content?]
  simp

/-- What is read was not there before. -/
theorem size_le_value : before.func.values.size ≤ value := by
  cases merged.met with
  | @intro supplied _ func table chain converted filed =>
      have grown : before.func.values.size ≤ supplied.func.values.size :=
        Nat.le_trans (Function.grows_withSlot ..).size_le chain.grows.size_le
      cases converted with
      | same _ => exact grown
      | cast _ _ =>
          rw [Function.size_withInstruction]
          exact Nat.le_succ_of_le grown

/-- The known values that reach a block are still held by different blocks. -/
theorem distinct_after (distinct : before.tracker.Distinct graph location next) :
    after.tracker.Distinct graph location next := by
  have recorded : (after.tracker.content? graph location block).isSome := by
    rw [merged.content?, if_pos rfl]
    rfl
  have same : ∀ other ≠ block, after.tracker.content? graph location other =
      before.tracker.content? graph location other := by
    intro other differs
    rw [merged.content?, if_neg differs]
  have earlier : ∀ other ≠ block, Tracker.Reaches graph after.tracker location other next →
      Tracker.Reaches graph before.tracker location other next := by
    rintro other differs ⟨predecessor, edge, reaches⟩
    exact ⟨predecessor, edge, reaches.of_recorded differs recorded same⟩
  -- The value that was read is new, so no other block holds it.
  have new : ∀ other ≠ block, ∀ held,
      after.tracker.content? graph location other = some (.known held) → held ≠ value := by
    rintro other differs held known rfl
    rw [same other differs] at known
    exact Nat.not_lt_of_le merged.size_le_value (merged.kept.ranged.lt_size known)
  intro first second held first_reaches second_reaches first_known second_known
  by_cases first_eq : first = block
  · by_cases second_eq : second = block
    · rw [first_eq, second_eq]
    · rw [first_eq, merged.content?, if_pos rfl] at first_known
      cases first_known
      exact absurd rfl (new second second_eq _ second_known)
  · by_cases second_eq : second = block
    · rw [second_eq, merged.content?, if_pos rfl] at second_known
      cases second_known
      exact absurd rfl (new first first_eq _ first_known)
    · rw [same first first_eq] at first_known
      rw [same second second_eq] at second_known
      exact distinct first second held (earlier first first_eq first_reaches)
        (earlier second second_eq second_reaches) first_known second_known

/-- The definitions that meet in a block meet in its successors, unless it holds one itself. -/
theorem reaching_ne_single (closed : graph.Closed) (edge : block ∈ graph.predecessors next)
    (found : BlockId) (held : ValueId) :
    before.tracker.reaching graph location next false ≠
      [{ block := found, content := .known held }] := by
  intro single
  cases own : before.tracker.content? graph location block with
  | some content =>
      have reaches : Tracker.Reaches graph before.tracker location block next :=
        ⟨block, edge, .here (by simp [own])⟩
      have unknown := merged.unknown
      rw [Tracker.valueIn?_eq_some_iff.mpr (reaches.known_of_single closed single)] at unknown
      cases unknown
  | none =>
      have known : ∀ hit ∈ hits, hit.content = .known held := by
        intro hit mem
        rcases merged.reaches_of_mem closed mem with ⟨reaches, content⟩
        have known := (reaches.behind own edge).known_of_single closed single
        rw [content, Option.some.injEq] at known
        exact known
      have alike : ∀ first ∈ hits, ∀ second ∈ hits, first = second := by
        intro first first_mem second second_mem
        have reached := merged.reached
        refine Tracker.eq_of_mem_reaching (reached ▸ first_mem) (reached ▸ second_mem) ?_ ?_
        · rw [known first first_mem, known second second_mem]
        · intro pending
          rw [known first first_mem] at pending
          cases pending
      have nodup : hits.Nodup := by
        rw [← merged.reached]
        exact (Tracker.nodup_reaching_blocks closed false).of_map _
      cases hits with
      | nil => exact merged.several.1 rfl
      | cons first rest =>
          have none_left : rest = [] := by
            rw [List.eq_nil_iff_forall_not_mem]
            intro second second_mem
            rw [List.nodup_cons, alike first List.mem_cons_self second
              (List.mem_cons_of_mem _ second_mem)] at nodup
            exact nodup.1 second_mem
          apply merged.several.2 first.block held
          rw [none_left, ← known first List.mem_cons_self]

end MergedRead

/-! ### Reads behind a narrow one -/

namespace MergedRead

variable {graph : FlowGraph} {location : Location} {narrow wide : Nat} {block next source : BlockId}
  {hits : List ReachingDefinition} {before cached after : Raising} {cut given other : ValueId}
  {between visited : List BlockId} {arguments : Array UInt64} {state : EvalState}
  (merged : MergedRead graph location narrow block hits before cut cached cached.func)
  (closed : graph.Closed) (kept : cached.WellKept graph)
  (read : Read graph location (.int wide) next false true cached (some other) after)

include merged

/-- The slot stays as it was left while another block is read. -/
theorem read_later (register : location.isFlag = false) (kept : cached.WellKept graph)
    (read : Read graph location (.int wide) next false true cached (some other) after) :
    MergedRead graph location narrow block hits before cut cached after.func := by
  have proceeds := (read.inquiries fun flagged => by simp [register] at flagged).moves.proceeds
  exact { merged with
    grown := proceeds.grows.toExtends
    numbered := proceeds.grows.numbered kept.numbered
    stores := proceeds.storedIn_eq kept.numbered _ merged.met.slot_lt }

/-- A value that reached the block before on a way around it reaches the same block now. -/
theorem brings_around (brings : before.tracker.Brings graph location source given between next)
    (around : block ∉ between) :
    cached.tracker.Brings graph location source given between next where
  path := brings.path
  known := by
    rw [merged.content?, if_neg, brings.known]
    rintro rfl
    have unknown := merged.unknown
    rw [Tracker.valueIn?_eq_some_iff.mpr brings.known] at unknown
    cases unknown
  passes passed mem := by
    rw [merged.content?, if_neg, brings.passes passed mem]
    rintro rfl
    exact around mem

include closed kept read

/-- Behind the block, a read gives the value that was left there, or lets it meet others. -/
theorem behind_cases (differs : next ≠ block) (edge : block ∈ graph.predecessors next)
    (unknown : before.tracker.valueIn? graph location next = none) :
    (other = cut ∧ after.func = cached.func ∧
        ∀ source, Tracker.Reaches graph cached.tracker location source next →
          cached.tracker.content? graph location source = some (.known cut)) ∨
      ∃ found, MergedRead graph location wide next found
        (cached.tally Statistics.countPredecessorWalk) other after after.func := by
  have left : cached.tracker.content? graph location block = some (.known cut) := by
    rw [merged.content?, if_pos rfl]
  have reaches : Tracker.Reaches graph cached.tracker location block next :=
    ⟨block, edge, .here (by simp [left])⟩
  cases read with
  | held known =>
      rw [Tracker.valueIn?_eq_some_iff, merged.content?, if_neg differs,
        ← Tracker.valueIn?_eq_some_iff, unknown] at known
      cases known
  | direct _ reached =>
      have same := reaches.known_of_single closed reached
      rw [left] at same
      cases same
      exact Or.inl ⟨rfl, rfl, fun source reaches => reaches.known_of_single closed reached⟩
  | met unknown reached several met =>
      exact Or.inr ⟨_, .of_met (kept.tally _) reached unknown several met⟩

variable (differs : next ≠ block) (edge : block ∈ graph.predecessors next)
  (unknown : before.tracker.valueIn? graph location next = none)
  (distinct : before.tracker.Distinct graph location next)
  (within : wide ≤ graph.convention.fullWidth location)

include differs edge unknown distinct within

/-- On a way around the block, nothing has changed. -/
theorem truncates_around (brings : before.tracker.Brings graph location source given between next)
    (around : block ∉ between)
    (ends : after.func.Ends arguments (between ++ source :: visited) next state) :
    ∃ start word, after.func.Ends arguments visited source start ∧
      (after.func.snapshot arguments start).words given = some word ∧
      ((before.func.ty given).Fits word →
        (after.func.snapshot arguments state).words other = some (Word.truncate wide word)) := by
  have brings_now := merged.brings_around brings around
  have given_lt := merged.kept.ranged.lt_size brings.known
  rcases merged.behind_cases closed kept read differs edge unknown with
    ⟨-, -, single⟩ | ⟨found, wide_merged⟩
  · have same := (single source brings_now.reaches).symm.trans brings_now.known
    cases same
    exact absurd given_lt (Nat.not_lt_of_le merged.size_le_value)
  · have latest := brings_now.latest closed (merged.distinct_after distinct)
      (Tracker.reaching_ne_nil closed brings_now.reaches)
    have given_ty := merged.met.grows.toExtends.ty_eq given given_lt
    rw [← given_ty]
    exact wide_merged.truncates_of_latest closed within (wide_merged.reached ▸ latest) ends

/-- After the latest visit to the block, the value that was left there is read. -/
theorem words_behind (le : narrow ≤ wide) (path : graph.Path block between next)
    (passes : ∀ passed ∈ between, passed ≠ block ∧
      before.tracker.content? graph location passed = none)
    (ends : after.func.Ends arguments (between ++ block :: visited) next state) :
    ∃ middle, after.func.Ends arguments visited block middle ∧ ∀ shown,
      (after.func.snapshot arguments middle).words cut = some shown →
      (Ty.int narrow).Fits shown →
        (after.func.snapshot arguments state).words other = some shown := by
  have brings : cached.tracker.Brings graph location block cut between next := by
    refine ⟨path, by rw [merged.content?, if_pos rfl], fun passed mem => ?_⟩
    rw [merged.content?, if_neg (passes passed mem).1, (passes passed mem).2]
  rcases merged.behind_cases closed kept read differs edge unknown with
    ⟨rfl, func_eq, -⟩ | ⟨found, wide_merged⟩
  · rw [func_eq] at ends ⊢
    have elsewhere : ∀ passed ≠ block, other ∉ cached.func.body passed := by
      intro passed different mem
      have owned := kept.numbered.owner passed other mem
      rw [merged.met.computes.owner_eq, Option.some.injEq] at owned
      exact different owned.symm
    rcases ends.exists_passage with ⟨middle, start, ends_block, run, -, words⟩
    refine ⟨middle, ends_block, fun shown known _ => ?_⟩
    rw [Function.words_traverse_of_not_mem run (elsewhere next differs),
      words other fun passed mem => elsewhere passed (passes passed mem).1, known]
  · have latest := brings.latest closed (merged.distinct_after distinct)
      (Tracker.reaching_ne_nil closed brings.reaches)
    have cut_ty : cached.func.ty cut = .int narrow := merged.met.computes.ty_eq
    rcases wide_merged.truncates_of_latest closed within (wide_merged.reached ▸ latest) ends with
      ⟨middle, word, ends_block, known, truncated⟩
    refine ⟨middle, ends_block, fun shown known_shown fits => ?_⟩
    cases known.symm.trans known_shown
    have room : (Ty.int wide).Fits word := Ty.Fits.mono fits le
    rw [truncated (cut_ty.symm ▸ fits)]
    exact congrArg some room.truncate_eq

/-- On a way through the block, the number has been truncated to the width of the narrow read. -/
theorem truncates_through (register : location.isFlag = false) (le : narrow ≤ wide)
    (brings : before.tracker.Brings graph location source given between next)
    (through : block ∈ between)
    (ends : after.func.Ends arguments (between ++ source :: visited) next state) :
    ∃ start word, after.func.Ends arguments visited source start ∧
      (after.func.snapshot arguments start).words given = some word ∧
      ((before.func.ty given).Fits word →
        (after.func.snapshot arguments state).words other = some (Word.truncate narrow word)) := by
  rcases RegisterFlow.exists_latest ⟨block, through, rfl⟩ with ⟨later, _, earlier, rfl, rfl, fresh⟩
  rcases FlowGraph.path_append.mp brings.path with ⟨path_later, path_earlier⟩
  have passes : ∀ passed ∈ later, passed ≠ block ∧
      before.tracker.content? graph location passed = none :=
    fun passed mem => ⟨Ne.symm (fresh passed mem), brings.passes passed (by simp [mem])⟩
  have unheld := brings.passes block (by simp)
  rw [List.append_assoc, List.cons_append] at ends
  rcases merged.words_behind closed kept read differs edge unknown distinct within le path_later
    passes ends with ⟨middle, ends_block, shows⟩
  -- Up to this visit, the way is one on which the narrow read itself was supplied.
  have brings_block : before.tracker.Brings graph location source given earlier block :=
    ⟨path_earlier, brings.known, fun passed mem => brings.passes passed (by simp [mem])⟩
  have distinct_block : before.tracker.Distinct graph location block :=
    fun first second held first_reaches second_reaches =>
      distinct first second held (first_reaches.behind unheld edge)
        (second_reaches.behind unheld edge)
  have latest := brings_block.latest closed distinct_block
    (Tracker.reaching_ne_nil closed brings_block.reaches)
  rcases (merged.read_later register kept read).truncates_of_latest closed
    (Nat.le_trans le within) (merged.reached ▸ latest) ends_block with
    ⟨start, word, ends_source, known, truncated⟩
  refine ⟨start, word, ends_source, known, fun fits => ?_⟩
  exact shows _ (truncated fits) (Ty.fits_truncate (.int narrow) word)

end MergedRead

/-! ### Reads of two widths -/

/--
What a wide read behind a block gives, before a narrow read of the block was made and after it. If
the block that is read holds a value, both give this value. Otherwise, as long as the known values
that reach it are held by different blocks, both evaluate to the number of the latest definition on
the way, if that one is known: the one truncated to the wide width, the other one as well, or to the
narrow width if the way came through the block where the narrow read was made.
-/
structure NarrowedBehind (graph : FlowGraph) (location : Location) (narrow wide : Nat)
    (block next : BlockId) (before plain after : Raising) (value other : ValueId) : Prop where
  held : before.tracker.valueIn? graph location next ≠ none →
    plain.func.SameNumber after.func next value other
  truncates : before.tracker.valueIn? graph location next = none →
    before.tracker.Distinct graph location next →
    ∀ source given between, before.tracker.Brings graph location source given between next →
      ∀ arguments visited left right,
        plain.func.Ends arguments (between ++ source :: visited) next left →
        after.func.Ends arguments (between ++ source :: visited) next right →
          ∃ start number, before.func.Ends arguments visited source start ∧
            before.func.Evaluates arguments start given number ∧
            ((before.func.ty given).Fits number →
              plain.func.Evaluates arguments left value (Word.truncate wide number) ∧
              after.func.Evaluates arguments right other
                (Word.truncate (if block ∈ between then narrow else wide) number))

section TwoWidths

variable {graph : FlowGraph} {location : Location} {narrow wide : Nat} {block next : BlockId}
  {hits : List ReachingDefinition} {before cached plain after : Raising} {cut value other : ValueId}

theorem Raise.run_readRegister_of_located {register : Register} {allPaths asNative : Bool}
    (located : graph.convention.locationOf register = .ok location) (raising : Raising) :
    (readRegister graph register block allPaths asNative).run raising =
      (readLocation graph location (.int (graph.convention.width register)) block allPaths
        asNative).run raising := by
  rw [readRegister, located]
  rfl

/-- A read of a block without a value lets definitions meet, or leaves all of them as they were. -/
theorem Raise.merges_or_unchanged (narrow : Nat) (kept : before.WellKept graph)
    (unknown : before.tracker.valueIn? graph location block = none) :
    let step := readLocation graph location (.int narrow) block false true
    ((step.final before).tracker.merges = before.tracker.merges ∧
        (step.final before).tracker.table = before.tracker.table ∧
        (step.final before).tracker.bindings = before.tracker.bindings) ∨
      ((step.final before).tracker.merges ≠ before.tracker.merges ∧
        ∃ hits cut, step.run before = .ok (some cut) (step.final before) ∧
          MergedRead graph location narrow block hits
            (before.tally Statistics.countPredecessorWalk) cut (step.final before)
            (step.final before).func) := by
  intro step
  rcases run_readLocation graph location (.int narrow) block false true before with
    ⟨answer, after, read, succeeds⟩ | ⟨failure, after, failed, fails⟩
  · rw [final_of_ok succeeds]
    cases read with
    | held known => simp [unknown] at known
    | missing _ _ | direct _ _ => exact Or.inl ⟨rfl, rfl, rfl⟩
    | met unknown reached several met =>
        refine Or.inr ⟨?_, _, _, succeeds, .of_met (kept.tally _) reached unknown several met⟩
        rcases met.exists_chain with ⟨supplied, chain, _, _, merges_eq⟩
        rw [merges_eq, chain.tracker_eq]
        exact fun same => List.cons_ne_nil _ _ (List.append_right_eq_self.mp same)
  · rw [final_of_error fails]
    cases failed with
    | intro _ _ _ abandoned =>
        exact Or.inl ⟨abandoned.merges_eq, abandoned.table_eq.1, abandoned.table_eq.2⟩

/-- Two wide reads of a successor, one before and one after a narrow read of the block. -/
theorem MergedRead.narrowedBehind
    (merged : MergedRead graph location narrow block hits
      (before.tally Statistics.countPredecessorWalk) cut cached cached.func)
    (closed : graph.Closed) (kept : before.WellKept graph) (kept_cached : cached.WellKept graph)
    (contained : before.func.SelfContained) (register : location.isFlag = false)
    (le : narrow ≤ wide) (within : wide ≤ graph.convention.fullWidth location)
    (edge : block ∈ graph.predecessors next) (differs : next ≠ block)
    (read : Read graph location (.int wide) next false true before (some value) plain)
    (again : Read graph location (.int wide) next false true cached (some other) after) :
    NarrowedBehind graph location narrow wide block next before plain after value other := by
  have aside : before.GrowsAside plain := Raising.growsAside_of_read read
  have aside_cached := Raising.growsAside_of_met merged.met
  have aside_again : before.GrowsAside after :=
    IsTrans.trans before cached after aside_cached (Raising.growsAside_of_read again)
  constructor
  · intro known
    rcases Option.ne_none_iff_exists'.mp known with ⟨held, known⟩
    have known_cached : cached.tracker.valueIn? graph location next = some held := by
      rw [Tracker.valueIn?_eq_some_iff] at known ⊢
      rw [merged.content?, if_neg differs]
      exact known
    have held_lt := kept.ranged.lt_size (Tracker.valueIn?_eq_some_iff.mp known)
    cases read with
    | held known_read =>
        cases known.symm.trans known_read
        cases again with
        | held known_again =>
            cases known_cached.symm.trans known_again
            exact aside.sameNumber aside_again contained held_lt
        | direct unknown _ | met unknown _ _ _ => simp [unknown] at known_cached
    | direct unknown _ | met unknown _ _ _ => simp [unknown] at known
  · intro unknown distinct source given between brings arguments visited left right ends ends_again
    have given_lt := kept.ranged.lt_size brings.known
    have plain_number : ∃ start word, plain.func.Ends arguments visited source start ∧
        (plain.func.snapshot arguments start).words given = some word ∧
        ((before.func.ty given).Fits word →
          (plain.func.snapshot arguments left).words value = some (Word.truncate wide word)) := by
      cases read with
      | held known => simp [unknown] at known
      | direct _ reached => exact absurd reached (merged.reaching_ne_single closed edge _ _)
      | met unknown reached several met =>
          have wide_merged := MergedRead.of_met (kept.tally _) reached unknown several met
          have latest := brings.latest closed distinct
            (Tracker.reaching_ne_nil closed brings.reaches)
          exact wide_merged.truncates_of_latest closed within (reached ▸ latest) ends
    have again_number : ∃ start word, after.func.Ends arguments visited source start ∧
        (after.func.snapshot arguments start).words given = some word ∧
        ((before.func.ty given).Fits word →
          (after.func.snapshot arguments right).words other =
            some (Word.truncate (if block ∈ between then narrow else wide) word)) := by
      split
      · next through =>
        exact merged.truncates_through closed kept_cached again differs edge unknown distinct within
          register le brings through ends_again
      · next around =>
        exact merged.truncates_around closed kept_cached again differs edge unknown distinct within
          brings around ends_again
    rcases plain_number with ⟨_, word, ends_plain, known, shows⟩
    rcases again_number with ⟨_, number, ends_after, known_again, shows_again⟩
    rcases aside.exists_word contained ends_plain given_lt with ⟨start, ends_source, same⟩
    rcases aside_again.exists_word contained ends_after given_lt with ⟨_, ends_same, same_again⟩
    cases ends_source.unique ends_same
    rw [same, known, known_again, Option.some.injEq] at same_again
    subst same_again
    refine ⟨start, word, ends_source, ?_, fun fits => ⟨?_, ?_⟩⟩
    · rw [Function.evaluates_iff ends_source.faithful, same, known]
    · rw [Function.evaluates_iff ends.faithful, shows fits]
    · rw [Function.evaluates_iff ends_again.faithful, shows_again fits]

end TwoWidths

/--
What a narrow read of a block without a value does to later wide reads of the same register. If it
makes no merge, these evaluate to the same numbers as without it, in every block. If it does, the
value that it gives is what a wide read of the block gives then, and this has the low bits of what
the wide read gives otherwise, as many as the narrow register has; and the successors of the block
are read as `NarrowedBehind` says.
-/
theorem narrow_read_truncates {graph : FlowGraph} {session : Session} {narrow wide : Register}
    {location : Location} {block : BlockId} (closed : graph.Closed)
    (reachable : Session.Reachable graph session)
    (contained : session.raising.func.SelfContained)
    (narrow_located : graph.convention.locationOf narrow = .ok location)
    (wide_located : graph.convention.locationOf wide = .ok location)
    (le : graph.convention.width narrow ≤ graph.convention.width wide)
    (within : graph.convention.width wide ≤ graph.convention.fullWidth location)
    (unknown : session.raising.tracker.valueIn? graph location block = none) :
    let before := session.raising
    let cached := (Raise.readRegister graph narrow block false true).final before
    (cached.tracker.merges = before.tracker.merges →
      ∀ place value plain other after,
        (Raise.readRegister graph wide place false true).run before = .ok (some value) plain →
        (Raise.readRegister graph wide place false true).run cached = .ok (some other) after →
          plain.func.SameNumber after.func place value other) ∧
    (cached.tracker.merges ≠ before.tracker.merges →
      ∃ cut,
        (Raise.readRegister graph narrow block false true).run before = .ok (some cut) cached ∧
        (Raise.readRegister graph wide block false true).run cached =
          .ok (some cut) (cached.tally Statistics.countLocalHit) ∧
        (∀ value plain,
          (Raise.readRegister graph wide block false true).run before = .ok (some value) plain →
            plain.func.SameLowBits cached.func (graph.convention.width narrow) block value cut) ∧
        ∀ next value plain other after, block ∈ graph.predecessors next → next ≠ block →
          (Raise.readRegister graph wide next false true).run before = .ok (some value) plain →
          (Raise.readRegister graph wide next false true).run cached = .ok (some other) after →
            NarrowedBehind graph location (graph.convention.width narrow)
              (graph.convention.width wide) block next before plain after value other) := by
  intro before cached
  have kept : before.WellKept graph := (reachable.inOrder closed).kept
  have register := Raise.isFlag_of_locationOf narrow_located
  have cached_eq : cached = (Raise.readLocation graph location
      (.int (graph.convention.width narrow)) block false true).final before := by
    show Raise.final _ before = _
    rw [Raise.final, Raise.run_readRegister_of_located narrow_located]
    rfl
  have moves : Moves graph block before cached := by
    rw [cached_eq]
    exact (Raise.leads_readLocation graph location _ block false true before
      fun flagged => by simp [register] at flagged).final.moves
  have aside : before.GrowsAside cached := by
    rw [cached_eq]
    exact (Raising.leads_readLocation_growsAside graph location _ block false true before).final
  have kept_cached := moves.wellKept kept closed
  rw [Raise.run_readRegister_of_located narrow_located]
  simp only [Raise.run_readRegister_of_located wide_located]
  rcases Raise.merges_or_unchanged (graph.convention.width narrow) kept unknown with
    ⟨unmerged, table_eq, bindings_eq⟩ | ⟨merges, hits, cut, run, merged⟩
  · rw [← cached_eq] at unmerged table_eq bindings_eq
    refine ⟨?_, fun merges => absurd unmerged merges⟩
    intro _ place value plain other after run run_again
    have read := Raise.read_of_run run
    have again := Raise.read_of_run run_again
    apply read.sameNumber again closed kept kept_cached ?_ contained
      (Raising.growsAside_of_read read)
      (IsTrans.trans before cached after aside (Raising.growsAside_of_read again))
    exact fun elsewhere => Tracker.definitionIn?_congr bindings_eq (by rw [table_eq])
  · rw [← cached_eq] at merges run merged
    refine ⟨fun unmerged => absurd unmerged merges, fun _ => ⟨cut, run, ?_, ?_, ?_⟩⟩
    · apply Raise.run_readLocation_of_known
      rw [Tracker.valueIn?_eq_some_iff, merged.content?, if_pos rfl]
    · intro value plain run
      have read := Raise.read_of_run run
      have aside_plain := Raising.growsAside_of_read read
      cases read with
      | held known => simp [before, unknown] at known
      | direct _ reached => exact absurd (merged.reached.symm.trans reached) (merged.several.2 _ _)
      | met unknown reached several met =>
          cases merged.reached.symm.trans reached
          have wide_merged := MergedRead.of_met (kept.tally _) reached unknown several met
          exact wide_merged.sameLowBits le merged closed contained
            (reached ▸ kept.ranged.allHeld closed false) aside_plain aside
    · intro next value plain other after edge differs run run_again
      exact merged.narrowedBehind closed kept kept_cached contained register le within edge differs
        (Raise.read_of_run run) (Raise.read_of_run run_again)

/-- Two arms that write the register, the block in which they join, and one behind it. -/
def armsGraph : FlowGraph where
  blocks := #[
    { name := "entry", predecessors := [], effects := [] },
    { name := "left", predecessors := [0],
      effects := [{ writes := [.rax], family := .other "mov" }] },
    { name := "right", predecessors := [0],
      effects := [{ writes := [.rax], family := .other "mov" }] },
    { name := "join", predecessors := [1, 2], effects := [] },
    { name := "last", predecessors := [3], effects := [] }]

/-- The arms give the register the first two arguments, and the third one chooses between them. -/
def armsSession : Session :=
  (Session.starting armsGraph "arms" [.int 64, .int 64, .bool]
    ["entry", "left", "right", "join", "last"]).after armsGraph
    [.terminate 0 (.branchIf 2 1 2), .writeRegister .rax 1 0, .terminate 1 (.branch 3),
      .writeRegister .rax 2 1, .terminate 2 (.branch 3), .terminate 3 (.branch 4)]

theorem closed_armsGraph : armsGraph.Closed := by
  decide +kernel

theorem built_armsSession : Session.Built armsGraph armsSession := by
  refine (Session.Built.start (Session.starts_starting rfl ?_)).after ?_ ?_
  · decide +kernel
  · refine ⟨trivial, ?_, trivial, ?_, trivial, trivial, trivial⟩ <;> cbv
  · decide +kernel

theorem content?_armsSession {block : BlockId} (block_lt : block < 5) :
    armsSession.raising.tracker.content? armsGraph (.register .rax) block =
      if block = 1 then some (.known 0) else if block = 2 then some (.known 1) else none := by
  revert block
  decide +kernel

theorem distinct_armsSession (block : BlockId) :
    armsSession.raising.tracker.Distinct armsGraph (.register .rax) block := by
  intro first second value first_reaches second_reaches first_known second_known
  have place : ∀ source < 5,
      armsSession.raising.tracker.content? armsGraph (.register .rax) source =
        some (.known value) → source = value + 1 := by
    intro source source_lt known
    rw [content?_armsSession source_lt] at known
    split_ifs at known with left right <;> cases known
    · exact left
    · exact right
  rw [place first (first_reaches.source_lt closed_armsGraph) first_known,
    place second (second_reaches.source_lt closed_armsGraph) second_known]

/-- The state after the low byte was read in the block where the arms join. -/
def armsCached : Raising :=
  (Raise.readRegister armsGraph .al 3 false true).final armsSession.raising

/-- The state after all of the register was read there instead. -/
def armsPlain : Raising :=
  (Raise.readRegister armsGraph .rax 3 false true).final armsSession.raising

theorem run_armsCached :
    (Raise.readRegister armsGraph .al 3 false true).run armsSession.raising =
      .ok (some 11) armsCached := by
  cbv

theorem run_armsPlain :
    (Raise.readRegister armsGraph .rax 3 false true).run armsSession.raising =
      .ok (some 10) armsPlain := by
  cbv

/-- The low byte is all that later reads have of the register, in the join and behind it. -/
theorem narrow_read_truncates_arms :
    armsGraph.Closed ∧ Session.Reachable armsGraph armsSession ∧
      armsSession.raising.func.SelfContained ∧
      armsGraph.convention.locationOf .al = .ok (.register .rax) ∧
      armsGraph.convention.locationOf .rax = .ok (.register .rax) ∧
      armsSession.raising.tracker.valueIn? armsGraph (.register .rax) 3 = none ∧
      armsCached.tracker.merges ≠ armsSession.raising.tracker.merges ∧
      (Raise.readRegister armsGraph .rax 3 false true).run armsCached =
        .ok (some 11) (armsCached.tally Statistics.countLocalHit) ∧
      armsPlain.func.SameLowBits armsCached.func 8 3 10 11 ∧
      ∃ plain after,
        (Raise.readRegister armsGraph .rax 4 false true).run armsSession.raising =
          .ok (some 10) plain ∧
        (Raise.readRegister armsGraph .rax 4 false true).run armsCached = .ok (some 11) after ∧
        NarrowedBehind armsGraph (.register .rax) 8 64 3 4 armsSession.raising plain after 10 11 ∧
        armsSession.raising.tracker.Distinct armsGraph (.register .rax) 4 ∧
        armsSession.raising.tracker.Brings armsGraph (.register .rax) 1 0 [3] 4 := by
  have unknown : armsSession.raising.tracker.valueIn? armsGraph (.register .rax) 3 = none := by
    decide +kernel
  have merges : armsCached.tracker.merges ≠ armsSession.raising.tracker.merges := by
    intro same
    have made : armsCached.tracker.merges.length = 1 := by
      cbv
    have none_before : armsSession.raising.tracker.merges.length = 0 := by
      cbv
    rw [same, none_before] at made
    cases made
  have narrow_located : armsGraph.convention.locationOf .al = .ok (.register .rax) := rfl
  have wide_located : armsGraph.convention.locationOf .rax = .ok (.register .rax) := rfl
  have reachable := built_armsSession.reachable
  have contained := built_armsSession.selfContained closed_armsGraph
  rcases (narrow_read_truncates closed_armsGraph reachable contained narrow_located wide_located
    (by decide) (by decide) unknown).2 merges with
    ⟨cut, run, hits, low_bits, behind⟩
  have cut_eq : cut = 11 := by
    rw [run_armsCached] at run
    cases run
    rfl
  subst cut_eq
  have plain_run : (Raise.readRegister armsGraph .rax 4 false true).run armsSession.raising =
      .ok (some 10) ((Raise.readRegister armsGraph .rax 4 false true).final
        armsSession.raising) := by
    cbv
  have after_run : (Raise.readRegister armsGraph .rax 4 false true).run armsCached =
      .ok (some 11) ((Raise.readRegister armsGraph .rax 4 false true).final armsCached) := by
    cbv
  refine ⟨closed_armsGraph, reachable, contained, narrow_located, wide_located, unknown, merges,
    hits, low_bits 10 armsPlain run_armsPlain, _, _, plain_run, after_run,
    behind 4 10 _ 11 _ (by decide) (by decide) plain_run after_run, distinct_armsSession 4, ?_⟩
  have edge : 1 ∈ armsGraph.predecessors 3 := by decide
  refine ⟨⟨by decide, edge⟩, content?_armsSession (by decide), ?_⟩
  rintro other mem
  rw [List.mem_singleton.mp mem]
  exact content?_armsSession (by decide)

/-- An execution that takes the left arm comes to the join if its blocks can be traversed. -/
theorem exists_ends_left_arm {func : Function} {arguments : Array UInt64}
    {entered taken joined : Snapshot}
    (enter : func.traverse arguments (func.snapshot arguments {}) (func.body BlockId.entry) =
      some entered)
    (branches : func.exitFrom? entered BlockId.entry = some (.jump 1))
    (take : func.traverse arguments entered (func.body 1) = some taken)
    (joins : func.exitFrom? taken 1 = some (.jump 3))
    (join : func.traverse arguments taken (func.body 3) = some joined) :
    ∃ state, func.Ends arguments [1, BlockId.entry] 3 state ∧
      func.snapshot arguments state = joined := by
  rcases Function.Ends.exists_entry enter with ⟨first, ends_entry, rfl⟩
  rcases ends_entry.exists_jump branches take with ⟨second, ends_left, rfl⟩
  exact ends_left.exists_jump joins join

/--
With 511 in the left arm, the register has this number in the join, but only its low byte, 255, if
this byte was read there first.
-/
theorem not_sameNumber_arms :
    armsGraph.Closed ∧ Session.Reachable armsGraph armsSession ∧
      armsGraph.convention.locationOf .al = armsGraph.convention.locationOf .rax ∧
      armsGraph.convention.width .al ≤ armsGraph.convention.width .rax ∧
      armsSession.raising.tracker.valueIn? armsGraph (.register .rax) 3 = none ∧
      (Raise.readRegister armsGraph .rax 3 false true).run armsSession.raising =
        .ok (some 10) armsPlain ∧
      (Raise.readRegister armsGraph .al 3 false true).run armsSession.raising =
        .ok (some 11) armsCached ∧
      (∃ after, (Raise.readRegister armsGraph .rax 3 false true).run armsCached =
          .ok (some 11) after ∧ after.func = armsCached.func) ∧
      (∃ left right, armsPlain.func.Ends #[511, 0, 1] [1, 0] 3 left ∧
        armsCached.func.Ends #[511, 0, 1] [1, 0] 3 right ∧
        armsPlain.func.Evaluates #[511, 0, 1] left 10 511 ∧
        armsCached.func.Evaluates #[511, 0, 1] right 11 255) ∧
      ¬ armsPlain.func.SameNumber armsCached.func 3 10 11 := by
  have unknown : armsSession.raising.tracker.valueIn? armsGraph (.register .rax) 3 = none := by
    decide +kernel
  have run_again : (Raise.readRegister armsGraph .rax 3 false true).run armsCached =
      .ok (some 11) (armsCached.tally Statistics.countLocalHit) := by
    cbv
  rcases @exists_ends_left_arm armsPlain.func #[511, 0, 1]
      (armsPlain.func.snapshot #[511, 0, 1] {})
      ((armsPlain.func.snapshot #[511, 0, 1] {}).write 0 511)
      (((armsPlain.func.snapshot #[511, 0, 1] {}).write 0 511).learn 10 511)
      (by cbv) (by cbv) (by cbv) (by cbv) (by cbv) with ⟨left, ends, snapshot_left⟩
  rcases @exists_ends_left_arm armsCached.func #[511, 0, 1]
      (armsCached.func.snapshot #[511, 0, 1] {})
      ((armsCached.func.snapshot #[511, 0, 1] {}).write 0 511)
      ((((armsCached.func.snapshot #[511, 0, 1] {}).write 0 511).learn 10 511).learn 11 255)
      (by cbv) (by cbv) (by cbv) (by cbv) (by cbv) with ⟨right, ends_again, snapshot_right⟩
  have whole : armsPlain.func.Evaluates #[511, 0, 1] left 10 511 := by
    rw [Function.evaluates_iff ends.faithful, snapshot_left]
    cbv
  have low_byte : (armsCached.func.snapshot #[511, 0, 1] right).words 11 = some 255 := by
    rw [snapshot_right]
    cbv
  refine ⟨closed_armsGraph, built_armsSession.reachable, rfl, by decide, unknown, run_armsPlain,
    run_armsCached, ⟨_, run_again, rfl⟩, ⟨left, right, ends, ends_again, whole, ?_⟩, fun same => ?_⟩
  · exact (Function.evaluates_iff ends_again.faithful).mpr low_byte
  · have spoiled := (same _ _ left right ends ends_again 511).mp whole
    rw [Function.evaluates_iff ends_again.faithful, low_byte] at spoiled
    cases spoiled

end RegisterFlow
