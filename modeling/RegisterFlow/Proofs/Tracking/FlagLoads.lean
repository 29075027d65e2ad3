import RegisterFlow.Proofs.Tracking.FlagRules
import RegisterFlow.Proofs.Tracking.Supply

/-!
# Flags that are loaded

While blocks are raised in layout order, a read of a flag can only meet definitions of blocks in
front of the reading one. These are known, so that all of them store into the slot at once, and
nothing is stored there later. A value loaded from the slot is thus tied to the blocks in front.
-/

namespace RegisterFlow

open Relation (ReflTransGen)

/--
A value of a flag that a block loaded from a slot. The blocks in front of it whose definitions reach
it store them into the slot, and no other block stores anything there.
-/
structure FlagLoad (graph : FlowGraph) (flag : Flag) (block : BlockId) (value : ValueId)
    (slot : SlotId) (raising : Raising) : Prop where
  slot_lt : slot < raising.func.slots.size
  mem : value ∈ raising.func.body block
  loads : raising.func.operation value = .load slot
  supplied : ∀ source between given, graph.Path source between block → source < block →
    raising.tracker.content? graph (.flag flag) source = some (.known given) →
    (∀ other ∈ between, other < block →
      raising.tracker.content? graph (.flag flag) other = none) →
    raising.func.storedIn slot source = [given]
  supplier : ∀ source, raising.func.storedIn slot source ≠ [] →
    source < block ∧ (raising.tracker.content? graph (.flag flag) source).isSome
  timely : raising.func.Timely slot

/-- No block behind the given one holds a definition of a flag. -/
def Raising.FlagsUpTo (graph : FlowGraph) (block : BlockId) (raising : Raising) : Prop :=
  ∀ flag other, (raising.tracker.content? graph (.flag flag) other).isSome → other ≤ block

/-- No store waits for a slot that exists. -/
structure Raising.Unawaited (slot : SlotId) (raising : Raising) : Prop where
  slot_lt : slot < raising.func.slots.size
  ne_slot : ∀ store ∈ raising.tracker.deferred, store.slot ≠ slot

section FlagLoad

variable {graph : FlowGraph} {flag : Flag} {block : BlockId} {value : ValueId} {slot : SlotId}
  {before after : Raising}

/-- A load of a flag stays one while blocks in front of it keep their definitions and stores. -/
theorem FlagLoad.mono (load : FlagLoad graph flag block value slot before)
    (grown : before.func.Extends after.func) (numbered : before.func.Numbered)
    (stores : ∀ source, after.func.storedIn slot source = before.func.storedIn slot source)
    (content : ∀ source < block, after.tracker.content? graph (.flag flag) source =
      before.tracker.content? graph (.flag flag) source) :
    FlagLoad graph flag block value slot after where
  slot_lt := Nat.lt_of_lt_of_le load.slot_lt grown.slotCount_le
  mem := (grown.body_prefix block).subset load.mem
  loads := grown.operation_of_ne (by simp) load.loads
  supplied := by
    intro source between given path front known transparent
    rw [content source front] at known
    rw [stores]
    apply load.supplied source between given path front known
    intro other mem earlier
    rw [← content other earlier]
    exact transparent other mem earlier
  supplier := by
    intro source stored
    rw [stores] at stored
    rcases load.supplier source stored with ⟨front, held⟩
    exact ⟨front, content source front ▸ held⟩
  timely := load.timely.mono grown numbered stores

/-- Whatever proceeds in a block keeps the loads of flags there and behind. -/
theorem FlagLoad.proceeds {worked : BlockId} (load : FlagLoad graph flag block value slot before)
    (numbered : before.func.Numbered) (proceeds : before.Proceeds graph worked after)
    (behind : block ≤ worked) : FlagLoad graph flag block value slot after := by
  apply load.mono proceeds.grows.toExtends numbered
  · exact fun source => proceeds.storedIn_eq numbered slot load.slot_lt source
  · intro source front
    exact proceeds.content_of_ne _ _ (Nat.ne_of_lt (Nat.lt_of_lt_of_le front behind))

theorem Raising.Unawaited.proceeds {worked : BlockId} (unawaited : before.Unawaited slot)
    (proceeds : before.Proceeds graph worked after) : after.Unawaited slot where
  slot_lt := Nat.lt_of_lt_of_le unawaited.slot_lt proceeds.grows.slotCount_le
  ne_slot := by
    intro store mem
    rcases proceeds.deferred with ⟨added, deferred_eq, fresh⟩
    rw [deferred_eq] at mem
    rcases List.mem_append.mp mem with old | new
    · exact unawaited.ne_slot store old
    · exact Nat.ne_of_gt (Nat.lt_of_lt_of_le unawaited.slot_lt (fresh store new).1)

theorem Raising.FlagsUpTo.proceeds (limited : before.FlagsUpTo graph block)
    (proceeds : before.Proceeds graph block after) : after.FlagsUpTo graph block := by
  intro flag other held
  by_cases same : other = block
  · exact Nat.le_of_eq same
  · rw [proceeds.content_of_ne _ _ same] at held
    exact limited flag other held

end FlagLoad

/-- The slot in which truth values meet has the type of truth values. -/
theorem meetingTy_of_bool {func : Function} {fullWidth : Nat} {hits : List ReachingDefinition}
    (nonempty : hits ≠ [])
    (truths : ∀ hit ∈ hits, ∃ value, hit.content = .known value ∧ func.ty value = .bool) :
    meetingTy func fullWidth hits = .bool := by
  have widths : hits.mapM (·.integerWidth? func) = some (List.replicate hits.length 1) := by
    clear nonempty
    induction hits with
    | nil => rfl
    | cons hit hits ih =>
        rcases truths hit List.mem_cons_self with ⟨value, known, typed⟩
        have width : hit.integerWidth? func = some 1 := by
          simp [ReachingDefinition.integerWidth?, known, Content.value?, typed, Ty.intBits?]
        rw [List.mapM_cons, width, ih fun later mem => truths later (List.mem_cons_of_mem _ mem)]
        rfl
  have folded : ∀ count, (List.replicate count 1).foldl max 1 = 1 := by
    intro count
    induction count with
    | zero => rfl
    | succ count ih => simpa [List.replicate_succ] using ih
  rw [meetingTy, widths]
  cases hits with
  | nil => exact absurd rfl nonempty
  | cons hit hits => simp [List.replicate_succ, folded]

section Met

variable {graph : FlowGraph} {flag : Flag} {block : BlockId} {value : ValueId}
  {hits : List ReachingDefinition} {allPaths : Bool} {before after : Raising}

theorem Raising.Flagged.content?_of_unknown (flagged : before.Flagged graph)
    (unknown : before.tracker.valueIn? graph (.flag flag) block = none) :
    before.tracker.content? graph (.flag flag) block = none := by
  rw [Option.eq_none_iff_forall_ne_some]
  intro content held
  rcases flagged flag block content held with ⟨known, rfl, _⟩
  rw [← Tracker.valueIn?_eq_some_iff, unknown] at held
  cases held

/-- Definitions of a flag that reach a block are known truth values. -/
theorem Raising.Flagged.of_mem_reaching {hit : ReachingDefinition} (flagged : before.Flagged graph)
    (closed : graph.Closed)
    (mem : hit ∈ before.tracker.reaching graph (.flag flag) block allPaths) :
    ∃ value, hit.content = .known value ∧ before.func.ty value = .bool := by
  have content := (Tracker.reaches_of_mem_reaching closed mem).2
  rcases flagged flag hit.block hit.content content with ⟨value, known, fits⟩
  exact ⟨value, known, fits.ty_eq⟩

theorem Raising.Flagged.slotTy_eq (flagged : before.Flagged graph) (closed : graph.Closed)
    (reached : before.tracker.reaching graph (.flag flag) block allPaths = hits)
    (nonempty : hits ≠ []) : before.slotTy graph (.flag flag) hits = .bool := by
  subst reached
  exact meetingTy_of_bool nonempty fun hit mem => flagged.of_mem_reaching closed mem

/-- When definitions of a flag meet, the reading block loads it. -/
theorem Met.flagLoad (closed : graph.Closed) (kept : before.WellKept graph)
    (flagged : before.Flagged graph) (limited : before.FlagsUpTo graph block)
    (unknown : before.tracker.valueIn? graph (.flag flag) block = none)
    (reached : before.tracker.reaching graph (.flag flag) block allPaths = hits)
    (nonempty : hits ≠ []) (distinct : before.tracker.Distinct graph (.flag flag) block)
    (met : Met (.flag flag) (before.slotTy graph (.flag flag) hits) block hits (some .bool) before
      value after) :
    FlagLoad graph flag block value before.func.slots.size after := by
  have absent := flagged.content?_of_unknown unknown
  have content_eq : ∀ source < block, after.tracker.content? graph (.flag flag) source =
      before.tracker.content? graph (.flag flag) source := by
    intro source front
    rw [met.content?, if_neg fun same => Nat.ne_of_lt front same.2]
  have in_front : ∀ source, (before.tracker.content? graph (.flag flag) source).isSome →
      source < block := by
    intro source held
    apply Nat.lt_of_le_of_ne (limited flag source held)
    rintro rfl
    rw [absent] at held
    cases held
  have grows := met.grows
  rw [flagged.slotTy_eq closed reached nonempty] at met
  have bound : block < before.func.blocks.size :=
    kept.blockCount_eq ▸ Tracker.lt_size_of_reaching closed reached nonempty
  rcases met.exists_load bound with ⟨load, mem, loads, _, same | converted⟩
  · rcases same with ⟨rfl, -⟩
    exact {
      slot_lt := met.slot_lt
      mem := mem
      loads := loads
      supplied := by
        intro source between given path front known transparent
        rw [content_eq source front] at known
        have reaches : Tracker.Reaches graph before.tracker (.flag flag) source block := by
          refine Tracker.reaches_of_path path (by simp [known]) fun other other_mem => ?_
          by_contra held
          have earlier := in_front other (Option.ne_none_iff_isSome.mp held)
          rw [← content_eq other earlier] at held
          exact held (transparent other other_mem earlier)
        rcases met.storedIn_of_reaches closed kept (by simp) reached nonempty distinct reaches known
          with ⟨stored, stored_eq, converts⟩
        rcases flagged flag source _ known with ⟨_, same_given, fits⟩
        cases same_given
        have typed : after.func.ty given = .bool :=
          grows.ty_of_ne (by simp) fits.ty_eq
        cases converts with
        | same _ => exact stored_eq
        | cast differs _ _ _ _ => exact absurd typed differs
      supplier := by
        intro source stores
        rcases met.reaches_of_storedIn closed kept (by simp) reached stores with ⟨_, given, known⟩
        have front := in_front source (by simp [known])
        exact ⟨front, by simp [content_eq source front, known]⟩
      timely := by
        apply met.timely kept
        intro hit hit_mem given known
        rcases flagged.of_mem_reaching closed (reached ▸ hit_mem) with ⟨truth, same, typed⟩
        rw [known] at same
        cases same
        exact Function.lt_size_of_ty (by simp) typed }
  · -- The slot has the type at which the flag is read, so nothing is converted.
    exact absurd rfl converted.1

/-- No definition of a flag is pending, so no store waits for the slot in which they meet. -/
theorem Met.unawaited {ty : Ty} {native : Option Ty} (closed : graph.Closed)
    (kept : before.WellKept graph) (flagged : before.Flagged graph)
    (reached : before.tracker.reaching graph (.flag flag) block allPaths = hits)
    (met : Met (.flag flag) ty block hits native before value after) :
    after.Unawaited before.func.slots.size where
  slot_lt := met.slot_lt
  ne_slot := by
    have known : hits.filterMap (·.waiting? (.flag flag) before.func.slots.size) = [] := by
      rw [List.filterMap_eq_nil_iff]
      intro hit mem
      rcases flagged.of_mem_reaching closed (reached ▸ mem) with ⟨truth, known, _⟩
      simp [ReachingDefinition.waiting?, known]
    rcases met.exists_chain with ⟨supplied, chain, _, deferred_eq, _⟩
    intro store mem
    rw [deferred_eq, chain.tracker_eq, known, List.append_nil] at mem
    exact Nat.ne_of_lt (kept.waiting_slot store mem)

end Met

/-! ### Inquiries that load flags -/

/-- The merges that were made since an earlier state. -/
def Raising.mergesSince (earlier later : Raising) : List Merge :=
  later.tracker.merges.drop earlier.tracker.merges.length

section Inquiries

variable {graph : FlowGraph} {flag : Flag} {block : BlockId} {start middle before after : Raising}

theorem Move.merges_prefix (move : Move graph block before after) :
    before.tracker.merges <+: after.tracker.merges := by
  cases move with
  | tally _ => exact List.prefix_refl _
  | grow _ => exact List.prefix_refl _
  | file _ _ _ => exact List.prefix_refl _
  | note merge => exact List.prefix_append ..
  | supply _ _ chain =>
      rw [chain.tracker_eq]
      exact List.prefix_refl _

theorem Moves.merges_prefix (moves : Moves graph block before after) :
    before.tracker.merges <+: after.tracker.merges := by
  induction moves with
  | refl => exact List.prefix_refl _
  | tail _ move ih => exact ih.trans move.merges_prefix

theorem Raising.mem_mergesSince {merge : Merge}
    (first : start.tracker.merges <+: middle.tracker.merges)
    (second : middle.tracker.merges <+: after.tracker.merges)
    (mem : merge ∈ start.mergesSince middle) : merge ∈ start.mergesSince after := by
  rcases first with ⟨made, made_eq⟩
  rcases second with ⟨further, further_eq⟩
  simp only [mergesSince, ← further_eq, ← made_eq, List.append_assoc, List.drop_left] at mem ⊢
  exact List.mem_append_left _ mem

/-- The known values of a flag are distinct wherever definitions of it meet. -/
def Raising.DistinctSince (graph : FlowGraph) (location : Location) (start after : Raising) : Prop :=
  ∀ merge ∈ start.mergesSince after, merge.location = location →
    start.tracker.Distinct graph location merge.block

theorem Raising.distinctSince_of_unmerged {location : Location}
    (unmerged : start.mergesSince after = []) : start.DistinctSince graph location after := by
  intro merge mem
  rw [unmerged] at mem
  cases mem

/-- A flag that is known after inquiries was known before, or the inquiring block loaded it. -/
theorem Inquiries.known_flag (closed : graph.Closed) (kept : start.WellKept graph)
    (flagged : start.Flagged graph) (limited : start.FlagsUpTo graph block)
    (inquiries : Inquiries graph block start after)
    (distinct : start.DistinctSince graph (.flag flag) after) (other : BlockId) (value : ValueId)
    (known : after.tracker.content? graph (.flag flag) other = some (.known value)) :
    start.tracker.content? graph (.flag flag) other = some (.known value) ∨
      other = block ∧ ∃ slot, start.func.slots.size ≤ slot ∧
        FlagLoad graph flag block value slot after ∧ after.Unawaited slot := by
  induction inquiries with
  | refl => exact Or.inl known
  | @tail middle after earlier inquiry ih =>
      have earlier_moves := Inquiries.moves earlier
      have moves := inquiry.moves
      have middle_kept := earlier_moves.wellKept kept closed
      have middle_flagged := earlier_moves.flagged flagged
      have carried : middle.tracker.content? graph (.flag flag) other = some (.known value) →
          start.tracker.content? graph (.flag flag) other = some (.known value) ∨
            other = block ∧ ∃ slot, start.func.slots.size ≤ slot ∧
              FlagLoad graph flag block value slot after ∧ after.Unawaited slot := by
        intro known_before
        have distinct_before : start.DistinctSince graph (.flag flag) middle :=
          fun merge mem => distinct merge
            (Raising.mem_mergesSince earlier_moves.merges_prefix moves.merges_prefix mem)
        refine (ih distinct_before known_before).imp_right ?_
        rintro ⟨same, slot, new, load, unawaited⟩
        exact ⟨same, slot, new,
          load.proceeds middle_kept.numbered moves.proceeds (Nat.le_refl _),
          unawaited.proceeds moves.proceeds⟩
      cases inquiry with
      | tally _ => exact carried known
      | grow _ => exact carried known
      | abandoned _ _ _ abandoned => exact carried (abandoned.content?.symm.trans known)
      | @met _ location native allPaths hits read unknown reached several typed met =>
          rw [met.content?] at known
          split at known
          · next here =>
            rcases here with ⟨rfl, rfl⟩
            cases known
            right
            obtain rfl := typed rfl
            -- The flag was not read before, so its definitions are those of the start.
            have unchanged : ∀ source, start.tracker.content? graph (.flag flag) source =
                middle.tracker.content? graph (.flag flag) source := by
              intro source
              by_cases same : source = other
              · subst same
                have absent := middle_flagged.content?_of_unknown unknown
                rw [absent, Option.eq_none_iff_forall_ne_some]
                intro content held
                rcases flagged flag source content held with ⟨old, rfl, _⟩
                rcases earlier_moves.proceeds.known_of_known _ _ held with ⟨later, still⟩
                rw [absent] at still
                cases still
              · rw [earlier_moves.proceeds.content_of_ne _ _ same]
            have merged : (⟨.flag flag, other, middle.func.slots.size, value⟩ : Merge) ∈
                start.mergesSince after := by
              rcases earlier_moves.merges_prefix with ⟨made, made_eq⟩
              rcases met.exists_chain with ⟨supplied, chain, _, _, merges_eq⟩
              rw [Raising.mergesSince, merges_eq, chain.tracker_eq]
              simp only [Raising.opened, ← made_eq, List.append_assoc, List.drop_left]
              simp
            have load := met.flagLoad closed middle_kept middle_flagged
              (limited.proceeds earlier_moves.proceeds) unknown reached several.1
              ((distinct _ merged rfl).congr unchanged)
            exact ⟨rfl, middle.func.slots.size, earlier_moves.proceeds.grows.slotCount_le, load,
              met.unawaited closed middle_kept middle_flagged reached⟩
          · exact carried known

end Inquiries

end RegisterFlow
