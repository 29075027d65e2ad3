import Mathlib.Data.List.Induction
import RegisterFlow.Proofs.Tracking.Contents
import RegisterFlow.Proofs.Tracking.FlagLoads
import RegisterFlow.Proofs.Tracking.Obligations

/-!
# Flags in layout order

A driver that raises every block whole and in layout order leaves two kinds of flag definitions: the
values that blocks set, and the values that blocks loaded when they read a flag that they had not
set. The loaded ones stay tied to the blocks in front of them for the rest of the session.
-/

namespace RegisterFlow

namespace Action

/-- Every block is worked in once, whole, and in layout order. -/
def InLayoutOrder (actions : List Action) : Prop :=
  (actions.filterMap block?).Pairwise (· ≤ ·)

/-- Whether an action is one that gives a flag a value in a block. -/
def Sets (flag : Flag) (block : BlockId) : Action → Prop
  | deriveFlag derived worked family _ =>
    worked = block ∧ (derived = flag ∨ Raise.twin? derived family = some flag)
  | writeFlag written worked _ => worked = block ∧ written = flag
  | _ => False

end Action

namespace Session

/-- Some action of a list succeeds in giving a flag a value in a block. -/
def SetsFlag (graph : FlowGraph) (session : Session) (actions : List Action) (flag : Flag)
    (block : BlockId) : Prop :=
  ∃ earlier action later, actions = earlier ++ action :: later ∧ action.Sets flag block ∧
    (action.step graph).succeeds (session.after graph earlier).raising = true

/-- A driver starts a session and works in the blocks one after the other, in layout order. -/
structure RaisesInOrder (graph : FlowGraph) (start : Session) (actions : List Action) : Prop where
  starts : Starts graph start
  allowed : AllowsAll graph start actions
  layout : Action.InLayoutOrder actions

/-- The known values of a location are distinct wherever an action lets definitions of it meet. -/
def DistinctMerges (graph : FlowGraph) (session : Session) (actions : List Action)
    (location : Location) : Prop :=
  ∀ earlier action later, actions = earlier ++ action :: later →
    (session.after graph earlier).raising.DistinctSince graph location
      ((session.after graph earlier).perform graph action).raising

variable {graph : FlowGraph} {session start : Session} {flag : Flag} {block other : BlockId}
  {action : Action} {actions : List Action} {value : ValueId} {slot : SlotId}

namespace RaisesInOrder

variable {earlier later : List Action}

theorem front (raises : RaisesInOrder graph start (earlier ++ later)) :
    RaisesInOrder graph start earlier where
  starts := raises.starts
  allowed := (allowsAll_append.mp raises.allowed).1
  layout := by
    have layout := raises.layout
    rw [Action.InLayoutOrder, List.filterMap_append, List.pairwise_append] at layout
    exact layout.1

theorem inOrder (closed : graph.Closed) (raises : RaisesInOrder graph start actions) :
    (start.after graph actions).InOrder graph :=
  raises.starts.inOrder.of_allowsAll closed raises.allowed

/-- Earlier actions do not work behind the block of an action, and later ones not in front of it. -/
theorem le_block (raises : RaisesInOrder graph start (earlier ++ action :: later))
    (works : action.block? = some block) :
    (∀ worked ∈ earlier.filterMap Action.block?, worked ≤ block) ∧
      ∀ further ∈ later, ∀ worked, further.block? = some worked → block ≤ worked := by
  have layout := raises.layout
  rw [Action.InLayoutOrder, List.filterMap_append, List.filterMap_cons_some works,
    List.pairwise_append, List.pairwise_cons] at layout
  refine ⟨fun worked mem => layout.2.2 worked mem block List.mem_cons_self, ?_⟩
  intro further mem worked works_in
  exact layout.2.1.1 worked (List.mem_filterMap.mpr ⟨further, mem, works_in⟩)

end RaisesInOrder

end Session

namespace Raise

variable {graph : FlowGraph} {block : BlockId} {before : Raising}

/-- A flag that is derived is filed in its block, with the flag that is set alike. -/
inductive DerivedFrom (graph : FlowGraph) (block : BlockId) (derived : Flag) (family : Family)
    (middle : Raising) : Raising → Prop where
  | intro {id : ValueId} {name : String} {table : Table} {statistics : Statistics}
      (filed : ∀ flag, derived = flag ∨ twin? derived family = some flag →
        ({ middle.tracker with table } : Tracker).content? graph (.flag flag) block =
          some (.known id))
      (others : ∀ flag other,
        ¬ (block = other ∧ (derived = flag ∨ twin? derived family = some flag)) →
        ({ middle.tracker with table } : Tracker).content? graph (.flag flag) other =
          middle.tracker.content? graph (.flag flag) other) :
      DerivedFrom graph block derived family middle
        { func := middle.func.withName id name, tracker := { middle.tracker with table },
          statistics }

/-- Deriving a flag makes inquiries, and then it fails or files what it derived. -/
theorem deriveFlag_outcome (closed : graph.Closed) (flagged : before.Flagged graph)
    (derived : Flag) (family : Family) (test : ValueId) :
    ∃ middle, Inquiries graph block before middle ∧
      ((deriveFlag graph derived block family test).succeeds before = false ∧
          (deriveFlag graph derived block family test).final before = middle ∨
        (deriveFlag graph derived block family test).succeeds before = true ∧
          DerivedFrom graph block derived family middle
            ((deriveFlag graph derived block family test).final before)) := by
  rw [deriveFlag_eq]
  unfold final succeeds
  cases tracked : Location.ofFlag derived with
  | error failure => exact ⟨before, .refl, Or.inl ⟨rfl, rfl⟩⟩
  | ok location =>
      obtain rfl := location_of_ofFlag tracked
      have leads := @leads_flagValue graph block before derived family closed flagged test
      cases outcome : (flagValue graph derived block family test).run before with
      | error failure middle =>
          refine ⟨middle, leads.error outcome, Or.inl ?_⟩
          rw [run_bind_of_ok (run_ofExcept_ok ..), run_bind_of_error outcome]
          exact ⟨rfl, rfl⟩
      | ok value middle =>
          refine ⟨middle, (leads.ok outcome).1, Or.inr ?_⟩
          rcases middle.tracker.table.record_eq_ok Nat.one_pos fun _ => rfl with ⟨first, filed⟩
          have defines : (define (.flag derived) block 1 value).run
              { middle with func := middle.func.withName value derived.name } =
              .ok () { middle with
                func := middle.func.withName value derived.name
                tracker := { middle.tracker with table := first } } := by
            rw [run_define, filed]
          rw [run_bind_of_ok (run_ofExcept_ok ..), run_bind_of_ok outcome,
            run_bind_of_ok (run_build ..), Builder.run_rename, run_bind_of_ok defines]
          cases alike : twin? derived family with
          | none =>
              refine ⟨rfl, .intro (fun flag same => ?_) fun flag other different => ?_⟩
              · rw [Tracker.content?_record filed, if_pos]
                rcases same with rfl | same
                · exact ⟨rfl, rfl⟩
                · cases alike.symm.trans same
              · rw [Tracker.content?_record filed, if_neg]
                rintro ⟨⟨rfl⟩, rfl⟩
                exact different ⟨rfl, Or.inl rfl⟩
          | some twin =>
              rcases first.record_eq_ok Nat.one_pos fun _ => rfl with ⟨second, filed_twin⟩
              have defines_twin : (define (.flag twin) block 1 value).run
                  { middle with
                    func := middle.func.withName value derived.name
                    tracker := { middle.tracker with table := first } } =
                  .ok () { middle with
                    func := middle.func.withName value derived.name
                    tracker := { middle.tracker with table := second } } := by
                rw [run_define, filed_twin]
              dsimp only
              rw [run_bind_of_ok defines_twin]
              have twin_content := fun flag other => @Tracker.content?_record graph
                { middle.tracker with table := first } second (.flag twin) (.flag flag) block other
                1 value filed_twin
              refine ⟨rfl, .intro (fun flag same => ?_) fun flag other different => ?_⟩
              · rw [twin_content, Tracker.content?_record filed]
                rcases same with rfl | same
                · simp
                · cases alike.symm.trans same
                  simp
              · rw [twin_content, if_neg, Tracker.content?_record filed, if_neg]
                · rintro ⟨⟨rfl⟩, rfl⟩
                  exact different ⟨rfl, Or.inl rfl⟩
                · rintro ⟨⟨rfl⟩, rfl⟩
                  exact different ⟨rfl, Or.inr alike⟩

/-- Filing what was derived leaves the loads of other flags as they are. -/
theorem DerivedFrom.flagLoad {derived flag : Flag} {family : Family} {middle after : Raising}
    {loaded : BlockId} {value : ValueId} {slot : SlotId}
    (filed : DerivedFrom graph block derived family middle after) (behind : loaded ≤ block)
    (numbered : middle.func.Numbered) (load : FlagLoad graph flag loaded value slot middle) :
    FlagLoad graph flag loaded value slot after := by
  cases filed with
  | intro _ others =>
      apply load.mono (Function.extends_withName ..) numbered
      · exact fun source => Function.storedIn_withName numbered ..
      · intro source front
        apply others
        rintro ⟨rfl, _⟩
        exact Nat.not_lt_of_le behind front

theorem DerivedFrom.content? {derived flag : Flag} {family : Family} {middle after : Raising}
    {other : BlockId} (filed : DerivedFrom graph block derived family middle after)
    (different : ¬ (block = other ∧ (derived = flag ∨ twin? derived family = some flag))) :
    after.tracker.content? graph (.flag flag) other =
      middle.tracker.content? graph (.flag flag) other := by
  cases filed with
  | intro _ others => exact others flag other different

theorem DerivedFrom.unawaited {derived : Flag} {family : Family} {middle after : Raising}
    {slot : SlotId} (filed : DerivedFrom graph block derived family middle after)
    (unawaited : middle.Unawaited slot) : after.Unawaited slot := by
  cases filed with
  | intro _ _ => exact ⟨unawaited.slot_lt, unawaited.ne_slot⟩

theorem DerivedFrom.mergesSince {derived : Flag} {family : Family} {middle after : Raising}
    (filed : DerivedFrom graph block derived family middle after) :
    before.mergesSince after = before.mergesSince middle := by
  cases filed with
  | intro _ _ => rfl

/-- Writing a flag files it, and no other flag. -/
theorem writeFlag_outcome (written : Flag) (truth : Bool) :
    (writeFlag written block truth).succeeds before = false ∧
        (writeFlag written block truth).final before = before ∨
      (writeFlag written block truth).succeeds before = true ∧
        (∃ value, ((writeFlag written block truth).final before).tracker.content? graph
          (.flag written) block = some (.known value)) ∧
        ∀ flag other, ¬ (block = other ∧ written = flag) →
          ((writeFlag written block truth).final before).tracker.content? graph (.flag flag) other =
            before.tracker.content? graph (.flag flag) other := by
  unfold final succeeds writeFlag
  cases tracked : Location.ofFlag written with
  | error failure => exact Or.inl ⟨rfl, rfl⟩
  | ok location =>
      obtain rfl := location_of_ofFlag tracked
      right
      rcases before.tracker.table.record_eq_ok Nat.one_pos fun _ => rfl with ⟨table, filed⟩
      rw [run_bind_of_ok (run_ofExcept_ok ..), run_bind_of_ok (run_build ..)]
      have defines : (define (.flag written) block 1
          ((Builder.boolean truth).run before.func).1).run
          { before with func := ((Builder.boolean truth).run before.func).2 } =
          .ok () { before with
            func := ((Builder.boolean truth).run before.func).2
            tracker := { before.tracker with table } } := by
        rw [run_define, filed]
      rw [run_bind_of_ok defines]
      refine ⟨rfl, ⟨_, (Tracker.content?_record filed).trans (if_pos ⟨rfl, rfl⟩)⟩, ?_⟩
      intro flag other different
      refine (Tracker.content?_record filed).trans (if_neg ?_)
      rintro ⟨⟨rfl⟩, rfl⟩
      exact different ⟨rfl, rfl⟩

/-- Writing a register changes no flag. -/
theorem content?_flag_writeRegister (register : Register) (value : ValueId) (flag : Flag)
    (other : BlockId) :
    ((writeRegister graph register block value).final before).tracker.content? graph (.flag flag)
        other =
      before.tracker.content? graph (.flag flag) other := by
  unfold final writeRegister
  cases located : graph.convention.locationOf register with
  | error failure => rfl
  | ok location =>
      rw [run_bind_of_ok (run_ofExcept_ok ..)]
      have defines := run_define location block (graph.convention.width register) value before
      cases filed : before.tracker.table.record location block (graph.convention.width register)
          value with
      | error failure =>
          rw [filed] at defines
          rw [run_bind_of_error defines]
      | ok table =>
          rw [filed] at defines
          rw [run_bind_of_ok defines]
          refine (Tracker.content?_record filed).trans (if_neg ?_)
          rintro ⟨rfl, _⟩
          cases isFlag_of_locationOf located

end Raise

namespace Session

variable {graph : FlowGraph} {session start : Session} {flag : Flag} {block worked : BlockId}
  {action : Action} {actions : List Action} {value : ValueId} {slot : SlotId}

/-- Where the value of a flag comes from that a block holds after an action. -/
inductive FlagOrigin (graph : FlowGraph) (session : Session) (action : Action) (flag : Flag)
    (block : BlockId) (value : ValueId) : Prop where
  | held (known : session.raising.tracker.content? graph (.flag flag) block = some (.known value))
  | set (sets : action.Sets flag block)
      (succeeds : (action.step graph).succeeds session.raising = true)
  | loaded {slot : SlotId} (new : session.raising.func.slots.size ≤ slot)
      (load : FlagLoad graph flag block value slot (session.perform graph action).raising)
      (unawaited : (session.perform graph action).raising.Unawaited slot)

section FlagOrigin

variable (closed : graph.Closed) (ordered : session.InOrder graph)
  (limited : session.raising.FlagsUpTo graph block)
include closed ordered limited

theorem FlagOrigin.of_inquiries
    (inquiries : Inquiries graph block session.raising (session.perform graph action).raising)
    (distinct : session.raising.DistinctSince graph (.flag flag)
      (session.perform graph action).raising)
    (known : (session.perform graph action).raising.tracker.content? graph (.flag flag) block =
      some (.known value)) : FlagOrigin graph session action flag block value := by
  rcases inquiries.known_flag closed ordered.kept ordered.flagged limited distinct block value
      known with old | ⟨-, slot, new, load, unawaited⟩
  · exact .held old
  · exact .loaded new load unawaited

theorem FlagOrigin.of_deriveFlag {derived : Flag} {family : Family} {test : ValueId}
    (distinct : session.raising.DistinctSince graph (.flag flag)
      (session.perform graph (.deriveFlag derived block family test)).raising)
    (known : (session.perform graph
        (.deriveFlag derived block family test)).raising.tracker.content? graph (.flag flag) block =
      some (.known value)) :
    FlagOrigin graph session (.deriveFlag derived block family test) flag block value := by
  have performed : (session.perform graph (.deriveFlag derived block family test)).raising =
      (Raise.deriveFlag graph derived block family test).final session.raising :=
    Raise.final_bind_pure ..
  rcases Raise.deriveFlag_outcome closed ordered.flagged derived family test with
    ⟨middle, inquiries, ⟨-, failed⟩ | ⟨succeeds, filed⟩⟩
  · exact .of_inquiries closed ordered limited (performed.trans failed ▸ inquiries) distinct known
  · by_cases sets : derived = flag ∨ Raise.twin? derived family = some flag
    · exact .set ⟨rfl, sets⟩ ((Raise.succeeds_bind_pure ..).trans succeeds)
    -- Another flag was filed, so this one is known since the inquiries in front of that.
    · rw [performed] at known distinct
      have distinct_before : session.raising.DistinctSince graph (.flag flag) middle :=
        fun merge mem => distinct merge (filed.mergesSince ▸ mem)
      have known_before : middle.tracker.content? graph (.flag flag) block =
          some (.known value) := by
        rw [← known]
        exact (filed.content? fun same => sets same.2).symm
      have numbered := (inquiries.moves.wellKept ordered.kept closed).numbered
      rcases inquiries.known_flag closed ordered.kept ordered.flagged limited distinct_before
          block value known_before with old | ⟨-, slot, new, load, unawaited⟩
      · exact .held old
      · exact .loaded new (performed ▸ filed.flagLoad (Nat.le_refl _) numbered load)
          (performed ▸ filed.unawaited unawaited)

omit closed ordered limited in
theorem FlagOrigin.of_writeFlag {written : Flag} {truth : Bool}
    (known : (session.perform graph (.writeFlag written block truth)).raising.tracker.content? graph
      (.flag flag) block = some (.known value)) :
    FlagOrigin graph session (.writeFlag written block truth) flag block value := by
  rw [Session.perform, Action.step, Raise.final_bind_pure] at known
  rcases Raise.writeFlag_outcome written truth with ⟨-, failed⟩ | ⟨succeeds, -, others⟩
  · rw [failed] at known
    exact .held known
  · by_cases sets : written = flag
    · exact .set ⟨rfl, sets⟩ ((Raise.succeeds_bind_pure ..).trans succeeds)
    · rw [others flag block fun same => sets same.2] at known
      exact .held known

/-- A flag that is known after an action was known before, was set by it or was loaded by it. -/
theorem InOrder.flagOrigin (works : action.block? = some block)
    (distinct : session.raising.DistinctSince graph (.flag flag)
      (session.perform graph action).raising)
    (known : (session.perform graph action).raising.tracker.content? graph (.flag flag) block =
      some (.known value)) : FlagOrigin graph session action flag block value := by
  cases action with
  | readRegister register worked allPaths asNative =>
      obtain rfl := Option.some.inj works
      exact .of_inquiries closed ordered limited
        (Raise.leads_readRegister register allPaths asNative).final distinct known
  | readFlag read worked =>
      obtain rfl := Option.some.inj works
      exact .of_inquiries closed ordered limited (Raise.leads_readFlag read).final distinct known
  | writeRegister register worked written =>
      rw [Session.perform, Action.step, Raise.final_bind_pure] at known
      exact .held ((Raise.content?_flag_writeRegister ..).symm.trans known)
  | deriveFlag derived worked family test =>
      obtain rfl := Option.some.inj works
      exact .of_deriveFlag closed ordered limited distinct known
  | writeFlag written worked truth =>
      obtain rfl := Option.some.inj works
      exact .of_writeFlag known
  | endBlock worked =>
      exact .held ((ordered.flagged.content?_withoutPending block).symm.trans known)
  | emit worked emission => exact .held known
  | _ => cases works

end FlagOrigin

/-- A block that holds a definition of a flag keeps one. -/
theorem InOrder.isSome_flag_perform (closed : graph.Closed) (ordered : session.InOrder graph)
    (allowed : session.Allows action)
    (held : (session.raising.tracker.content? graph (.flag flag) block).isSome) :
    ((session.perform graph action).raising.tracker.content? graph (.flag flag) block).isSome := by
  by_cases works : action.block? = some block
  · have drains : action ≠ .drain := by
      rintro rfl
      cases works
    have change := perform_change closed ordered.flagged (action.worksIn_of_block? works) allowed
      drains
    generalize session.perform graph action = after at change ⊢
    cases change with
    | moves moves => exact moves.proceeds.isSome_content? ordered.flagged held
    | dropped => rwa [ordered.flagged.content?_withoutPending block]
    | terminated _ _ => exact held
    | allocated _ _ => exact held
    | stored _ => exact held
  · rwa [ordered.content?_perform closed allowed works]

theorem InOrder.isSome_flag_after (closed : graph.Closed) (ordered : session.InOrder graph)
    (allowed : AllowsAll graph session actions)
    (held : (session.raising.tracker.content? graph (.flag flag) block).isSome) :
    ((session.after graph actions).raising.tracker.content? graph (.flag flag) block).isSome :=
  ordered.keeps_after
    (motive := fun later => (later.raising.tracker.content? graph (.flag flag) block).isSome)
    closed allowed
    (fun _ _ _ ordered allowed held => ordered.isSome_flag_perform closed allowed held) held

/-- A flag that an action gives a value has one afterwards. -/
theorem InOrder.isSome_of_sets (closed : graph.Closed) (ordered : session.InOrder graph)
    (sets : action.Sets flag block) (succeeds : (action.step graph).succeeds session.raising = true) :
    ((session.perform graph action).raising.tracker.content? graph (.flag flag) block).isSome := by
  cases action with
  | deriveFlag derived worked family test =>
      rcases sets with ⟨rfl, alike⟩
      rw [Session.perform, Action.step, Raise.final_bind_pure]
      rw [Action.step, Raise.succeeds_bind_pure] at succeeds
      rcases @Raise.deriveFlag_outcome graph worked _ closed ordered.flagged derived family test with
        ⟨middle, _, ⟨fails, _⟩ | ⟨_, filed⟩⟩
      · rw [succeeds] at fails
        cases fails
      · generalize (Raise.deriveFlag graph derived worked family test).final session.raising =
          after at filed ⊢
        cases filed with
        | intro filed _ => simp [filed flag alike]
  | writeFlag written worked truth =>
      rcases sets with ⟨rfl, rfl⟩
      rw [Session.perform, Action.step, Raise.final_bind_pure]
      rw [Action.step, Raise.succeeds_bind_pure] at succeeds
      rcases @Raise.writeFlag_outcome graph worked session.raising written truth with
        ⟨fails, _⟩ | ⟨_, ⟨value, known⟩, _⟩
      · rw [succeeds] at fails
        cases fails
      · simp [known]
  | _ => cases sets

theorem SetsFlag.isSome (closed : graph.Closed) (ordered : start.InOrder graph)
    (allowed : AllowsAll graph start actions) (sets : start.SetsFlag graph actions flag block) :
    ((start.after graph actions).raising.tracker.content? graph (.flag flag) block).isSome := by
  rcases sets with ⟨earlier, action, later, rfl, sets, succeeds⟩
  rw [allowsAll_append] at allowed
  have before := ordered.of_allowsAll closed allowed.1
  have kept := (before.perform closed allowed.2.1).isSome_flag_after closed allowed.2.2
    (before.isSome_of_sets closed sets succeeds)
  rw [after_append]
  exact kept

/-- A load of a flag stays one under actions that do not work in front of it. -/
theorem InOrder.flagLoad_perform (closed : graph.Closed) (ordered : session.InOrder graph)
    (allowed : session.Allows action) (load : FlagLoad graph flag block value slot session.raising)
    (quiet : ∀ source, session.Quiet slot source)
    (behind : ∀ worked, action.block? = some worked → block ≤ worked) :
    FlagLoad graph flag block value slot (session.perform graph action).raising ∧
      ∀ source, (session.perform graph action).Quiet slot source := by
  have kept := fun source => (quiet source).perform closed ordered allowed
  refine ⟨?_, fun source => (kept source).1⟩
  apply load.mono (ordered.grows_perform closed allowed).toExtends ordered.kept.numbered
  · exact fun source => (kept source).2
  · intro source front
    apply ordered.content?_perform closed allowed
    intro works
    exact Nat.not_lt_of_le (behind source works) front

theorem InOrder.flagLoad_after (closed : graph.Closed) (ordered : session.InOrder graph)
    (allowed : AllowsAll graph session actions)
    (load : FlagLoad graph flag block value slot session.raising)
    (quiet : ∀ source, session.Quiet slot source)
    (behind : ∀ action ∈ actions, ∀ worked, action.block? = some worked → block ≤ worked) :
    FlagLoad graph flag block value slot (session.after graph actions).raising := by
  refine (ordered.keeps_after
    (motive := fun later => FlagLoad graph flag block value slot later.raising ∧
      ∀ source, later.Quiet slot source) closed allowed ?_ ⟨load, quiet⟩).1
  intro later action mem ordered allowed kept
  exact ordered.flagLoad_perform closed allowed kept.1 kept.2 (behind action mem)

/--
What is known of the definitions of flags after a list of actions: blocks hold one only if they were
worked in, and if it is one of the given flag, it was set there or loaded.
-/
structure FlagTraced (graph : FlowGraph) (start : Session) (actions : List Action) (flag : Flag) :
    Prop where
  worked : ∀ flag block,
    ((start.after graph actions).raising.tracker.content? graph (.flag flag) block).isSome →
    block ∈ actions.filterMap Action.block?
  loaded : ∀ block value,
    (start.after graph actions).raising.tracker.content? graph (.flag flag) block =
      some (.known value) →
    start.SetsFlag graph actions flag block ∨
      ∃ slot, FlagLoad graph flag block value slot (start.after graph actions).raising ∧
        ∀ source, (start.after graph actions).Quiet slot source

theorem Starts.content?_flag (starts : Starts graph start) (flag : Flag) (block : BlockId) :
    start.raising.tracker.content? graph (.flag flag) block = none := by
  rcases starts with ⟨name, argumentTypes, blockNames, tracker, _, started, rfl⟩
  exact (Tracker.initial_of_start started).content?_flag flag block

theorem SetsFlag.append (sets : start.SetsFlag graph actions flag block) (further : List Action) :
    start.SetsFlag graph (actions ++ further) flag block := by
  rcases sets with ⟨earlier, action, later, rfl, sets, succeeds⟩
  refine ⟨earlier, action, later ++ further, ?_, sets, succeeds⟩
  simp

/-- An action that sets nothing leaves it open whether a flag was set. -/
theorem SetsFlag.of_append_singleton
    (sets : start.SetsFlag graph (actions ++ [action]) flag block)
    (idle : ¬ action.Sets flag block) : start.SetsFlag graph actions flag block := by
  rcases sets with ⟨earlier, setter, later, split, sets, succeeds⟩
  rcases List.eq_nil_or_concat later with rfl | ⟨inner, last, rfl⟩
  · rcases List.append_inj' split rfl with ⟨_, same⟩
    cases same
    exact absurd sets idle
  · rw [List.concat_eq_append, ← List.cons_append, ← List.append_assoc] at split
    exact ⟨earlier, setter, inner, List.append_inj_left' split rfl, sets, succeeds⟩

theorem distinctMerges_nil (location : Location) : start.DistinctMerges graph [] location := by
  intro earlier action later split
  cases List.append_ne_nil_of_right_ne_nil earlier (List.cons_ne_nil action later) split.symm

/-- The values are distinct in a list of actions if they are in its first one and in the rest. -/
theorem DistinctMerges.cons {location : Location}
    (first : start.raising.DistinctSince graph location (start.perform graph action).raising)
    (rest : (start.perform graph action).DistinctMerges graph actions location) :
    start.DistinctMerges graph (action :: actions) location := by
  intro earlier chosen later split
  cases earlier with
  | nil =>
      cases split
      exact first
  | cons head earlier =>
      rcases List.cons.inj split with ⟨rfl, split_rest⟩
      exact rest earlier chosen later split_rest

theorem DistinctMerges.of_append {location : Location} {further : List Action}
    (distinct : start.DistinctMerges graph (actions ++ further) location) :
    start.DistinctMerges graph actions location := by
  rintro earlier action later rfl
  exact distinct earlier action (later ++ further) (by simp)

theorem ownedAfter_of_block? (works : action.block? = some block) :
    session.ownedAfter action = session.owned := by
  cases action <;> simp_all [Action.block?, ownedAfter]

theorem FlagTraced.append_singleton (closed : graph.Closed)
    (raises : RaisesInOrder graph start (actions ++ [action]))
    (distinct : start.DistinctMerges graph (actions ++ [action]) (.flag flag))
    (traced : FlagTraced graph start actions flag) :
    FlagTraced graph start (actions ++ [action]) flag := by
  have ordered := raises.front.inOrder closed
  have allowed : (start.after graph actions).Allows action :=
    (allowsAll_append.mp raises.allowed).2.1
  have after_eq : start.after graph (actions ++ [action]) =
      (start.after graph actions).perform graph action := after_append ..
  have last : ∀ worked, action.block? = some worked →
      ∀ block ∈ actions.filterMap Action.block?, block ≤ worked :=
    fun worked works => (raises.le_block works).1
  have carried : ∀ block value,
      (start.after graph actions).raising.tracker.content? graph (.flag flag) block =
        some (.known value) →
      start.SetsFlag graph (actions ++ [action]) flag block ∨
        ∃ slot, FlagLoad graph flag block value slot
            ((start.after graph actions).perform graph action).raising ∧
          ∀ source, ((start.after graph actions).perform graph action).Quiet slot source := by
    intro block value known
    rcases traced.loaded block value known with sets | ⟨slot, load, quiet⟩
    · exact Or.inl (sets.append [action])
    · right
      refine ⟨slot, ordered.flagLoad_perform closed allowed load quiet fun worked works => ?_⟩
      exact last worked works block (traced.worked flag block (by simp [known]))
  constructor
  · intro other block held
    rw [List.filterMap_append, List.mem_append]
    by_cases works : action.block? = some block
    · exact Or.inr (by simp [works])
    · left
      apply traced.worked other block
      rwa [after_eq, ordered.content?_perform closed allowed works] at held
  · intro block value known
    rw [after_eq] at known ⊢
    by_cases works : action.block? = some block
    · have limited : (start.after graph actions).raising.FlagsUpTo graph block :=
        fun other source held => last block works source (traced.worked other source held)
      have distinct_last := distinct actions action [] rfl
      cases InOrder.flagOrigin closed ordered limited works distinct_last known with
      | held old => exact carried block value old
      | set sets succeeds => exact Or.inl ⟨actions, action, [], rfl, sets, succeeds⟩
      | @loaded slot new load unawaited =>
          right
          refine ⟨slot, load, fun source => ⟨load.slot_lt, ?_, ?_⟩⟩
          · intro owned
            rw [Session.perform, ownedAfter_of_block? works] at owned
            exact Nat.not_lt_of_le new (ordered.owned_lt slot owned)
          · exact fun store mem => Or.inl (Ne.symm (unawaited.ne_slot store mem))
    · rw [ordered.content?_perform closed allowed works] at known
      exact carried block value known

/-- Whatever a driver does in layout order, the definitions of a flag are set or loaded. -/
theorem RaisesInOrder.flagTraced (closed : graph.Closed)
    (raises : RaisesInOrder graph start actions)
    (distinct : start.DistinctMerges graph actions (.flag flag)) :
    FlagTraced graph start actions flag := by
  induction actions using List.reverseRecOn with
  | nil =>
      have nothing := fun flag block =>
        @Starts.content?_flag graph start raises.starts flag block
      constructor
      · intro other block held
        rw [show start.after graph [] = start from rfl, nothing] at held
        cases held
      · intro block value known
        rw [show start.after graph [] = start from rfl, nothing] at known
        cases known
  | append_singleton actions action ih =>
      exact (ih raises.front distinct.of_append).append_singleton closed raises distinct

/-- While a driver works in a block, no block behind it holds a definition of a flag. -/
theorem FlagTraced.flagsUpTo (traced : FlagTraced graph start actions flag)
    (behind : ∀ worked ∈ actions.filterMap Action.block?, worked ≤ block) :
    (start.after graph actions).raising.FlagsUpTo graph block :=
  fun other source held => behind source (traced.worked other source held)

/-! ### The drain at the end -/

theorem RaisesInOrder.drain (raises : RaisesInOrder graph start actions) :
    RaisesInOrder graph start (actions ++ [.drain]) where
  starts := raises.starts
  allowed := allowsAll_append.mpr ⟨raises.allowed, trivial, trivial⟩
  layout := by
    have layout := raises.layout
    rw [Action.InLayoutOrder] at layout ⊢
    rwa [List.filterMap_append, List.filterMap_cons_none rfl, List.filterMap_nil, List.append_nil]

theorem merges_drain (graph : FlowGraph) (session : Session) :
    (session.perform graph .drain).raising.tracker.merges = session.raising.tracker.merges := by
  rcases exists_drained graph session with ⟨done, drained⟩
  generalize session.perform graph .drain = after at drained ⊢
  cases drained with
  | intro split chain =>
      dsimp only
      rw [chain.tracker_eq_settled]
      rfl

theorem DistinctMerges.drain {location : Location}
    (distinct : start.DistinctMerges graph actions location) :
    start.DistinctMerges graph (actions ++ [.drain]) location := by
  intro earlier action later split
  rcases List.eq_nil_or_concat later with rfl | ⟨inner, last, rfl⟩
  · rcases List.append_inj' split rfl with ⟨rfl, same⟩
    cases same
    intro merge mem
    rw [Raising.mergesSince, merges_drain, List.drop_length] at mem
    cases mem
  · rw [List.concat_eq_append, ← List.cons_append, ← List.append_assoc] at split
    exact distinct earlier action inner (List.append_inj_left' split rfl)

end Session

end RegisterFlow
