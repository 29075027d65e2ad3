import RegisterFlow.Proofs.Tracking.FlagReads
import RegisterFlow.Proofs.Tracking.LifeCycle
import RegisterFlow.Proofs.Tracking.Merges

/-!
# Flags are bits

Whatever is done in a session, the definitions of flags are known values of one bit, and they meet in
slots of one bit that are loaded without a conversion. No flag is ever pending or waited for, so a
flag that is tracked can always be read.
-/

namespace RegisterFlow

/-- The slot of a merge holds one bit, and the value of the merge is what was loaded from it. -/
structure Merge.LoadsBit (merge : Merge) (func : Function) : Prop where
  slot_lt : merge.slot < func.slots.size
  slotTy_eq : (func.slot merge.slot).ty = .bool
  ty_eq : func.ty merge.value = .bool
  loads : func.operation merge.value = .load merge.slot

theorem Merge.LoadsBit.mono {merge : Merge} {before after : Function}
    (bit : merge.LoadsBit before) (grown : before.Extends after) : merge.LoadsBit after where
  slot_lt := Nat.lt_of_lt_of_le bit.slot_lt grown.slotCount_le
  slotTy_eq := (grown.slotTy_eq _ bit.slot_lt).trans bit.slotTy_eq
  ty_eq := grown.ty_of_ne (by simp) bit.ty_eq
  loads := grown.operation_of_ne (by simp) bit.loads

/-- Flags meet in slots of one bit, and no store waits for the value of a flag. -/
structure Raising.MeetsBits (raising : Raising) : Prop where
  merged : ∀ merge ∈ raising.tracker.merges, merge.location.isFlag → merge.LoadsBit raising.func
  waiting : ∀ store ∈ raising.tracker.deferred, store.location.isFlag = false

/-- The definitions of flags are known bits, and that is how they meet. -/
structure Raising.BitFlags (graph : FlowGraph) (raising : Raising) : Prop
    extends raising.MeetsBits where
  flagged : raising.Flagged graph

variable {graph : FlowGraph} {before after : Raising} {location : Location} {block : BlockId}

/-- The function may grow as long as no merge is made and no store begins to wait for a flag. -/
theorem Raising.MeetsBits.of_extends (bits : before.MeetsBits)
    (grown : before.func.Extends after.func)
    (merges_eq : after.tracker.merges = before.tracker.merges)
    (waiting : ∀ store ∈ after.tracker.deferred, store.location.isFlag = false) :
    after.MeetsBits where
  merged merge mem isFlag := (bits.merged merge (merges_eq ▸ mem) isFlag).mono grown
  waiting := waiting

theorem Raising.MeetsBits.grow {func : Function} (bits : before.MeetsBits)
    (grown : before.func.Extends func) : MeetsBits { before with func } :=
  bits.of_extends grown rfl bits.waiting

/-- Filing a value changes nothing about how flags meet. -/
theorem Raise.leads_define_meetsBits (width : Nat) (value : ValueId) :
    Leads (Keeps Raising.MeetsBits) (fun _ _ => True) (define location block width value) before :=
  leads_define_of_record fun _ _ bits => { bits with }

namespace Raising.BitFlags

open Raise (Leads Keeps)

theorem grow {func : Function} (bits : before.BitFlags graph)
    (grown : before.func.Extends func) : BitFlags graph { before with func } where
  toMeetsBits := bits.toMeetsBits.grow grown
  flagged := bits.flagged.of_extends grown fun _ _ => rfl

/-- Where definitions of a flag meet, none of them is pending. -/
theorem waiting_of_known {slot : SlotId} {hits : List ReachingDefinition}
    (known : location.isFlag → ∀ hit ∈ hits, ∃ value, hit.content = .known value) :
    ∀ store ∈ hits.filterMap (·.waiting? location slot), store.location.isFlag = false := by
  intro store mem
  rcases ReachingDefinition.mem_filterMap_waiting?_iff.mp mem with ⟨hit, hit_mem, pending, rfl⟩
  rw [← Bool.not_eq_true]
  intro isFlag
  rcases known isFlag hit hit_mem with ⟨value, same⟩
  cases pending.symm.trans same

theorem known_of_reached {allPaths : Bool} {hits : List ReachingDefinition}
    (bits : before.BitFlags graph) (closed : graph.Closed)
    (reached : before.tracker.reaching graph location block allPaths = hits)
    (isFlag : location.isFlag) : ∀ hit ∈ hits, ∃ value, hit.content = .known value := by
  subst reached
  intro hit mem
  cases location with
  | register _ => cases isFlag
  | flag flag =>
      rcases bits.flagged.of_mem_reaching closed mem with ⟨value, known, -⟩
      exact ⟨value, known⟩

/-- Inquiries keep flags bits. -/
theorem inquiry (bits : before.BitFlags graph) (closed : graph.Closed)
    (inquiry : Inquiry graph block before after) : after.BitFlags graph := by
  have grown := inquiry.moves.proceeds.grows.toExtends
  refine { flagged := inquiry.moves.flagged bits.flagged, toMeetsBits := ?_ }
  cases inquiry with
  | tally _ => exact { bits.toMeetsBits with }
  | grow _ => exact bits.toMeetsBits.grow grown
  | @met _ location native allPaths hits value unknown reached several typed met =>
      constructor
      · rcases met.exists_chain with ⟨supplied, chain, -, -, merges_eq⟩
        rw [merges_eq, chain.tracker_eq]
        intro merge mem isFlag
        rcases List.mem_append.mp mem with old | new
        · exact (bits.merged merge old isFlag).mono grown
        · cases List.mem_singleton.mp new
          cases location with
          | register _ => cases isFlag
          | flag flag =>
              cases typed rfl
              rw [bits.flagged.slotTy_eq closed reached several.1] at met
              exact ⟨met.slot_lt, met.slotTy_eq, met.computes.ty_eq, met.loads rfl⟩
      · rw [met.deferred_eq]
        intro store mem
        rcases List.mem_append.mp mem with old | new
        · exact bits.waiting store old
        · exact waiting_of_known (bits.known_of_reached closed reached) store new
  | @abandoned _ location native allPaths hits unknown reached several abandoned =>
      rcases abandoned.exists_chain with ⟨done, supplied, front, chain, -, tracker_eq⟩
      refine bits.toMeetsBits.of_extends grown abandoned.merges_eq ?_
      rw [tracker_eq, chain.tracker_eq]
      intro store mem
      rcases List.mem_append.mp mem with old | new
      · exact bits.waiting store old
      · refine waiting_of_known (fun isFlag hit hit_mem => ?_) store new
        exact bits.known_of_reached closed reached isFlag hit (front.subset hit_mem)

theorem inquiries (bits : before.BitFlags graph) (closed : graph.Closed)
    (inquiries : Inquiries graph block before after) : after.BitFlags graph := by
  induction inquiries with
  | refl => exact bits
  | tail _ last ih => exact ih.inquiry closed last

theorem respects (closed : graph.Closed) : Raise.Respects graph (Keeps (BitFlags graph)) where
  tally _ _ bits :=
    { bits.toMeetsBits with flagged := bits.flagged.of_extends (.refl _) fun _ _ => rfl }
  compute _ _ _ computations bits := bits.grow computations.growsQuietly.toExtends
  rename _ _ _ bits := bits.grow (Function.extends_withName ..)
  terminate _ _ _ bits := bits.grow (Function.extends_withTerminator ..)
  read before location native block allPaths asNative typed := by
    refine ((Raise.leads_readLocation graph location native block allPaths asNative before ?_).along
      fun after inquiries bits => bits.inquiries closed inquiries).imp fun _ _ _ _ => trivial
    intro isFlag
    rcases typed isFlag with ⟨rfl, rfl⟩
    rfl
  settle before := by
    refine Raise.leads_settleAll_of_settled (fun _ chain bits => ?_) fun _ _ _ kept bits => ?_
    · have grown := chain.grows_settled.toExtends
      refine { toMeetsBits := bits.toMeetsBits.of_extends grown ?_ ?_, flagged := ?_ }
      · rw [chain.tracker_eq_settled, Raising.released]
      · rw [chain.tracker_eq_settled]
        exact fun store mem => absurd mem List.not_mem_nil
      · refine bits.flagged.of_extends grown fun flag source => ?_
        rw [chain.tracker_eq_settled]
        rfl
    · have settled := kept bits
      exact { settled.toMeetsBits with
        flagged := settled.flagged.of_extends (.refl _) fun _ _ => rfl }

/-- The derivation of a flag files bits only. -/
theorem deriveFlag (bits : before.BitFlags graph) (closed : graph.Closed) (flag : Flag)
    (family : Family) (test : ValueId) :
    ((Raise.deriveFlag graph flag block family test).final before).BitFlags graph where
  flagged :=
    (Raise.leads_deriveFlag closed bits.flagged flag family test).final.flagged bits.flagged
  toMeetsBits := by
    have leads : Leads (Keeps MeetsBits) (fun _ _ => True)
        (Raise.deriveFlag graph flag block family test) before := by
      apply Raise.leads_deriveFlag_of_flagValue
      · exact (Raise.leads_flagValue closed bits.flagged test).along fun after inquiries _ =>
          (bits.inquiries closed inquiries).toMeetsBits
      · exact fun _ _ _ meets => meets.grow (Function.extends_withName ..)
      · exact fun _ _ meets => { meets with }
      · exact fun _ _ _ _ => Raise.leads_define_meetsBits ..
    exact leads.final bits.toMeetsBits

/-- A constant flag is a bit. -/
theorem writeFlag (bits : before.BitFlags graph) (flag : Flag) (truth : Bool) :
    ((Raise.writeFlag flag block truth).final before).BitFlags graph where
  flagged := (Raise.leads_writeFlag flag truth).final.flagged bits.flagged
  toMeetsBits := by
    have leads : Leads (Keeps MeetsBits) (fun _ _ => True) (Raise.writeFlag flag block truth)
        before := by
      refine (Raise.leads_ofExcept _).bind fun location middle _ _ => ?_
      have builds : Leads (Keeps MeetsBits) (fun _ _ => True)
          (Raise.build (Builder.boolean truth)) middle := by
        refine .of_ok (Raise.run_build ..) (fun meets => meets.grow ?_) trivial
        have computes : (Builder.boolean truth).ComputesIn block :=
          Builder.computesIn_constant .bool truth.toUInt64
        exact (computes middle.func).growsQuietly.toExtends
      refine builds.bind fun value middle _ _ => ?_
      refine (Raise.leads_define_meetsBits ..).bind fun _ middle _ _ => ?_
      exact .of_ok (Raise.run_count ..) (fun meets => { meets with }) trivial
    exact leads.final bits.toMeetsBits

end Raising.BitFlags

namespace Session

variable {session : Session}

/-- Every action keeps flags bits, whether it succeeds or fails. -/
theorem bitFlags_perform (closed : graph.Closed) (action : Action)
    (bits : session.raising.BitFlags graph) :
    (session.perform graph action).raising.BitFlags graph := by
  by_cases sets : ∃ flag block, action.Sets flag block
  · cases action with
    | deriveFlag flag block family test =>
        rw [perform, Action.step, Raise.final_bind_pure]
        exact bits.deriveFlag closed flag family test
    | writeFlag flag block truth =>
        rw [perform, Action.step, Raise.final_bind_pure]
        exact bits.writeFlag flag truth
    | _ =>
        rcases sets with ⟨flag, block, ⟨⟩⟩
  · have leads : Raise.Leads (Raise.Keeps (Raising.BitFlags graph)) (fun _ _ => True)
        (action.step graph) session.raising := by
      apply (Raising.BitFlags.respects closed).leads_step
      · intro location block records width value before
        have register : location.isFlag = false := by
          cases action with
          | writeRegister _ _ _ => exact Raise.isFlag_of_locationOf records.2
          | _ =>
              rcases records with ⟨flag, -, set⟩
              exact absurd ⟨flag, block, set⟩ sets
        refine Raise.leads_define_of_record fun table filed bits => ?_
        refine { bits.toMeetsBits with flagged := bits.flagged.file ?_ filed }
        rintro flag rfl
        cases register
      · exact fun block _ before bits =>
          { bits.toMeetsBits with
            flagged := bits.flagged.of_extends (.refl _) fun _ other =>
              bits.flagged.content?_withoutPending other }
      · exact fun _ _ _ bits => bits.grow (Function.extends_withInstruction ..)
      · exact fun _ _ _ bits => bits.grow (Function.extends_withSlot ..)
    exact leads.final bits

theorem bitFlags_after (closed : graph.Closed) {actions : List Action}
    (bits : session.raising.BitFlags graph) :
    (session.after graph actions).raising.BitFlags graph :=
  keeps_after (motive := (·.raising.BitFlags graph))
    (fun _ action _ bits => bitFlags_perform closed action bits) bits

/-- There are no flags at the start. -/
theorem bitFlags_of_start {start : Session}
    (starts : Tracker.start graph start.raising.func = .ok start.raising.tracker) :
    start.raising.BitFlags graph := by
  have initial := Tracker.initial_of_start starts
  refine ⟨⟨?_, ?_⟩, ?_⟩
  · rw [initial.merges]
    exact fun _ mem => absurd mem List.not_mem_nil
  · rw [initial.deferred]
    exact fun _ mem => absurd mem List.not_mem_nil
  · intro flag block content known
    rw [initial.content?_flag] at known
    cases known

end Session

/-- What is listed for a flag is what its block holds. -/
theorem Tracker.content?_of_mem {tracker : Tracker} {definition : Definition} {flag : Flag}
    (ordered : tracker.table.Ordered) (mem : definition ∈ tracker.table.definitions)
    (filed : definition.location = .flag flag) :
    tracker.content? graph (.flag flag) definition.block = some definition.content := by
  have found := ordered.get?_eq_some_iff.mpr ⟨mem, filed, rfl⟩
  simp [content?, definitionIn?, bindingAt?, found]

/-- What is read of a flag is a bit. -/
theorem Read.ty_eq_bool {flag : Flag} {allPaths : Bool} {value : ValueId}
    (closed : graph.Closed) (flagged : before.Flagged graph)
    (read : Read graph (.flag flag) .bool block allPaths true before (some value) after) :
    after.func.ty value = .bool := by
  cases read with
  | held known =>
      rw [Tracker.valueIn?_eq_some_iff] at known
      rcases flagged _ _ _ known with ⟨_, same, fits⟩
      cases same
      exact fits.ty_eq
  | direct _ reached =>
      rcases flagged.of_mem_reaching closed (reached ▸ List.mem_singleton_self _) with
        ⟨_, same, typed⟩
      cases same
      exact typed
  | met _ _ _ met => exact met.computes.ty_eq

/--
At all times, what is filed for a flag is a known value of one bit, so no flag is pending; flags meet
in slots of one bit that are loaded without a conversion; and no store waits for a flag. Hence a
tracked flag can always be read, and what is read is a bit.
-/
theorem flags_are_bits {start : Session} (closed : graph.Closed)
    (starts : Tracker.start graph start.raising.func = .ok start.raising.tracker)
    (actions : List Action) :
    let reached := (start.after graph actions).raising
    (∀ definition ∈ reached.tracker.table.definitions, definition.location.isFlag →
      ∃ value, definition.content = .known value ∧ reached.func.ty value = .bool) ∧
    (∀ merge ∈ reached.tracker.merges, merge.location.isFlag → merge.LoadsBit reached.func) ∧
    (∀ store ∈ reached.tracker.deferred, store.location.isFlag = false) ∧
    ∀ flag block, flag.isTracked = true →
      ∃ answer after, (Raise.readFlag graph flag block).run reached = .ok answer after ∧
        ∀ value, answer = some value → after.func.ty value = .bool := by
  have bits : (start.after graph actions).raising.BitFlags graph :=
    Session.bitFlags_after closed (Session.bitFlags_of_start starts)
  refine ⟨?_, bits.merged, bits.waiting, ?_⟩
  · intro definition mem isFlag
    have ordered : (start.after graph actions).raising.tracker.table.Ordered :=
      Tracker.ordered_after actions (Tracker.ordered_of_start starts)
    cases filed : definition.location with
    | register _ =>
        rw [filed] at isFlag
        cases isFlag
    | flag flag =>
        rcases bits.flagged _ _ _ (Tracker.content?_of_mem ordered mem filed) with
          ⟨value, known, fits⟩
        exact ⟨value, known, fits.ty_eq⟩
  · intro flag block tracked
    rcases Raise.run_readFlag closed bits.flagged tracked with ⟨answer, after, read, runs⟩
    refine ⟨answer, after, runs, ?_⟩
    rintro value rfl
    exact read.ty_eq_bool closed bits.flagged

/-- The header of a loop reads the flag that the entry sets and the body clears. -/
def loopReads : List Action :=
  [.writeFlag .carry 0 true, .writeFlag .carry 2 false, .readFlag .carry 1]

/-- Where the flags meet, a bit is loaded, and the exit of the loop reads it. -/
theorem flags_are_bits_loop :
    loopGraph.Closed ∧
      Tracker.start loopGraph loopSession.raising.func = .ok loopSession.raising.tracker ∧
      let reached := (loopSession.after loopGraph loopReads).raising
      (∃ merge ∈ reached.tracker.merges, merge.location = .flag .carry ∧
        merge.LoadsBit reached.func) ∧
      Flag.carry.isTracked = true ∧
      ∃ answer after, (Raise.readFlag loopGraph .carry 3).run reached = .ok answer after ∧
        ∀ value, answer = some value → after.func.ty value = .bool := by
  have starts := raisesInOrder_loop.starts.tracker_eq
  have bits := flags_are_bits closed_loopGraph starts loopReads
  have merged : ∃ merge ∈ (loopSession.after loopGraph loopReads).raising.tracker.merges,
      merge.location = .flag .carry := by
    have count : (loopSession.after loopGraph loopReads).raising.tracker.merges.map
        Merge.location = [.flag .carry] := by
      cbv
    exact List.mem_map.mp (count ▸ List.mem_singleton_self _)
  rcases merged with ⟨merge, mem, located⟩
  have loads := bits.2.1 merge mem (by rw [located]; rfl)
  exact ⟨closed_loopGraph, starts, ⟨merge, mem, located, loads⟩, rfl, bits.2.2.2 .carry 3 rfl⟩

end RegisterFlow
