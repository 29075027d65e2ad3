import RegisterFlow.Proofs.Machine.Delivery
import RegisterFlow.Proofs.Machine.Registers

/-!
# Machines that match an execution

While the machine executes a block, it is compared with an execution of the raised code that has come
to the end of that block. Step by step, the results and the registers of the machine have the words
that the tracked values have in the execution.
-/

namespace RegisterFlow

/-! ### Words of an execution -/

section Words

variable {graph : FlowGraph} {func : Function} {arguments : Array UInt64} {visited : List BlockId}
  {block : BlockId} {state : EvalState} {id : ValueId}

/-- What can be read in a block has a word at the end of the block. -/
theorem Function.Ends.isSome_words (ends : func.Ends arguments visited block state)
    (executable : func.Executable graph) (supplied : func.arguments.length ≤ arguments.size)
    (usable : func.Usable graph block id) : ((func.snapshot arguments state).words id).isSome := by
  have arrived := ends.arrived executable supplied
  exact usable.isSome_words executable.wellBuilt supplied arrived.arrives arrived.legal
    (fun source mem => arrived.executed source (List.mem_cons_of_mem _ mem))
    (arrived.executed block List.mem_cons_self) (fun _ mem _ => mem) usable.lt_size

/-- What a pure instruction computes depends on the words of its operands only. -/
theorem Function.wordFrom?_of_isPure {first second : Snapshot} {others : Array UInt64}
    (pure : (func.operation id).isPure = true)
    (same : ∀ operand ∈ (func.operation id).operands, first.words operand = second.words operand) :
    func.wordFrom? arguments first id = func.wordFrom? others second id := by
  have unloaded : ∀ slot, func.operation id = .load slot → first.cells slot = second.cells slot := by
    intro slot loads
    rw [loads] at pure
    cases pure
  rw [Function.wordFrom?_congr same unloaded]
  unfold Function.wordFrom?
  cases operation : func.operation id with
  | argument index =>
      rw [operation] at pure
      cases pure
  | _ => rfl

/-- At the end of its block, a pure instruction has the word that it computes from its operands. -/
theorem Function.Ends.words_of_isPure (ends : func.Ends arguments visited block state)
    (executable : func.Executable graph) (mem : id ∈ func.body block)
    (pure : (func.operation id).isPure = true) :
    (func.snapshot arguments state).words id =
      func.wordFrom? arguments (func.snapshot arguments state) id := by
  have numbered := executable.wellBuilt.numbered
  rcases ends.exists_start with ⟨start, run⟩
  refine Function.words_of_mem (numbered.sorted block) run mem ?_ ?_
    (executable.wellBuilt.built id (numbered.lt_size block id mem)).grounded
  · intro slot operand stores
    rw [stores] at pure
    cases pure
  · intro slot loads
    rw [loads] at pure
    cases pure

/-- A constant is or becomes a leaf of the function. -/
theorem Builder.operation_of_run_constant {ty : Ty} {number : UInt64} {value : ValueId}
    {before after : Function} (run : (constant ty number).run before = (value, after)) :
    after.operation value = .constant (payloadOf ty number) := by
  rcases run_constant ty number before with ⟨held, -, found, -, operation⟩ | new
  · rw [run] at found
    cases found
    exact operation
  · rw [run] at new
    cases new
    simp [Function.operation]

end Words

/-! ### Machines in the middle of a block -/

namespace Machine

/--
A machine in the middle of a block, compared with the words of an execution at the end of the block.
Results have the same words, and so have the values of registers that the block knows. All other
registers, and all that the block does not write, are as they were when the block was entered.
-/
structure Matches (graph : FlowGraph) (tracker : Tracker) (block : BlockId)
    (words : ValueId → Option UInt64) (entered : Register → Option UInt64)
    (results : List ValueId) (machine : Machine) : Prop where
  learned : ∀ value ∈ results, machine.results value = words value
  sound : ∀ value word, machine.results value = some word → words value = some word
  known : ∀ register value, tracker.valueIn? graph (.register register) block = some value →
    machine.registers register = words value
  unknown : ∀ register, tracker.valueIn? graph (.register register) block = none →
    machine.registers register = entered register
  unwritten : ∀ register, ¬ graph.Writes block (.register register) →
    machine.registers register = entered register

namespace Matches

variable {graph : FlowGraph} {tracker next : Tracker} {block : BlockId}
  {words : ValueId → Option UInt64} {entered : Register → Option UInt64} {results : List ValueId}
  {machine : Machine} {value : ValueId} {word : UInt64}

/-- A result can be learned with the word that it has in the execution. -/
theorem exists_learn (alike : machine.Matches graph tracker block words entered results)
    (given : words value = some word) :
    ∃ after, machine.learn value word = some after ∧ after.registers = machine.registers ∧
      after.Matches graph tracker block words entered (results ++ [value]) := by
  cases held : machine.results value with
  | some known =>
      have same := alike.sound value known held
      rw [given] at same
      cases same
      refine ⟨machine, by simp [learn, held], rfl, { alike with learned := ?_ }⟩
      intro other mem
      rcases List.mem_append.mp mem with old | new
      · exact alike.learned other old
      · rw [List.mem_singleton.mp new, held, given]
  | none =>
      refine ⟨machine.withResult value word, by simp [learn, held], rfl, ?_, ?_, alike.known,
        alike.unknown, alike.unwritten⟩
      · intro other mem
        dsimp only [withResult]
        split
        · next same => rw [same, given]
        · next different =>
          exact alike.learned other ((List.mem_append.mp mem).resolve_right (by simp [different]))
      · intro other found held
        dsimp only [withResult] at held
        split at held
        · next same => rw [same, given, held]
        · exact alike.sound other found held

/-- The tracker may come to know a register whose word the machine has. -/
theorem track (alike : machine.Matches graph tracker block words entered results)
    (learns : ∀ register found, next.valueIn? graph (.register register) block = some found →
      tracker.valueIn? graph (.register register) block = some found ∨
        machine.registers register = words found)
    (keeps : ∀ register, next.valueIn? graph (.register register) block = none →
      tracker.valueIn? graph (.register register) block = none) :
    machine.Matches graph next block words entered results :=
  { alike with
    known := fun register found known =>
      (learns register found known).elim (alike.known register found) id
    unknown := fun register unknown => alike.unknown register (keeps register unknown) }

/-- A register can be written with the word of a value that is recorded for it. -/
theorem write {register : Register} {width : Nat} {table : Table}
    (alike : machine.Matches graph tracker block words entered results)
    (given : words value = some word) (writes : graph.Writes block (.register register))
    (filed : tracker.table.record (.register register) block width value = .ok table) :
    (machine.write register word).Matches graph { tracker with table } block words entered
      results := by
  have content : ∀ other found,
      ({ tracker with table } : Tracker).valueIn? graph (.register other) block = some found ↔
        if other = register then found = value
        else tracker.valueIn? graph (.register other) block = some found := by
    intro other found
    rw [Tracker.valueIn?_eq_some_iff, Tracker.content?_record filed]
    by_cases same : other = register
    · simp [same, eq_comm]
    · simp [same, Tracker.valueIn?_eq_some_iff]
  refine { alike with known := ?_, unknown := ?_, unwritten := ?_ }
  · intro other found known
    rw [content] at known
    simp only [Machine.write]
    split at known
    · next same => rw [if_pos same, known, given]
    · next different =>
      rw [if_neg different]
      exact alike.known other found known
  · intro other unknown
    have different : other ≠ register := by
      rintro rfl
      rw [(content other value).mpr (by simp)] at unknown
      cases unknown
    simp only [Machine.write, if_neg different]
    refine alike.unknown other (Option.eq_none_iff_forall_ne_some.mpr fun found known => ?_)
    rw [(content other found).mpr (by rwa [if_neg different])] at unknown
    cases unknown
  · intro other unwritten
    have different : other ≠ register := by
      rintro rfl
      exact unwritten writes
    simp only [Machine.write, if_neg different]
    exact alike.unwritten other unwritten

end Matches

end Machine

/-! ### Actions -/

namespace Session

variable {graph : FlowGraph} {start : Session} {front back : List Part} {part : Part}
  {earlier later : List Action} {action : Action}

/-- The state when tracking has ended. -/
abbrev raised (graph : FlowGraph) (start : Session) (parts : List Part) : Raising :=
  (start.after graph (wholeWork parts)).raising

/-- A function was raised, and there are arguments for its code. -/
structure Prepared (graph : FlowGraph) (start : Session) (parts : List Part)
    (arguments : Array UInt64) : Prop where
  rooted : graph.Rooted
  raises : RaisesFunction graph start parts
  supplied : (start.raised graph parts).func.arguments.length ≤ arguments.size

/-- An execution of the code of a function that was raised, at the end of a block. -/
structure Executes (graph : FlowGraph) (start : Session) (parts : List Part)
    (arguments : Array UInt64) (visited : List BlockId) (block : BlockId) (state : EvalState) :
    Prop extends Prepared graph start parts arguments where
  ends : (start.raised graph parts).func.Ends arguments visited block state

/-- The words that values have in a state of an execution. -/
def wordsAt (graph : FlowGraph) (start : Session) (parts : List Part) (arguments : Array UInt64)
    (state : EvalState) : ValueId → Option UInt64 :=
  ((start.raised graph parts).func.snapshot arguments state).words

/-- The registers with which a block is entered hold what reads deliver to it. -/
def Receives (graph : FlowGraph) (final : Raising) (block : BlockId)
    (words : ValueId → Option UInt64) (entered : Register → Option UInt64) : Prop :=
  ∀ register value, final.Delivers graph (.register register) block value →
    entered register = words value

/-- A machine matches an execution after some of the work in a part. -/
def MatchesAmid (graph : FlowGraph) (start : Session) (front : List Part) (part : Part)
    (words : ValueId → Option UInt64) (entered : Register → Option UInt64) (earlier : List Action)
    (machine : Machine) : Prop :=
  machine.Matches graph (amid graph start front earlier).raising.tracker part.block words entered
    ((start.after graph (front.flatMap Part.actions)).results graph earlier)

/-- The machine can do what an action stands for, and it matches the execution after it. -/
def ActsAmid (graph : FlowGraph) (start : Session) (front : List Part) (part : Part)
    (words : ValueId → Option UInt64) (entered : Register → Option UInt64) (earlier : List Action)
    (program : Program) (action : Action) (machine : Machine) : Prop :=
  ∃ after, machine.act program (action, (amid graph start front earlier).answer? graph action) =
      some after ∧
    MatchesAmid graph start front part words entered (earlier ++ [action]) after

theorem amid_of_run {answer : Option ValueId} {after : Raising}
    (run : (action.step graph).run (amid graph start front earlier).raising = .ok answer after) :
    (amid graph start front earlier).answer? graph action = answer ∧
      (amid graph start front (earlier ++ [action])).raising = after := by
  rw [answer?, run, amid, after_append]
  exact ⟨rfl, Raise.final_of_ok run⟩

theorem results_amid :
    (start.after graph (front.flatMap Part.actions)).results graph (earlier ++ [action]) =
      (start.after graph (front.flatMap Part.actions)).results graph earlier ++
        ((amid graph start front earlier).answer? graph action).toList :=
  results_append_singleton

theorem append_singleton_split (split : part.work = earlier ++ action :: later) :
    part.work = (earlier ++ [action]) ++ later := by
  rw [split, List.append_assoc, List.singleton_append]

namespace Executes

variable {arguments : Array UInt64} {visited : List BlockId} {state : EvalState}
  {machine : Machine} {entered : Register → Option UInt64} {value : ValueId} {program : Program}
  (execution : Executes graph start (front ++ part :: back) arguments visited part.block state)
include execution

/-- Results have words at the end of their block. -/
theorem exists_word (split : part.work = earlier ++ later)
    (mem : value ∈ (start.after graph (front.flatMap Part.actions)).results graph earlier) :
    ∃ word, wordsAt graph start (front ++ part :: back) arguments state value = some word := by
  rcases execution with ⟨⟨rooted, raises, supplied⟩, ends⟩
  have usable := ((raises.inWork rooted split).usable value mem).mono
    (raises.grows_wholeWork split rooted).toExtends
  exact Option.isSome_iff_exists.mp
    (ends.isSome_words (raises.finished rooted).executable supplied usable)

/-- What an action answers has a word at the end of the block. -/
theorem exists_word_of_answer (split : part.work = earlier ++ action :: later)
    (answers : (amid graph start front earlier).answer? graph action = some value) :
    ∃ word, wordsAt graph start (front ++ part :: back) arguments state value = some word := by
  refine execution.exists_word (append_singleton_split split) ?_
  rw [results_amid, answers]
  simp

variable (named : program.convention = graph.convention)
  (computes : program.func = (start.raised graph (front ++ part :: back)).func)

include named in
/-- The machine takes the word of a register that the driver reads. -/
theorem acts_read {register : Register} {allPaths asNative : Bool}
    (split : part.work = earlier ++ .readRegister register part.block allPaths asNative :: later)
    (receives : Receives graph (start.raised graph (front ++ part :: back)) part.block
      (wordsAt graph start (front ++ part :: back) arguments state) entered)
    (alike : MatchesAmid graph start front part
      (wordsAt graph start (front ++ part :: back) arguments state) entered earlier machine) :
    ActsAmid graph start front part (wordsAt graph start (front ++ part :: back) arguments state)
      entered earlier program (.readRegister register part.block allPaths asNative) machine := by
  rcases execution.raises.exists_read execution.rooted split with
    ⟨canonical, -, value, after, read, answers, performed⟩
  rcases execution.exists_word_of_answer split answers with ⟨word, word_eq⟩
  -- The register has the word of the answer, whether the block knows it or not.
  have register_eq : machine.registers register =
      wordsAt graph start (front ++ part :: back) arguments state value := by
    cases known : (amid graph start front earlier).raising.tracker.valueIn? graph
        (.register register) part.block with
    | some held =>
        have same : held = value := by
          cases read with
          | held again => exact Option.some.inj (known.symm.trans again)
          | direct unknown _ | met unknown _ _ _ =>
              rw [known] at unknown
              cases unknown
        exact same ▸ alike.known register held known
    | none =>
        rw [alike.unknown register known]
        exact receives register value
          (execution.raises.delivers execution.rooted split answers known)
  rcases alike.exists_learn word_eq with ⟨next, learns, registers_eq, alike⟩
  refine ⟨next, ?_, ?_⟩
  · simp only [Machine.act, answers, named, canonical, register_eq, word_eq]
    exact learns
  · rw [MatchesAmid, results_amid, answers, performed]
    refine alike.track ?_ ?_
    · intro other found known
      cases read with
      | held | direct => exact Or.inl known
      | met _ _ _ met =>
          rw [Tracker.valueIn?_eq_some_iff, met.content?] at known
          split at known
          · next here =>
            cases here.1
            cases known
            exact Or.inr (registers_eq ▸ register_eq)
          · exact Or.inl (Tracker.valueIn?_eq_some_iff.mpr known)
    · intro other unknown
      cases read with
      | held | direct => exact unknown
      | met _ _ _ met =>
          refine Option.eq_none_iff_forall_ne_some.mpr fun found known => ?_
          have held : ∃ kept, after.tracker.content? graph (.register other) part.block =
              some (.known kept) := by
            rw [met.content?]
            split
            · exact ⟨value, rfl⟩
            · exact ⟨found, Tracker.valueIn?_eq_some_iff.mp known⟩
          rcases held with ⟨kept, held⟩
          rw [Tracker.valueIn?_eq_some_iff.mpr held] at unknown
          cases unknown

include named in
/-- A register that the driver writes gets the word of what is recorded. -/
theorem acts_write {register : Register}
    (split : part.work = earlier ++ .writeRegister register part.block value :: later)
    (alike : MatchesAmid graph start front part
      (wordsAt graph start (front ++ part :: back) arguments state) entered earlier machine) :
    ActsAmid graph start front part (wordsAt graph start (front ++ part :: back) arguments state)
      entered earlier program (.writeRegister register part.block value) machine := by
  have works := execution.raises.raisesPart.1.works
  rw [split] at works
  rcases works.permits with ⟨-, mem, result⟩
  have located := FlowGraph.locationOf_of_mem_writes mem
  rcases execution.exists_word split result with ⟨word, word_eq⟩
  rcases Action.run_writeRegister located (execution.raises.width_ne_zero mem) part.block value
    (amid graph start front earlier).raising with ⟨table, filed, run⟩
  rcases amid_of_run run with ⟨answers, performed⟩
  refine ⟨machine.write (graph.convention.canonical register) word, ?_, ?_⟩
  · simp only [Machine.act, named, alike.learned value result, word_eq]
    rfl
  · rw [MatchesAmid, results_amid, answers, performed]
    rw [Option.toList_none, List.append_nil]
    exact alike.write word_eq ⟨register, mem, located⟩ filed

/-- A constant has its payload as its word. -/
theorem acts_constant {ty : Ty} {number : UInt64}
    (split : part.work = earlier ++ .constant ty number :: later)
    (alike : MatchesAmid graph start front part
      (wordsAt graph start (front ++ part :: back) arguments state) entered earlier machine) :
    ActsAmid graph start front part (wordsAt graph start (front ++ part :: back) arguments state)
      entered earlier program (.constant ty number) machine := by
  cases built : (Builder.constant ty number).run (amid graph start front earlier).raising.func with
  | mk value func =>
  rcases amid_of_run (Action.run_constant built) with ⟨answers, performed⟩
  have grown := (execution.raises.grows_wholeWork (append_singleton_split split)
    execution.rooted).toExtends
  rw [performed] at grown
  have operation := grown.operation_of_ne (by simp) (Builder.operation_of_run_constant built)
  have word_eq : wordsAt graph start (front ++ part :: back) arguments state value =
      some (Builder.payloadOf ty number) := by
    rw [wordsAt, Function.words_snapshot_of_isLeaf (by rw [operation]; rfl), Function.leafWord?,
      Function.wordFrom?, operation]
  rcases alike.exists_learn word_eq with ⟨next, learns, -, alike⟩
  refine ⟨next, ?_, ?_⟩
  · rw [answers]
    exact learns
  · rw [MatchesAmid, results_amid, answers, performed]
    exact alike

include computes in
/-- An instruction computes its word from the words of results. -/
theorem acts_emit {emission : Emission}
    (split : part.work = earlier ++ .emit part.block emission :: later)
    (alike : MatchesAmid graph start front part
      (wordsAt graph start (front ++ part :: back) arguments state) entered earlier machine) :
    ActsAmid graph start front part (wordsAt graph start (front ++ part :: back) arguments state)
      entered earlier program (.emit part.block emission) machine := by
  have works := execution.raises.raisesPart.1.works
  rw [split] at works
  rcases works.permits with ⟨-, pure, -, operands⟩
  rcases amid_of_run (Action.run_emit graph part.block emission
    (amid graph start front earlier).raising) with ⟨answers, performed⟩
  rcases execution.exists_word_of_answer split answers with ⟨word, word_eq⟩
  have grown := (execution.raises.grows_wholeWork (append_singleton_split split)
    execution.rooted).toExtends
  rw [performed] at grown
  have operation : (start.raised graph (front ++ part :: back)).func.operation
      (amid graph start front earlier).raising.func.values.size = emission.operation := by
    refine grown.operation_of_ne ?_ (by simp)
    intro same
    rw [same] at pure
    cases pure
  have mem : (amid graph start front earlier).raising.func.values.size ∈
      (start.raised graph (front ++ part :: back)).func.body part.block := by
    have bound : part.block < (amid graph start front earlier).raising.func.blocks.size := by
      rw [(execution.raises.inWork execution.rooted split).ordered.kept.blockCount_eq]
      exact execution.raises.raisesPart.2.1
    refine (grown.body_prefix part.block).subset ?_
    rw [Function.body_withInstruction, if_pos ⟨rfl, bound⟩]
    simp
  rw [← operation] at pure operands
  have computed : program.func.wordFrom? #[] { words := machine.results }
      (amid graph start front earlier).raising.func.values.size = some word := by
    rw [← word_eq, wordsAt, execution.ends.words_of_isPure
      (execution.raises.finished execution.rooted).executable mem pure, computes]
    exact Function.wordFrom?_of_isPure pure fun operand read =>
      alike.learned operand (operands operand read)
  rcases alike.exists_learn word_eq with ⟨next, learns, -, alike⟩
  refine ⟨next, ?_, ?_⟩
  · simp only [Machine.act, answers, computed]
    exact learns
  · rw [MatchesAmid, results_amid, answers, performed]
    exact alike

include named computes in
/-- Whatever the driver does in the block, the machine can do what it stands for. -/
theorem acts (split : part.work = earlier ++ action :: later)
    (receives : Receives graph (start.raised graph (front ++ part :: back)) part.block
      (wordsAt graph start (front ++ part :: back) arguments state) entered)
    (alike : MatchesAmid graph start front part
      (wordsAt graph start (front ++ part :: back) arguments state) entered earlier machine) :
    ActsAmid graph start front part (wordsAt graph start (front ++ part :: back) arguments state)
      entered earlier program action machine := by
  have works := execution.raises.raisesPart.1.works
  rw [split] at works
  have permitted := works.permits
  cases action with
  | readRegister register worked allPaths asNative =>
      obtain rfl := permitted.1
      exact execution.acts_read named split receives alike
  | writeRegister register worked value =>
      obtain rfl := permitted.1
      exact execution.acts_write named split alike
  | constant ty number => exact execution.acts_constant split alike
  | emit worked emission =>
      obtain rfl := permitted.1
      exact execution.acts_emit computes split alike
  | _ => exact permitted.elim

include named computes in
/-- The machine can do all that is done in the block, and it matches the execution at the end. -/
theorem exists_steps (split : part.work = earlier ++ later)
    (receives : Receives graph (start.raised graph (front ++ part :: back)) part.block
      (wordsAt graph start (front ++ part :: back) arguments state) entered)
    (alike : MatchesAmid graph start front part
      (wordsAt graph start (front ++ part :: back) arguments state) entered [] machine) :
    ∃ after, ((start.after graph (front.flatMap Part.actions)).trace graph earlier).foldlM
        (Machine.act program) machine = some after ∧
      MatchesAmid graph start front part
        (wordsAt graph start (front ++ part :: back) arguments state) entered earlier after := by
  induction earlier using List.reverseRecOn generalizing later with
  | nil => exact ⟨machine, rfl, alike⟩
  | append_singleton earlier action ih =>
      rw [List.append_assoc, List.singleton_append] at split
      rcases ih split with ⟨middle, runs, alike⟩
      rcases execution.acts named computes split receives alike with ⟨after, acts, alike⟩
      refine ⟨after, ?_, alike⟩
      rw [trace_append, List.foldlM_append, runs]
      simpa [trace] using acts

end Executes

end Session

end RegisterFlow
