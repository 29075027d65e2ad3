import RegisterFlow.Proofs.Machine.Conclusion

/-!
# Register machines

What a raised function stands for: a machine with registers that runs through the blocks. In a block
it does what the driver did to raise it. Where the driver read a register, the machine takes the word
that the register has at that moment, and where the driver recorded a value, the machine writes the
register. Instructions compute from the words of results, as they do in the raised code. Results are
forgotten at the end of a block, and registers are kept.
-/

namespace RegisterFlow

/-- The words in registers, and of the results in the block that is executed. -/
structure Machine where
  registers : Register → Option UInt64
  results : ValueId → Option UInt64 := fun _ => none

/-- What a machine does in a block: actions, each with the result that it has, and an ending. -/
structure Script where
  steps : List (Action × Option ValueId)
  ending : Ending

/-- The blocks of a machine. What its instructions compute is written in a function. -/
structure Program where
  convention : Convention
  entry : BlockId
  func : Function
  scripts : List (BlockId × Script)

namespace Machine

/-- The machine with a word for a result. -/
def withResult (machine : Machine) (value : ValueId) (word : UInt64) : Machine :=
  { machine with
    results := fun other => if other = value then some word else machine.results other }

/-- Gives a result a word. If it has one already, that has to be the same one. -/
def learn (machine : Machine) (value : ValueId) (word : UInt64) : Option Machine :=
  match machine.results value with
  | some known => if known = word then some machine else none
  | none => some (machine.withResult value word)

/-- Writes a word into a register. -/
def write (machine : Machine) (register : Register) (word : UInt64) : Machine :=
  { machine with
    registers := fun other => if other = register then some word else machine.registers other }

/-- Does what a driver's action stands for, given the value that it answered. -/
def act (program : Program) (machine : Machine) : Action × Option ValueId → Option Machine
  | (.readRegister register .., some value) => do
    machine.learn value (← machine.registers (program.convention.canonical register))
  | (.writeRegister register _ value, _) => do
    return machine.write (program.convention.canonical register) (← machine.results value)
  | (.constant ty number, some value) => machine.learn value (Builder.payloadOf ty number)
  | (.emit .., some value) => do
    machine.learn value (← program.func.wordFrom? #[] { words := machine.results } value)
  | _ => none

end Machine

namespace Program

/-- The machine at the end of a block that it enters with some registers. -/
def execute (program : Program) (block : BlockId) (registers : Register → Option UInt64) :
    Option Machine := do
  (← program.scripts.lookup block).steps.foldlM (Machine.act program) { registers }

/-- What follows a block, given the words of its results. -/
def exit? (program : Program) (block : BlockId) (results : ValueId → Option UInt64) :
    Option Exit := do
  (← program.scripts.lookup block).ending.exit? results

/--
The machine comes to the end of a block, after it visited other blocks from the entry on. The
visited blocks are listed from the latest to the first.
-/
inductive Visits (program : Program) (registers : Register → Option UInt64) :
    List BlockId → BlockId → Machine → Prop where
  | entry {machine : Machine} (runs : program.execute program.entry registers = some machine) :
      Visits program registers [] program.entry machine
  | jump {visited : List BlockId} {block target : BlockId} {before after : Machine}
      (visits : Visits program registers visited block before)
      (jumps : program.exit? block before.results = some (.jump target))
      (runs : program.execute target before.registers = some after) :
      Visits program registers (block :: visited) target after

/-- The machine returns a result, when it starts with some words in its registers. -/
def Returns (program : Program) (registers : Register → Option UInt64)
    (result : Option UInt64) : Prop :=
  ∃ visited block machine, program.Visits registers visited block machine ∧
    program.exit? block machine.results = some (.result result)

/-- The machine never gets stuck. -/
structure Total (program : Program) (registers : Register → Option UInt64) : Prop where
  starts : ∃ machine, program.execute program.entry registers = some machine
  exits : ∀ visited block machine, program.Visits registers visited block machine →
    ∃ exit, program.exit? block machine.results = some exit
  jumps : ∀ visited block machine target, program.Visits registers visited block machine →
    program.exit? block machine.results = some (.jump target) →
      ∃ after, program.execute target machine.registers = some after

variable {program : Program} {registers : Register → Option UInt64} {visited : List BlockId}
  {block : BlockId} {machine : Machine}

/-- The machine is determined by the blocks that it visits. -/
theorem Visits.unique {other : Machine} (visits : program.Visits registers visited block machine)
    (again : program.Visits registers visited block other) : machine = other := by
  induction visits generalizing other with
  | entry runs =>
      cases again with
      | entry again =>
          rw [runs] at again
          exact Option.some.inj again
  | jump _ _ runs ih =>
      cases again with
      | jump visits _ again =>
          rw [← ih visits, runs] at again
          exact Option.some.inj again

end Program

namespace Session

/-- What a machine does in the blocks of parts. -/
def scripts (graph : FlowGraph) : Session → List Part → List (BlockId × Script)
  | _, [] => []
  | session, part :: parts =>
    (part.block, { steps := session.trace graph part.work, ending := part.ending }) ::
      scripts graph (session.after graph part.actions) parts

/-- The machine for which the raised code stands. -/
def program (graph : FlowGraph) (start : Session) (parts : List Part) (func : Function) :
    Program where
  convention := graph.convention
  entry := graph.entry
  func := func
  scripts := start.scripts graph parts

/-- The registers with the arguments in them that they carry. -/
def argumentWords (start : Session) (arguments : Array UInt64) (register : Register) :
    Option UInt64 :=
  (start.raising.tracker.binding? register).bind fun binding =>
    start.raising.func.leafWord? arguments binding.value

variable {graph : FlowGraph} {start : Session} {front back : List Part} {part : Part}

/-- The script of a block, if its part is the first one of the block. -/
theorem lookup_scripts (fresh : part.block ∉ front.map Part.block) :
    (start.scripts graph (front ++ part :: back)).lookup part.block =
      some { steps := (start.after graph (front.flatMap Part.actions)).trace graph part.work
             ending := part.ending } := by
  induction front generalizing start with
  | nil => simp [scripts, after]
  | cons first front ih =>
      rw [List.map_cons, List.mem_cons, not_or] at fresh
      rw [List.cons_append, scripts, List.lookup_cons, beq_false_of_ne fresh.1, ih fresh.2,
        List.flatMap_cons, after_append]

end Session

end RegisterFlow
