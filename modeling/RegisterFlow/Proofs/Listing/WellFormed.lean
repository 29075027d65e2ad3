import RegisterFlow.Proofs.Listing.Parsed

/-!
# Parsed routines can be tracked

The routines of a listing are well formed, and the tables that are derived from them agree with their
blocks. So whatever tracking looks up in a parsed routine is there.
-/

namespace RegisterFlow

/--
The tables of a routine agree with its blocks: names lead to blocks, and predecessors mirror
successors.
-/
structure Routine.Tabulated (routine : Routine) : Prop where
  entry_lt : routine.flowGraph.entry < routine.flowGraph.blocks.size
  named : ∀ id name, routine.blockNames[id]? = some name →
    routine.flowGraph.blockNamed? name = some id
  /-- Every block is listed as a predecessor as often as it lists the other one as a successor. -/
  listed : ∀ source target block, routine.blocks[source]? = some block →
    (routine.flowGraph.predecessors target).count source = block.successors.count target
  sorted : ∀ target, (routine.flowGraph.predecessors target).Pairwise (· ≤ ·)
  closed : routine.flowGraph.Closed

/--
The numbers of instructions enumerate the blocks of a routine one after the other. An index that
needs more than 32 bits leads to the same instruction as its low bits.
-/
structure Routine.Numbered (routine : Routine) : Prop where
  ranged : ∀ (id : BlockId) (block : RoutineBlock), routine.blocks[id]? = some block →
    ∃ first past : UInt32, routine.instructionTable.ranges[id]? = some (first, past) ∧
      past.toNat = first.toNat + block.instructions.length
  numbered : ∀ id index, (routine.instructionTable.instructionAt? id index).isSome ↔
    ∃ block, routine.blocks[id]? = some block ∧
      index.toNat % 2 ^ 32 < block.instructions.length
  /-- The number of an instruction of a block leads back to the block and to the instruction. -/
  belongs : ∀ id block, routine.blocks[id]? = some block → ∀ index number,
    routine.instructionTable.instructionAt? id index = some number →
      routine.instructionTable.blockOf? number = some id ∧
        routine.instructionTable.entries[number.toNat]?.map InstructionEntry.instruction =
          block.instructions[index.toNat % 2 ^ 32]?
  /-- Every number up to that of all instructions belongs to one block, once. -/
  enumerates : ((List.range routine.blocks.length).flatMap
      routine.instructionTable.instructionsOf).map UInt32.toNat =
    List.range routine.instructionCount
  /-- Every number that is in use has an entry. -/
  entered : ∀ number : UInt32, number.toNat < routine.instructionCount →
    (routine.instructionTable.blockOf? number).isSome
  effects : ∀ id block, routine.blocks[id]? = some block →
    (routine.flowGraph.block id).effects = block.instructions.map Instruction.effect

namespace Routine.WellFormed

variable {routine : Routine}

theorem blockNamed?_eq (wellFormed : routine.WellFormed) {id : BlockId} {name : String}
    (listed : routine.blockNames[id]? = some name) :
    routine.flowGraph.blockNamed? name = some id := by
  rcases List.getElem?_eq_some_iff.mp listed with ⟨bound, rfl⟩
  simp only [blockNames, List.length_map] at bound
  simp only [FlowGraph.blockNamed?, flowGraph, List.findIdx?_toArray]
  rw [List.findIdx?_eq_some_iff_getElem]
  refine ⟨by simpa using bound, by simp [blockNames], ?_⟩
  intro earlier before same
  have bound_names : id < routine.blockNames.length := by simpa [blockNames] using bound
  have differs := List.pairwise_iff_getElem.mp wellFormed.distinct earlier id
    (Nat.lt_trans before bound_names) bound_names before
  apply differs
  simpa [blockNames] using same

theorem count_predecessors (wellFormed : routine.WellFormed) {source target : BlockId}
    {block : RoutineBlock} (listed : routine.blocks[source]? = some block) :
    (routine.flowGraph.predecessors target).count source = block.successors.count target := by
  by_cases inside : target < routine.blocks.length
  · rw [predecessors_flowGraph inside, count_sourcesOf, listed]
    rfl
  · rw [predecessors_flowGraph_of_le (Nat.le_of_not_lt inside), List.count_nil, eq_comm]
    apply List.count_eq_zero_of_not_mem
    intro mem
    exact inside (wellFormed.successors_lt block (List.mem_of_getElem? listed) target mem)

theorem sorted_predecessors (routine : Routine) (target : BlockId) :
    (routine.flowGraph.predecessors target).Pairwise (· ≤ ·) := by
  by_cases inside : target < routine.blocks.length
  · rw [predecessors_flowGraph inside]
    exact sorted_sourcesOf
  · rw [predecessors_flowGraph_of_le (Nat.le_of_not_lt inside)]
    exact .nil

/-- The tables of a well-formed routine agree with its blocks. -/
theorem tabulated (wellFormed : routine.WellFormed) : routine.Tabulated where
  entry_lt := by
    rw [size_flowGraph]
    exact List.length_pos_of_ne_nil wellFormed.nonempty
  named _ _ listed := wellFormed.blockNamed?_eq listed
  listed _ _ _ listed := wellFormed.count_predecessors listed
  sorted := sorted_predecessors routine
  closed := closed_flowGraph routine

end Routine.WellFormed

/-- Where 32 bits suffice for the instructions of a routine, they are numbered. -/
theorem Routine.numbered {routine : Routine} (few : routine.instructionCount < 2 ^ 32) :
    routine.Numbered := by
  have enters := InstructionTable.enters_instructionTable routine
  have size_eq : routine.instructionTable.entries.size = routine.instructionCount :=
    enters.instructionCount
  have fits : routine.instructionTable.entries.size < 2 ^ 32 := size_eq ▸ few
  exact {
    ranged := fun _ _ listed => enters.exists_range fits listed
    numbered := by
      intro id index
      cases listed : routine.blocks[id]? with
      | none =>
          have outside := List.getElem?_eq_none_iff.mp listed
          simp [enters.instructionAt?_eq_none outside]
      | some block => simp [enters.isSome_instructionAt?_iff fits listed]
    belongs := by
      intro id block listed index number numbered
      rcases enters.entry_of_instructionAt? fits listed numbered with ⟨instruction, held, entry_eq⟩
      rw [InstructionTable.blockOf?, entry_eq, held]
      exact ⟨rfl, rfl⟩
    enumerates := by
      have same : ∀ number ∈ List.range routine.instructionCount,
          (UInt32.toNat ∘ UInt32.ofNat) number = number := fun _ mem =>
        InstructionTable.toNat_number (Nat.lt_trans (List.mem_range.mp mem) few)
      rw [enters.enumerates fits, size_eq, List.map_map]
      exact (List.map_congr_left same).trans (List.map_id' _)
    entered := by
      intro number bound
      rw [← size_eq] at bound
      simp [InstructionTable.blockOf?, bound]
    effects := fun _ _ listed => effects_flowGraph few listed }

/--
The routines of a listing have blocks with distinct names and successors among these blocks,
arguments of proper types, and tables that agree with the blocks; the instructions of the whole text
lie next to each other, from the first address on up to the last of its bytes. Where 32 bits suffice
for its instructions, a routine numbers them, but it cuts an index into a block to 32 bits: what is
at an index from there on is what is at its low bits.
-/
theorem parsed_routines_well_formed {decode : Decoder} {text : String} {routines : List Routine}
    (exactly : decode.Exact) (parsed : Routine.parseWith decode text = .ok routines) :
    Instruction.RunFrom 0x1000 (routines.flatMap Routine.instructions) ∧
      Instruction.totalLength (routines.flatMap Routine.instructions) =
        Routine.codeBytes decode text ∧
      ∀ routine ∈ routines, routine.WellFormed ∧ routine.Tabulated ∧
        (routine.instructionCount < 2 ^ 32 → routine.Numbered) := by
  rcases Routine.exists_of_parseWith parsed with ⟨last, read⟩
  have covers := Cursor.covers_readRoutines exactly read
  refine ⟨covers.run, ?_, ?_⟩
  · rw [Routine.codeBytes_of_readRoutines read, covers.address_eq, Nat.add_sub_cancel_left]
  · intro routine mem
    have wellFormed := Cursor.wellFormed_of_readRoutines read routine mem
    exact ⟨wellFormed, wellFormed.tabulated, Routine.numbered⟩

/-- A listing of two routines; the first one jumps twice to the block that `ab` names. -/
def twoRoutines : String :=
  "f(i64) \x7b\na:\n 48 89 f8 c3\n jump ^ab, ^ab\nab: ; falls\n C3\n\x7d\n" ++
    "g() \x7b\nb:\n31 c0\n\x7d\n"

theorem parsed_routines_well_formed_two :
    Decoder.Exact Encoding.decode? ∧
      ∃ routines, Routine.parseWith Encoding.decode? twoRoutines = .ok routines ∧
        routines.map Routine.blockNames = [["a", "ab"], ["b"]] ∧
        Instruction.RunFrom 0x1000 (routines.flatMap Routine.instructions) ∧
        Instruction.totalLength (routines.flatMap Routine.instructions) =
          Routine.codeBytes Encoding.decode? twoRoutines ∧
        ∀ routine ∈ routines, routine.WellFormed ∧ routine.Tabulated ∧ routine.Numbered := by
  have seen : (Routine.parseWith Encoding.decode? twoRoutines).map (fun routines =>
      (routines.map Routine.blockNames, routines.all (·.instructionCount ≤ 3))) =
      .ok ([["a", "ab"], ["b"]], true) := by
    decide +kernel
  cases parsed : Routine.parseWith Encoding.decode? twoRoutines with
  | error failure =>
      rw [parsed] at seen
      cases seen
  | ok routines =>
      rw [parsed] at seen
      injection seen with seen
      rcases Prod.mk.inj seen with ⟨names, counted⟩
      rcases parsed_routines_well_formed Encoding.exact_decode? parsed with
        ⟨run, total, wellFormed⟩
      refine ⟨Encoding.exact_decode?, routines, rfl, names, run, total, ?_⟩
      intro routine mem
      rcases wellFormed routine mem with ⟨formed, tabulated, numbered⟩
      have few : routine.instructionCount ≤ 3 := by
        simpa using List.all_eq_true.mp counted routine mem
      exact ⟨formed, tabulated, numbered (by omega)⟩

/-- A listing whose first block has two instructions. -/
def flagsListing : String :=
  "f(i64, i64) \x7b\nentry:\n 48 39 f7\n 28 c8\n jump ^body\n" ++
    "body:\n d0 c0\n 48 0f ad d0\n jump ^body, ^exit\nexit:\n c3\n\x7d\n"

/-- The first instruction of the block is also at an index far beyond its last one. -/
theorem not_index_below_flags :
    ∃ routine, Routine.parseWith Encoding.decode? flagsListing = .ok [routine] ∧
      routine.instructionCount = 5 ∧
      routine.instructionTable.instructionAt? 0 0x100000000 = some 0 ∧
      ¬ ∀ id index, (routine.instructionTable.instructionAt? id index).isSome ↔
        ∃ block, routine.blocks[id]? = some block ∧ index.toNat < block.instructions.length := by
  have seen : (Routine.parseWith Encoding.decode? flagsListing).map
      (List.map fun routine => (routine.instructionCount,
        routine.instructionTable.instructionAt? 0 0x100000000,
        routine.blocks[0]?.map (·.instructions.length))) =
      .ok [(5, some 0, some 2)] := by
    decide +kernel
  cases parsed : Routine.parseWith Encoding.decode? flagsListing with
  | error failure =>
      rw [parsed] at seen
      cases seen
  | ok routines =>
      rw [parsed] at seen
      injection seen with seen
      rcases List.map_eq_singleton_iff.mp seen with ⟨routine, rfl, facts⟩
      simp only [Prod.mk.injEq, Option.map_eq_some_iff] at facts
      rcases facts with ⟨count, found, first, first_listed, first_length⟩
      refine ⟨routine, rfl, count, found, fun all => ?_⟩
      rcases (all 0 0x100000000).mp (by rw [found]; rfl) with ⟨block, listed, below⟩
      obtain rfl : first = block := Option.some.inj (first_listed.symm.trans listed)
      rw [first_length] at below
      exact absurd below (by decide)

end RegisterFlow
