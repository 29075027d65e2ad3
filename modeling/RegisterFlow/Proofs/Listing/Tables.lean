import Mathlib.Algebra.Group.Nat.Defs
import Mathlib.Data.List.Basic
import Mathlib.Data.List.Induction
import RegisterFlow.Listing.Routine
import RegisterFlow.Proofs.Tracking.Walk

/-!
# Tables of routines

The tables that are derived from a routine say the same as its blocks: the predecessor lists mirror
the successor lists, and the numbers of instructions enumerate the instructions block by block.
-/

namespace RegisterFlow

/-! ### Predecessors -/

namespace Routine

/-- The blocks of a list that name a block as their successor, each as often as it does. -/
def sourcesOf (blocks : List RoutineBlock) (target : BlockId) : List BlockId :=
  blocks.zipIdx.flatMap fun (block, source) =>
    List.replicate (block.successors.count target) source

variable {blocks : List RoutineBlock} {routine : Routine} {source target : BlockId}

theorem getElem?_addPredecessor (successors : List BlockId) (table : Array (List BlockId)) :
    (addPredecessor source successors table)[target]? =
      table[target]?.map (· ++ List.replicate (successors.count target) source) := by
  unfold addPredecessor
  induction successors generalizing table with
  | nil => simp
  | cons first rest ih =>
      rw [List.foldl_cons, ih, Array.getElem?_modify]
      by_cases same : first = target
      · subst same
        cases table[first]? <;> simp [List.replicate_succ]
      · simp [same]

theorem getElem?_predecessorTable (inside : target < routine.blocks.length) :
    routine.predecessorTable[target]? = some (sourcesOf routine.blocks target) := by
  have fold : ∀ (entries : List (RoutineBlock × BlockId)) (table : Array (List BlockId)),
      (entries.foldl (fun table (block, source) => addPredecessor source block.successors table)
        table)[target]? =
        table[target]?.map (· ++ entries.flatMap fun (block, source) =>
          List.replicate (block.successors.count target) source) := by
    intro entries
    induction entries with
    | nil => simp
    | cons entry rest ih =>
        intro table
        rw [List.foldl_cons, ih, getElem?_addPredecessor]
        cases table[target]? <;> simp
  unfold predecessorTable
  rw [fold]
  simp [inside, sourcesOf]

theorem sourcesOf_append (block : RoutineBlock) :
    sourcesOf (blocks ++ [block]) target =
      sourcesOf blocks target ++
        List.replicate (block.successors.count target) blocks.length := by
  simp [sourcesOf, List.zipIdx_append]

theorem lt_length_of_mem_sourcesOf (mem : source ∈ sourcesOf blocks target) :
    source < blocks.length := by
  rcases List.mem_flatMap.mp mem with ⟨⟨block, id⟩, listed, repeated⟩
  rcases List.mem_replicate.mp repeated with ⟨-, rfl⟩
  have bound := List.snd_lt_of_mem_zipIdx listed
  simpa using bound

/-- Every block is listed as often as it names the other one. -/
theorem count_sourcesOf (source target : BlockId) :
    (sourcesOf blocks target).count source =
      (blocks[source]?.map fun block => block.successors.count target).getD 0 := by
  induction blocks using List.reverseRecOn with
  | nil => simp [sourcesOf]
  | append_singleton blocks block ih =>
      rw [sourcesOf_append, List.count_append, ih, List.count_replicate]
      rcases Nat.lt_trichotomy source blocks.length with old | rfl | outside
      · have different : blocks.length ≠ source := Nat.ne_of_gt old
        simp [List.getElem?_append_left old, different]
      · simp
      · have different : blocks.length ≠ source := Nat.ne_of_lt outside
        have beyond : (blocks ++ [block]).length ≤ source := by
          rw [List.length_append]
          exact outside
        rw [List.getElem?_eq_none (Nat.le_of_lt outside), List.getElem?_eq_none beyond]
        simp [different]

theorem sorted_sourcesOf : (sourcesOf blocks target).Pairwise (· ≤ ·) := by
  induction blocks using List.reverseRecOn with
  | nil => simp [sourcesOf]
  | append_singleton blocks block ih =>
      rw [sourcesOf_append, List.pairwise_append]
      refine ⟨ih, ?_, ?_⟩
      · simp [List.pairwise_replicate]
      · intro earlier listed last repeated
        rw [(List.mem_replicate.mp repeated).2]
        exact Nat.le_of_lt (lt_length_of_mem_sourcesOf listed)

end Routine

/-! ### Instructions -/

namespace InstructionTable

variable {table : InstructionTable} {blocks : List RoutineBlock} {block : RoutineBlock}

/-- The items of a list at all its places are the list. -/
theorem filterMap_getElem?_range {α : Type} (items : List α) :
    (List.range items.length).filterMap (items[·]?) = items := by
  induction items using List.reverseRecOn with
  | nil => rfl
  | append_singleton items item ih =>
      rw [List.length_append, List.length_singleton, List.range_succ, List.filterMap_append]
      have old : ∀ index ∈ List.range items.length, (items ++ [item])[index]? = items[index]? :=
        fun index mem => List.getElem?_append_left (List.mem_range.mp mem)
      rw [List.filterMap_congr old, ih]
      simp

/-- What is known about an instruction of a block. -/
def entry (id : BlockId) (instruction : Instruction) : InstructionEntry where
  block := id
  instruction
  effect := instruction.effect

section Ranges

/-- Numbers of 32 bits are themselves. -/
theorem toNat_number {number : Nat} (fits : number < 2 ^ 32) :
    (UInt32.ofNat number).toNat = number :=
  UInt32.toNat_ofNat_of_lt' fits

variable {id : BlockId} {first length : Nat}
  (range : table.ranges[id]? = some (.ofNat first, .ofNat (first + length)))
  (fits : first + length < 2 ^ 32)

include range fits

/-- The numbers of a range that fits 32 bits follow one another. -/
theorem instructionsOf_eq :
    table.instructionsOf id = (List.range' first length).map .ofNat := by
  have first_eq : (UInt32.ofNat first).toNat = first := toNat_number (by omega)
  have past_eq : (UInt32.ofNat (first + length)).toNat = first + length :=
    toNat_number fits
  simp only [instructionsOf, range, first_eq, past_eq, Nat.add_sub_cancel_left]

/-- An index leads into the range exactly if its low 32 bits do. -/
theorem instructionAt?_eq (index : UInt64) :
    table.instructionAt? id index =
      if index.toNat % 2 ^ 32 < length then some (.ofNat (first + index.toNat % 2 ^ 32))
      else none := by
  have cut_lt : index.toNat % 2 ^ 32 < 2 ^ 32 := Nat.mod_lt _ (by decide)
  have first_eq : (UInt32.ofNat first).toNat = first := toNat_number (by omega)
  have past_eq : (UInt32.ofNat (first + length)).toNat = first + length :=
    toNat_number fits
  have sum_eq : (UInt32.ofNat first + index.toUInt32).toNat =
      (first + index.toNat % 2 ^ 32) % 2 ^ 32 := by
    rw [UInt32.toNat_add, first_eq, UInt64.toNat_toUInt32]
  simp only [instructionAt?, range, UInt32.le_iff_toNat_le, UInt32.lt_iff_toNat_lt, first_eq,
    past_eq, sum_eq]
  generalize index.toNat % 2 ^ 32 = cut at *
  by_cases inside : cut < length
  · have sum_lt : first + cut < 2 ^ 32 := by omega
    have number_eq : UInt32.ofNat first + index.toUInt32 = .ofNat (first + cut) := by
      rw [← UInt32.toNat_inj, sum_eq, toNat_number sum_lt, Nat.mod_eq_of_lt sum_lt]
    rw [if_pos inside, Nat.mod_eq_of_lt sum_lt, if_pos (by omega), number_eq]
  · -- A sum that does not fit is cut to a number below the range.
    rw [if_neg inside, if_neg (by omega)]

end Ranges

/-- The table holds the instructions of a list of blocks, one block after the other. -/
structure Enters (table : InstructionTable) (blocks : List RoutineBlock) : Prop where
  blockCount : table.ranges.size = blocks.length
  instructionCount : table.entries.size = (blocks.flatMap RoutineBlock.instructions).length
  holds : ∀ id block, blocks[id]? = some block → ∃ first,
    table.ranges[id]? = some (.ofNat first, .ofNat (first + block.instructions.length)) ∧
      first + block.instructions.length ≤ table.entries.size ∧
      ∀ index instruction, block.instructions[index]? = some instruction →
        table.entries[first + index]? = some (entry id instruction)
  enumerates : table.entries.size < 2 ^ 32 →
    (List.range blocks.length).flatMap table.instructionsOf =
      (List.range table.entries.size).map .ofNat

theorem addBlock_eq (table : InstructionTable) (id : BlockId) (instructions : List Instruction) :
    table.addBlock id instructions =
      { entries := table.entries ++ (instructions.map (entry id)).toArray
        ranges := table.ranges.push
          (.ofNat table.entries.size, .ofNat (table.entries.size + instructions.length)) } := by
  have entered : instructions.foldl (fun entries instruction => entries.push (entry id instruction))
      table.entries = table.entries ++ (instructions.map (entry id)).toArray :=
    List.foldl_push_eq_append
  have entries_eq : (table.addBlock id instructions).entries =
      table.entries ++ (instructions.map (entry id)).toArray := entered
  have ranges_eq : (table.addBlock id instructions).ranges =
      table.ranges.push
        (.ofNat table.entries.size, .ofNat (table.addBlock id instructions).entries.size) := rfl
  rw [entries_eq] at ranges_eq
  have size_eq : (table.entries ++ (instructions.map (entry id)).toArray).size =
      table.entries.size + instructions.length := by
    simp
  rw [size_eq] at ranges_eq
  cases added : table.addBlock id instructions
  simp_all

/-- What is entered stays where it is when the next block is added. -/
theorem Enters.addBlock (enters : table.Enters blocks) (block : RoutineBlock) :
    (table.addBlock blocks.length block.instructions).Enters (blocks ++ [block]) := by
  rw [addBlock_eq]
  have old_range : ∀ id < blocks.length, ∀ range,
      (table.ranges.push range)[id]? = table.ranges[id]? := by
    intro id inside range
    rw [Array.getElem?_push, if_neg]
    exact Nat.ne_of_lt (enters.blockCount ▸ inside)
  have new_range : ∀ range, (table.ranges.push range)[blocks.length]? = some range := by
    intro range
    rw [← enters.blockCount, Array.getElem?_push, if_pos rfl]
  have size_eq : (table.entries ++ (block.instructions.map (entry blocks.length)).toArray).size =
      table.entries.size + block.instructions.length := by
    simp
  refine ⟨by simp [enters.blockCount], by simp [enters.instructionCount], ?_, ?_⟩
  · intro id other listed
    rw [size_eq]
    by_cases inside : id < blocks.length
    · rw [List.getElem?_append_left inside] at listed
      rcases enters.holds id other listed with ⟨first, range, within, entries⟩
      refine ⟨first, (old_range id inside _).trans range, by omega, ?_⟩
      intro index instruction held
      have entered := entries index instruction held
      have bound := (Array.getElem?_eq_some_iff.mp entered).1
      simpa [Array.getElem?_append, bound] using entered
    · rw [List.getElem?_append_right (Nat.le_of_not_lt inside)] at listed
      have bound := (List.getElem?_eq_some_iff.mp listed).1
      rw [List.length_singleton] at bound
      have id_eq : id = blocks.length :=
        Nat.le_antisymm (Nat.sub_eq_zero_iff_le.mp (Nat.lt_one_iff.mp bound))
          (Nat.le_of_not_lt inside)
      subst id_eq
      simp only [Nat.sub_self, List.getElem?_cons_zero, Option.some.injEq] at listed
      subst listed
      refine ⟨table.entries.size, new_range _, Nat.le_refl _, ?_⟩
      intro index instruction held
      simp [Array.getElem?_append, held]
  · intro fits
    rw [size_eq] at fits ⊢
    have old : (List.range blocks.length).flatMap
        (instructionsOf
          { entries := table.entries ++ (block.instructions.map (entry blocks.length)).toArray
            ranges := table.ranges.push
              (.ofNat table.entries.size,
                .ofNat (table.entries.size + block.instructions.length)) }) =
        (List.range blocks.length).flatMap table.instructionsOf := by
      apply List.flatMap_congr
      intro id mem
      simp only [instructionsOf, old_range id (List.mem_range.mp mem)]
    rw [List.length_append, List.length_singleton, List.range_succ, List.flatMap_append, old,
      enters.enumerates (by omega), List.flatMap_singleton, instructionsOf_eq (new_range _) fits,
      List.range_add, List.map_append, List.range'_eq_map_range]

theorem enters_instructionTable (routine : Routine) :
    routine.instructionTable.Enters routine.blocks := by
  unfold Routine.instructionTable
  induction routine.blocks using List.reverseRecOn with
  | nil => exact ⟨rfl, rfl, by simp, fun _ => rfl⟩
  | append_singleton blocks block ih =>
      rw [List.zipIdx_append, List.foldl_append]
      simpa using ih.addBlock block

section Enters

variable {id : BlockId} (enters : table.Enters blocks) (fits : table.entries.size < 2 ^ 32)
  (listed : blocks[id]? = some block)

include enters fits listed

/-- The range of a block has a number for each of its instructions. -/
theorem Enters.exists_range :
    ∃ first past, table.ranges[id]? = some (first, past) ∧
      past.toNat = first.toNat + block.instructions.length := by
  rcases enters.holds id block listed with ⟨first, range, within, -⟩
  refine ⟨_, _, range, ?_⟩
  rw [toNat_number (Nat.lt_of_le_of_lt within fits),
    toNat_number (by omega)]

/-- A block has a number for an index exactly if it has an instruction there, after the cut. -/
theorem Enters.isSome_instructionAt?_iff (index : UInt64) :
    (table.instructionAt? id index).isSome ↔
      index.toNat % 2 ^ 32 < block.instructions.length := by
  rcases enters.holds id block listed with ⟨first, range, within, -⟩
  rw [instructionAt?_eq range (Nat.lt_of_le_of_lt within fits)]
  split <;> simp_all

/-- The number of an instruction of a block leads to that instruction, and back to the block. -/
theorem Enters.entry_of_instructionAt? {index : UInt64} {number : UInt32}
    (numbered : table.instructionAt? id index = some number) :
    ∃ instruction, block.instructions[index.toNat % 2 ^ 32]? = some instruction ∧
      table.entries[number.toNat]? = some (entry id instruction) := by
  rcases enters.holds id block listed with ⟨first, range, within, entries⟩
  rw [instructionAt?_eq range (Nat.lt_of_le_of_lt within fits)] at numbered
  split at numbered
  · next held =>
    cases numbered
    have found := List.getElem?_eq_getElem held
    refine ⟨_, found, ?_⟩
    rw [toNat_number (by omega)]
    exact entries _ _ found
  · cases numbered

theorem Enters.effectsOf_eq :
    table.effectsOf id = block.instructions.map Instruction.effect := by
  rcases enters.holds id block listed with ⟨first, range, within, entries⟩
  rw [effectsOf, instructionsOf_eq range (Nat.lt_of_le_of_lt within fits),
    List.range'_eq_map_range, List.map_map, List.filterMap_map]
  have found : ∀ index ∈ List.range block.instructions.length,
      ((fun number : UInt32 => table.entries[number.toNat]?.map InstructionEntry.effect) ∘
          (UInt32.ofNat ∘ (first + ·))) index =
        block.instructions[index]?.map Instruction.effect := by
    intro index mem
    have inside := List.mem_range.mp mem
    have held := List.getElem?_eq_getElem inside
    have number_eq : (UInt32.ofNat (first + index)).toNat = first + index :=
      toNat_number (by omega)
    simp only [Function.comp_apply, number_eq, entries index _ held, held]
    rfl
  rw [List.filterMap_congr found, ← filterMap_getElem?_range (block.instructions.map _),
    List.length_map]
  simp only [List.getElem?_map]

end Enters

/-- Blocks that the routine does not have hold no instructions. -/
theorem Enters.instructionAt?_eq_none {id : BlockId} (enters : table.Enters blocks)
    (outside : blocks.length ≤ id) (index : UInt64) : table.instructionAt? id index = none := by
  have missing : table.ranges[id]? = none := by
    rw [Array.getElem?_eq_none_iff, enters.blockCount]
    exact outside
  simp [instructionAt?, missing]

end InstructionTable

namespace Routine

variable {routine : Routine} {id : BlockId}

theorem size_flowGraph (routine : Routine) :
    routine.flowGraph.blocks.size = routine.blocks.length := by
  simp [flowGraph]

theorem predecessors_flowGraph (inside : id < routine.blocks.length) :
    routine.flowGraph.predecessors id = sourcesOf routine.blocks id := by
  have listed := List.getElem?_eq_getElem inside
  simp [FlowGraph.predecessors, FlowGraph.block, flowGraph, listed,
    getElem?_predecessorTable inside]

/-- The effects of a block are those of its instructions, as long as numbers suffice for all. -/
theorem effects_flowGraph {block : RoutineBlock} (few : routine.instructionCount < 2 ^ 32)
    (listed : routine.blocks[id]? = some block) :
    (routine.flowGraph.block id).effects = block.instructions.map Instruction.effect := by
  have enters := InstructionTable.enters_instructionTable routine
  have effects := enters.effectsOf_eq (enters.instructionCount ▸ few) listed
  simp [FlowGraph.block, flowGraph, listed, effects]

theorem predecessors_flowGraph_of_le (outside : routine.blocks.length ≤ id) :
    routine.flowGraph.predecessors id = [] := by
  have missing : routine.flowGraph.blocks[id]? = none := by
    rw [Array.getElem?_eq_none_iff, size_flowGraph]
    exact outside
  simp [FlowGraph.predecessors, FlowGraph.block, missing, default]

/-- The predecessors of the blocks of a routine are blocks of the routine. -/
theorem closed_flowGraph (routine : Routine) : routine.flowGraph.Closed := by
  intro id predecessor mem
  rw [size_flowGraph]
  by_cases inside : id < routine.blocks.length
  · rw [predecessors_flowGraph inside] at mem
    exact lt_length_of_mem_sourcesOf mem
  · rw [predecessors_flowGraph_of_le (Nat.le_of_not_lt inside)] at mem
    cases mem

end Routine

end RegisterFlow
