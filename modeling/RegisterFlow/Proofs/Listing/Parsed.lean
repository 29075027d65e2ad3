import RegisterFlow.Proofs.Listing.Advances
import RegisterFlow.Proofs.Listing.Decoders
import RegisterFlow.Proofs.Listing.Equations
import RegisterFlow.Proofs.Listing.Tables

/-!
# What is parsed is well formed

Whatever text is read, the routines that come out have blocks with distinct names, successors among
these blocks, and argument types that a value can have. Their instructions lie next to each other
from the first address on. So everything that tracking looks up in a routine is there.
-/

namespace RegisterFlow

/-- A routine has blocks with names of their own, which lead to each other only. -/
structure Routine.WellFormed (routine : Routine) : Prop where
  nonempty : routine.blocks ≠ []
  distinct : routine.blockNames.Nodup
  successors_lt : ∀ block ∈ routine.blocks, ∀ successor ∈ block.successors,
    successor < routine.blocks.length
  arguments : ∀ ty ∈ routine.argumentTypes, ty ≠ .void ∧ ty ≠ .int 0

/-- The instructions of all blocks in layout order. -/
def Routine.instructions (routine : Routine) : List Instruction :=
  routine.blocks.flatMap RoutineBlock.instructions

/-- The number of instruction bytes in a listing that can be read. -/
def Routine.codeBytes (decode : Decoder) (text : String) : Nat :=
  match Cursor.readRoutines decode { rest := text.toList } with
  | .error _ => 0
  | .ok (_, last) => last.address - 0x1000

theorem Routine.codeBytes_of_readRoutines {decode : Decoder} {text : String}
    {routines : List Routine} {last : Cursor}
    (read : Cursor.readRoutines decode { rest := text.toList } = .ok (routines, last)) :
    codeBytes decode text = last.address - 0x1000 := by
  simp [codeBytes, read]

namespace Cursor

variable {decode : Decoder} {cursor next middle : Cursor} {block function : String}
  {earlier : List String} {first second : List Instruction}

/-! ### Addresses -/

/-- Instructions lie next to each other, from the address of one cursor to that of another. -/
structure Covers (before : Cursor) (instructions : List Instruction) (after : Cursor) : Prop where
  run : Instruction.RunFrom before.address instructions
  address_eq : after.address = before.address + Instruction.totalLength instructions

theorem Skims.covers (skims : Skims cursor next) : Covers cursor [] next :=
  ⟨trivial, skims.address_eq⟩

theorem Covers.append (left : Covers cursor first middle) (right : Covers middle second next) :
    Covers cursor (first ++ second) next := by
  refine ⟨Instruction.runFrom_append.mpr ⟨left.run, left.address_eq ▸ right.run⟩, ?_⟩
  rw [right.address_eq, left.address_eq, Instruction.totalLength_append, Nat.add_assoc]

theorem Covers.skims_left (skims : Skims cursor middle) (covers : Covers middle first next) :
    Covers cursor first next :=
  skims.covers.append covers

theorem covers_readInstructions (exactly : decode.Exact) {byte : UInt8}
    (read : cursor.readInstructions decode byte = .ok (first, next)) :
    Covers cursor first next := by
  rcases decode_of_readInstructions read with ⟨others, last, -, decoded, rfl⟩
  exact ⟨exactly.run _ _ _ decoded, by rw [exactly.total _ _ _ decoded]⟩

theorem covers_readBody (exactly : decode.Exact) {body : List Instruction × List String}
    (read : cursor.readBody decode block = .ok (body, next)) : Covers cursor body.1 next := by
  fun_induction readBody decode block cursor generalizing body next with
  | case1 cursor start =>
    cases read
    exact (skims_skip cursor true).covers
  | case2 | case4 | case5 => cases read
  | case3 cursor start word afterWord following inside isJump targets last =>
    rename_i targetsRead ih
    rcases exists_of_prepend read with ⟨others, rest_read, rfl⟩
    have first : Skims cursor afterWord := (skims_skip cursor true).trans (skims_word _)
    have second := (skims_skip afterWord false).trans (skims_readTargets targetsRead)
    exact (ih rest_read).skims_left (first.trans second)
  | case6 cursor start word afterWord following inside noJump byte isByte instructions last =>
    rename_i instructionsRead ih
    rcases exists_of_prepend read with ⟨others, rest_read, rfl⟩
    have first : Skims cursor afterWord := (skims_skip cursor true).trans (skims_word _)
    exact ((covers_readInstructions exactly instructionsRead).append (ih rest_read)).skims_left first

theorem covers_readBlock (exactly : decode.Exact) {draft : BlockDraft}
    (read : cursor.readBlock decode function earlier = .ok (draft, next)) :
    Covers cursor draft.instructions next := by
  rcases steps_of_readBlock read with ⟨afterName, afterColon, named, marked, -, bodyRead⟩
  have first := (skims_identifier named).trans (skims_expect (by decide) marked)
  exact (covers_readBody exactly bodyRead).skims_left first

theorem covers_readBlocks (exactly : decode.Exact) {drafts : List BlockDraft}
    (read : cursor.readBlocks decode function earlier = .ok (drafts, next)) :
    Covers cursor (drafts.flatMap BlockDraft.instructions) next := by
  fun_induction readBlocks decode function earlier cursor generalizing drafts next with
  | case1 earlier cursor closing =>
    cases read
    exact (skims_accept (by decide)).covers
  | case2 | case3 => cases read
  | case4 earlier cursor closing inside more draft last =>
    rename_i draftRead ih
    rcases exists_of_prepend read with ⟨others, rest_read, rfl⟩
    have first : Skims cursor closing.2 := skims_accept (by decide)
    exact ((covers_readBlock exactly draftRead).append (ih rest_read)).skims_left first

/-! ### Names -/

/-- The names of the blocks that are read are new and distinct. -/
theorem nodup_of_readBlocks {drafts : List BlockDraft}
    (read : cursor.readBlocks decode function earlier = .ok (drafts, next)) :
    (drafts.map BlockDraft.name).Nodup ∧ ∀ name ∈ drafts.map BlockDraft.name, name ∉ earlier := by
  fun_induction readBlocks decode function earlier cursor generalizing drafts next with
  | case1 earlier cursor closing =>
    cases read
    simp
  | case2 | case3 => cases read
  | case4 earlier cursor closing inside more draft last =>
    rename_i draftRead ih
    rcases exists_of_prepend read with ⟨others, rest_read, rfl⟩
    rcases steps_of_readBlock draftRead with ⟨-, -, -, -, new, -⟩
    rcases ih rest_read with ⟨distinct, fresh⟩
    rw [List.map_cons]
    constructor
    · rw [List.nodup_cons]
      exact ⟨fun mem => fresh _ mem List.mem_cons_self, distinct⟩
    · intro name mem
      rcases List.mem_cons.mp mem with rfl | mem
      · exact new
      · exact fun old => fresh name mem (List.mem_cons_of_mem _ old)

/-! ### Types -/

/-- The type of an argument is one that a value can have. -/
theorem argumentTy_proper {word : String} {ty : Ty} (typed : argumentTy? word = some ty) :
    ty ≠ .void ∧ ty ≠ .int 0 := by
  unfold argumentTy? at typed
  split at typed
  · cases typed
    simp
  · cases typed
    simp
  · cases typed
    simp
  · rcases Option.bind_eq_some_iff.mp typed with ⟨bits, -, fits⟩
    split at fits
    · next positive =>
      cases fits
      simp only [ne_eq, reduceCtorEq, not_false_eq_true, Ty.int.injEq, true_and]
      exact Nat.ne_of_gt positive.1
    · cases fits
  · cases typed

theorem proper_of_readArguments {types : List Ty}
    (read : cursor.readArguments = .ok (types, next)) :
    ∀ ty ∈ types, ty ≠ .void ∧ ty ≠ .int 0 := by
  fun_induction readArguments cursor generalizing types next with
  | case1 cursor closing =>
    cases read
    simp
  | case2 | case4 => cases read
  | case3 cursor closing inside first afterTy tyRead separated =>
    rename_i ih
    rcases exists_of_prepend read with ⟨others, rest_read, rfl⟩
    rcases identifier_of_readTy tyRead with ⟨word, -, typed⟩
    intro ty mem
    rcases List.mem_cons.mp mem with rfl | mem
    · exact argumentTy_proper typed
    · exact ih rest_read ty mem

end Cursor

/-! ### Routines -/

namespace BlockDraft

/-- A block that was linked keeps its name and instructions, and leads to blocks with names only. -/
structure Links (names : List String) (draft : BlockDraft) (block : RoutineBlock) : Prop where
  name_eq : block.name = draft.name
  instructions_eq : block.instructions = draft.instructions
  successors_lt : ∀ successor ∈ block.successors, successor < names.length

variable {function : String} {names : List String} {drafts : List BlockDraft}
  {blocks : List RoutineBlock}

theorem links_of_link {draft : BlockDraft} {block : RoutineBlock}
    (linked : draft.link function names = .ok block) : Links names draft block := by
  rcases Cursor.exists_of_bind linked with ⟨successors, found, finished⟩
  cases finished
  refine ⟨rfl, rfl, ?_⟩
  intro successor mem
  rcases exists_of_mem_mapM found mem with ⟨target, -, named⟩
  split at named
  · next id position =>
    cases named
    exact (List.findIdx?_eq_some_iff_getElem.mp position).1
  · cases named

theorem forall₂_links (linked : drafts.mapM (link function names) = .ok blocks) :
    List.Forall₂ (Links names) drafts blocks :=
  (forall₂_of_mapM linked).imp fun _ _ => links_of_link

theorem names_of_links (linked : List.Forall₂ (Links names) drafts blocks) :
    blocks.map RoutineBlock.name = drafts.map name := by
  induction linked with
  | nil => rfl
  | cons links _ ih => simp [links.name_eq, ih]

theorem instructions_of_links (linked : List.Forall₂ (Links names) drafts blocks) :
    blocks.flatMap RoutineBlock.instructions = drafts.flatMap instructions := by
  induction linked with
  | nil => rfl
  | cons links _ ih => simp [links.instructions_eq, ih]

end BlockDraft

namespace Cursor

variable {decode : Decoder} {cursor next : Cursor}

theorem wellFormed_of_readRoutine {routine : Routine}
    (read : cursor.readRoutine decode = .ok (routine, next)) : routine.WellFormed := by
  rcases steps_of_readRoutine read with
    ⟨_, _, _, _, drafts, -, -, typesRead, -, draftsRead, nonempty, linked⟩
  have links := BlockDraft.forall₂_links linked
  have names : routine.blockNames = drafts.map BlockDraft.name := BlockDraft.names_of_links links
  have length_eq : drafts.length = routine.blocks.length := links.length_eq
  refine ⟨?_, ?_, ?_, proper_of_readArguments typesRead⟩
  · intro nothing
    rw [nothing, List.length_nil, List.length_eq_zero_iff] at length_eq
    exact nonempty length_eq
  · rw [names]
    exact (nodup_of_readBlocks draftsRead).1
  · intro block mem successor next
    rcases exists_of_mem_mapM linked mem with ⟨draft, -, linked⟩
    have bound := (BlockDraft.links_of_link linked).successors_lt successor next
    rwa [List.length_map, length_eq] at bound

theorem covers_readRoutine (exactly : decode.Exact) {routine : Routine}
    (read : cursor.readRoutine decode = .ok (routine, next)) :
    Covers cursor routine.instructions next := by
  rcases steps_of_readRoutine read with
    ⟨afterName, afterOpening, afterArguments, afterBrace, drafts, named, opened, typesRead, braced,
      draftsRead, -, linked⟩
  have header := (skims_identifier named).trans (skims_expect (by decide) opened)
  have arguments := header.trans (skims_readArguments typesRead)
  have brace := arguments.trans (skims_expect (by decide) braced)
  rw [Routine.instructions, BlockDraft.instructions_of_links (BlockDraft.forall₂_links linked)]
  exact (covers_readBlocks exactly draftsRead).skims_left brace

theorem wellFormed_of_readRoutines {routines : List Routine}
    (read : cursor.readRoutines decode = .ok (routines, next)) :
    ∀ routine ∈ routines, routine.WellFormed := by
  fun_induction readRoutines decode cursor generalizing routines next with
  | case1 cursor start =>
    cases read
    simp
  | case2 => cases read
  | case3 cursor start more first last =>
    rename_i routineRead ih
    rcases exists_of_prepend read with ⟨others, rest_read, rfl⟩
    intro routine mem
    rcases List.mem_cons.mp mem with rfl | mem
    · exact wellFormed_of_readRoutine routineRead
    · exact ih rest_read routine mem

theorem covers_readRoutines (exactly : decode.Exact) {routines : List Routine}
    (read : cursor.readRoutines decode = .ok (routines, next)) :
    Covers cursor (routines.flatMap Routine.instructions) next := by
  fun_induction readRoutines decode cursor generalizing routines next with
  | case1 cursor start =>
    cases read
    exact (skims_skip cursor true).covers
  | case2 => cases read
  | case3 cursor start more routine last =>
    rename_i routineRead ih
    rcases exists_of_prepend read with ⟨others, rest_read, rfl⟩
    have first : Skims cursor start := skims_skip ..
    exact ((covers_readRoutine exactly routineRead).append (ih rest_read)).skims_left first

end Cursor

end RegisterFlow
