import RegisterFlow.Proofs.Listing.Advances
import RegisterFlow.Proofs.Listing.Lines

/-!
# Written listings are parsed

A listing that is written as its format says is read, and nothing of what it says is lost: names,
types and blocks, the instructions of the bytes in order, and the successors in order of the jumps.
-/

namespace RegisterFlow

/-! ### Successors -/

namespace BlockDraft

theorem findIdx?_eq_idxOf {names : List String} {target : String} (mem : target ∈ names) :
    names.findIdx? (· == target) = some (names.idxOf target) := by
  rw [List.findIdx?_eq_some_iff_findIdx_eq]
  exact ⟨List.idxOf_lt_length_iff.mpr mem, rfl⟩

theorem mapM_eq_map {ε α β : Type} {step : α → Except ε β} {result : α → β} {items : List α}
    (succeeds : ∀ item ∈ items, step item = .ok (result item)) :
    items.mapM step = .ok (items.map result) := by
  induction items with
  | nil => rfl
  | cons item items ih =>
      rw [List.mapM_cons, succeeds item List.mem_cons_self,
        ih fun other mem => succeeds other (List.mem_cons_of_mem _ mem)]
      rfl

/-- Names of blocks are replaced by numbers. -/
theorem link_eq {function : String} {names : List String} {draft : BlockDraft}
    (known : ∀ target ∈ draft.targets, target ∈ names) :
    draft.link function names = .ok {
      name := draft.name
      instructions := draft.instructions
      successors := draft.targets.map fun target => names.idxOf target } := by
  unfold link
  rw [mapM_eq_map fun target mem => ?_]
  · rfl
  · rw [findIdx?_eq_idxOf (known target mem)]

end BlockDraft

namespace SourceBlock

variable {decode : Decoder} {names : List String} {address : Nat} {block : SourceBlock}

theorem exists_of_assemble {result : RoutineBlock}
    (assembled : block.assemble decode names address = some result) :
    ∃ instructions, assembleFrom SourceLine.byteCount (SourceLine.assemble decode) address
        block.lines = some instructions ∧
      result = {
        name := block.name
        instructions := instructions.flatten
        successors := block.targets.map fun target => names.idxOf target } := by
  simp only [assemble, Option.bind_eq_bind, Option.bind_eq_some_iff] at assembled
  rcases assembled with ⟨instructions, given, finished⟩
  cases finished
  exact ⟨instructions, given, rfl⟩

theorem mem_of_mem_targets (proper : ∀ line ∈ block.lines, line.Proper names) :
    ∀ target ∈ block.targets, target ∈ names := by
  intro target mem
  rcases List.mem_flatMap.mp mem with ⟨line, line_mem, named⟩
  cases line with
  | code bytes => cases named
  | jump targets => exact (proper _ line_mem).2 target named

end SourceBlock

namespace Cursor

variable {items : List Item} {decode : Decoder} {function : String} {names earlier : List String}
  (cursor : Cursor)

/-! ### Blocks -/

theorem identifier_skip : (cursor.skip true).identifier = cursor.identifier := by
  unfold identifier
  rw [skip_skip]

theorem readBlock_of_before {block : SourceBlock} {last : Item} {result : RoutineBlock}
    (boundary : last.IsBoundary) (identifiers : ∀ name ∈ names, isIdentifier name = true)
    (named : isIdentifier block.name = true) (new : block.name ∉ earlier)
    (proper : ∀ line ∈ block.lines, line.Proper names)
    (assembled : block.assemble decode names cursor.address = some result)
    (before : cursor.Before (block.items ++ last :: items)) :
    ∃ draft next, cursor.readBlock decode function earlier = .ok (draft, next) ∧
      draft.name = block.name ∧ draft.link function names = .ok result ∧
      next.Before (last :: items) ∧ next.address = cursor.address + block.byteCount := by
  rcases exists_of_before before with ⟨-, parts, spelled, ahead⟩
  cases spelled with
  | label name =>
      rcases identifier_of_ahead (cursor.skip true) named ahead with ⟨afterName, name_read, ahead⟩
      rcases expect_of_ahead { cursor.skip true with rest := afterName } ahead (by decide) with
        ⟨afterColon, marked, ahead⟩
      rcases SourceBlock.exists_of_assemble assembled with ⟨instructions, lines_assembled, rfl⟩
      rcases readBody_of_before { cursor.skip true with rest := afterColon } boundary identifiers
        proper lines_assembled (before_of_ahead _ ahead) with
        ⟨next, body_read, next_before, address_eq⟩
      refine ⟨⟨block.name, instructions.flatten, block.targets⟩, next, ?_, rfl,
        BlockDraft.link_eq (SourceBlock.mem_of_mem_targets proper), next_before, address_eq⟩
      rw [identifier_skip] at name_read
      unfold readBlock
      rw [name_read, ok_bind]
      dsimp only
      rw [marked, ok_bind, if_neg new, body_read]
      rfl

/-- After a block comes another one, or the end of the routine. -/
theorem exists_boundary (blocks : List SourceBlock) (items : List Item) :
    ∃ last others, blocks.flatMap SourceBlock.items ++ .close :: items = last :: others ∧
      last.IsBoundary := by
  cases blocks with
  | nil => exact ⟨.close, items, rfl, trivial⟩
  | cons block blocks => exact ⟨.label block.name, _, rfl, trivial⟩

theorem accept_of_before_close (before : cursor.Before (.close :: items)) :
    ∃ next, cursor.accept '\x7d' = (true, next) ∧ next.Before items ∧
      next.address = cursor.address := by
  rcases exists_of_before before with ⟨-, parts, spelled, ahead⟩
  cases spelled with
  | close =>
      rcases accept_of_ahead (cursor.skip true) ahead (by decide) with
        ⟨rest, accepted, ahead⟩
      rw [accept_skip] at accepted
      exact ⟨_, accepted, before_of_ahead _ ahead, rfl⟩

theorem refuse_of_before_label {name : String} (before : cursor.Before (.label name :: items)) :
    cursor.accept '\x7d' = (false, cursor.skip true) := by
  rcases exists_of_before before with ⟨named, parts, spelled, ahead⟩
  cases spelled with
  | label name =>
      rcases refuse_of_identifier (cursor.skip true) '\x7d' named (by decide) ahead with
        ⟨rest, refused, -⟩
      rw [accept_skip] at refused
      have found : (cursor.accept '\x7d').1 = false := by rw [refused]
      exact Prod.ext found (eq_skip_of_accept found)

theorem readBlocks_of_before {blocks : List SourceBlock} {results : List RoutineBlock}
    (identifiers : ∀ name ∈ names, isIdentifier name = true)
    (known : ∀ block ∈ blocks, block.name ∈ names)
    (distinct : (blocks.map SourceBlock.name).Nodup)
    (new : ∀ block ∈ blocks, block.name ∉ earlier)
    (proper : ∀ block ∈ blocks, ∀ line ∈ block.lines, line.Proper names)
    (assembled : assembleFrom SourceBlock.byteCount (SourceBlock.assemble decode names)
      cursor.address blocks = some results)
    (before : cursor.Before (blocks.flatMap SourceBlock.items ++ .close :: items)) :
    ∃ drafts next, cursor.readBlocks decode function earlier = .ok (drafts, next) ∧
      drafts.map BlockDraft.name = blocks.map SourceBlock.name ∧
      drafts.mapM (BlockDraft.link function names) = .ok results ∧ next.Before items ∧
      next.address = cursor.address + (blocks.map SourceBlock.byteCount).sum := by
  induction blocks generalizing cursor earlier results with
  | nil =>
      cases assembled
      rcases accept_of_before_close cursor before with ⟨next, accepted, next_before, address_eq⟩
      refine ⟨[], next, ?_, rfl, rfl, next_before, address_eq⟩
      rw [readBlocks_eq, accepted]
      rfl
  | cons block blocks ih =>
      rcases exists_of_assembleFrom assembled with ⟨result, others, given, rest_assembled, rfl⟩
      have refused := refuse_of_before_label cursor before
      have more := rest_ne_nil_of_before before
      rcases exists_boundary blocks items with ⟨last, later, items_eq, boundary⟩
      rw [List.flatMap_cons, List.append_assoc, items_eq] at before
      rcases readBlock_of_before (cursor.skip true) boundary identifiers
        (identifiers _ (known block List.mem_cons_self)) (new block List.mem_cons_self)
        (proper block List.mem_cons_self) given (before_skip.mpr before) with
        ⟨draft, middle, read, name_eq, linked, middle_before, address_eq⟩
      rw [← items_eq] at middle_before
      rw [List.map_cons, List.nodup_cons] at distinct
      have rest_new : ∀ other ∈ blocks, other.name ∉ draft.name :: earlier := by
        intro other mem again
        rcases List.mem_cons.mp again with same | old
        · rw [name_eq] at same
          exact distinct.1 (same ▸ List.mem_map_of_mem mem)
        · exact new other (List.mem_cons_of_mem _ mem) old
      rcases ih middle (fun other mem => known other (List.mem_cons_of_mem _ mem)) distinct.2
        rest_new (fun other mem => proper other (List.mem_cons_of_mem _ mem))
        (by rwa [address_eq]) middle_before with
        ⟨drafts, next, rest_read, names_eq, rest_linked, next_before, rest_address⟩
      refine ⟨draft :: drafts, next, ?_, ?_, ?_, next_before, ?_⟩
      · rw [readBlocks_eq, refused]
        refine (if_neg more).trans ?_
        rw [read]
        dsimp only
        rw [rest_read]
        rfl
      · rw [List.map_cons, List.map_cons, name_eq, names_eq]
      · rw [List.mapM_cons, linked, rest_linked]
        rfl
      · rw [rest_address, address_eq, List.map_cons, List.sum_cons]
        exact Nat.add_assoc ..

/-! ### Routines -/

theorem readRoutine_of_before {source : SourceRoutine} {result : Routine} (proper : source.Proper)
    (assembled : source.assemble decode cursor.address = some result)
    (before : cursor.Before (source.items ++ items)) :
    ∃ next, cursor.readRoutine decode = .ok (result, next) ∧ next.Before items ∧
      next.address = cursor.address + source.byteCount := by
  simp only [SourceRoutine.assemble, Option.bind_eq_bind, Option.bind_eq_some_iff] at assembled
  rcases assembled with ⟨blocks, blocks_assembled, finished⟩
  cases finished
  rw [SourceRoutine.items, List.cons_append, List.append_assoc, List.singleton_append] at before
  rcases exists_of_before before with ⟨-, parts, spelled, ahead⟩
  cases spelled with
  | header name types =>
      rcases identifier_of_ahead (cursor.skip true) proper.name ahead with
        ⟨afterName, name_read, ahead⟩
      rcases expect_of_ahead { cursor.skip true with rest := afterName } ahead (by decide) with
        ⟨afterOpening, opened, ahead⟩
      rcases readArguments_of_ahead { cursor.skip true with rest := afterOpening } proper.arguments
        ahead with ⟨afterArguments, types_read, ahead⟩
      rcases expect_of_ahead { cursor.skip true with rest := afterArguments } ahead
        (by decide) with ⟨afterBrace, braced, ahead⟩
      have known : ∀ block ∈ source.blocks, block.name ∈ source.blockNames :=
        fun block mem => List.mem_map_of_mem mem
      rcases readBlocks_of_before { cursor.skip true with rest := afterBrace } proper.blockNames
        known proper.distinct (fun _ _ => List.not_mem_nil) proper.lines blocks_assembled
        (before_of_ahead _ ahead) with
        ⟨drafts, next, drafts_read, names_eq, linked, next_before, address_eq⟩
      have nonempty : drafts.isEmpty = false := by
        cases drafts with
        | nil => exact absurd (List.map_eq_nil_iff.mp names_eq.symm) proper.nonempty
        | cons => rfl
      refine ⟨next, ?_, next_before, address_eq⟩
      rw [identifier_skip] at name_read
      unfold readRoutine
      rw [name_read, ok_bind]
      dsimp only
      rw [opened, ok_bind, types_read, ok_bind]
      dsimp only
      rw [braced, ok_bind, drafts_read, ok_bind]
      dsimp only
      rw [nonempty, names_eq]
      simp only [Bool.false_eq_true, if_false]
      rw [← SourceRoutine.blockNames, linked]
      rfl

theorem readRoutines_of_before {sources : List SourceRoutine} {results : List Routine}
    (proper : ∀ source ∈ sources, source.Proper)
    (assembled : assembleFrom SourceRoutine.byteCount (SourceRoutine.assemble decode) cursor.address
      sources = some results)
    (before : cursor.Before (sources.flatMap SourceRoutine.items)) :
    ∃ next, cursor.readRoutines decode = .ok (results, next) := by
  induction sources generalizing cursor results with
  | nil =>
      cases assembled
      refine ⟨cursor.skip true, ?_⟩
      rw [readRoutines_eq]
      exact if_pos (rest_of_before before)
  | cons source sources ih =>
      rcases exists_of_assembleFrom assembled with ⟨result, others, given, rest_assembled, rfl⟩
      have more := rest_ne_nil_of_before before
      rw [List.flatMap_cons] at before
      rcases readRoutine_of_before (cursor.skip true) (proper source List.mem_cons_self) given
        (before_skip.mpr before) with ⟨middle, read, middle_before, address_eq⟩
      rcases ih middle (fun other mem => proper other (List.mem_cons_of_mem _ mem))
        (by rwa [address_eq]) middle_before with ⟨next, rest_read⟩
      refine ⟨next, ?_⟩
      rw [readRoutines_eq]
      refine (if_neg more).trans ?_
      rw [read]
      dsimp only
      rw [rest_read]
      rfl

end Cursor

theorem SourceRoutine.Proper.items {source : SourceRoutine} (proper : source.Proper) :
    ∀ item ∈ source.items, item.Proper := by
  intro item mem
  rw [SourceRoutine.items] at mem
  rcases List.mem_cons.mp mem with rfl | mem
  · exact proper.name
  rcases List.mem_append.mp mem with in_block | last
  · rcases List.mem_flatMap.mp in_block with ⟨block, block_mem, item_mem⟩
    rcases List.mem_cons.mp item_mem with rfl | in_lines
    · exact proper.blockNames block.name (List.mem_map_of_mem block_mem)
    · rcases List.mem_map.mp in_lines with ⟨line, line_mem, rfl⟩
      have line_proper := proper.lines block block_mem line line_mem
      cases line with
      | code bytes => exact line_proper
      | jump targets => trivial
  · rcases List.mem_singleton.mp last with rfl
    trivial

/--
However a list of routines is written, with items on lines of their own, it is parsed: the routines
are the ones that the decoder assembles from the first address on.
-/
theorem written_routines_parsed {decode : Decoder} {sources : List SourceRoutine} {text : String}
    {routines : List Routine} (proper : ∀ source ∈ sources, source.Proper)
    (written : Written sources text.toList)
    (assembled : SourceRoutine.assembleAll decode sources = some routines) :
    Routine.parseWith decode text = .ok routines := by
  have items_proper : ∀ item ∈ sources.flatMap SourceRoutine.items, item.Proper := by
    intro item mem
    rcases List.mem_flatMap.mp mem with ⟨source, source_mem, item_mem⟩
    exact (proper source source_mem).items item item_mem
  have before : Cursor.Before (sources.flatMap SourceRoutine.items) { rest := text.toList } :=
    Cursor.before_of_layout items_proper written
  rcases Cursor.readRoutines_of_before { rest := text.toList } proper assembled before with
    ⟨next, read⟩
  unfold Routine.parseWith
  rw [read]
  rfl

/-- A routine with blocks named like a jump and like a byte. -/
def jumpingRoutine : SourceRoutine where
  name := "f"
  argumentTypes := [.int 64]
  blocks := [
    { name := "ab", lines := [.code [0x48, 0x89, 0xf8], .jump ["jump", "ab", "ab"]] },
    { name := "jump", lines := [.code [0xc3]] }]

def jumpingText : String :=
  "; a routine\nf ( i64) \x7b\n ab:\t; no byte\n48 89\tF8;moves\n\n" ++
    " jump ^jump,^ab , ^ab\njump :\nC3\n\x7d"

theorem proper_jumpingRoutine : jumpingRoutine.Proper where
  name := by decide
  arguments := by
    intro ty mem
    rcases List.mem_singleton.mp mem with rfl
    exact ⟨by decide, by decide⟩
  nonempty := by decide
  blockNames := by decide
  distinct := by decide
  lines := by decide

theorem written_jumpingText : Written [jumpingRoutine] jumpingText.toList := by
  have spaces : jumpingText.toList =
      [] ++ "; a routine".toList ++ '\n' ::
      (([] ++ "f".toList ++ ([' '] ++ ['('] ++ ([' '] ++ (Ty.int 64).text.toList ++
        ([] ++ [')'] ++ ([' '] ++ ['\x7b'] ++ []))))) ++ ([] ++ [] ++ '\n' ::
      (([' '] ++ "ab".toList ++ ([] ++ [':'] ++ [])) ++ (['\t'] ++ "; no byte".toList ++ '\n' ::
      (([] ++ "48".toList ++ ([' '] ++ "89".toList ++ (['\t'] ++ "F8".toList ++ []))) ++
        ([] ++ ";moves".toList ++ '\n' :: ([] ++ [] ++ '\n' ::
      (([' '] ++ "jump".toList ++ ([' '] ++ ['^'] ++ ([] ++ "jump".toList ++ ([] ++ [','] ++
        ([] ++ ['^'] ++ ([] ++ "ab".toList ++ ([' '] ++ [','] ++ ([' '] ++ ['^'] ++
        ([] ++ "ab".toList ++ []))))))))) ++ ([] ++ [] ++ '\n' ::
      (([] ++ "jump".toList ++ ([' '] ++ [':'] ++ [])) ++ ([] ++ [] ++ '\n' ::
      (([] ++ "C3".toList ++ []) ++ ([] ++ [] ++ '\n' ::
      (([] ++ ['\x7d'] ++ []) ++ ([] ++ []))))))))))))))) := by
    decide +kernel
  have moves : Item.Spelled (.code [0x48, 0x89, 0xf8]) ["48".toList, "89".toList, "F8".toList] := by
    refine .code (.cons ?_ (.cons ?_ (.cons ?_ .nil))) <;> decide +kernel
  have returns : Item.Spelled (.code [0xc3]) ["C3".toList] := by
    refine .code (.cons ?_ .nil)
    decide +kernel
  rw [spaces]
  change Layout false [.header "f" [.int 64], .label "ab", .code [0x48, 0x89, 0xf8],
    .jump ["jump", "ab", "ab"], .label "jump", .code [0xc3], .close] _
  apply Layout.newline (by decide) (Or.inr ⟨_, rfl, by decide⟩)
  apply Layout.item (.header "f" [.int 64])
  · apply Spaced.cons (by decide) (by decide)
    apply Spaced.cons (by decide) (by decide)
    apply Spaced.cons (by decide) (by decide +kernel)
    apply Spaced.cons (by decide) (by decide)
    apply Spaced.cons (by decide) (by decide)
    exact .nil
  apply Layout.newline (by decide) (Or.inl rfl)
  apply Layout.item (.label "ab")
  · exact .cons (by decide) (by decide) (.cons (by decide) (by decide) .nil)
  apply Layout.newline (by decide) (Or.inr ⟨_, rfl, by decide⟩)
  apply Layout.item moves
  · apply Spaced.cons (by decide) (by decide)
    apply Spaced.cons (by decide) (by decide)
    apply Spaced.cons (by decide) (by decide)
    exact .nil
  apply Layout.newline (by decide) (Or.inr ⟨_, rfl, by decide⟩)
  apply Layout.newline (by decide) (Or.inl rfl)
  apply Layout.item (.jump ["jump", "ab", "ab"])
  · apply Spaced.cons (by decide) (by decide)
    apply Spaced.cons (by decide) (by decide)
    apply Spaced.cons (by decide) (by decide)
    apply Spaced.cons (by decide) (by decide)
    apply Spaced.cons (by decide) (by decide)
    apply Spaced.cons (by decide) (by decide)
    apply Spaced.cons (by decide) (by decide)
    apply Spaced.cons (by decide) (by decide)
    apply Spaced.cons (by decide) (by decide)
    exact .nil
  apply Layout.newline (by decide) (Or.inl rfl)
  apply Layout.item (.label "jump")
  · exact .cons (by decide) (by decide) (.cons (by decide) (by decide) .nil)
  apply Layout.newline (by decide) (Or.inl rfl)
  apply Layout.item returns
  · exact .cons (by decide) (by decide) .nil
  apply Layout.newline (by decide) (Or.inl rfl)
  apply Layout.item .close
  · exact .cons (by decide) (by decide) .nil
  exact .done (by decide) (Or.inl rfl)

theorem written_routines_parsed_jumping :
    (∀ source ∈ [jumpingRoutine], source.Proper) ∧ Written [jumpingRoutine] jumpingText.toList ∧
      ∃ routines, SourceRoutine.assembleAll Encoding.decode? [jumpingRoutine] = some routines ∧
        routines.map (fun routine => routine.blocks.map RoutineBlock.successors) =
          [[[1, 0, 0], []]] ∧
        Routine.parseWith Encoding.decode? jumpingText = .ok routines := by
  have proper : ∀ source ∈ [jumpingRoutine], source.Proper := by
    intro source mem
    rcases List.mem_singleton.mp mem with rfl
    exact proper_jumpingRoutine
  have successors : (SourceRoutine.assembleAll Encoding.decode? [jumpingRoutine]).map
      (List.map fun routine => routine.blocks.map RoutineBlock.successors) =
        some [[[1, 0, 0], []]] := by
    decide +kernel
  cases assembled : SourceRoutine.assembleAll Encoding.decode? [jumpingRoutine] with
  | none =>
      rw [assembled] at successors
      cases successors
  | some routines =>
      rw [assembled] at successors
      refine ⟨proper, written_jumpingText, routines, rfl, Option.some.inj successors, ?_⟩
      exact written_routines_parsed proper written_jumpingText assembled

end RegisterFlow
