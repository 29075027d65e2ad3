import Mathlib.Algebra.GroupWithZero.Nat
import Mathlib.Data.List.Forall2
import RegisterFlow.Listing.Parse

/-!
# How listings are written

What a listing says is a list of sources: routines whose instructions are bytes and whose jumps name
blocks. A source is written as items, each on a line of its own, with blanks between the parts of an
item and with comments and empty lines anywhere between the items. It is assembled by a decoder.
-/

namespace RegisterFlow

/-! ### Sources -/

/-- A line of a block: the bytes of instructions, or the names of the blocks to jump to. -/
inductive SourceLine where
  | code (bytes : List UInt8)
  | jump (targets : List String)
  deriving DecidableEq, Repr

structure SourceBlock where
  name : String
  lines : List SourceLine
  deriving DecidableEq, Repr

structure SourceRoutine where
  name : String
  argumentTypes : List Ty
  blocks : List SourceBlock
  deriving DecidableEq, Repr

/-- Whether a name is a word that starts with a letter or an underscore. -/
def isIdentifier (name : String) : Bool :=
  match name.toList with
  | [] => false
  | first :: rest => (first.isAlpha || first = '_') && rest.all Cursor.isWordChar

/-- The types of arguments that a listing can tell. -/
def Ty.IsArgument : Ty → Prop
  | .int bits => 0 < bits ∧ bits < UInt32.size
  | .void => False
  | .ptr | .f32 | .f64 => True

/-- A line says something, and a jump leads to blocks of the routine. -/
def SourceLine.Proper (names : List String) : SourceLine → Prop
  | code bytes => bytes ≠ []
  | jump targets => targets ≠ [] ∧ ∀ target ∈ targets, target ∈ names

instance (names : List String) : DecidablePred (SourceLine.Proper names)
  | .code bytes => inferInstanceAs (Decidable (bytes ≠ []))
  | .jump targets =>
    @instDecidableAnd _ _ _ (List.decidableBAll (fun target => target ∈ names) targets)

def SourceRoutine.blockNames (source : SourceRoutine) : List String :=
  source.blocks.map SourceBlock.name

/-- A routine that a listing can tell. -/
structure SourceRoutine.Proper (source : SourceRoutine) : Prop where
  name : isIdentifier source.name = true
  arguments : ∀ ty ∈ source.argumentTypes, ty.IsArgument
  nonempty : source.blocks ≠ []
  blockNames : ∀ name ∈ source.blockNames, isIdentifier name = true
  distinct : source.blockNames.Nodup
  lines : ∀ block ∈ source.blocks, ∀ line ∈ block.lines, line.Proper source.blockNames

/-! ### Items -/

/-- What stands on a line of a listing. -/
inductive Item where
  | header (name : String) (argumentTypes : List Ty)
  | label (name : String)
  | code (bytes : List UInt8)
  | jump (targets : List String)
  | close
  deriving DecidableEq, Repr

def SourceLine.item : SourceLine → Item
  | code bytes => .code bytes
  | jump targets => .jump targets

def SourceBlock.items (block : SourceBlock) : List Item :=
  .label block.name :: block.lines.map SourceLine.item

def SourceRoutine.items (source : SourceRoutine) : List Item :=
  .header source.name source.argumentTypes :: (source.blocks.flatMap SourceBlock.items ++ [.close])

/-- Groups of parts with commas between the groups. -/
def listed (groups : List (List (List Char))) : List (List Char) :=
  (groups.intersperse [[',']]).flatten

/-- Two hexadecimal digits in either case stand for a byte. -/
def SpellsByte (byte : UInt8) (pair : List Char) : Prop :=
  pair.map Char.toLower = Hexadecimal.digits 2 byte.toNat

instance (byte : UInt8) : DecidablePred (SpellsByte byte) :=
  fun pair => inferInstanceAs (Decidable (pair.map Char.toLower = Hexadecimal.digits 2 byte.toNat))

/-- The parts of an item. -/
inductive Item.Spelled : Item → List (List Char) → Prop
  | header (name : String) (types : List Ty) :
      Spelled (header name types)
        (name.toList :: ['('] ::
          (listed (types.map fun ty => [ty.text.toList]) ++ [[')'], ['\x7b']]))
  | label (name : String) : Spelled (label name) [name.toList, [':']]
  | code {bytes : List UInt8} {pairs : List (List Char)} :
      List.Forall₂ SpellsByte bytes pairs → Spelled (code bytes) pairs
  | jump (targets : List String) :
      Spelled (jump targets)
        ("jump".toList :: listed (targets.map fun target => [['^'], target.toList]))
  | close : Spelled close [['\x7d']]

/-! ### Layouts -/

/-- Spaces and tabs. -/
def IsSpacing (text : List Char) : Prop :=
  ∀ char ∈ text, char = ' ' ∨ char = '\t'

instance : DecidablePred IsSpacing :=
  fun text => List.decidableBAll (fun char => char = ' ' ∨ char = '\t') text

/-- Nothing, or a comment up to the end of a line. -/
def IsComment (text : List Char) : Prop :=
  text = [] ∨ ∃ words, text = ';' :: words ∧ '\n' ∉ words

/-- No word goes on at the start of a text. -/
def WordEnds (text : List Char) : Prop :=
  ∀ char ∈ text.head?, Cursor.isWordChar char = false

instance : DecidablePred WordEnds
  | [] => isTrue (by simp [WordEnds])
  | char :: _ => decidable_of_iff (Cursor.isWordChar char = false) (by simp [WordEnds])

/-- Parts of a line, each after spacing. A word does not run into the next part. -/
inductive Spaced : List (List Char) → List Char → Prop
  | nil : Spaced [] []
  | cons {spacing part rest : List Char} {parts : List (List Char)} :
      IsSpacing spacing → (part.all Cursor.isWordChar = true → WordEnds rest) →
      Spaced parts rest → Spaced (part :: parts) (spacing ++ part ++ rest)

/--
Items on lines of their own. If the text starts inside a line, the next item has to wait for the
next line.
-/
inductive Layout : (inside : Bool) → List Item → List Char → Prop
  | done {inside : Bool} {spacing comment : List Char} :
      IsSpacing spacing → IsComment comment → Layout inside [] (spacing ++ comment)
  | newline {inside : Bool} {items : List Item} {spacing comment rest : List Char} :
      IsSpacing spacing → IsComment comment → Layout false items rest →
      Layout inside items (spacing ++ comment ++ '\n' :: rest)
  | item {item : Item} {items : List Item} {parts : List (List Char)} {line rest : List Char} :
      item.Spelled parts → Spaced parts line → Layout true items rest →
      Layout false (item :: items) (line ++ rest)

/-- A text says what the sources say. -/
def Written (sources : List SourceRoutine) (text : List Char) : Prop :=
  Layout false (sources.flatMap SourceRoutine.items) text

/-! ### Assembling -/

/-- Assembles things at addresses that follow each other. -/
def assembleFrom {α β : Type} (size : α → Nat) (assemble : Nat → α → Option β) :
    Nat → List α → Option (List β)
  | _, [] => some []
  | address, first :: others => do
    let result ← assemble address first
    let results ← assembleFrom size assemble (address + size first) others
    return result :: results

theorem exists_of_assembleFrom {α β : Type} {size : α → Nat} {assemble : Nat → α → Option β}
    {address : Nat} {first : α} {others : List α} {results : List β}
    (assembled : assembleFrom size assemble address (first :: others) = some results) :
    ∃ result more, assemble address first = some result ∧
      assembleFrom size assemble (address + size first) others = some more ∧
      results = result :: more := by
  simp only [assembleFrom, Option.bind_eq_bind, Option.bind_eq_some_iff] at assembled
  rcases assembled with ⟨result, given, more, rest, finished⟩
  cases finished
  exact ⟨result, more, given, rest, rfl⟩

namespace SourceLine

def byteCount : SourceLine → Nat
  | code bytes => bytes.length
  | jump _ => 0

def targets : SourceLine → List String
  | code _ => []
  | jump targets => targets

def assemble (decode : Decoder) (address : Nat) : SourceLine → Option (List Instruction)
  | code bytes => decode address bytes
  | jump _ => some []

end SourceLine

namespace SourceBlock

def byteCount (block : SourceBlock) : Nat :=
  (block.lines.map SourceLine.byteCount).sum

def targets (block : SourceBlock) : List String :=
  block.lines.flatMap SourceLine.targets

/-- The instructions of all lines, and the numbers of the blocks that the jumps name. -/
def assemble (decode : Decoder) (names : List String) (address : Nat) (block : SourceBlock) :
    Option RoutineBlock := do
  let instructions ←
    assembleFrom SourceLine.byteCount (SourceLine.assemble decode) address block.lines
  return {
    name := block.name
    instructions := instructions.flatten
    successors := block.targets.map fun target => names.idxOf target }

end SourceBlock

namespace SourceRoutine

def byteCount (source : SourceRoutine) : Nat :=
  (source.blocks.map SourceBlock.byteCount).sum

def assemble (decode : Decoder) (address : Nat) (source : SourceRoutine) : Option Routine := do
  let blocks ← assembleFrom SourceBlock.byteCount (SourceBlock.assemble decode source.blockNames)
    address source.blocks
  return { name := source.name, argumentTypes := source.argumentTypes, blocks }

/-- The routines of a listing, if all lines can be decoded where they stand. -/
def assembleAll (decode : Decoder) (sources : List SourceRoutine) : Option (List Routine) :=
  assembleFrom byteCount (assemble decode) 0x1000 sources

end SourceRoutine

end RegisterFlow
