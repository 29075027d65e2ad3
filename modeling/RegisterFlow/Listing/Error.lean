import RegisterFlow.Text.Hexadecimal
import RegisterFlow.Text.Quoted

/-!
# Listing errors

What can be wrong with a listing, and the messages that say so.
-/

namespace RegisterFlow

/-- Why a text is no listing. -/
inductive Malformation where
  | expectedMark (mark : Char) (found : Option Char)
  | expectedIdentifier (found : Option Char)
  | unknownType (word : String)
  | argumentSeparator
  | unterminatedFunction (name : String)
  | unexpectedWord (word block : String)
  | expectedByte (word : String)
  deriving DecidableEq, Repr

/-- The wording for a character that may be missing. -/
def foundText : Option Char → String
  | none => "None"
  | some char => "Some(" ++ Text.quoted char ++ ")"

/-- The wording of a malformation. -/
def Malformation.message : Malformation → String
  | expectedMark mark found => "expected '" ++ mark.toString ++ "' but found " ++ foundText found
  | expectedIdentifier (some char) => "expected identifier but found '" ++ char.toString ++ "'"
  | expectedIdentifier none => "expected identifier but found end of input"
  | unknownType word => "unknown argument type '" ++ word ++ "'"
  | argumentSeparator => "expected ',' or ')' in argument list"
  | unterminatedFunction name => "unterminated function '" ++ name ++ "'"
  | unexpectedWord word block => "unexpected '" ++ word ++ "' in block '" ++ block ++ "'"
  | expectedByte word => "expected a hex byte but found '" ++ word ++ "'"

/-- What is wrong with a listing. -/
inductive ListingError where
  | malformed (line : Nat) (malformation : Malformation)
  | undecodable (line : Nat) (bytes : List UInt8)
  | unknownBlock (function name : String)
  | duplicateBlock (function name : String)
  | noBlocks (function : String)
  deriving DecidableEq, Repr

/-- The message for what is wrong with a listing. -/
def ListingError.message : ListingError → String
  | malformed line malformation => "line " ++ toString line ++ ": " ++ malformation.message
  | undecodable line bytes =>
    "line " ++ toString line ++ ": cannot decode '" ++
      " ".intercalate (bytes.map Hexadecimal.byteText) ++ "'"
  | unknownBlock function name => "function " ++ function ++ ": unknown block '" ++ name ++ "'"
  | duplicateBlock function name => "function " ++ function ++ ": duplicate block '" ++ name ++ "'"
  | noBlocks function => "function " ++ function ++ " has no blocks"

end RegisterFlow
