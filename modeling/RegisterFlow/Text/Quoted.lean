import RegisterFlow.Text.Unprintable

/-!
# Quoted characters

A character in single quotes. The quote, the backslash and the common control characters are
written as short escapes, and other characters that do not show by their number.
-/

namespace RegisterFlow.Text

/-- The escape of a character by its number, in lower-case hexadecimal digits. -/
def numberEscape (char : Char) : String :=
  "\\u\x7b" ++ String.ofList (Nat.toDigits 16 char.toNat) ++ "\x7d"

/-- A character as it is written between single quotes. -/
def escaped (char : Char) : String :=
  match char with
  | '\x00' => "\\0"
  | '\t' => "\\t"
  | '\r' => "\\r"
  | '\n' => "\\n"
  | '\'' => "\\'"
  | '\\' => "\\\\"
  | _ => if isUnprintable char then numberEscape char else char.toString

/-- A character in single quotes. -/
def quoted (char : Char) : String :=
  "'" ++ escaped char ++ "'"

end RegisterFlow.Text
