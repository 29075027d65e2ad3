/-!
# Hexadecimal numbers

Bytes are read and written as two hexadecimal digits. Addresses are written as sixteen upper-case
digits and a trailing `h`.
-/

namespace RegisterFlow.Hexadecimal

/-- Whether a character is a hexadecimal digit, in either case. -/
def isDigit (char : Char) : Bool :=
  char.isDigit || ('a' ≤ char && char ≤ 'f') || ('A' ≤ char && char ≤ 'F')

/-- The number that a hexadecimal digit stands for. -/
def digitValue (char : Char) : Nat :=
  if char.isDigit then char.toNat - '0'.toNat
  else if 'a' ≤ char then char.toNat - 'a'.toNat + 10
  else char.toNat - 'A'.toNat + 10

/-- Reads a byte: exactly two digits. -/
def byte? : List Char → Option UInt8
  | [high, low] =>
    if isDigit high && isDigit low then
      some (UInt8.ofNat (digitValue high * 16 + digitValue low))
    else none
  | _ => none

/-- The hexadecimal digits of a number, in lower case and with leading zeros up to `width`. -/
def digits (width number : Nat) : List Char :=
  (Nat.toDigits 16 number).leftpad width '0'

/-- Writes a byte. -/
def byteText (byte : UInt8) : String :=
  String.ofList (digits 2 byte.toNat)

/-- A byte that was written reads back. -/
theorem byte?_digits (byte : UInt8) : byte? (digits 2 byte.toNat) = some byte := by
  have all : ∀ number : Fin 256, byte? (digits 2 number) = some (UInt8.ofNat number) := by
    decide +kernel
  have read := all ⟨byte.toNat, byte.toNat_lt_size⟩
  rwa [UInt8.ofNat_toNat] at read

/-- Writes an address. -/
def addressText (address : Nat) : String :=
  String.ofList ((digits 16 address).map Char.toUpper) ++ "h"

end RegisterFlow.Hexadecimal
