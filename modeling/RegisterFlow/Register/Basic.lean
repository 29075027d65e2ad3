/-!
# Registers

The registers of x86-64: their widths, and the widest register that each one is a part of, which
stands for all the registers that overlap with it.
-/

namespace RegisterFlow

/-- The part of a general purpose register that a name refers to, from its low end. -/
inductive GeneralPart where
  | byte | word | doubleword | quadword
  deriving DecidableEq, Repr

/-- The width of a part in bits. -/
def GeneralPart.width : GeneralPart → Nat
  | byte => 8
  | word => 16
  | doubleword => 32
  | quadword => 64

/-- The part of a vector register that a name refers to, from its low end. -/
inductive VectorPart where
  | xmm | ymm | zmm
  deriving DecidableEq, Repr

/-- The width of a part in bits. -/
def VectorPart.width : VectorPart → Nat
  | xmm => 128
  | ymm => 256
  | zmm => 512

/-- The segment registers. -/
inductive Segment where
  | es | cs | ss | ds | fs | gs
  deriving DecidableEq, Repr

/--
A register, with numbers as in instruction encodings. The null register stands for the absence of
one.
-/
inductive Register where
  | null
  | general (part : GeneralPart) (number : Fin 16)
  /-- The second lowest byte of one of the first four general purpose registers. -/
  | highByte (number : Fin 4)
  | eip
  | rip
  | segment (kind : Segment)
  | control (number : Fin 16)
  | debug (number : Fin 16)
  | mmx (number : Fin 8)
  | x87 (number : Fin 8)
  | opmask (number : Fin 8)
  | bounds (number : Fin 4)
  | test (number : Fin 8)
  | tile (number : Fin 8)
  | vector (part : VectorPart) (number : Fin 32)
  /-- A code that is kept free and names no storage. -/
  | reserved (number : Fin 7)
  deriving DecidableEq, Repr

namespace Register

/-- The width of a register in bits; the null register and the reserved codes have none. -/
def width : Register → Nat
  | null | reserved _ => 0
  | general part _ => part.width
  | highByte _ => 8
  | eip => 32
  | rip => 64
  | segment _ => 16
  | control _ | debug _ => 64
  | mmx _ | opmask _ => 64
  | x87 _ => 80
  | bounds _ => 128
  | test _ => 32
  | tile _ => 8192
  | vector part _ => part.width

/-- The widest register that a register is a part of. -/
def full : Register → Register
  | general _ number => general .quadword number
  | highByte number => general .quadword (number.castLE (by omega))
  | eip => rip
  | vector _ number => vector .zmm number
  | register => register

/-! ### Registers by name -/

abbrev rax : Register := general .quadword 0
abbrev rcx : Register := general .quadword 1
abbrev rdx : Register := general .quadword 2
abbrev rbx : Register := general .quadword 3
abbrev rsp : Register := general .quadword 4
abbrev rbp : Register := general .quadword 5
abbrev rsi : Register := general .quadword 6
abbrev rdi : Register := general .quadword 7
abbrev r8 : Register := general .quadword 8
abbrev r9 : Register := general .quadword 9
abbrev r10 : Register := general .quadword 10
abbrev r11 : Register := general .quadword 11
abbrev ax : Register := general .word 0
abbrev al : Register := general .byte 0
abbrev r15b : Register := general .byte 15
abbrev ah : Register := highByte 0

end Register

end RegisterFlow
