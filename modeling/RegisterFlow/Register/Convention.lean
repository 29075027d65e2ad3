import RegisterFlow.Register.Name
import RegisterFlow.Code.Ty

/-!
# Register conventions

What a target says about its registers: their widths, the register that stands for all those that
overlap with one, and the registers that carry the integer arguments of a call.
-/

namespace RegisterFlow

/-- The register conventions of a target. -/
structure Convention where
  width : Register → Nat
  /-- The register that stands for all those that overlap with a given one. -/
  canonical : Register → Register
  /-- The registers of the integer arguments, in order. -/
  argumentRegisters : List Register

namespace Convention

/-- The registers of the first six integer arguments in the System V calling convention. -/
def systemVArguments : List Register :=
  [.rdi, .rsi, .rdx, .rcx, .r8, .r9]

/-- The System V conventions for x86-64. -/
def systemV : Convention where
  width := Register.width
  canonical := Register.full
  argumentRegisters := systemVArguments

/-- The index of a register, at any width, in a list of argument registers. -/
def indexAmong? (arguments : List Register) (register : Register) : Option Nat :=
  arguments.findIdx? (· == register.full)

/-- The index of the integer argument that a register carries, at any width. -/
def argumentIndex? (convention : Convention) (register : Register) : Option Nat :=
  indexAmong? convention.argumentRegisters (convention.canonical register)

end Convention

end RegisterFlow
