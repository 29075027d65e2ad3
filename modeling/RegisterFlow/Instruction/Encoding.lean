import RegisterFlow.Instruction.Family
import RegisterFlow.Register.Basic
import RegisterFlow.Text.Hexadecimal

/-!
# Instruction encodings

The instructions that listings may contain: all instructions of one byte, and a selection of longer
ones. Each encoding is a fixed sequence of bytes, and none is the start of another, so a sequence of
bytes has at most one reading.
-/

namespace RegisterFlow

/-- An instruction with its operands: its bytes, its written form and the registers it writes. -/
structure Encoding where
  bytes : List UInt8
  mnemonic : String
  /-- The written form, up to the target of a jump. -/
  text : String
  /-- The general purpose registers that are written, at the width at which they are, by name. -/
  writes : List Register := []
  /-- The count of a rotate, where it is part of the instruction. -/
  count : Option Nat := none
  /-- The distance from a jump to its target. -/
  target : Option Nat := none
  deriving DecidableEq, Repr

namespace Encoding

open Register

/-- Moves and address computations. -/
def moves : List Encoding := [
  { bytes := [0x48, 0x89, 0xf8], mnemonic := "mov", text := "mov rax,rdi", writes := [rax] },
  { bytes := [0x48, 0x89, 0xf0], mnemonic := "mov", text := "mov rax,rsi", writes := [rax] },
  { bytes := [0x48, 0x89, 0xf9], mnemonic := "mov", text := "mov rcx,rdi", writes := [rcx] },
  { bytes := [0x48, 0x89, 0xf7], mnemonic := "mov", text := "mov rdi,rsi", writes := [rdi] },
  { bytes := [0x48, 0x89, 0xfe], mnemonic := "mov", text := "mov rsi,rdi", writes := [rsi] },
  { bytes := [0x48, 0x89, 0xc7], mnemonic := "mov", text := "mov rdi,rax", writes := [rdi] },
  { bytes := [0x48, 0x89, 0xc3], mnemonic := "mov", text := "mov rbx,rax", writes := [rbx] },
  { bytes := [0x89, 0xf8], mnemonic := "mov", text := "mov eax,edi", writes := [rax] },
  { bytes := [0x89, 0xf7], mnemonic := "mov", text := "mov edi,esi", writes := [rdi] },
  { bytes := [0x66, 0x89, 0xf8], mnemonic := "mov", text := "mov ax,di", writes := [ax] },
  { bytes := [0x40, 0x88, 0xf8], mnemonic := "mov", text := "mov al,dil", writes := [al] },
  { bytes := [0x88, 0xfc], mnemonic := "mov", text := "mov ah,bh", writes := [ah] },
  { bytes := [0xb0, 0x05], mnemonic := "mov", text := "mov al,5", writes := [al] },
  { bytes := [0xb4, 0x01], mnemonic := "mov", text := "mov ah,1", writes := [ah] },
  { bytes := [0x49, 0x89, 0xfa], mnemonic := "mov", text := "mov r10,rdi", writes := [r10] },
  { bytes := [0x4d, 0x89, 0xd3], mnemonic := "mov", text := "mov r11,r10", writes := [r11] },
  { bytes := [0x41, 0x89, 0xf0], mnemonic := "mov", text := "mov r8d,esi", writes := [r8] },
  { bytes := [0x41, 0xb7, 0x7f], mnemonic := "mov", text := "mov r15b,7Fh", writes := [r15b] },
  { bytes := [0x48, 0xc7, 0xc3, 0x05, 0x00, 0x00, 0x00],
    mnemonic := "mov", text := "mov rbx,5", writes := [rbx] },
  { bytes := [0x48, 0xb8, 0x88, 0x77, 0x66, 0x55, 0x44, 0x33, 0x22, 0x11],
    mnemonic := "mov", text := "mov rax,1122334455667788h", writes := [rax] },
  { bytes := [0x48, 0x89, 0x07], mnemonic := "mov", text := "mov [rdi],rax" },
  { bytes := [0x48, 0x8b, 0x07], mnemonic := "mov", text := "mov rax,[rdi]", writes := [rax] },
  { bytes := [0x8a, 0x07], mnemonic := "mov", text := "mov al,[rdi]", writes := [al] },
  { bytes := [0x48, 0x8d, 0x04, 0x37],
    mnemonic := "lea", text := "lea rax,[rdi+rsi]", writes := [rax] },
  { bytes := [0x48, 0x93], mnemonic := "xchg", text := "xchg rbx,rax", writes := [rax, rbx] },
  { bytes := [0x86, 0xc4], mnemonic := "xchg", text := "xchg al,ah", writes := [ah, al] },
  { bytes := [0x48, 0x0f, 0x44, 0xc7],
    mnemonic := "cmove", text := "cmove rax,rdi", writes := [rax] },
  { bytes := [0x0f, 0x45, 0xd8], mnemonic := "cmovne", text := "cmovne ebx,eax", writes := [rbx] },
  { bytes := [0x0f, 0x94, 0xc0], mnemonic := "sete", text := "sete al", writes := [al] },
  { bytes := [0x0f, 0x94, 0x07], mnemonic := "sete", text := "sete byte ptr [rdi]" },
  { bytes := [0x48, 0x98], mnemonic := "cdqe", text := "cdqe", writes := [rax] },
  { bytes := [0x48, 0x99], mnemonic := "cqo", text := "cqo", writes := [rdx] },
  { bytes := [0x0f, 0xb6, 0xc1], mnemonic := "movzx", text := "movzx eax,cl", writes := [rax] },
  { bytes := [0x0f, 0x28, 0xc1], mnemonic := "movaps", text := "movaps xmm0,xmm1" },
  { bytes := [0xf2, 0x48, 0x0f, 0x2c, 0xc0],
    mnemonic := "cvttsd2si", text := "cvttsd2si rax,xmm0", writes := [rax] }]

/-- Addition, subtraction, logic and comparison. -/
def arithmetic : List Encoding := [
  { bytes := [0x31, 0xc0], mnemonic := "xor", text := "xor eax,eax", writes := [rax] },
  { bytes := [0x48, 0xff, 0xc1], mnemonic := "inc", text := "inc rcx", writes := [rcx] },
  { bytes := [0x48, 0xff, 0xc8], mnemonic := "dec", text := "dec rax", writes := [rax] },
  { bytes := [0xff, 0xc8], mnemonic := "dec", text := "dec eax", writes := [rax] },
  { bytes := [0xfe, 0xc8], mnemonic := "dec", text := "dec al", writes := [al] },
  { bytes := [0x48, 0x39, 0xf7], mnemonic := "cmp", text := "cmp rdi,rsi" },
  { bytes := [0x38, 0xc8], mnemonic := "cmp", text := "cmp al,cl" },
  { bytes := [0x3c, 0x05], mnemonic := "cmp", text := "cmp al,5" },
  { bytes := [0x48, 0x85, 0xff], mnemonic := "test", text := "test rdi,rdi" },
  { bytes := [0x48, 0x85, 0xc0], mnemonic := "test", text := "test rax,rax" },
  { bytes := [0x48, 0x01, 0xf8], mnemonic := "add", text := "add rax,rdi", writes := [rax] },
  { bytes := [0x01, 0xc8], mnemonic := "add", text := "add eax,ecx", writes := [rax] },
  { bytes := [0x00, 0xc8], mnemonic := "add", text := "add al,cl", writes := [al] },
  { bytes := [0x00, 0x00], mnemonic := "add", text := "add [rax],al" },
  { bytes := [0x04, 0x7f], mnemonic := "add", text := "add al,7Fh", writes := [al] },
  { bytes := [0x28, 0xc8], mnemonic := "sub", text := "sub al,cl", writes := [al] },
  { bytes := [0x48, 0x29, 0xf0], mnemonic := "sub", text := "sub rax,rsi", writes := [rax] },
  { bytes := [0x48, 0x83, 0xe8, 0x01], mnemonic := "sub", text := "sub rax,1", writes := [rax] },
  { bytes := [0x11, 0xc8], mnemonic := "adc", text := "adc eax,ecx", writes := [rax] },
  { bytes := [0x19, 0xc8], mnemonic := "sbb", text := "sbb eax,ecx", writes := [rax] },
  { bytes := [0x21, 0xc8], mnemonic := "and", text := "and eax,ecx", writes := [rax] },
  { bytes := [0x09, 0xc8], mnemonic := "or", text := "or eax,ecx", writes := [rax] },
  { bytes := [0xf6, 0xd8], mnemonic := "neg", text := "neg al", writes := [al] },
  { bytes := [0x48, 0xf7, 0xdf], mnemonic := "neg", text := "neg rdi", writes := [rdi] },
  { bytes := [0xf6, 0xd0], mnemonic := "not", text := "not al", writes := [al] },
  { bytes := [0x0f, 0xc1, 0xc8], mnemonic := "xadd", text := "xadd eax,ecx", writes := [rax, rcx] },
  { bytes := [0x48, 0x0f, 0xb1, 0xcb],
    mnemonic := "cmpxchg", text := "cmpxchg rbx,rcx", writes := [rax, rbx] }]

/-- Shifts and rotates. -/
def shifts : List Encoding := [
  { bytes := [0xd0, 0xc0], mnemonic := "rol", text := "rol al,1", writes := [al], count := some 1 },
  { bytes := [0xd0, 0xc8], mnemonic := "ror", text := "ror al,1", writes := [al], count := some 1 },
  { bytes := [0xc0, 0xc0, 0x03],
    mnemonic := "rol", text := "rol al,3", writes := [al], count := some 3 },
  { bytes := [0xc0, 0xc8, 0x03],
    mnemonic := "ror", text := "ror al,3", writes := [al], count := some 3 },
  { bytes := [0xc0, 0xc0, 0x01],
    mnemonic := "rol", text := "rol al,1", writes := [al], count := some 1 },
  { bytes := [0xc0, 0xc0, 0x00],
    mnemonic := "rol", text := "rol al,0", writes := [al], count := some 0 },
  { bytes := [0xc1, 0xc8, 0xff],
    mnemonic := "ror", text := "ror eax,0FFh", writes := [rax], count := some 255 },
  { bytes := [0xd3, 0xc0], mnemonic := "rol", text := "rol eax,cl", writes := [rax] },
  { bytes := [0xd2, 0xc8], mnemonic := "ror", text := "ror al,cl", writes := [al] },
  { bytes := [0x48, 0xd1, 0xc8],
    mnemonic := "ror", text := "ror rax,1", writes := [rax], count := some 1 },
  { bytes := [0x48, 0xd1, 0xc0],
    mnemonic := "rol", text := "rol rax,1", writes := [rax], count := some 1 },
  { bytes := [0x48, 0xc1, 0xc0, 0x41],
    mnemonic := "rol", text := "rol rax,41h", writes := [rax], count := some 65 },
  { bytes := [0xd0, 0xd0], mnemonic := "rcl", text := "rcl al,1", writes := [al] },
  { bytes := [0xd0, 0xd8], mnemonic := "rcr", text := "rcr al,1", writes := [al] },
  { bytes := [0xd2, 0xe0], mnemonic := "shl", text := "shl al,cl", writes := [al] },
  { bytes := [0xc1, 0xe0, 0x03], mnemonic := "shl", text := "shl eax,3", writes := [rax] },
  { bytes := [0xd0, 0xf0], mnemonic := "sal", text := "sal al,1", writes := [al] },
  { bytes := [0x48, 0xd3, 0xe0], mnemonic := "shl", text := "shl rax,cl", writes := [rax] },
  { bytes := [0xd0, 0xe8], mnemonic := "shr", text := "shr al,1", writes := [al] },
  { bytes := [0xd0, 0xf8], mnemonic := "sar", text := "sar al,1", writes := [al] },
  { bytes := [0x48, 0xc1, 0xe8, 0x02], mnemonic := "shr", text := "shr rax,2", writes := [rax] },
  { bytes := [0x0f, 0xa5, 0xd0], mnemonic := "shld", text := "shld eax,edx,cl", writes := [rax] },
  { bytes := [0x0f, 0xa4, 0xd0, 0x04],
    mnemonic := "shld", text := "shld eax,edx,4", writes := [rax] },
  { bytes := [0x48, 0x0f, 0xa5, 0xd0],
    mnemonic := "shld", text := "shld rax,rdx,cl", writes := [rax] },
  { bytes := [0x0f, 0xad, 0xd0], mnemonic := "shrd", text := "shrd eax,edx,cl", writes := [rax] },
  { bytes := [0x0f, 0xac, 0xd0, 0x04],
    mnemonic := "shrd", text := "shrd eax,edx,4", writes := [rax] },
  { bytes := [0x48, 0x0f, 0xad, 0xd0],
    mnemonic := "shrd", text := "shrd rax,rdx,cl", writes := [rax] }]

/-- Multiplication and division. -/
def products : List Encoding := [
  { bytes := [0x0f, 0xaf, 0xc1], mnemonic := "imul", text := "imul eax,ecx", writes := [rax] },
  { bytes := [0xf6, 0xe9], mnemonic := "imul", text := "imul cl", writes := [ax] },
  { bytes := [0x48, 0xf7, 0xe9], mnemonic := "imul", text := "imul rcx", writes := [rax, rdx] },
  { bytes := [0x6b, 0xc1, 0x05], mnemonic := "imul", text := "imul eax,ecx,5", writes := [rax] },
  { bytes := [0xf6, 0xe1], mnemonic := "mul", text := "mul cl", writes := [ax] },
  { bytes := [0x48, 0xf7, 0xe1], mnemonic := "mul", text := "mul rcx", writes := [rax, rdx] },
  { bytes := [0x48, 0xf7, 0xf1], mnemonic := "div", text := "div rcx", writes := [rax, rdx] }]

/-- Jumps, calls and interrupts. -/
def control : List Encoding := [
  { bytes := [0xe8, 0x00, 0x00, 0x00, 0x00],
    mnemonic := "call", text := "call ", target := some 5, writes := [rsp] },
  { bytes := [0xc3], mnemonic := "ret", text := "ret", writes := [rsp] },
  { bytes := [0xcb], mnemonic := "retf", text := "retf", writes := [rsp] },
  { bytes := [0xcc], mnemonic := "int3", text := "int 3" },
  { bytes := [0xcf], mnemonic := "iretd", text := "iretd", writes := [rsp] },
  { bytes := [0xf1], mnemonic := "int1", text := "int1" },
  { bytes := [0xeb, 0xfe], mnemonic := "jmp", text := "jmp short ", target := some 0 },
  { bytes := [0x74, 0x00], mnemonic := "je", text := "je short ", target := some 2 },
  { bytes := [0x0f, 0x05], mnemonic := "syscall", text := "syscall", writes := [r11, rcx] }]

/-- Instructions that use the stack. -/
def stack : List Encoding := [
  { bytes := [0x50], mnemonic := "push", text := "push rax", writes := [rsp] },
  { bytes := [0x51], mnemonic := "push", text := "push rcx", writes := [rsp] },
  { bytes := [0x52], mnemonic := "push", text := "push rdx", writes := [rsp] },
  { bytes := [0x53], mnemonic := "push", text := "push rbx", writes := [rsp] },
  { bytes := [0x54], mnemonic := "push", text := "push rsp", writes := [rsp] },
  { bytes := [0x55], mnemonic := "push", text := "push rbp", writes := [rsp] },
  { bytes := [0x56], mnemonic := "push", text := "push rsi", writes := [rsp] },
  { bytes := [0x57], mnemonic := "push", text := "push rdi", writes := [rsp] },
  { bytes := [0x58], mnemonic := "pop", text := "pop rax", writes := [rax, rsp] },
  { bytes := [0x59], mnemonic := "pop", text := "pop rcx", writes := [rcx, rsp] },
  { bytes := [0x5a], mnemonic := "pop", text := "pop rdx", writes := [rdx, rsp] },
  { bytes := [0x5b], mnemonic := "pop", text := "pop rbx", writes := [rbx, rsp] },
  { bytes := [0x5c], mnemonic := "pop", text := "pop rsp", writes := [rsp] },
  { bytes := [0x5d], mnemonic := "pop", text := "pop rbp", writes := [rbp, rsp] },
  { bytes := [0x5e], mnemonic := "pop", text := "pop rsi", writes := [rsi, rsp] },
  { bytes := [0x5f], mnemonic := "pop", text := "pop rdi", writes := [rdi, rsp] },
  { bytes := [0x9c], mnemonic := "pushfq", text := "pushfq", writes := [rsp] },
  { bytes := [0x9d], mnemonic := "popfq", text := "popfq", writes := [rsp] },
  { bytes := [0xc9], mnemonic := "leave", text := "leave", writes := [rbp, rsp] }]

/-- Exchanges with the accumulator. -/
def exchanges : List Encoding := [
  { bytes := [0x91], mnemonic := "xchg", text := "xchg ecx,eax", writes := [rax, rcx] },
  { bytes := [0x92], mnemonic := "xchg", text := "xchg edx,eax", writes := [rax, rdx] },
  { bytes := [0x93], mnemonic := "xchg", text := "xchg ebx,eax", writes := [rax, rbx] },
  { bytes := [0x94], mnemonic := "xchg", text := "xchg esp,eax", writes := [rax, rsp] },
  { bytes := [0x95], mnemonic := "xchg", text := "xchg ebp,eax", writes := [rax, rbp] },
  { bytes := [0x96], mnemonic := "xchg", text := "xchg esi,eax", writes := [rax, rsi] },
  { bytes := [0x97], mnemonic := "xchg", text := "xchg edi,eax", writes := [rax, rdi] }]

/-- String instructions. -/
def strings : List Encoding := [
  { bytes := [0xa4], mnemonic := "movsb", text := "movsb", writes := [rdi, rsi] },
  { bytes := [0xf3, 0xa4], mnemonic := "movsb", text := "rep movsb", writes := [rcx, rdi, rsi] },
  { bytes := [0xa5], mnemonic := "movsd", text := "movsd", writes := [rdi, rsi] },
  { bytes := [0xa6], mnemonic := "cmpsb", text := "cmpsb", writes := [rdi, rsi] },
  { bytes := [0xa7], mnemonic := "cmpsd", text := "cmpsd", writes := [rdi, rsi] },
  { bytes := [0xaa], mnemonic := "stosb", text := "stosb", writes := [rdi] },
  { bytes := [0xab], mnemonic := "stosd", text := "stosd", writes := [rdi] },
  { bytes := [0xac], mnemonic := "lodsb", text := "lodsb", writes := [al, rsi] },
  { bytes := [0xad], mnemonic := "lodsd", text := "lodsd", writes := [rax, rsi] },
  { bytes := [0xae], mnemonic := "scasb", text := "scasb", writes := [rdi] },
  { bytes := [0xaf], mnemonic := "scasd", text := "scasd", writes := [rdi] },
  { bytes := [0x6c], mnemonic := "insb", text := "insb", writes := [rdi] },
  { bytes := [0x6d], mnemonic := "insd", text := "insd", writes := [rdi] },
  { bytes := [0x6e], mnemonic := "outsb", text := "outsb", writes := [rsi] },
  { bytes := [0x6f], mnemonic := "outsd", text := "outsd", writes := [rsi] }]

/-- Instructions on the flags alone. -/
def flagControl : List Encoding := [
  { bytes := [0x9e], mnemonic := "sahf", text := "sahf" },
  { bytes := [0x9f], mnemonic := "lahf", text := "lahf", writes := [ah] },
  { bytes := [0xf5], mnemonic := "cmc", text := "cmc" },
  { bytes := [0xf8], mnemonic := "clc", text := "clc" },
  { bytes := [0xf9], mnemonic := "stc", text := "stc" },
  { bytes := [0xfa], mnemonic := "cli", text := "cli" },
  { bytes := [0xfb], mnemonic := "sti", text := "sti" },
  { bytes := [0xfc], mnemonic := "cld", text := "cld" },
  { bytes := [0xfd], mnemonic := "std", text := "std" }]

/-- Other instructions without a choice of operands. -/
def others : List Encoding := [
  { bytes := [0x90], mnemonic := "nop", text := "nop" },
  { bytes := [0x98], mnemonic := "cwde", text := "cwde", writes := [rax] },
  { bytes := [0x99], mnemonic := "cdq", text := "cdq", writes := [rdx] },
  { bytes := [0x9b], mnemonic := "wait", text := "wait" },
  { bytes := [0xd7], mnemonic := "xlatb", text := "xlatb", writes := [al] },
  { bytes := [0xec], mnemonic := "in", text := "in al,dx", writes := [al] },
  { bytes := [0xed], mnemonic := "in", text := "in eax,dx", writes := [rax] },
  { bytes := [0xee], mnemonic := "out", text := "out dx,al" },
  { bytes := [0xef], mnemonic := "out", text := "out dx,eax" },
  { bytes := [0xf4], mnemonic := "hlt", text := "hlt" },
  { bytes := [0x0f, 0xa2], mnemonic := "cpuid", text := "cpuid", writes := [rax, rbx, rcx, rdx] }]

/-- All encodings. -/
def all : List Encoding :=
  moves ++ arithmetic ++ shifts ++ products ++ control ++ stack ++ exchanges ++ strings ++
    flagControl ++ others

/-- The number of bytes of an instruction. -/
def length (encoding : Encoding) : Nat :=
  encoding.bytes.length

/-- The family of an instruction. -/
def family (encoding : Encoding) : Family :=
  Family.ofMnemonic encoding.mnemonic encoding.count

/-- The written form of an instruction at an address. -/
def textAt (encoding : Encoding) (address : Nat) : String :=
  match encoding.target with
  | some distance => encoding.text ++ Hexadecimal.addressText (address + distance)
  | none => encoding.text

end Encoding

end RegisterFlow
