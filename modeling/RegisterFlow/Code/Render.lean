import RegisterFlow.Code.Function

/-!
# Written form of functions

The text of a function: a header with its arguments, then each block with its name and one indented
line per instruction. The slots of the frame open the first block. A constant is written as its
number, a slot address by the name of its slot, and any other value by its number, after its name
if it has one.
-/

namespace RegisterFlow.Function

/-- The text that refers to a value. -/
def reference (func : Function) (id : ValueId) : String :=
  let value := func.value id
  match value.operation, value.name with
  | .constant payload, _ =>
    if value.ty = .bool then toString (payload ≠ 0 : Bool) else toString payload.toNat
  | .slotAddress _, some name => "%" ++ name
  | _, some name => "%" ++ name ++ "." ++ toString id
  | _, none => "%" ++ toString id

/-- The text that refers to a value, after its type. -/
def typedReference (func : Function) (id : ValueId) : String :=
  (func.ty id).text ++ " " ++ func.reference id

/-- The text that refers to a slot. -/
def slotReference (func : Function) (slot : SlotId) : String :=
  func.reference (func.slot slot).address

/-- The text that refers to the block that a jump goes to. -/
def label (func : Function) (block : BlockId) : String :=
  "label %" ++ (func.block block).name

/-- The text of an operation whose result has type `ty`, without the value that it defines. -/
def operationText (func : Function) (ty : Ty) : Operation → String
  | .argument index => "arg " ++ toString index
  | .constant payload => "const " ++ toString payload.toNat
  | .binary op lhs rhs =>
    op.text ++ " " ++ func.typedReference lhs ++ ", " ++ func.reference rhs
  | .compare comparison lhs rhs =>
    "icmp " ++ comparison.text ++ " " ++ func.typedReference lhs ++ ", " ++ func.reference rhs
  | .select condition ifTrue ifFalse =>
    "select " ++ func.typedReference condition ++ ", " ++ func.typedReference ifTrue ++ ", " ++
      func.typedReference ifFalse
  | .cast kind operand => kind.text ++ " " ++ func.typedReference operand ++ " to " ++ ty.text
  | .overflow check lhs rhs =>
    check.text ++ ".overflow " ++ func.typedReference lhs ++ ", " ++ func.reference rhs
  | .funnel direction high low amount =>
    direction.text ++ " " ++ func.typedReference high ++ ", " ++ func.reference low ++ ", " ++
      func.reference amount
  | .slotAddress slot =>
    let slot := func.slot slot
    "slot " ++ slot.ty.text ++ ", align " ++ toString slot.align ++ ", offset " ++
      toString slot.offset
  | .load slot => "load " ++ ty.text ++ ", " ++ func.slotReference slot
  | .store slot operand =>
    "store " ++ func.typedReference operand ++ ", " ++ func.slotReference slot
  | .branch target => "br " ++ func.label target
  | .branchIf condition ifTrue ifFalse =>
    "br " ++ func.typedReference condition ++ ", " ++ func.label ifTrue ++ ", " ++
      func.label ifFalse
  | .ret (some result) => "ret " ++ func.typedReference result
  | .ret none => "ret void"

/-- The text of an instruction or terminator. -/
def instructionText (func : Function) (id : ValueId) : String :=
  let value := func.value id
  let body := func.operationText value.ty value.operation
  if value.operation.hasResult then func.reference id ++ " = " ++ body else body

/-- The lines of a block: its name, then its contents. -/
def blockLines (func : Function) (id : BlockId) : List String :=
  let block := func.block id
  let slots := if id = BlockId.entry then func.slots.toList.map Slot.address else []
  (block.name ++ ":") ::
    (slots ++ block.instructions.toList ++ block.terminator.toList).map fun value =>
      "  " ++ func.instructionText value

/-- The lines of a function. -/
def lines (func : Function) : List String :=
  ["define @" ++ func.name ++ "(" ++ ", ".intercalate (func.arguments.map func.typedReference) ++
    ") \x7b"] ++
    (List.range func.blocks.size).flatMap func.blockLines ++ ["\x7d"]

/-- The text of a function; every line ends with a line feed. -/
def text (func : Function) : String :=
  String.join (func.lines.map (· ++ "\n"))

end RegisterFlow.Function
