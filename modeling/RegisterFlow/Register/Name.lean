import RegisterFlow.Register.Basic

/-!
# Register names

The names of registers and how names are read. The names of the general purpose registers can be
written in any case; all other registers are known by their lower-case names only.
-/

namespace RegisterFlow.Register

/-- The names that the first eight general purpose registers have as words. -/
def wordNames : List String :=
  ["ax", "cx", "dx", "bx", "sp", "bp", "si", "di"]

/-- The names of the low bytes of the first eight general purpose registers. -/
def byteNames : List String :=
  ["al", "cl", "dl", "bl", "spl", "bpl", "sil", "dil"]

/-- The name of a part of a general purpose register. -/
def generalName (part : GeneralPart) (number : Nat) : String :=
  match part, wordNames[number]?, byteNames[number]? with
  | .byte, _, some name | .word, some name, _ => name
  | .doubleword, some name, _ => "e" ++ name
  | .quadword, some name, _ => "r" ++ name
  | .byte, _, none => "r" ++ toString number ++ "b"
  | .word, none, _ => "r" ++ toString number ++ "w"
  | .doubleword, none, _ => "r" ++ toString number ++ "d"
  | .quadword, none, _ => "r" ++ toString number

/-- The name of a segment register. -/
def segmentName : Segment → String
  | .es => "es"
  | .cs => "cs"
  | .ss => "ss"
  | .ds => "ds"
  | .fs => "fs"
  | .gs => "gs"

/-- The name that vector registers of a width share, before their number. -/
def vectorName : VectorPart → String
  | .xmm => "xmm"
  | .ymm => "ymm"
  | .zmm => "zmm"

/-- The names of the reserved codes. -/
def reservedNames : Vector String 7 :=
  #v["dontuse0", "dontusefa", "dontusefb", "dontusefc", "dontusefd", "dontusefe", "dontuseff"]

/-- The lower-case name of a register. -/
def name : Register → String
  | null => "none"
  | general part number => generalName part number
  | highByte number => ["ah", "ch", "dh", "bh"].get number
  | eip => "eip"
  | rip => "rip"
  | segment kind => segmentName kind
  | control number => "cr" ++ toString number
  | debug number => "dr" ++ toString number
  | mmx number => "mm" ++ toString number
  | x87 number => "st" ++ toString number
  | opmask number => "k" ++ toString number
  | bounds number => "bnd" ++ toString number
  | test number => "tr" ++ toString number
  | tile number => "tmm" ++ toString number
  | vector part number => vectorName part ++ toString number
  | reserved number => reservedNames.get number

/-- The general purpose registers. -/
def generals : List Register :=
  [GeneralPart.quadword, .doubleword, .word, .byte].flatMap
      (fun part => (List.finRange 16).map (general part)) ++
    (List.finRange 4).map highByte

/-- The registers that are not general purpose registers. -/
def others : List Register :=
  [null, eip, rip] ++
    [Segment.es, .cs, .ss, .ds, .fs, .gs].map segment ++
    (List.finRange 16).map control ++
    (List.finRange 16).map debug ++
    (List.finRange 8).map mmx ++
    (List.finRange 8).map x87 ++
    (List.finRange 8).map opmask ++
    (List.finRange 4).map bounds ++
    (List.finRange 8).map test ++
    (List.finRange 8).map tile ++
    (List.finRange 7).map reserved ++
    [VectorPart.xmm, .ymm, .zmm].flatMap fun part => (List.finRange 32).map (vector part)

/-- The general purpose register with a name, in any case. -/
def generalOfName? (name : String) : Option Register :=
  generals.find? (·.name == name.toLower)

/--
The second names of the low bytes of the upper eight general purpose registers, which end in `l`
where their first names end in `b`.
-/
def lowByteOfName? (name : String) : Option Register :=
  ((List.finRange 16).drop 8).find? (fun number => "r" ++ toString number ++ "l" == name) |>.map
    (general .byte)

/-- The register with a name: general purpose registers in any case, others in lower case. -/
def ofName? (name : String) : Option Register :=
  generalOfName? name <|> lowByteOfName? name <|> others.find? (·.name == name)

end RegisterFlow.Register
