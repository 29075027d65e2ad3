/-!
# Types of values

Types of the values in raised code, their sizes and their written form.
-/

namespace RegisterFlow

/-- The type of a value. -/
inductive Ty where
  | void
  | int (bits : Nat)
  | ptr
  | f32
  | f64
  deriving DecidableEq, Inhabited, Repr

namespace Ty

/-- The type of truth values and flags. -/
abbrev bool : Ty :=
  int 1

/-- Storage width in bits. -/
def bits : Ty → Nat
  | void => 0
  | int bits => bits
  | ptr | f64 => 64
  | f32 => 32

/-- The width of an integer type. -/
def intBits? : Ty → Option Nat
  | int bits => some bits
  | _ => none

/-- The width of an integer type that a machine word can hold, from 1 to 64 bits. -/
def wordBits? : Ty → Option Nat
  | int bits => if 1 ≤ bits ∧ bits ≤ 64 then some bits else none
  | _ => none

/-- Storage size in bytes: at least one, except for `void`. -/
def byteSize : Ty → Nat
  | void => 0
  | ty => max 1 ((ty.bits + 7) / 8)

/-- Whether arguments of the type travel in general purpose registers. -/
def IsIntegerClass : Ty → Prop
  | int _ | ptr => True
  | void | f32 | f64 => False

instance : DecidablePred IsIntegerClass
  | int _ | ptr => isTrue trivial
  | void | f32 | f64 => isFalse id

/-- The written form of a type, such as `i64`. -/
def text : Ty → String
  | void => "void"
  | int bits => "i" ++ toString bits
  | ptr => "ptr"
  | f32 => "f32"
  | f64 => "f64"

theorem wordBits?_eq_some_iff {ty : Ty} {width : Nat} :
    ty.wordBits? = some width ↔ ty = int width ∧ 1 ≤ width ∧ width ≤ 64 := by
  cases ty with
  | int bits => grind [wordBits?]
  | void | ptr | f32 | f64 => simp [wordBits?]

end Ty

end RegisterFlow
