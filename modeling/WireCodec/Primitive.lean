import WireCodec.Decimal.Binary64
/-! # Primitive wire types

The eleven primitive types with their sizes, and the literal values that are read against them.  The
extreme values of a type and its null value are reserved by convention: an unsigned type gives up its
maximum, a signed type its minimum, and a floating type not-a-number. -/

namespace WireCodec

/-- The primitive types, in their usual order. -/
inductive Primitive
  | char | int8 | int16 | int32 | int64 | uint8 | uint16 | uint32 | uint64 | float | double
  deriving DecidableEq, Repr

/-- The value of a literal. -/
inductive Value
  /-- An integer; for a character, its byte. -/
  | int (n : Int)
  | float (x : Binary64)
  /-- Several characters, for arrays of characters only. -/
  | text (s : String)
  deriving DecidableEq, Repr

namespace Primitive

def all : List Primitive :=
  [char, int8, int16, int32, int64, uint8, uint16, uint32, uint64, float, double]

/-- The name in schemas. -/
def name : Primitive → String
  | char => "char"
  | int8 => "int8"
  | int16 => "int16"
  | int32 => "int32"
  | int64 => "int64"
  | uint8 => "uint8"
  | uint16 => "uint16"
  | uint32 => "uint32"
  | uint64 => "uint64"
  | float => "float"
  | double => "double"

def ofName? (s : String) : Option Primitive := all.find? (·.name == s)

theorem ofName?_name (p : Primitive) : ofName? p.name = some p := by
  cases p <;> rfl

/-- The size in bytes. -/
def size : Primitive → Nat
  | char | int8 | uint8 => 1
  | int16 | uint16 => 2
  | int32 | uint32 | float => 4
  | int64 | uint64 | double => 8

def isFloat : Primitive → Bool
  | float | double => true
  | _ => false

def isSigned : Primitive → Bool
  | int8 | int16 | int32 | int64 => true
  | _ => false

/-- The place in the list of all types. -/
def index (p : Primitive) : Nat := all.idxOf p

theorem getElem?_index (p : Primitive) : all[p.index]? = some p := by
  cases p <;> rfl

/-- The smallest and the largest integer that the type can hold. -/
def range : Primitive → Option (Int × Int)
  | char | uint8 => some (0, 2 ^ 8 - 1)
  | int8 => some (-2 ^ 7, 2 ^ 7 - 1)
  | int16 => some (-2 ^ 15, 2 ^ 15 - 1)
  | int32 => some (-2 ^ 31, 2 ^ 31 - 1)
  | int64 => some (-2 ^ 63, 2 ^ 63 - 1)
  | uint16 => some (0, 2 ^ 16 - 1)
  | uint32 => some (0, 2 ^ 32 - 1)
  | uint64 => some (0, 2 ^ 64 - 1)
  | float | double => none

/-- The largest finite single precision number. -/
def largestSingle : Binary64 := .finite false (2 ^ 53 - 2 ^ 29) 75

/-- The largest finite double precision number. -/
def largestDouble : Binary64 := .finite false (2 ^ 53 - 1) 971

/-- The minimum, unless a schema states another. -/
def minimum : Primitive → Value
  | char => .int 0x20
  | int8 => .int (-2 ^ 7 + 1)
  | int16 => .int (-2 ^ 15 + 1)
  | int32 => .int (-2 ^ 31 + 1)
  | int64 => .int (-2 ^ 63 + 1)
  | uint8 | uint16 | uint32 | uint64 => .int 0
  | float => .float largestSingle.neg
  | double => .float largestDouble.neg

/-- The maximum, unless a schema states another. -/
def maximum : Primitive → Value
  | char => .int 0x7E
  | int8 => .int (2 ^ 7 - 1)
  | int16 => .int (2 ^ 15 - 1)
  | int32 => .int (2 ^ 31 - 1)
  | int64 => .int (2 ^ 63 - 1)
  | uint8 => .int (2 ^ 8 - 2)
  | uint16 => .int (2 ^ 16 - 2)
  | uint32 => .int (2 ^ 32 - 2)
  | uint64 => .int (2 ^ 64 - 2)
  | float => .float largestSingle
  | double => .float largestDouble

/-- The value that stands for absence, unless a schema states another. -/
def null : Primitive → Value
  | char => .int 0
  | int8 => .int (-2 ^ 7)
  | int16 => .int (-2 ^ 15)
  | int32 => .int (-2 ^ 31)
  | int64 => .int (-2 ^ 63)
  | uint8 => .int (2 ^ 8 - 1)
  | uint16 => .int (2 ^ 16 - 1)
  | uint32 => .int (2 ^ 32 - 1)
  | uint64 => .int (2 ^ 64 - 1)
  | float | double => .float .nan

end Primitive
end WireCodec
