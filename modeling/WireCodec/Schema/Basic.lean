import WireCodec.Name
import WireCodec.Schema.Token
/-! # Schemas

A schema names itself, fixes the byte order and the types of the message header, and lists the tokens
of its types and of its messages. -/

namespace WireCodec

inductive ByteOrder
  | littleEndian
  | bigEndian
  deriving DecidableEq, Repr

namespace ByteOrder

def all : List ByteOrder := [littleEndian, bigEndian]

def word : ByteOrder → String
  | littleEndian => "LITTLE_ENDIAN"
  | bigEndian => "BIG_ENDIAN"

def ofWord? (s : String) : Option ByteOrder := all.find? (·.word == s)

theorem ofWord?_word (o : ByteOrder) : ofWord? o.word = some o := by
  cases o <;> rfl

end ByteOrder

/-- The types of the fields of a message header. -/
structure HeaderTypes where
  blockLength : Primitive := .uint16
  templateId : Primitive := .uint16
  schemaId : Primitive := .uint16
  schemaVersion : Primitive := .uint16
  deriving DecidableEq, Repr

structure Schema where
  packageName : String
  namespaceName : Option String := none
  id : Nat := 0
  version : Nat := 0
  semanticVersion : Option String := none
  description : Option String := none
  byteOrder : ByteOrder := .littleEndian
  header : HeaderTypes := {}
  types : List (List Token) := []
  messages : List (List Token) := []
  deriving DecidableEq, Repr

namespace Schema

/-- The package name in small letters, words separated by underscores. -/
def packageWords (s : Schema) : List Char :=
  (Name.snake s.packageName.toList).map fun c => if c = '.' ∨ c = '-' then '_' else c

/-- The name under which the schema's output is filed: that of the package, preceded by the namespace
unless the namespace repeats it. -/
def qualifiedName (s : Schema) : String :=
  let package := s.packageWords
  let name := match s.namespaceName with
    | some n =>
      if Casing.equalsAscii n (String.ofList package) then package else n.toList ++ '_' :: package
    | none => package
  String.ofList (Casing.lower name)

end Schema
end WireCodec
