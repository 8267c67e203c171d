import WireCodec.Schema.Basic
/-! # Schema definitions

A definition says what a schema consists of, without offsets, lengths and runs: named types, and
messages of fields, groups and var data.  Types are referred to by name, and of several types of one
name the first counts. -/

namespace WireCodec.Definition

/-- One primitive value, or an array of them. -/
structure Element where
  name : String
  primitive : Primitive
  length : Nat := 1
  presence : Presence := .required
  null : Option String := none
  minimum : Option String := none
  maximum : Option String := none
  constant : Option String := none
  characterEncoding : Option String := none
  semanticType : Option String := none
  deriving DecidableEq, Repr

namespace Element

/-- A required single value; characters are ASCII unless something else is stated. -/
def ofPrimitive (name : String) (p : Primitive) : Element :=
  { name, primitive := p, characterEncoding := if p = .char then some "US-ASCII" else none }

/-- The number of bytes; a constant occupies none. -/
def encodedLength (e : Element) : Nat :=
  if e.presence = .constant then 0 else e.primitive.size * e.length

end Element

/-- A type given in place, or by name. -/
inductive Reference
  | inline (element : Element)
  | named (name : String)
  deriving DecidableEq, Repr

/-- An enum: names and their literals. -/
structure Enumeration where
  name : String
  primitive : Primitive
  values : List (String × String)
  deriving DecidableEq, Repr

/-- A bit set: names and their bits. -/
structure BitSet where
  name : String
  primitive : Primitive
  choices : List (String × Nat)
  deriving DecidableEq, Repr

/-- A sequence of named members. -/
structure Composite where
  name : String
  members : List (String × Reference)
  deriving DecidableEq, Repr

inductive NamedType
  | element (e : Element)
  | enumeration (e : Enumeration)
  | bitSet (s : BitSet)
  | composite (c : Composite)
  deriving DecidableEq, Repr

def NamedType.name : NamedType → String
  | element e => e.name
  | enumeration e => e.name
  | bitSet s => s.name
  | composite c => c.name

structure Field where
  name : String
  id : Int
  type : Reference
  since : Nat := 0
  /-- The value of a field that is fixed to a value of its enum. -/
  constant : Option String := none
  deriving DecidableEq, Repr

structure VarData where
  name : String
  id : Int
  since : Nat := 0
  lengthType : Primitive := .uint16
  characterEncoding : Option String := none
  deriving DecidableEq, Repr

/-- A repeating group: its header, and the fields, groups and var data of its elements. -/
inductive Group
  | mk (name : String) (id : Int) (since : Nat) (blockLengthType numInGroupType : Primitive)
      (fields : List Field) (groups : List Group) (varData : List VarData)
  deriving Repr

structure Message where
  name : String
  id : Int
  fields : List Field := []
  groups : List Group := []
  varData : List VarData := []
  deriving Repr

end WireCodec.Definition

namespace WireCodec

/-- The definition of a schema. -/
structure Definition where
  packageName : String
  namespaceName : Option String := none
  id : Nat := 0
  version : Nat := 0
  semanticVersion : Option String := none
  description : Option String := none
  byteOrder : ByteOrder := .littleEndian
  /-- Is the usual message header added? -/
  standardHeader : Bool := true
  types : List Definition.NamedType := []
  messages : List Definition.Message := []
  deriving Repr

end WireCodec

namespace WireCodec.Definition

/-- The name of the composite that heads every message. -/
def headerName : String := "messageHeader"

/-- The usual message header. -/
def header : Composite :=
  let member (name : String) : String × Reference := (name, .inline (.ofPrimitive "uint16" .uint16))
  ⟨headerName, [member "blockLength", member "templateId", member "schemaId", member "version"]⟩

/-- The types that can be referred to: those of the definition, preceded by the usual message header
unless the definition leaves it out or has a type of its name. -/
def allTypes (d : Definition) : List NamedType :=
  if d.standardHeader && !d.types.any (·.name == headerName) then .composite header :: d.types
  else d.types

end WireCodec.Definition
