import WireCodec.Definition.Basic
/-! # Laying out a definition

`Definition.schema` turns a definition into tokens.  Members follow each other without gaps, so the
offset of a member is the sum of the lengths before it and the length of a block is the sum of all; a
constant has no length.  Every opening token carries the length of its run, and named types are
repeated wherever they are referred to.

Composites are nested at most as deeply as there are types; deeper nesting can only come from a type
that refers to itself. -/

namespace WireCodec.Definition

/-- A number cut to a signed word of 32 bits. -/
def wrap32 (n : Nat) : Int := Int.bmod n (2 ^ 32)

/-- Where the tokens of a type stand. -/
structure Position where
  name : String
  referencedName : Option String := none
  offset : Nat
  version : Nat
  constant : Option String := none

/-- A run with its opening and closing token; the opening token carries the length of the run. -/
def wrap (opening closing : Token) (inner : List Token) : List Token :=
  { opening with span := inner.length + 2 } :: (inner ++ [closing])

/-! ### Types -/

def Element.encoding (e : Element) : Encoding :=
  { presence := e.presence
    primitive := some e.primitive
    minimum := e.minimum
    maximum := e.maximum
    null := e.null
    constant := e.constant
    characterEncoding := e.characterEncoding
    semanticType := e.semanticType }

/-- The token at the start of a type, or its only one. -/
def Position.token (p : Position) (signal : Signal) (length : Nat) (encoding : Encoding) : Token :=
  { signal, name := p.name, referencedName := p.referencedName, offset := wrap32 p.offset
    version := p.version, encodedLength := wrap32 length, encoding }

def Element.token (e : Element) (p : Position) : Token :=
  p.token .encoding e.encodedLength e.encoding

/-- The token of one value of an enum or of one choice of a bit set. -/
def memberToken (signal : Signal) (p : Position) (primitive : Primitive) (name literal : String) :
    Token :=
  { signal, name, version := p.version, encodedLength := primitive.size
    encoding := { primitive := some primitive, constant := some literal } }

/-- The run of an enum or of a bit set. -/
def simpleRun (opening closing : Signal) (p : Position) (length : Nat) (encoding : Encoding)
    (members : List Token) : List Token :=
  wrap (p.token opening length encoding)
    { signal := closing, name := p.name, version := p.version, encoding } members

/-- The tokens of an enum; where its value is fixed it is a constant. -/
def Enumeration.tokens (e : Enumeration) (p : Position) : Except Fault (List Token × Nat) :=
  if e.values = [] then .error (.emptyEnum e.name)
  else
    let isFixed := p.constant.isSome
    let encoding : Encoding :=
      { presence := if isFixed then .constant else .required
        primitive := some e.primitive, constant := p.constant }
    let length := if isFixed then 0 else e.primitive.size
    let members := e.values.map fun (name, literal) =>
      memberToken .validValue p e.primitive name literal
    .ok (simpleRun .beginEnum .endEnum p length encoding members, length)

def BitSet.tokens (s : BitSet) (p : Position) : List Token × Nat :=
  let members := s.choices.map fun (name, bit) =>
    memberToken .choice p s.primitive name (toString bit)
  let length := s.primitive.size
  (simpleRun .beginSet .endSet p length { primitive := some s.primitive } members, length)

/-- The type of a name. -/
def find (types : List NamedType) (name : String) : Except Fault NamedType :=
  match types.find? (·.name == name) with
  | some t => .ok t
  | none => .error (.missingType name)

/-- The tokens of the members of a composite from some offset on, and their length. -/
def memberTokens (types : List NamedType)
    (tokens : NamedType → Position → Except Fault (List Token × Nat)) (version : Nat) :
    Nat → List (String × Reference) → Except Fault (List Token × Nat)
  | _, [] => .ok ([], 0)
  | offset, (name, reference) :: members => do
    let (ts, length) ← match reference with
      | .inline e => pure ([e.token { name, offset, version }], e.encodedLength)
      | .named n => do
        let t ← find types n
        tokens t { name, referencedName := some t.name, offset, version }
    let (rest, restLength) ← memberTokens types tokens version (offset + length) members
    return (ts ++ rest, length + restLength)

/-- The tokens of a type and its length; `levels` bounds the nesting of composites. -/
def NamedType.tokens (types : List NamedType) :
    Nat → NamedType → Position → Except Fault (List Token × Nat)
  | _, .element e, p => .ok ([e.token p], e.encodedLength)
  | _, .enumeration e, p => e.tokens p
  | _, .bitSet s, p => .ok (s.tokens p)
  | 0, .composite c, _ => .error (.typeCycle c.name)
  | levels + 1, .composite c, p => do
    let (inner, length) ←
      memberTokens types (NamedType.tokens types levels) p.version 0 c.members
    return (wrap (p.token .beginComposite length {})
      { signal := .endComposite, name := p.name, version := p.version } inner, length)

/-- The tokens of a type that is not nested in another. -/
def NamedType.outerTokens (types : List NamedType) (t : NamedType) (p : Position) :
    Except Fault (List Token × Nat) :=
  t.tokens types (types.length + 1) p

/-! ### Messages -/

/-- The tokens of a field at some offset, and its length.  The field takes over the presence of its
type, and the constant value unless it has one of its own. -/
def Field.tokens (types : List NamedType) (f : Field) (offset : Nat) :
    Except Fault (List Token × Nat) := do
  let (inner, length) ← match f.type with
    | .inline e => pure ([e.token { name := e.name, offset, version := f.since }], e.encodedLength)
    | .named n => do
      let t ← find types n
      t.outerTokens types { name := t.name, offset, version := f.since, constant := f.constant }
  let typeEncoding := (inner.head?.map Token.encoding).getD {}
  let inherited := if typeEncoding.presence = .constant then typeEncoding.constant else none
  let opening : Token :=
    { signal := .beginField, name := f.name, id := f.id, offset := wrap32 offset
      version := f.since, encodedLength := wrap32 length
      encoding := { presence := typeEncoding.presence, constant := f.constant.or inherited } }
  return (wrap opening { signal := .endField, name := f.name, version := f.since } inner, length)

/-- The tokens of the fields of a block from some offset on, and their length. -/
def fieldTokens (types : List NamedType) : Nat → List Field → Except Fault (List Token × Nat)
  | _, [] => .ok ([], 0)
  | offset, f :: fs => do
    let (ts, length) ← f.tokens types offset
    let (rest, restLength) ← fieldTokens types (offset + length) fs
    return (ts ++ rest, length + restLength)

/-- The tokens of a var data member: a length and bytes, in a composite named for what they hold. -/
def VarData.tokens (v : VarData) : List Token :=
  let composite := if v.characterEncoding.isSome then "varStringEncoding" else "varDataEncoding"
  let prefixSize := v.lengthType.size
  let length : Token :=
    { signal := .encoding, name := "length", offset := 0, version := v.since
      encodedLength := prefixSize, encoding := { primitive := some v.lengthType } }
  let data : Token :=
    { signal := .encoding, name := "varData", offset := prefixSize, version := v.since
      encoding := { primitive := some .uint8, characterEncoding := v.characterEncoding } }
  wrap { signal := .beginVarData, name := v.name, id := v.id, version := v.since }
    { signal := .endVarData, name := v.name, version := v.since }
    (wrap { signal := .beginComposite, name := composite, version := v.since }
      { signal := .endComposite, name := composite } [length, data])

/-- The header of a group: the length of its elements and their number. -/
def dimensionTokens (since : Nat) (blockLengthType numInGroupType : Primitive) : List Token :=
  let blockSize := blockLengthType.size
  let part (name : String) (p : Primitive) (offset : Nat) : Token :=
    (Element.ofPrimitive name p).token { name, offset, version := since }
  wrap
    { signal := .beginComposite, name := "groupSizeEncoding", offset := 0, version := since
      encodedLength := blockSize + numInGroupType.size }
    { signal := .endComposite, name := "groupSizeEncoding" }
    [part "blockLength" blockLengthType 0, part "numInGroup" numInGroupType blockSize]

mutual
/-- The tokens of a group. -/
def Group.tokens (types : List NamedType) : Group → Except Fault (List Token)
  | .mk name id since blockLengthType numInGroupType fields groups varData => do
    let (fieldTs, length) ← fieldTokens types 0 fields
    let groupTs ← groupTokens types groups
    let opening : Token :=
      { signal := .beginGroup, name, id, version := since, encodedLength := wrap32 length }
    return wrap opening { signal := .endGroup, name }
      (dimensionTokens since blockLengthType numInGroupType ++ fieldTs ++ groupTs
        ++ varData.flatMap VarData.tokens)

/-- The tokens of groups that follow each other. -/
def groupTokens (types : List NamedType) : List Group → Except Fault (List Token)
  | [] => .ok []
  | g :: gs => do
    let ts ← g.tokens types
    let rest ← groupTokens types gs
    return ts ++ rest
end

/-- The tokens of a message. -/
def Message.tokens (types : List NamedType) (m : Message) : Except Fault (List Token) := do
  let (fieldTs, length) ← fieldTokens types 0 m.fields
  let groupTs ← groupTokens types m.groups
  let opening : Token :=
    { signal := .beginMessage, name := m.name, id := m.id, offset := 0
      encodedLength := wrap32 length }
  return wrap opening { signal := .endMessage, name := m.name }
    (fieldTs ++ groupTs ++ m.varData.flatMap VarData.tokens)

/-! ### Schemas -/

/-- The schema that a definition defines: every type on its own, then every message. -/
def schema (d : Definition) : Except Fault Schema := do
  let types := d.allTypes
  let typeRuns ← types.mapM fun t =>
    (t.outerTokens types { name := t.name, offset := 0, version := 0 }).map (·.1)
  let messageRuns ← d.messages.mapM (Message.tokens types)
  return {
    packageName := d.packageName
    namespaceName := d.namespaceName
    id := d.id
    version := d.version
    semanticVersion := d.semanticVersion
    description := d.description
    byteOrder := d.byteOrder
    types := typeRuns
    messages := messageRuns }

end WireCodec.Definition
