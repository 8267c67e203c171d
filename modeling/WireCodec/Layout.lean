import WireCodec.Member
import WireCodec.Name
import WireCodec.Piece
/-! # Layouts

A layout says where a member lies, how long it is, what it holds and which schema version introduced
it.  Encoders and decoders are both written from it.  `Layout.checkBlock` accepts the fields of a
block when the bytes that they occupy are apart and lie within the block. -/

namespace WireCodec

/-! ### Versions -/

/-- The visibility of a member that was introduced in some schema version. -/
structure Gate where
  since : Nat := 0
  deriving DecidableEq, Repr

namespace Gate

/-- Is there a version that cannot see the member? -/
def isGated (g : Gate) : Bool := 0 < g.since

def isVisibleTo (g : Gate) (version : Nat) : Bool := g.since ≤ version

/-- The condition under which a decoder takes the member as absent. -/
def condition? (g : Gate) : Option Piece := if g.isGated then some (.hidden g.since) else none

/-- The text of that condition, which an accessor puts behind `if`. -/
def hidden (g : Gate) : Option String := g.condition?.map Piece.render

/-- The gate within a codec of some version: none is needed when the codec is as late. -/
def within (g : Gate) (enclosing : Nat) : Gate := if g.since ≤ enclosing then {} else g

end Gate

/-! ### Fields -/

/-- A single primitive value. -/
structure Scalar where
  primitive : Primitive
  /-- Is the value absent when it equals the null value? -/
  isOptional : Bool
  null : Value
  minimum : Value
  maximum : Value
  characterEncoding : Option String
  semanticType : Option String
  deriving DecidableEq, Repr

/-- The value of a constant field. -/
inductive Constant
  | number (primitive : Primitive) (value : Value)
  | bytes (text : String)
  | text (text : String)
  /-- A value of an enum, by the names of both in generated code. -/
  | variant (enumType variant : String)
  deriving DecidableEq, Repr

/-- What a field holds. -/
inductive FieldKind
  | scalar (s : Scalar)
  | array (element : Scalar) (length : Nat)
  | constant (c : Constant)
  | enumeration (typeName : String) (primitive : Primitive)
  | bitSet (typeName : String) (primitive : Primitive)
  | composite (typeName schemaName : String)
  deriving DecidableEq, Repr

namespace FieldKind

def isConstant : FieldKind → Bool
  | constant _ => true
  | _ => false

end FieldKind

/-- The layout of a field. -/
structure FieldLayout where
  name : String
  /-- The name of its accessors. -/
  accessor : String
  offset : Nat
  /-- The bytes that the field occupies in its block. -/
  length : Nat
  gate : Gate
  kind : FieldKind
  deriving DecidableEq, Repr

namespace FieldLayout

/-- The address of the field, seen from its codec. -/
def address (f : FieldLayout) : Address := ⟨"self.offset", f.offset, none⟩

/-- The text of that address, which an accessor binds `offset` to. -/
def place (f : FieldLayout) : String := f.address.text

/-- What a decoder returns in place of a field that it cannot see; a constant is always seen. -/
def absent (f : FieldLayout) : Except Fault (Option String) :=
  match f.kind with
  | .scalar s => if s.isOptional then .ok (some "None") else some <$> s.null.literal s.primitive
  | .array element length => do
    let null ← element.null.literal element.primitive
    return some s!"[{null}; {length}]"
  | .enumeration typeName _ => .ok (some s!"{typeName}::NullVal")
  | .bitSet typeName _ => .ok (some s!"{typeName}::default()")
  | .composite .. => .ok (some "Either::Left(self)")
  | .constant _ => .ok none

end FieldLayout

/-- The scalar that a token encodes. -/
def Scalar.ofToken (t : Token) : Except Fault Scalar := do
  let primitive ← t.primitive
  let null ← t.encoding.applicableNull primitive
  let minimum ← t.encoding.applicableMinimum primitive
  let maximum ← t.encoding.applicableMaximum primitive
  return {
    primitive, isOptional := t.isOptional, null, minimum, maximum
    characterEncoding := t.encoding.characterEncoding
    semanticType := t.encoding.semanticType }

namespace Field

/-- The literal of a constant: that of the field, or else that of its type. -/
def constantLiteral (f : Field) : Except Fault String :=
  match f.token.encoding.constant.or f.type.encoding.constant with
  | some raw => .ok raw
  | none => .error (.malformedRange f.name .constantWithoutValue)

/-- The value of a constant of a primitive type.  Characters in a known encoding are text. -/
def constant (f : Field) : Except Fault Constant := do
  let primitive ← f.type.primitive
  let raw ← f.constantLiteral
  let encoding ← TextEncoding.ofDeclared f.name f.type.encoding.characterEncoding
  match encoding, primitive with
  | some .ascii, .char =>
    if Text.isAscii raw then return .bytes raw else throw (.invalidLiteral primitive.name raw)
  | some .utf8, .char => return .text raw
  | _, _ => return .number primitive (← Value.parse primitive raw)

/-- The part of a text behind its last point. -/
def afterPoint (raw : String) : String :=
  String.ofList (((Text.split '.' raw.toList).getLast?).getD [])

/-- What the field holds, by the signal of its type. -/
def kind (f : Field) : Except Fault FieldKind :=
  match f.type.signal with
  | .encoding =>
    if f.isConstant then .constant <$> f.constant
    else do
      let element ← Scalar.ofToken f.type
      let length := f.type.arrayLength
      return if length = 1 then .scalar element else .array element length
  | .beginEnum => do
    let enumType := Name.type f.type.typeName
    if f.isConstant then
      let raw ← f.constantLiteral
      return .constant (.variant enumType (Name.type (afterPoint raw)))
    else return .enumeration enumType (← f.type.primitive)
  | .beginSet => do return .bitSet (Name.type f.type.typeName) (← f.type.primitive)
  | .beginComposite => .ok (.composite (Name.type f.type.typeName) f.type.typeName)
  | found => .error (.unexpectedSignal .fieldType found f.type.name 0)

/-- The layout of a field.  The length of a composite is the one its token states. -/
def layout (f : Field) : Except Fault FieldLayout := do
  let kind ← f.kind
  let length := match kind with
    | .constant _ => 0
    | .scalar s => s.primitive.size
    | .array element n => element.primitive.size * n
    | .enumeration _ p => p.size
    | .bitSet _ p => p.size
    | .composite .. => f.type.encodedLength.toNat
  return {
    name := f.name
    accessor := Name.function f.name
    offset := if 0 ≤ f.token.offset then f.token.blockOffset else f.type.blockOffset
    length
    gate := ⟨f.version⟩
    kind }

end Field

/-! ### Blocks -/

/-- The bytes that a field occupies. -/
structure Extent where
  name : String
  start : Nat
  ending : Nat
  deriving DecidableEq, Repr

namespace Layout

/-- The bytes of the fields that occupy any. -/
def extents (fields : List FieldLayout) : List Extent :=
  (fields.filter (0 < ·.length)).map fun f => ⟨f.name, f.offset, f.offset + f.length⟩

/-- By start, and then by end. -/
def precedes (a b : Extent) : Bool :=
  a.start < b.start || (a.start == b.start && a.ending ≤ b.ending)

/-- Checks that none of the extents begins before the one in front of it ends. -/
def checkApart (owner : String) : List Extent → Except Fault Unit
  | a :: b :: rest =>
    if b.start < a.ending then
      .error (.malformedRange owner (.overlap b.name b.start a.name a.ending))
    else checkApart owner (b :: rest)
  | _ => .ok ()

/-- Checks that the fields of a block are apart and end within the block, if its length is given. -/
def checkBlock (owner : String) (fields : List FieldLayout) (limit : Option Nat) :
    Except Fault Unit := do
  let sorted := (extents fields).mergeSort precedes
  checkApart owner sorted
  match limit, sorted.getLast? with
  | some limit, some last =>
    if limit < last.ending then
      throw (.malformedRange owner (.pastBlock last.name last.ending limit))
  | _, _ => return

end Layout

/-! ### Groups and var data -/

/-- The layout of a group and of its header. -/
structure GroupLayout where
  name : String
  accessor : String
  structName : String
  gate : Gate
  blockLength : Nat
  blockLengthType : Primitive
  blockLengthOffset : Nat
  numInGroupType : Primitive
  numInGroupOffset : Nat
  headerSize : Nat
  deriving DecidableEq, Repr

/-- The layout of a group; its elements must have a length. -/
def GroupHead.layout (h : GroupHead) : Except Fault GroupLayout := do
  if h.token.encodedLength < 0 then throw (.malformedRange h.token.name .groupWithoutLength)
  let blockLengthType ← h.blockLength.primitive
  let numInGroupType ← h.numInGroup.primitive
  let headerSize ← h.size
  return {
    name := h.token.name
    accessor := Name.function h.token.name
    structName := Name.type h.token.name
    gate := ⟨h.token.version⟩
    blockLength := h.token.encodedLength.toNat
    blockLengthType
    blockLengthOffset := h.blockLength.blockOffset
    numInGroupType
    numInGroupOffset := h.numInGroup.blockOffset
    headerSize }

/-- The layout of a var data member. -/
structure VarDataLayout where
  name : String
  accessor : String
  gate : Gate
  lengthType : Primitive
  characterEncoding : Option String
  /-- How the bytes are exposed, if an encoding is declared. -/
  text : Option TextEncoding
  deriving DecidableEq, Repr

/-- The size of the length in front of the bytes. -/
def VarDataLayout.prefixSize (v : VarDataLayout) : Nat := v.lengthType.size

/-- The layout of a var data member. -/
def VarData.layout (v : VarData) : Except Fault VarDataLayout := do
  let declared := v.data.encoding.characterEncoding
  let text ← TextEncoding.ofDeclared v.token.name declared
  let lengthType ← v.length.primitive
  return {
    name := v.token.name
    accessor := Name.function v.token.name
    gate := ⟨v.token.version⟩
    lengthType
    characterEncoding := declared
    text }

end WireCodec
