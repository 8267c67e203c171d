import WireCodec.Codec.Side
import WireCodec.Layout
/-! # Accessors of fields

A field at a fixed offset has a setter on the encoder and a getter on the decoder.  Both are written
from the field's layout.  The setter writes the value as it is given; the getter first returns the
absent value where the acting version does not have the field.  A constant has a getter only, which
does not touch the buffer. -/

namespace WireCodec.Codec

open Call (line enter)

/-! ### Documentation -/

/-- What a field is called in its documentation. -/
def kindName : FieldKind → String
  | .scalar s => if s.isOptional then "optional primitive" else "primitive"
  | .array .. => "primitive array"
  | .constant _ => "constant"
  | .enumeration .. => "enum"
  | .bitSet .. => "bit set"
  | .composite .. => "composite"

/-- The documented properties of a primitive value. -/
def documentScalar (s : Scalar) : List String :=
  [s!"- min value: {s.minimum.display}", s!"- max value: {s.maximum.display}",
   s!"- null value: {s.null.display}"]
  ++ (s.characterEncoding.toList.map fun e => s!"- characterEncoding: {e}")
  ++ (s.semanticType.toList.map fun t => s!"- semanticType: {t}")

/-- The documentation of a field. -/
def document (f : FieldLayout) : List String :=
  [s!"{kindName f.kind} field '{f.name}'"]
  ++ (match f.kind with
    | .scalar s => documentScalar s
    | .array element _ => documentScalar element
    | _ => [])
  ++ [s!"- encodedOffset: {f.offset}", s!"- encodedLength: {f.length}", s!"- version: {f.gate.since}"]

/-! ### Setters -/

/-- The address of an element of an array that starts at `offset`. -/
def elementAddress (p : Primitive) : Address := ⟨"offset", 0, some p.size⟩

/-- A setter that writes one value. -/
def emitPut (f : FieldLayout) (p : Primitive) (type value : String) : List Call :=
  ["#[inline]",
   enter s!"pub fn {f.accessor}(&mut self, value: {type})",
   .write [.bind f.address],
   .write ["self.get_buf_mut().", .put p ⟨"offset", 0, none⟩ value, ";"],
   .close]

def emitSetter (f : FieldLayout) : List Call :=
  match f.kind with
  | .scalar s => emitPut f s.primitive s.primitive.typeName "value"
  | .array element length =>
    let p := element.primitive
    ["#[inline]",
     enter s!"pub fn {f.accessor}(&mut self, value: [{p.typeName}; {length}])",
     .write [.bind f.address],
     "let buf = self.get_buf_mut();",
     enter "for (i, v) in value.iter().enumerate()",
     .write ["buf.", .put p (elementAddress p) "*v", ";"],
     .close,
     .close]
  | .constant _ => [line s!"// skipping CONSTANT {f.name}"]
  | .enumeration typeName p => emitPut f p typeName s!"{p.typeName}::from(value)"
  | .bitSet typeName p => emitPut f p typeName "value.0"
  | .composite typeName _ =>
    ["#[inline]",
     enter s!"pub fn {f.accessor}_encoder(self) -> {typeName}Encoder<Self>",
     .write [.bind f.address],
     .write [.nest s!"{typeName}Encoder::default().wrap" "self" ⟨"offset", 0, none⟩],
     .close]

/-! ### Getters -/

/-- Returns the absent value where the acting version does not have the member. -/
def emitGate (g : Gate) (absent : String) : List Call :=
  match g.condition? with
  | some condition =>
    [.begin ["if ", condition], .write ["return ", .text absent, ";"], .close, .blank]
  | none => []

/-- Returns the absent value where the acting version does not have the field. -/
def emitFieldGate (f : FieldLayout) : Except Fault (List Call) := do
  match ← f.absent with
  | some absent => return emitGate f.gate absent
  | none => return []

/-- A getter that returns a literal. -/
def emitLiteral (f : FieldLayout) (type literal : String) : List Call :=
  ["#[inline]", enter s!"pub fn {f.accessor}(&self) -> {type}", line literal, .close]

def emitConstant (f : FieldLayout) : Constant → Except Fault (List Call)
  | .number p v => do return emitLiteral f p.typeName (← v.literal p)
  | .bytes s => .ok (emitLiteral f "&'static [u8]" (Quoted.bytes s))
  | .text s => .ok (emitLiteral f "&'static str" (Quoted.text s))
  | .variant enumType variant => .ok (emitLiteral f enumType s!"{enumType}::{variant}")

def emitScalarGetter (f : FieldLayout) (s : Scalar) : Except Fault (List Call) := do
  let type := s.primitive.typeName
  let read := Piece.get s.primitive f.address
  let gate ← emitFieldGate f
  if s.isOptional then
    let isNull ← s.null.nullCheck s.primitive "value"
    return [line "#[inline]", enter s!"pub fn {f.accessor}(&self) -> Option<{type}>"]
      ++ gate
      ++ [Call.write ["let value = self.get_buf().", read, ";"],
          enter s!"if {isNull}",
          "None",
          .dedent,
          enter "\x7d else",
          "Some(value)",
          .close,
          .close]
  else
    return [line "#[inline]", enter s!"pub fn {f.accessor}(&self) -> {type}"]
      ++ gate
      ++ [Call.write ["self.get_buf().", read], .close]

def emitCompositeGetter (f : FieldLayout) (typeName : String) : Except Fault (List Call) := do
  let wrap := Piece.nest s!"{typeName}Decoder::default().wrap" "self" ⟨"offset", 0, none⟩
  if f.gate.isGated then
    return [line "#[inline]",
        enter s!"pub fn {f.accessor}_decoder(self) -> Either<Self, {typeName}Decoder<Self>>"]
      ++ (← emitFieldGate f)
      ++ [Call.write [.bind f.address], .write ["Either::Right(", wrap, ")"], .close]
  else
    return [line "#[inline]",
      enter s!"pub fn {f.accessor}_decoder(self) -> {typeName}Decoder<Self>",
      .write [.bind f.address],
      .write [wrap],
      .close]

def emitGetter (f : FieldLayout) : Except Fault (List Call) := do
  match f.kind with
  | .scalar s => emitScalarGetter f s
  | .array element length =>
    let p := element.primitive
    return [line "#[inline]", enter s!"pub fn {f.accessor}(&self) -> [{p.typeName}; {length}]"]
      ++ (← emitFieldGate f)
      ++ [line "let buf = self.get_buf();",
          .write [.bind f.address],
          .write ["core::array::from_fn(|i| buf.", .get p (elementAddress p), ")"],
          .close]
  | .constant c => emitConstant f c
  | .enumeration typeName p =>
    return [line "#[inline]", enter s!"pub fn {f.accessor}(&self) -> {typeName}"]
      ++ (← emitFieldGate f)
      ++ [Call.write ["self.get_buf().", .get p f.address, ".into()"], .close]
  | .bitSet typeName p =>
    return [line "#[inline]", enter s!"pub fn {f.accessor}(&self) -> {typeName}"]
      ++ (← emitFieldGate f)
      ++ [Call.write [.text s!"{typeName}::new(self.get_buf().", .get p f.address, ")"], .close]
  | .composite typeName _ => emitCompositeGetter f typeName

/-! ### Both sides -/

/-- The documented accessor of a field; what a side does not have is not documented. -/
def emitField (side : Side) (f : FieldLayout) : Except Fault (List Call) := do
  match side with
  | .encode =>
    let docs := if f.kind.isConstant then [] else (document f).map .doc
    return .blank :: (docs ++ emitSetter f)
  | .decode => return .blank :: ((document f).map .doc ++ (← emitGetter f))

/-- The accessors of the fields of a block. -/
def emitFields (side : Side) (fields : List FieldLayout) : Except Fault (List Call) := do
  return (← fields.mapM (emitField side)).flatten

end WireCodec.Codec
