import WireCodec.Codec.Accessor
import WireCodec.Registry
/-! # Composites

A composite becomes a value type, which reads and writes all of its members at once, and a codec on
either side, which can be placed anywhere in an enclosing codec.  A member is gated when it was
introduced later than the composite itself. -/

namespace WireCodec.Codec

open Call (line enter)

/-- A composite as it is generated. -/
structure Composite where
  name : String
  description : Option String
  length : Nat
  members : List FieldLayout
  deriving DecidableEq, Repr

namespace Composite

/-- The layouts of the members of a registered composite. -/
def membersOf (t : NamedType) (first : Token) : Except Fault (List FieldLayout) := do
  let body ← Body.ofComposite t.run
  let members ← body.fields.mapM fun f => do
    let layout ← f.layout
    return { layout with gate := layout.gate.within first.version }
  Layout.checkBlock t.name members (some first.encodedLength.toNat)
  return members

/-- The composite of a registered type. -/
def ofType (t : NamedType) (first : Token) : Except Fault Composite := do
  let members ← membersOf t first
  return {
    name := Name.type t.name
    description := first.description
    length := first.encodedLength.toNat
    members }

/-- The members that occupy bytes. -/
def stored (c : Composite) : List FieldLayout := c.members.filter fun m => !m.kind.isConstant

/-! ### The value -/

/-- The type of a member in the value. -/
def valueType : FieldKind → String
  | .scalar s => s.primitive.typeName
  | .array element length => s!"[{element.primitive.typeName}; {length}]"
  | .constant _ => "()"
  | .enumeration typeName _ => typeName
  | .bitSet typeName _ => typeName
  | .composite typeName _ => typeName

/-- The address of a member, seen from the composite's first byte. -/
def valueAddress (m : FieldLayout) : Address := ⟨"offset", m.offset, none⟩

/-- The address of an element of an array. -/
def valueElementAddress (m : FieldLayout) (p : Primitive) : Address :=
  ⟨"offset", m.offset, some p.size⟩

/-- Reads a member. -/
def readMember (m : FieldLayout) : List Piece :=
  match m.kind with
  | .scalar s => ["buf.", .get s.primitive (valueAddress m)]
  | .array element _ =>
    ["core::array::from_fn(|i| buf.",
     .get element.primitive (valueElementAddress m element.primitive), ")"]
  | .enumeration typeName p => [.text s!"{typeName}::from(buf.", .get p (valueAddress m), ")"]
  | .bitSet typeName p => [.text s!"{typeName}::new(buf.", .get p (valueAddress m), ")"]
  | .composite typeName _ => [.nest s!"{typeName}::decode_at" "buf" (valueAddress m)]
  | .constant _ => []

/-- Writes a member. -/
def emitWrite (m : FieldLayout) : List Call :=
  match m.kind with
  | .scalar s => [.write ["buf.", .put s.primitive (valueAddress m) s!"self.{m.accessor}", ";"]]
  | .array element _ =>
    [enter s!"for (i, v) in self.{m.accessor}.iter().enumerate()",
     .write ["buf.", .put element.primitive (valueElementAddress m element.primitive) "*v", ";"],
     .close]
  | .enumeration _ p =>
    [.write ["buf.", .put p (valueAddress m) s!"{p.typeName}::from(self.{m.accessor})", ";"]]
  | .bitSet _ p => [.write ["buf.", .put p (valueAddress m) s!"self.{m.accessor}.0", ";"]]
  | .composite .. => [.write [.nest s!"self.{m.accessor}.encode_at" "buf" (valueAddress m), ";"]]
  | .constant _ => []

/-- The names of the parameters for the buffer and the offset, marked where they are not used. -/
def parameters (c : Composite) : String × String :=
  if c.stored.isEmpty then ("_buf", "_offset") else ("buf", "offset")

/-- The value type. -/
def renderValue (c : Composite) : List Call :=
  let (buf, offset) := c.parameters
  [Call.doc (c.description.getD "Plain value of every non-constant member"),
   "#[derive(Clone, Copy, Debug, PartialEq)]",
   enter s!"pub struct {c.name}"]
  ++ (c.stored.map fun m => line s!"pub {m.accessor}: {valueType m.kind},")
  ++ [Call.close,
      .blank,
      enter s!"impl {c.name}",
      "#[inline]",
      enter s!"pub fn decode_at({buf}: &ReadBuf<'_>, {offset}: usize) -> Self",
      enter "Self"]
  ++ (c.stored.map fun m => .write (.text s!"{m.accessor}: " :: (readMember m ++ [.text ","])))
  ++ [Call.close,
      .close,
      .blank,
      "#[inline]",
      enter s!"pub fn encode_at(&self, {buf}: &mut WriteBuf<'_>, {offset}: usize)"]
  ++ c.stored.flatMap emitWrite
  ++ [Call.close,
      .close]

/-! ### The codecs -/

/-- Reads or writes the value of the composite. -/
def emitWholeValue (c : Composite) : Side → List Call
  | .encode =>
    [.doc "Writes every non-constant member of \x60value\x60",
     "#[inline]",
     enter s!"pub fn set_value(&mut self, value: &{c.name})",
     "let offset = self.offset;",
     "value.encode_at(self.get_buf_mut(), offset);",
     .close]
  | .decode =>
    [.doc "Reads every non-constant member into a value",
     "#[inline]",
     enter s!"pub fn to_value(&self) -> {c.name}",
     line s!"{c.name}::decode_at(self.get_buf(), self.offset)",
     .close]

/-- The codec of one side. -/
def renderCodec (c : Composite) (side : Side) : Except Fault (List Call) := do
  let codec := c.name ++ side.suffix
  let accessors ← emitFields side c.members
  return [line "#[derive(Debug)]",
      enter s!"pub struct {codec}<P>",
      "parent: Option<P>,",
      "offset: usize,",
      .close,
      .blank]
    ++ renderDefault codec [("offset", "0")] ++ [.blank] ++ renderLinks codec side ++ [.blank]
    ++ openInherent codec side.bufferTrait
    ++ [line "#[inline]",
        enter "pub fn wrap(mut self, parent: P, offset: usize) -> Self",
        "self.parent = Some(parent);",
        "self.offset = offset;",
        "self",
        .close,
        .blank]
    ++ renderParent ++ [.blank] ++ c.emitWholeValue side ++ accessors ++ [.close]

/-- The module of one side. -/
def renderSide (c : Composite) (side : Side) : Except Fault (List Call) := do
  let codec ← c.renderCodec side
  return [Call.blank, enter s!"pub mod {side.module}", "use super::*;", .blank] ++ codec ++ [.close]

/-- The unit of a composite. -/
def render (c : Composite) : Except Fault (List Call) := do
  let sides ← Side.all.mapM c.renderSide
  return [line "use super::*;",
      .blank,
      line s!"pub const ENCODED_LENGTH: usize = {c.length};",
      .blank]
    ++ c.renderValue ++ sides.flatten
    ++ [Call.blank, "pub use decoder::*;", "pub use encoder::*;"]

end Composite
end WireCodec.Codec
