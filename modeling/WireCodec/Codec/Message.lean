import WireCodec.Codec.Composite
import WireCodec.Codec.Group
import WireCodec.Definition.Basic
/-! # Messages

A message becomes its constants and a module on either side, with the message's codec first and the
codecs of its groups after it.  The encoder owns the buffer and the limit of all that lies behind the
fixed block; the decoder also knows the version and the block length with which the buffer was
written.  Where the schema has the usual message header the codecs also wrap it. -/

namespace WireCodec.Codec

open Call (line enter)

/-- A message as it is generated. -/
structure Message where
  token : Token
  body : Body
  deriving Repr

namespace Message

/-! ### The message header -/

/-- The members of the usual message header and their types. -/
def headerMembers (h : HeaderTypes) : List (String × Primitive) :=
  [("blockLength", h.blockLength), ("templateId", h.templateId), ("schemaId", h.schemaId),
   ("version", h.schemaVersion)]

/-- Is there an always visible, required member of that name and type? -/
def hasHeaderMember (members : List FieldLayout) (expected : String × Primitive) : Bool :=
  members.any fun m => m.name == expected.1 && !m.gate.isGated && match m.kind with
    | .scalar s => s.primitive == expected.2 && !s.isOptional
    | _ => false

/-- Does the schema have the usual message header? -/
def hasHeader (s : Schema) (r : Registry) : Bool :=
  match r.get? Definition.headerName with
  | some t =>
    t.kind == .composite && match t.run.head?.map (Composite.membersOf t) with
      | some (.ok members) => (headerMembers s.header).all (hasHeaderMember members)
      | _ => false
  | none => false

/-- The name of the generated header codecs, less their ends. -/
def headerType : String := Name.type Definition.headerName

/-! ### Codecs -/

/-- The constants of a message. -/
def emitConstants (s : Schema) (t : Token) : List Call :=
  let h := s.header
  [line s!"pub const SBE_BLOCK_LENGTH: {h.blockLength.typeName} = {t.encodedLength.toNat};",
   line s!"pub const SBE_TEMPLATE_ID: {h.templateId.typeName} = {t.id};",
   line s!"pub const SBE_SCHEMA_ID: {h.schemaId.typeName} = {s.id};",
   line s!"pub const SBE_SCHEMA_VERSION: SchemaVersion = {s.version};",
   line <|
    s!"pub const SBE_SEMANTIC_VERSION: &str = " ++ Quoted.text (s.semanticVersion.getD "") ++ ";"]

/-- The limit of a message's codec. -/
def renderLimit (codec trait : String) : List Call :=
  [enter s!"impl<'a> {trait}<'a> for {codec}<'a>",
   "#[inline]",
   enter "fn get_limit(&self) -> usize",
   "self.limit",
   .close,
   .blank,
   "#[inline]",
   enter "fn set_limit(&mut self, limit: usize)",
   "self.limit = limit;",
   .close,
   .close]

def renderEncodedLength : List Call :=
  [.doc "Bytes from the start of the block to the current limit",
   "#[inline]",
   enter "pub fn encoded_length(&self) -> usize",
   "self.limit - self.offset",
   .close]

/-- Writes the message header. -/
def renderEncoderHeader : List Call :=
  [.blank,
   .doc "Wraps a message header at \x60offset\x60 and fills it in for this message",
   "#[inline]",
   enter s!"pub fn header(self, offset: usize) -> {headerType}Encoder<Self>",
   line s!"let mut header = {headerType}Encoder::default().wrap(self, offset);",
   "header.block_length(SBE_BLOCK_LENGTH);",
   "header.template_id(SBE_TEMPLATE_ID);",
   "header.schema_id(SBE_SCHEMA_ID);",
   "header.version(SBE_SCHEMA_VERSION);",
   "header",
   .close]

/-- The encoder of a message up to the accessors of its body: the block of its own functions is left
open. -/
def openEncoder (codec : String) (withHeader : Bool) : List Call :=
  [line "#[derive(Debug, Default)]",
   enter s!"pub struct {codec}<'a>",
   "buf: WriteBuf<'a>,",
   "offset: usize,",
   "limit: usize,",
   .close,
   .blank,
   enter s!"impl<'a> Writer<'a> for {codec}<'a>",
   "#[inline]",
   enter "fn get_buf_mut(&mut self) -> &mut WriteBuf<'a>",
   "&mut self.buf",
   .close,
   .close,
   .blank]
  ++ renderLimit codec "Encoder"
  ++ [Call.blank,
      enter s!"impl<'a> {codec}<'a>",
      .doc "Wraps \x60buf\x60 with the block starting at \x60offset\x60",
      "#[inline]",
      enter "pub fn wrap(mut self, buf: WriteBuf<'a>, offset: usize) -> Self",
      "let limit = offset + SBE_BLOCK_LENGTH as usize;",
      "self.buf = buf;",
      "self.offset = offset;",
      "self.limit = limit;",
      "self",
      .close,
      .blank]
  ++ renderEncodedLength
  ++ if withHeader then renderEncoderHeader else []

/-- Starts to read behind a message header. -/
def renderDecoderHeader : List Call :=
  [.blank,
   .doc "Wraps the message following a header decoded at \x60offset\x60",
   "#[inline]",
   enter
    (s!"pub fn header(self, mut header: {headerType}Decoder<ReadBuf<'a>>, offset: usize)"
      ++ " -> SbeResult<Self>"),
   "debug_assert_eq!(SBE_TEMPLATE_ID, header.template_id());",
   "let acting_block_length = header.block_length();",
   "let acting_version = header.version();",
   .blank,
   "Ok(self.wrap(",
   .indent,
   "header.parent()?,",
   line s!"offset + {Name.codecModule Definition.headerName}::ENCODED_LENGTH,",
   "acting_block_length,",
   "acting_version,",
   .dedent,
   "))",
   .close]

/-- The decoder of a message up to the accessors of its body: the block of its own functions is left
open. -/
def openDecoder (blockType codec : String) (withHeader : Bool) : List Call :=
  [line "#[derive(Clone, Copy, Debug, Default)]",
   enter s!"pub struct {codec}<'a>",
   "buf: ReadBuf<'a>,",
   "offset: usize,",
   "limit: usize,",
   line s!"pub acting_block_length: {blockType},",
   "pub acting_version: SchemaVersion,",
   .close,
   .blank,
   enter s!"impl<'a> Reader<'a> for {codec}<'a>",
   "#[inline]",
   enter "fn get_buf(&self) -> &ReadBuf<'a>",
   "&self.buf",
   .close,
   .blank,
   "#[inline]",
   enter "fn acting_version(&self) -> SchemaVersion",
   "self.acting_version",
   .close,
   .close,
   .blank]
  ++ renderLimit codec "Decoder"
  ++ [Call.blank,
      enter s!"impl<'a> {codec}<'a>",
      .doc "Wraps \x60buf\x60 with the block starting at \x60offset\x60, as written by a",
      .doc "producer at \x60acting_version\x60 with \x60acting_block_length\x60 bytes per block",
      "#[inline]",
      enter
        (s!"pub fn wrap(mut self, buf: ReadBuf<'a>, offset: usize, "
          ++ s!"acting_block_length: {blockType}, acting_version: SchemaVersion) -> Self"),
      "let limit = offset + acting_block_length as usize;",
      "self.buf = buf;",
      "self.offset = offset;",
      "self.limit = limit;",
      "self.acting_block_length = acting_block_length;",
      "self.acting_version = acting_version;",
      "self",
      .close,
      .blank]
  ++ renderEncodedLength
  ++ if withHeader then renderDecoderHeader else []

/-- The module of one side: the message's codec, which is closed behind the accessors of the body, and
the codecs of its groups. -/
def renderSide (m : Message) (s : Schema) (withHeader : Bool) (side : Side) :
    Except Fault (List Call) := do
  let t := m.token
  let codec := Name.type t.name ++ side.suffix
  let opening := match side with
    | .encode => openEncoder codec withHeader
    | .decode => openDecoder s.header.blockLength.typeName codec withHeader
  let accessors ← emitBody side t.name m.body t.encodedLength.toNat t.version
  let groups ← renderGroups side t.version m.body
  return [Call.blank, enter s!"pub mod {side.module}", "use super::*;", .blank]
    ++ t.description.toList.map .doc ++ opening ++ accessors ++ [.close] ++ groups ++ [.close]

/-- The unit of a message; its block must have a length. -/
def render (m : Message) (s : Schema) (r : Registry) : Except Fault (List Call) := do
  if m.token.encodedLength < 0 then
    throw (.malformedRange m.token.name .messageWithoutLength)
  let sides ← Side.all.mapM (m.renderSide s (hasHeader s r))
  return [line "use super::*;", .blank] ++ emitConstants s m.token ++ sides.flatten
    ++ [Call.blank, "pub use decoder::*;", "pub use encoder::*;"]

end Message
end WireCodec.Codec
