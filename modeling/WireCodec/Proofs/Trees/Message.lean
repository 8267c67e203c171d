import WireCodec.Codec.Message
import WireCodec.Proofs.Trees.Composite
import WireCodec.Proofs.Trees.Group
/-! # The trees of messages

The code that `Codec.Message.render` writes, as a tree. -/

namespace WireCodec.Codec.Message

open Code (braces spaced Reads)

/-- The constants of a message. -/
def constants (s : Schema) (t : Token) : List Code :=
  let h := s.header
  [Code.text s!"pub const SBE_BLOCK_LENGTH: {h.blockLength.typeName} = {t.encodedLength.toNat};",
   Code.text s!"pub const SBE_TEMPLATE_ID: {h.templateId.typeName} = {t.id};",
   Code.text s!"pub const SBE_SCHEMA_ID: {h.schemaId.typeName} = {s.id};",
   Code.text s!"pub const SBE_SCHEMA_VERSION: SchemaVersion = {s.version};",
   Code.text <|
    s!"pub const SBE_SEMANTIC_VERSION: &str = " ++ Quoted.text (s.semanticVersion.getD "") ++ ";"]

/-- The limit of a message's codec. -/
def limitImpl (codec trait : String) : List Code :=
  [braces s!"impl<'a> {trait}<'a> for {codec}<'a>" <| spaced
    [inlined "fn get_limit(&self) -> usize" ["self.limit"],
     inlined "fn set_limit(&mut self, limit: usize)" ["self.limit = limit;"]]]

def encodedLength : List Code :=
  .doc "Bytes from the start of the block to the current limit"
    :: inlined "pub fn encoded_length(&self) -> usize" ["self.limit - self.offset"]

/-- Writes the message header. -/
def encoderHeader : List Code :=
  .doc "Wraps a message header at \x60offset\x60 and fills it in for this message"
    :: inlined s!"pub fn header(self, offset: usize) -> {headerType}Encoder<Self>"
      [Code.text s!"let mut header = {headerType}Encoder::default().wrap(self, offset);",
       "header.block_length(SBE_BLOCK_LENGTH);",
       "header.template_id(SBE_TEMPLATE_ID);",
       "header.schema_id(SBE_SCHEMA_ID);",
       "header.version(SBE_SCHEMA_VERSION);",
       "header"]

/-- The encoder of a message around the accessors of its body. -/
def encoder (codec : String) (withHeader : Bool) (accessors : List Code) : List Code :=
  spaced
    [["#[derive(Debug, Default)]",
      braces s!"pub struct {codec}<'a>" ["buf: WriteBuf<'a>,", "offset: usize,", "limit: usize,"]],
     [braces s!"impl<'a> Writer<'a> for {codec}<'a>"
       (inlined "fn get_buf_mut(&mut self) -> &mut WriteBuf<'a>" ["&mut self.buf"])],
     limitImpl codec "Encoder",
     [braces s!"impl<'a> {codec}<'a>" <|
       spaced (
         [.doc "Wraps \x60buf\x60 with the block starting at \x60offset\x60"
            :: inlined "pub fn wrap(mut self, buf: WriteBuf<'a>, offset: usize) -> Self"
              ["let limit = offset + SBE_BLOCK_LENGTH as usize;", "self.buf = buf;",
               "self.offset = offset;", "self.limit = limit;", "self"],
          encodedLength]
         ++ if withHeader then [encoderHeader] else [])
       ++ accessors]]

/-- Starts to read behind a message header. -/
def decoderHeader : List Code :=
  .doc "Wraps the message following a header decoded at \x60offset\x60"
    :: inlined
      (s!"pub fn header(self, mut header: {headerType}Decoder<ReadBuf<'a>>, offset: usize)"
        ++ " -> SbeResult<Self>")
      ["debug_assert_eq!(SBE_TEMPLATE_ID, header.template_id());",
       "let acting_block_length = header.block_length();",
       "let acting_version = header.version();",
       .blank,
       .block ["Ok(self.wrap("]
        ["header.parent()?,",
         Code.text s!"offset + {Name.codecModule Definition.headerName}::ENCODED_LENGTH,",
         "acting_block_length,",
         "acting_version,"]
        "))"]

/-- The decoder of a message around the accessors of its body. -/
def decoder (blockType codec : String) (withHeader : Bool) (accessors : List Code) : List Code :=
  spaced
    [["#[derive(Clone, Copy, Debug, Default)]",
      braces s!"pub struct {codec}<'a>"
        ["buf: ReadBuf<'a>,", "offset: usize,", "limit: usize,",
         Code.text s!"pub acting_block_length: {blockType},",
         "pub acting_version: SchemaVersion,"]],
     [braces s!"impl<'a> Reader<'a> for {codec}<'a>" <| spaced
       [inlined "fn get_buf(&self) -> &ReadBuf<'a>" ["&self.buf"],
        inlined "fn acting_version(&self) -> SchemaVersion" ["self.acting_version"]]],
     limitImpl codec "Decoder",
     [braces s!"impl<'a> {codec}<'a>" <|
       spaced (
         [.doc "Wraps \x60buf\x60 with the block starting at \x60offset\x60, as written by a"
            :: .doc "producer at \x60acting_version\x60 with \x60acting_block_length\x60 bytes per block"
            :: inlined
              (s!"pub fn wrap(mut self, buf: ReadBuf<'a>, offset: usize, "
                ++ s!"acting_block_length: {blockType}, acting_version: SchemaVersion) -> Self")
              ["let limit = offset + acting_block_length as usize;", "self.buf = buf;",
               "self.offset = offset;", "self.limit = limit;",
               "self.acting_block_length = acting_block_length;",
               "self.acting_version = acting_version;", "self"],
          encodedLength]
         ++ if withHeader then [decoderHeader] else [])
       ++ accessors]]

/-- The module of one side: the message's codec and the codecs of its groups. -/
def sideModule (m : Message) (s : Schema) (withHeader : Bool) (side : Side) :
    Except Fault (List Code) := do
  let t := m.token
  let codec := Name.type t.name ++ side.suffix
  let accessors ← bodyAccessors side t.name m.body t.encodedLength.toNat t.version
  let main := match side with
    | .encode => encoder codec withHeader accessors
    | .decode => decoder s.header.blockLength.typeName codec withHeader accessors
  let groups ← groupCodecs side t.version m.body
  return [braces s!"pub mod {side.module}" <|
    spaced [["use super::*;"], t.description.toList.map .doc ++ main] ++ groups]

/-- The code of a message, as it is written. -/
def code (m : Message) (s : Schema) (r : Registry) : Except Fault (List Code) :=
  Code.ofCalls <$> m.render s r

/-- The code of a message as a tree. -/
def tree (m : Message) (s : Schema) (r : Registry) : Except Fault (List Code) := do
  if m.token.encodedLength < 0 then
    throw (.malformedRange m.token.name .messageWithoutLength)
  let sides ← Side.all.mapM (m.sideModule s (hasHeader s r))
  return spaced <|
    [[Code.text "use super::*;"], constants s m.token]
    ++ sides
    ++ [[Code.text "pub use decoder::*;", Code.text "pub use encoder::*;"]]

/-! ### Reading -/

theorem reads_constants (s : Schema) (t : Token) : Reads (emitConstants s t) (constants s t) := by
  intro front frames
  simp [emitConstants, constants, Code.text]

theorem reads_limit (codec trait : String) :
    Reads (renderLimit codec trait) (limitImpl codec trait) := by
  intro front frames
  simp [renderLimit, limitImpl, inlined, braces]

theorem reads_encodedLength : Reads renderEncodedLength encodedLength := by
  intro front frames
  simp [renderEncodedLength, encodedLength, inlined, braces]

theorem reads_encoderHeader : Reads renderEncoderHeader (.blank :: encoderHeader) := by
  intro front frames
  simp [renderEncoderHeader, encoderHeader, inlined, braces, Code.text]

theorem reads_decoderHeader : Reads renderDecoderHeader (.blank :: decoderHeader) := by
  intro front frames
  have hopening : ¬ Code.OpensBlock "Ok(self.wrap(" := by decide
  simp [renderDecoderHeader, decoderHeader, inlined, braces, Code.text,
    Code.Scan.run_indent_line hopening, Code.Scan.run_dedent_line]

variable {accessors : List Call} {trees : List Code}

/-- The encoder of a message, whose block `openEncoder` leaves open for the accessors. -/
theorem reads_encoder (codec : String) (withHeader : Bool) (h : Reads accessors trees) :
    Reads (openEncoder codec withHeader ++ accessors ++ [.close])
      (encoder codec withHeader trees) := by
  intro front frames
  cases withHeader <;>
    simp [openEncoder, encoder, inlined, braces, Code.spaced_cons, reads_limit _ _ _ _,
      reads_encodedLength _ _, reads_encoderHeader _ _, h _ _]

theorem reads_decoder (blockType codec : String) (withHeader : Bool) (h : Reads accessors trees) :
    Reads (openDecoder blockType codec withHeader ++ accessors ++ [.close])
      (decoder blockType codec withHeader trees) := by
  intro front frames
  cases withHeader <;>
    simp [openDecoder, decoder, inlined, braces, Code.spaced_cons, Code.text, reads_limit _ _ _ _,
      reads_encodedLength _ _, reads_decoderHeader _ _, h _ _]

/-- The module of a side around a codec, its documentation and the codecs of its groups. -/
theorem reads_module (side : Side) (docs : List String) {codec groups : List Call}
    {codecTrees groupTrees : List Code} (hcodec : Reads codec codecTrees)
    (hgroups : Reads groups groupTrees) :
    Reads ([.blank, Call.enter s!"pub mod {side.module}", "use super::*;", .blank]
        ++ docs.map .doc ++ codec ++ groups ++ [.close])
      [.blank, braces s!"pub mod {side.module}"
        (spaced [["use super::*;"], docs.map .doc ++ codecTrees] ++ groupTrees)] := by
  intro front frames
  simp [braces, Reads.docs _ _ _, hcodec _ _, hgroups _ _]

theorem alike_side (m : Message) (s : Schema) (withHeader : Bool) (side : Side) :
    Alike (fun calls code => Reads calls (.blank :: code)) (m.renderSide s withHeader side)
      (m.sideModule s withHeader side) := by
  refine (alike_body side _ _ _ _).bind fun _ _ haccessors => ?_
  refine (alike_groups side _ _).bind fun _ _ hgroups => .ok ?_
  cases side with
  | encode =>
      have hcodec := reads_encoder (Name.type m.token.name ++ Side.encode.suffix) withHeader haccessors
      simpa only [List.append_assoc] using
        reads_module .encode m.token.description.toList hcodec hgroups
  | decode =>
      have hcodec := reads_decoder s.header.blockLength.typeName
        (Name.type m.token.name ++ Side.decode.suffix) withHeader haccessors
      simpa only [List.append_assoc] using
        reads_module .decode m.token.description.toList hcodec hgroups

theorem alike_tree (m : Message) (s : Schema) (r : Registry) :
    Alike Reads (m.render s r) (m.tree s r) := by
  unfold render tree
  split
  · exact .error _
  refine (Alike.mapM (alike_side m s _) Side.all).bind fun _ _ h => .ok fun front frames => ?_
  simp [Code.text, Code.spaced_cons, reads_constants _ _ _ _, Reads.flatten_blank h _ _]

theorem code_of_render {m : Message} {s : Schema} {r : Registry} {calls : List Call}
    (h : m.render s r = .ok calls) : m.code s r = .ok (Code.ofCalls calls) := by
  rw [code, h]
  rfl

theorem code_eq (m : Message) (s : Schema) (r : Registry) : m.code s r = m.tree s r :=
  Code.ofCalls_of_alike (alike_tree m s r)

end WireCodec.Codec.Message
