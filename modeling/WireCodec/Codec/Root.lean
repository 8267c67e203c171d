import WireCodec.Schema.Basic
import WireCodec.Writer
/-! # The root unit

The root holds what all codecs share: the constants of the schema, the errors, the traits through
which codecs reach their buffer and their limit, and the buffers, which read and write every
primitive type in the schema's byte order.  It also declares or contains the other units, and
exports what they define. -/

namespace WireCodec

/-- What a unit of generated code is for. -/
inductive UnitKind
  | root
  | enumeration
  | bitSet
  | composite
  | message
  deriving DecidableEq, Repr

namespace Codec

open Call (line enter)

/-! ### Errors -/

/-- The attributes of a root that declares the other units. -/
def moduleAttributes : List String :=
  ["#![forbid(unsafe_code)]",
   "#![allow(clippy::all)]",
   "#![allow(non_camel_case_types)]"]

def errorImpls : List String :=
  ["impl core::fmt::Display for SbeErr \x7b",
   "    fn fmt(&self, f: &mut core::fmt::Formatter<'_>) -> core::fmt::Result \x7b",
   "        match self \x7b",
   "            SbeErr::ParentNotSet => f.write_str(\"parent not set\"),",
   "            SbeErr::VarDataTooLong \x7b length, max \x7d => \x7b",
   "                write!(f, \"var data of \x7blength\x7d bytes exceeds the length prefix maximum of "
     ++ "\x7bmax\x7d\")",
   "            \x7d",
   "        \x7d",
   "    \x7d",
   "\x7d",
   "",
   "impl std::error::Error for SbeErr \x7b\x7d",
   "",
   "pub type SbeResult<T> = core::result::Result<T, SbeErr>;",
   "",
   "#[derive(Clone, Copy, Debug, PartialEq, Eq)]",
   "pub enum Either<L, R> \x7b",
   "    Left(L),",
   "    Right(R),",
   "\x7d"]

def parentMissing : List String :=
  ["#[cold]",
   "#[track_caller]",
   "pub fn parent_missing() -> ! \x7b",
   "    panic!(\"\x7b\x7d\", SbeErr::ParentNotSet)",
   "\x7d"]

/-- Writes lines that are the same for every schema. -/
def fixed (lines : List String) : Call := .lines (String.join (lines.map (· ++ "\n")))

def renderErrors : List Call :=
  [.doc "Failures reported by generated codecs",
   "#[derive(Clone, Copy, Debug, PartialEq, Eq, Hash)]",
   enter "pub enum SbeErr",
   .doc "A codec was used after its enclosing codec was taken back",
   "ParentNotSet,",
   .doc "A var data payload is longer than its length prefix can express",
   "VarDataTooLong \x7b length: usize, max: usize \x7d,",
   .close,
   .blank,
   fixed errorImpls,
   .blank,
   .doc "Aborts on access through a codec whose parent link is gone",
   fixed parentMissing]

/-! ### Traits and buffers -/

def traits : List String :=
  ["pub trait Writer<'a>: Sized \x7b",
   "    fn get_buf_mut(&mut self) -> &mut WriteBuf<'a>;",
   "\x7d",
   "",
   "pub trait Encoder<'a>: Writer<'a> \x7b",
   "    fn get_limit(&self) -> usize;",
   "    fn set_limit(&mut self, limit: usize);",
   "\x7d",
   "",
   "pub trait Reader<'a>: Sized \x7b",
   "    fn get_buf(&self) -> &ReadBuf<'a>;",
   "    fn acting_version(&self) -> SchemaVersion;",
   "\x7d",
   "",
   "pub trait Decoder<'a>: Reader<'a> \x7b",
   "    fn get_limit(&self) -> usize;",
   "    fn set_limit(&mut self, limit: usize);",
   "\x7d"]

def readBuffer : List String :=
  ["#[derive(Clone, Copy, Debug, Default)]",
   "pub struct ReadBuf<'a> \x7b",
   "    data: &'a [u8],",
   "\x7d",
   "",
   "impl<'a> Reader<'a> for ReadBuf<'a> \x7b",
   "    #[inline]",
   "    fn get_buf(&self) -> &ReadBuf<'a> \x7b",
   "        self",
   "    \x7d",
   "",
   "    #[inline]",
   "    fn acting_version(&self) -> SchemaVersion \x7b",
   "        SCHEMA_VERSION",
   "    \x7d",
   "\x7d"]

def readCommon : List String :=
  ["#[inline]",
   "pub fn new(data: &'a [u8]) -> Self \x7b",
   "    Self \x7b data \x7d",
   "\x7d",
   "",
   "#[inline]",
   "pub fn len(&self) -> usize \x7b",
   "    self.data.len()",
   "\x7d",
   "",
   "#[inline]",
   "pub fn is_empty(&self) -> bool \x7b",
   "    self.data.is_empty()",
   "\x7d",
   "",
   "#[inline]",
   "fn get_bytes_at<const N: usize>(slice: &[u8], index: usize) -> [u8; N] \x7b",
   "    let mut bytes = [0_u8; N];",
   "    bytes.copy_from_slice(&slice[index..index + N]);",
   "    bytes",
   "\x7d",
   "",
   "#[inline]",
   "pub fn get_u8_at(&self, index: usize) -> u8 \x7b",
   "    self.data[index]",
   "\x7d",
   "",
   "#[inline]",
   "pub fn get_slice_at(&self, index: usize, len: usize) -> &'a [u8] \x7b",
   "    let data: &'a [u8] = self.data;",
   "    &data[index..index + len]",
   "\x7d"]

def writeBuffer : List String :=
  ["#[derive(Debug, Default)]",
   "pub struct WriteBuf<'a> \x7b",
   "    data: &'a mut [u8],",
   "\x7d",
   "",
   "impl<'a> Writer<'a> for WriteBuf<'a> \x7b",
   "    #[inline]",
   "    fn get_buf_mut(&mut self) -> &mut WriteBuf<'a> \x7b",
   "        self",
   "    \x7d",
   "\x7d"]

def writeCommon : List String :=
  ["#[inline]",
   "pub fn new(data: &'a mut [u8]) -> Self \x7b",
   "    Self \x7b data \x7d",
   "\x7d",
   "",
   "#[inline]",
   "fn put_bytes_at<const N: usize>(slice: &mut [u8], index: usize, bytes: [u8; N]) \x7b",
   "    slice[index..index + N].copy_from_slice(&bytes);",
   "\x7d",
   "",
   "#[inline]",
   "pub fn put_u8_at(&mut self, index: usize, value: u8) \x7b",
   "    self.data[index] = value;",
   "\x7d",
   "",
   "#[inline]",
   "pub fn put_slice_at(&mut self, index: usize, src: &[u8]) -> usize \x7b",
   "    let len = src.len();",
   "    self.data[index..index + len].copy_from_slice(src);",
   "    len",
   "\x7d"]

/-- The generated types of more than one byte, or signed, each once. -/
def otherTypes : List String :=
  ((Primitive.all.map Primitive.typeName).filter (· ≠ "u8")).eraseDups

/-- The end of the conversions to and from bytes. -/
def orderSuffix : ByteOrder → String
  | .littleEndian => "le"
  | .bigEndian => "be"

/-- The function of a buffer that reads values of a type. -/
def emitRead (order : ByteOrder) (type : String) : List Call :=
  [.blank,
   "#[inline]",
   enter s!"pub fn get_{type}_at(&self, index: usize) -> {type}",
   line s!"{type}::from_{orderSuffix order}_bytes(Self::get_bytes_at(self.data, index))",
   .close]

/-- The function of a buffer that writes values of a type. -/
def emitWrite (order : ByteOrder) (type : String) : List Call :=
  [.blank,
   "#[inline]",
   enter s!"pub fn put_{type}_at(&mut self, index: usize, value: {type})",
   line s!"Self::put_bytes_at(self.data, index, value.to_{orderSuffix order}_bytes());",
   .close]

def renderReadBuffer (order : ByteOrder) : List Call :=
  [fixed readBuffer, .blank, enter "impl<'a> ReadBuf<'a>", fixed readCommon]
  ++ otherTypes.flatMap (emitRead order) ++ [.close]

def renderWriteBuffer (order : ByteOrder) : List Call :=
  [fixed writeBuffer, .blank, enter "impl<'a> WriteBuf<'a>", fixed writeCommon]
  ++ otherTypes.flatMap (emitWrite order) ++ [.close]

/-! ### The unit -/

/-- A unit that the root declares, and the name from which its exports derive. -/
structure Entry where
  module : String
  kind : UnitKind
  typeName : String
  deriving DecidableEq, Repr

/-- What the root exports of a unit. -/
def Entry.export? (e : Entry) : Option String :=
  match e.kind with
  | .enumeration => some s!"pub use {e.module}::*;"
  | .bitSet => some s!"pub use {e.module}::*;"
  | .composite =>
    some s!"pub use {e.module}::\x7b{e.typeName}, {e.typeName}Decoder, {e.typeName}Encoder\x7d;"
  | .message => some s!"pub use {e.module}::\x7b{e.typeName}Decoder, {e.typeName}Encoder\x7d;"
  | .root => none

/-- The part of the root from the exports on. -/
def renderShared (s : Schema) (entries : List Entry) : List Call :=
  (entries.filterMap fun e => e.export?.map line)
  ++ [Call.blank,
      line s!"pub const SCHEMA_ID: {s.header.schemaId.typeName} = {s.id};",
      line s!"pub const SCHEMA_VERSION: SchemaVersion = {s.version};",
      line <|
        "pub const SEMANTIC_VERSION: &str = " ++ Quoted.text (s.semanticVersion.getD "") ++ ";",
      .blank,
      line s!"pub type SchemaVersion = {s.header.schemaVersion.typeName};",
      .blank]
  ++ renderErrors ++ [.blank, fixed traits, .blank]
  ++ renderReadBuffer s.byteOrder ++ [.blank] ++ renderWriteBuffer s.byteOrder

/-- The root that declares the other units as files. -/
def renderDeclaringRoot (s : Schema) (entries : List Entry) : List Call :=
  [line s!"//! Codecs for the \x60{s.packageName}\x60 schema.", fixed moduleAttributes, .blank]
  ++ (entries.map fun e => line s!"pub mod {e.module};")
  ++ [.blank] ++ renderShared s entries

/-- The root that contains the other units, given with the text of each. -/
def renderContainingRoot (s : Schema) (units : List (Entry × String)) : List Call :=
  [line s!"// Codecs for the \x60{s.packageName}\x60 schema."]
  ++ (units.flatMap fun (e, source) =>
    [.blank, enter s!"pub mod {e.module}", .lines source, .close])
  ++ [.blank] ++ renderShared s (units.map (·.1))

end Codec
end WireCodec
