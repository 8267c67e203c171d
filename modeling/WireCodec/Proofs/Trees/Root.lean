import WireCodec.Codec.Root
import WireCodec.Proofs.Trees.Side
import WireCodec.Proofs.Wording
/-! # The trees of roots

The code that `Codec.renderDeclaringRoot` and `Codec.renderContainingRoot` write, as trees. -/

namespace WireCodec.Codec

open Code (braces spaced Reads)

/-! ### Errors -/

def errors : List Code :=
  [.doc "Failures reported by generated codecs",
   "#[derive(Clone, Copy, Debug, PartialEq, Eq, Hash)]",
   braces "pub enum SbeErr"
    [.doc "A codec was used after its enclosing codec was taken back",
     "ParentNotSet,",
     .doc "A var data payload is longer than its length prefix can express",
     "VarDataTooLong \x7b length: usize, max: usize \x7d,"]]

def failures : List Code :=
  spaced
    [errors,
     errorImpls.map Code.text,
     .doc "Aborts on access through a codec whose parent link is gone" :: parentMissing.map Code.text]

/-! ### Buffers -/

def readOther (order : ByteOrder) (type : String) : List Code :=
  inlined s!"pub fn get_{type}_at(&self, index: usize) -> {type}"
    [Code.text s!"{type}::from_{orderSuffix order}_bytes(Self::get_bytes_at(self.data, index))"]

def writeOther (order : ByteOrder) (type : String) : List Code :=
  inlined s!"pub fn put_{type}_at(&mut self, index: usize, value: {type})"
    [Code.text s!"Self::put_bytes_at(self.data, index, value.to_{orderSuffix order}_bytes());"]

def readBuffers (order : ByteOrder) : List Code :=
  spaced
    [readBuffer.map Code.text,
     [braces "impl<'a> ReadBuf<'a>" <|
       spaced (readCommon.map Code.text :: otherTypes.map (readOther order))]]

def writeBuffers (order : ByteOrder) : List Code :=
  spaced
    [writeBuffer.map Code.text,
     [braces "impl<'a> WriteBuf<'a>" <|
       spaced (writeCommon.map Code.text :: otherTypes.map (writeOther order))]]

/-! ### The unit -/

/-- The constants of a schema. -/
def schemaConstants (s : Schema) : List Code :=
  [Code.text s!"pub const SCHEMA_ID: {s.header.schemaId.typeName} = {s.id};",
   Code.text s!"pub const SCHEMA_VERSION: SchemaVersion = {s.version};",
   Code.text <|
    "pub const SEMANTIC_VERSION: &str = " ++ Quoted.text (s.semanticVersion.getD "") ++ ";"]

/-- The part of the root from the exports on. -/
def shared (s : Schema) (entries : List Entry) : List Code :=
  spaced
    [entries.filterMap fun e => e.export?.map Code.text,
     schemaConstants s,
     [Code.text s!"pub type SchemaVersion = {s.header.schemaVersion.typeName};"],
     failures,
     traits.map Code.text,
     readBuffers s.byteOrder,
     writeBuffers s.byteOrder]

/-- The root that declares the other units as files. -/
def declaringRoot (s : Schema) (entries : List Entry) : List Code :=
  spaced
    [Code.text s!"//! Codecs for the \x60{s.packageName}\x60 schema." :: moduleAttributes.map Code.text,
     entries.map fun e => Code.text s!"pub mod {e.module};",
     shared s entries]

/-- The root that contains the other units, given with the text of each. -/
def containingRoot (s : Schema) (units : List (Entry × String)) : List Code :=
  spaced <|
    [[Code.text s!"// Codecs for the \x60{s.packageName}\x60 schema."]]
    ++ (units.map fun (e, source) => [braces s!"pub mod {e.module}" (Code.ofText source)])
    ++ [shared s (units.map (·.1))]

/-! ### Reading -/

/-- The texts that are the same for every schema. -/
def fixedTexts : List (List String) :=
  [moduleAttributes, errorImpls, parentMissing, traits, readBuffer, readCommon, writeBuffer, writeCommon]

theorem mem_fixedTexts_iff {lines : List String} : lines ∈ fixedTexts ↔
    lines = moduleAttributes ∨ lines = errorImpls ∨ lines = parentMissing ∨ lines = traits ∨
      lines = readBuffer ∨ lines = readCommon ∨ lines = writeBuffer ∨ lines = writeCommon := by
  simp [fixedTexts]

theorem isWord_of_mem_fixedTexts {slash : Prop} :
    ∀ lines ∈ fixedTexts, ∀ l ∈ lines, Text.IsWord slash l := by
  simp (disch := first | exact ⟨_, rfl, rfl⟩ | fail) [fixedTexts, moduleAttributes, errorImpls,
    parentMissing, traits, readBuffer, readCommon, writeBuffer, writeCommon]

theorem run_fixed {lines : List String} (h : lines ∈ fixedTexts) (front : List Code)
    (frames : List Code.Frame) (calls : List Call) :
    Code.Scan.run ⟨front, frames, .any⟩ (fixed lines :: calls)
      = Code.Scan.run ⟨(lines.map Code.text).reverse ++ front, frames, .any⟩ calls := by
  have hrows : ∀ l ∈ lines, Text.IsRow l := fun l hl => by
    have hword : Text.IsWord False l := isWord_of_mem_fixedTexts lines h l hl
    exact hword.isCodeLine.isRow
  have hlines : Text.lines (String.join (lines.map (· ++ "\n"))) = lines := Text.lines_terminated hrows
  rw [fixed, Code.Scan.run_lines, Code.ofText, hlines]

theorem reads_errors : Reads renderErrors failures := by
  intro front frames
  simp [renderErrors, failures, errors, run_fixed, mem_fixedTexts_iff]

theorem reads_readOther (order : ByteOrder) (type : String) :
    Reads (emitRead order type) (.blank :: readOther order type) := by
  intro front frames
  simp [emitRead, readOther, inlined, braces, Code.text]

theorem reads_writeOther (order : ByteOrder) (type : String) :
    Reads (emitWrite order type) (.blank :: writeOther order type) := by
  intro front frames
  simp [emitWrite, writeOther, inlined, braces, Code.text]

theorem reads_readBuffers (order : ByteOrder) :
    Reads (renderReadBuffer order) (readBuffers order) := by
  intro front frames
  have hothers := Reads.flatMap fun type (_ : type ∈ otherTypes) => reads_readOther order type
  simp [renderReadBuffer, readBuffers, braces, run_fixed, mem_fixedTexts_iff, Code.spaced_cons,
    List.flatMap_map, hothers _ _]

theorem reads_writeBuffers (order : ByteOrder) :
    Reads (renderWriteBuffer order) (writeBuffers order) := by
  intro front frames
  have hothers := Reads.flatMap fun type (_ : type ∈ otherTypes) => reads_writeOther order type
  simp [renderWriteBuffer, writeBuffers, braces, run_fixed, mem_fixedTexts_iff, Code.spaced_cons,
    List.flatMap_map, hothers _ _]

theorem reads_exports (entries : List Entry) :
    Reads (entries.filterMap fun e => e.export?.map Call.line)
      (entries.filterMap fun e => e.export?.map Code.text) := by
  rw [← List.map_filterMap, ← List.map_filterMap]
  exact .lines id _

theorem reads_shared (s : Schema) (entries : List Entry) :
    Reads (renderShared s entries) (shared s entries) := by
  intro front frames
  simp [renderShared, shared, schemaConstants, run_fixed, mem_fixedTexts_iff, Code.text,
    reads_exports _ _ _, reads_errors _ _, reads_readBuffers _ _ _, reads_writeBuffers _ _ _]

theorem reads_declaringRoot (s : Schema) (entries : List Entry) :
    Reads (renderDeclaringRoot s entries) (declaringRoot s entries) := by
  intro front frames
  have hmodules := Reads.lines (fun e : Entry => s!"pub mod {e.module};") entries
  simp [renderDeclaringRoot, declaringRoot, run_fixed, mem_fixedTexts_iff, Code.text, hmodules _ _,
    reads_shared _ _ _ _]

theorem reads_contained (e : Entry) (source : String) :
    Reads [.blank, Call.enter s!"pub mod {e.module}", .lines source, .close]
      [.blank, braces s!"pub mod {e.module}" (Code.ofText source)] := by
  intro front frames
  simp [braces]

theorem reads_containingRoot (s : Schema) (units : List (Entry × String)) :
    Reads (renderContainingRoot s units) (containingRoot s units) := by
  intro front frames
  have hunits := Reads.flatMap fun (u : Entry × String) (_ : u ∈ units) => reads_contained u.1 u.2
  simp [renderContainingRoot, containingRoot, Code.text, Code.spaced_cons, List.flatMap_map, hunits _ _,
    reads_shared _ _ _ _]

end WireCodec.Codec
