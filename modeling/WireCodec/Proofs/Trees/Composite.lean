import WireCodec.Codec.Composite
import WireCodec.Proofs.Trees.Accessor
/-! # The trees of composites

The code that `Codec.Composite.render` writes, as a tree. -/

namespace WireCodec.Codec.Composite

open Code (braces spaced bare Reads)

/-- Writes a member. -/
def writeMember (m : FieldLayout) : List Code :=
  match m.kind with
  | .scalar s => [.line ["buf.", .put s.primitive (valueAddress m) s!"self.{m.accessor}", ";"]]
  | .array element _ =>
    [braces s!"for (i, v) in self.{m.accessor}.iter().enumerate()"
      [.line ["buf.", .put element.primitive (valueElementAddress m element.primitive) "*v", ";"]]]
  | .enumeration _ p =>
    [.line ["buf.", .put p (valueAddress m) s!"{p.typeName}::from(self.{m.accessor})", ";"]]
  | .bitSet _ p => [.line ["buf.", .put p (valueAddress m) s!"self.{m.accessor}.0", ";"]]
  | .composite .. => [.line [.nest s!"self.{m.accessor}.encode_at" "buf" (valueAddress m), ";"]]
  | .constant _ => []

/-- The value type. -/
def value (c : Composite) : List Code :=
  let (buf, offset) := c.parameters
  spaced
    [[.doc (c.description.getD "Plain value of every non-constant member"),
      "#[derive(Clone, Copy, Debug, PartialEq)]",
      braces s!"pub struct {c.name}"
        (c.stored.map fun m => Code.text s!"pub {m.accessor}: {valueType m.kind},")],
     [braces s!"impl {c.name}" <| spaced
       [inlined s!"pub fn decode_at({buf}: &ReadBuf<'_>, {offset}: usize) -> Self"
          [braces "Self" (c.stored.map fun m =>
            .line (.text s!"{m.accessor}: " :: (readMember m ++ [.text ","])))],
        inlined s!"pub fn encode_at(&self, {buf}: &mut WriteBuf<'_>, {offset}: usize)"
          (c.stored.flatMap writeMember)]]]

/-! ### The codecs -/

/-- Reads or writes the value of the composite. -/
def wholeValue (c : Composite) : Side → List Code
  | .encode =>
    .doc "Writes every non-constant member of \x60value\x60"
      :: inlined s!"pub fn set_value(&mut self, value: &{c.name})"
        ["let offset = self.offset;", "value.encode_at(self.get_buf_mut(), offset);"]
  | .decode =>
    .doc "Reads every non-constant member into a value"
      :: inlined s!"pub fn to_value(&self) -> {c.name}"
        [Code.text s!"{c.name}::decode_at(self.get_buf(), self.offset)"]

/-- The codec of one side. -/
def codec (c : Composite) (side : Side) : Except Fault (List Code) := do
  let codec := c.name ++ side.suffix
  let accessors ← fieldAccessors side c.members
  return spaced
    [["#[derive(Debug)]",
      braces s!"pub struct {codec}<P>" ["parent: Option<P>,", "offset: usize,"]],
     defaultImpl codec [("offset", "0")],
     linkImpls codec side,
     inherentImpl codec side.bufferTrait <| spaced
       [inlined "pub fn wrap(mut self, parent: P, offset: usize) -> Self"
          ["self.parent = Some(parent);", "self.offset = offset;", "self"],
        parentFunction,
        c.wholeValue side ++ accessors]]

/-- The module of one side. -/
def sideModule (c : Composite) (side : Side) : Except Fault (List Code) := do
  return [braces s!"pub mod {side.module}" (spaced [["use super::*;"], ← c.codec side])]

/-- The code of a composite, as it is written. -/
def code (c : Composite) : Except Fault (List Code) := Code.ofCalls <$> c.render

/-- The code of a composite as a tree. -/
def tree (c : Composite) : Except Fault (List Code) := do
  let sides ← Side.all.mapM c.sideModule
  return spaced <|
    [[Code.text "use super::*;"], [Code.text s!"pub const ENCODED_LENGTH: usize = {c.length};"],
     c.value]
    ++ sides
    ++ [[Code.text "pub use decoder::*;", Code.text "pub use encoder::*;"]]

/-! ### Reading -/

theorem reads_write (m : FieldLayout) : Reads (emitWrite m) (writeMember m) := by
  intro front frames
  unfold emitWrite writeMember
  cases m.kind <;> simp [braces]

theorem reads_value (c : Composite) : Reads c.renderValue c.value := by
  intro front frames
  have hfields := Reads.lines (fun m : FieldLayout => s!"pub {m.accessor}: {valueType m.kind},") c.stored
  have hreads := Reads.writes
    (fun m : FieldLayout => .text s!"{m.accessor}: " :: (readMember m ++ [.text ","])) c.stored
  have hwrites := Reads.flatMap fun m (_ : m ∈ c.stored) => reads_write m
  simp [renderValue, value, inlined, braces, spaced, Code.text, hfields _ _, hreads _ _, hwrites _ _]

theorem reads_wholeValue (c : Composite) (side : Side) :
    Reads (c.emitWholeValue side) (c.wholeValue side) := by
  intro front frames
  cases side <;> simp [emitWholeValue, wholeValue, inlined, braces, Code.text]

theorem alike_codec (c : Composite) (side : Side) :
    Alike Reads (c.renderCodec side) (c.codec side) := by
  refine (alike_fields side c.members).bind fun _ _ h => .ok fun front frames => ?_
  simp [openInherent, inherentImpl, nestedImpl, inlined, braces, bare, spaced, Code.text,
    reads_default _ _ _ _, reads_links _ _ _ _, reads_parent _ _, reads_wholeValue _ _ _ _, h _ _]

theorem alike_side (c : Composite) (side : Side) :
    Alike (fun calls code => Reads calls (.blank :: code)) (c.renderSide side) (c.sideModule side) := by
  refine (alike_codec c side).bind fun _ _ h => .ok fun front frames => ?_
  simp [braces, spaced, h _ _]

theorem alike_tree (c : Composite) : Alike Reads c.render c.tree := by
  refine (Alike.mapM (alike_side c) Side.all).bind fun _ _ h => .ok fun front frames => ?_
  simp [Code.text, Code.spaced_cons, reads_value _ _ _, Reads.flatten_blank h _ _]

theorem code_of_render {c : Composite} {calls : List Call} (h : c.render = .ok calls) :
    c.code = .ok (Code.ofCalls calls) := by
  rw [code, h]
  rfl

theorem code_eq (c : Composite) : c.code = c.tree := Code.ofCalls_of_alike c.alike_tree

end WireCodec.Codec.Composite
