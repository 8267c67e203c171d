import WireCodec.Codec.Accessor
import WireCodec.Codec.VarData
/-! # Bodies and groups

The accessors of a body come in the order of its members: fields, groups, var data.  A group has a
codec of its own on either side, which follows the codec that owns the group; so at every depth the
codecs of groups form one flat list.

A member is gated unless the codec that owns it is only reached by versions that have the member:
`enclosing` is the version of that codec. -/

namespace WireCodec.Codec

open Call (line enter)

/-! ### Accessors -/

/-- The documentation of a group. -/
def documentGroup (g : GroupLayout) : List String :=
  [s!"group '{g.name}'", s!"- blockLength: {g.blockLength}", s!"- version: {g.gate.since}"]

/-- The documented function of a codec that opens one of its groups. -/
def emitGroupAccessor (side : Side) (g : GroupLayout) : List Call :=
  let codec := g.structName ++ side.suffix
  .blank :: ((documentGroup g).map .doc ++ line "#[inline]" :: match side with
    | .encode =>
      [enter <|
        s!"pub fn {g.accessor}_encoder(self, count: {g.numInGroupType.typeName}) -> {codec}<Self>",
       line s!"{codec}::default().wrap(self, count)",
       .close]
    | .decode =>
      [enter s!"pub fn {g.accessor}_decoder(self) -> {codec}<Self>"]
      ++ emitGate g.gate s!"{codec}::default().wrap_absent(self)"
      ++ [line s!"{codec}::default().wrap(self)",
          .close])

/-- The layouts of the fields of a block, gated within a codec of version `enclosing`. -/
def blockLayouts (owner : String) (body : Body) (blockLength enclosing : Nat) :
    Except Fault (List FieldLayout) := do
  let fields ← body.fields.mapM fun f => do
    let layout ← f.layout
    return { layout with gate := layout.gate.within enclosing }
  Layout.checkBlock owner fields (some blockLength)
  return fields

/-- The accessors of a body. -/
def emitBody (side : Side) (owner : String) (body : Body) (blockLength enclosing : Nat) :
    Except Fault (List Call) := do
  let fields ← blockLayouts owner body blockLength enclosing
  let fieldCalls ← emitFields side fields
  let groupCalls ← body.groups.mapM fun (head, _) => do
    let g ← head.layout
    return emitGroupAccessor side { g with gate := g.gate.within enclosing }
  let varDataCalls ← body.varData.mapM fun v => do
    let layout ← v.layout
    return emitVarData side { layout with gate := layout.gate.within enclosing }
  return fieldCalls ++ groupCalls.flatten ++ varDataCalls.flatten

/-! ### Codecs -/

/-- Moves to the next element, which begins at the limit. -/
def renderAdvance (blockLength : String) : List Call :=
  [.doc "Moves to the next element and returns its index, or \x60None\x60 past the last one",
   "#[inline]",
   enter "pub fn advance(&mut self) -> SbeResult<Option<usize>>",
   "let index = self.index.wrapping_add(1);",
   enter "if index >= self.count as usize",
   "return Ok(None);",
   .close,
   enter "match self.parent.as_mut()",
   enter "Some(parent) =>",
   "self.offset = parent.get_limit();",
   .write [.moveLimit "parent" "self.offset" blockLength, ";"],
   "self.index = index;",
   "Ok(Some(index))",
   .close,
   "None => Err(SbeErr::ParentNotSet),",
   .close,
   .close]

/-- Moves the limit past the header. -/
def passHeader : List Piece := [.moveLimit "parent" "initial_limit" "Self::HEADER_SIZE", ";"]

/-- The address of a part of the header. -/
def headerAddress (offset : Nat) : Address := ⟨"initial_limit", offset, none⟩

/-- The encoder of a group around the accessors of its elements. -/
def renderGroupEncoder (g : GroupLayout) (accessors : List Call) : List Call :=
  let codec := g.structName ++ "Encoder"
  let blockType := g.blockLengthType.typeName
  let countType := g.numInGroupType.typeName
  [Call.doc s!"Encoder of the '{g.name}' group",
   "#[derive(Debug)]",
   enter s!"pub struct {codec}<P>",
   "parent: Option<P>,",
   line s!"count: {countType},",
   "index: usize,",
   "offset: usize,",
   "initial_limit: usize,",
   .close,
   .blank]
  ++ renderDefault codec
    [("count", "0"), ("index", "usize::MAX"), ("offset", "usize::MAX"), ("initial_limit", "0")]
  ++ [.blank] ++ renderLinks codec .encode ++ [.blank]
  ++ [enter s!"impl<P> {codec}<P>",
      line s!"pub const BLOCK_LENGTH: {blockType} = {g.blockLength};",
      line s!"pub const HEADER_SIZE: usize = {g.headerSize};",
      .close,
      .blank]
  ++ openInherent codec "Encoder"
  ++ [Call.doc "Writes the group header at the parent's limit and moves the limit past it",
      "#[inline]",
      enter s!"pub fn wrap(mut self, mut parent: P, count: {countType}) -> Self",
      "let initial_limit = parent.get_limit();",
      .write passHeader,
      .write ["parent.get_buf_mut().",
        .put g.blockLengthType (headerAddress g.blockLengthOffset) "Self::BLOCK_LENGTH", ";"],
      .write ["parent.get_buf_mut().",
        .put g.numInGroupType (headerAddress g.numInGroupOffset) "count", ";"],
      "self.parent = Some(parent);",
      "self.count = count;",
      "self.index = usize::MAX;",
      "self.offset = usize::MAX;",
      "self.initial_limit = initial_limit;",
      "self",
      .close,
      .blank,
      "#[inline]",
      enter s!"pub fn count(&self) -> {countType}",
      "self.count",
      .close,
      .blank,
      .doc "Bytes written for the group so far, header included",
      "#[inline]",
      enter "pub fn encoded_length(&self) -> usize",
      "self.get_limit() - self.initial_limit",
      .close,
      .blank]
  ++ renderParent ++ [.blank] ++ renderAdvance "Self::BLOCK_LENGTH as usize"
  ++ accessors ++ [.close]

/-- The decoder of a group around the accessors of its elements. -/
def renderGroupDecoder (g : GroupLayout) (accessors : List Call) : List Call :=
  let codec := g.structName ++ "Decoder"
  let blockType := g.blockLengthType.typeName
  let countType := g.numInGroupType.typeName
  [Call.doc s!"Decoder of the '{g.name}' group",
   "#[derive(Debug)]",
   enter s!"pub struct {codec}<P>",
   "parent: Option<P>,",
   line s!"block_length: {blockType},",
   line s!"count: {countType},",
   "index: usize,",
   "offset: usize,",
   .close,
   .blank]
  ++ renderDefault codec
    [("block_length", "0"), ("count", "0"), ("index", "usize::MAX"), ("offset", "0")]
  ++ [.blank] ++ renderLinks codec .decode ++ [.blank]
  ++ [enter s!"impl<P> {codec}<P>",
      line s!"pub const HEADER_SIZE: usize = {g.headerSize};",
      .close,
      .blank]
  ++ openInherent codec "Decoder"
  ++ [Call.doc "Reads the group header at the parent's limit and moves the limit past it",
      "#[inline]",
      enter "pub fn wrap(mut self, mut parent: P) -> Self",
      "let initial_limit = parent.get_limit();",
      .write ["self.block_length = parent.get_buf().",
        .get g.blockLengthType (headerAddress g.blockLengthOffset), ";"],
      .write ["self.count = parent.get_buf().",
        .get g.numInGroupType (headerAddress g.numInGroupOffset), ";"],
      .write passHeader,
      "self.parent = Some(parent);",
      "self.index = usize::MAX;",
      "self.offset = 0;",
      "self",
      .close,
      .blank,
      .doc "Links a group the acting version does not carry: no header is read",
      .doc "and iteration yields nothing.",
      "#[inline]",
      enter "pub fn wrap_absent(mut self, parent: P) -> Self",
      "self.parent = Some(parent);",
      "self.block_length = 0;",
      "self.count = 0;",
      "self.index = usize::MAX;",
      "self.offset = 0;",
      "self",
      .close,
      .blank,
      "#[inline]",
      enter s!"pub fn count(&self) -> {countType}",
      "self.count",
      .close,
      .blank]
  ++ renderParent ++ [.blank] ++ renderAdvance "self.block_length as usize"
  ++ accessors ++ [.close]

/-- The codec of a group around the accessors of its elements. -/
def renderGroup : Side → GroupLayout → List Call → List Call
  | .encode => renderGroupEncoder
  | .decode => renderGroupDecoder

/-- The codecs of all groups of a body: each group's own, then those within it. -/
def renderGroups (side : Side) (enclosing : Nat) : Body → Except Fault (List Call)
  | [] => .ok []
  | .group head members :: rest => do
    let g ← head.layout
    let inner := max enclosing g.gate.since
    let accessors ← emitBody side g.name members g.blockLength inner
    let nested ← renderGroups side inner members
    let others ← renderGroups side enclosing rest
    return .blank :: (renderGroup side g accessors ++ nested ++ others)
  | _ :: rest => renderGroups side enclosing rest

end WireCodec.Codec
