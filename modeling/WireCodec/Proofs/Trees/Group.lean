import WireCodec.Codec.Group
import WireCodec.Proofs.Trees.Accessor
/-! # The trees of bodies and groups

The code that `Codec.emitBody` and `Codec.renderGroups` write, as trees. -/

namespace WireCodec.Codec

open Code (braces bare spaced Reads)

/-! ### Accessors -/

/-- The documented function that opens a group, as it is written. -/
def groupAccessor (side : Side) (g : GroupLayout) : List Code :=
  Code.ofCalls (emitGroupAccessor side g)

/-- The function that opens a group as a tree. -/
def groupTree (side : Side) (g : GroupLayout) : List Code :=
  let codec := g.structName ++ side.suffix
  .blank :: ((documentGroup g).map .doc ++ match side with
    | .encode =>
      inlined s!"pub fn {g.accessor}_encoder(self, count: {g.numInGroupType.typeName}) -> {codec}<Self>"
        [Code.text s!"{codec}::default().wrap(self, count)"]
    | .decode =>
      inlined s!"pub fn {g.accessor}_decoder(self) -> {codec}<Self>"
        (gateOf g.gate s!"{codec}::default().wrap_absent(self)"
          ++ [Code.text s!"{codec}::default().wrap(self)"]))

/-- The accessors of a body. -/
def bodyAccessors (side : Side) (owner : String) (body : Body) (blockLength enclosing : Nat) :
    Except Fault (List Code) := do
  let fields ← blockLayouts owner body blockLength enclosing
  let fieldCode ← fieldAccessors side fields
  let groupCode ← body.groups.mapM fun (head, _) => do
    let g ← head.layout
    return groupAccessor side { g with gate := g.gate.within enclosing }
  let varDataCode ← body.varData.mapM fun v => do
    let layout ← v.layout
    return varDataAccessor side { layout with gate := layout.gate.within enclosing }
  return fieldCode ++ groupCode.flatten ++ varDataCode.flatten

/-! ### Codecs -/

/-- Moves to the next element, which begins at the limit. -/
def advance (blockLength : String) : List Code :=
  .doc "Moves to the next element and returns its index, or \x60None\x60 past the last one"
    :: inlined "pub fn advance(&mut self) -> SbeResult<Option<usize>>"
      ["let index = self.index.wrapping_add(1);",
       braces "if index >= self.count as usize" ["return Ok(None);"],
       braces "match self.parent.as_mut()"
         [braces "Some(parent) =>"
           ["self.offset = parent.get_limit();",
            .line [.moveLimit "parent" "self.offset" blockLength, ";"],
            "self.index = index;",
            "Ok(Some(index))"],
          "None => Err(SbeErr::ParentNotSet),"]]

/-- The number of elements, as it was written or read. -/
def countFunction (g : GroupLayout) : List Code :=
  inlined s!"pub fn count(&self) -> {g.numInGroupType.typeName}" ["self.count"]

/-- Writes the header and moves the limit past it. -/
def wrapEncoder (g : GroupLayout) : List Code :=
  .doc "Writes the group header at the parent's limit and moves the limit past it"
    :: inlined s!"pub fn wrap(mut self, mut parent: P, count: {g.numInGroupType.typeName}) -> Self"
      ["let initial_limit = parent.get_limit();",
       .line passHeader,
       .line ["parent.get_buf_mut().",
         .put g.blockLengthType (headerAddress g.blockLengthOffset) "Self::BLOCK_LENGTH", ";"],
       .line ["parent.get_buf_mut().",
         .put g.numInGroupType (headerAddress g.numInGroupOffset) "count", ";"],
       "self.parent = Some(parent);",
       "self.count = count;",
       "self.index = usize::MAX;",
       "self.offset = usize::MAX;",
       "self.initial_limit = initial_limit;",
       "self"]

/-- The encoder of a group around the accessors of its elements. -/
def groupEncoder (g : GroupLayout) (accessors : List Code) : List Code :=
  let codec := g.structName ++ "Encoder"
  spaced
    [[.doc s!"Encoder of the '{g.name}' group",
      "#[derive(Debug)]",
      braces s!"pub struct {codec}<P>"
        ["parent: Option<P>,", Code.text s!"count: {g.numInGroupType.typeName},", "index: usize,",
         "offset: usize,", "initial_limit: usize,"]],
     defaultImpl codec
       [("count", "0"), ("index", "usize::MAX"), ("offset", "usize::MAX"), ("initial_limit", "0")],
     linkImpls codec .encode,
     [braces s!"impl<P> {codec}<P>"
       [Code.text s!"pub const BLOCK_LENGTH: {g.blockLengthType.typeName} = {g.blockLength};",
        Code.text s!"pub const HEADER_SIZE: usize = {g.headerSize};"]],
     inherentImpl codec "Encoder" <| spaced
       [wrapEncoder g,
        countFunction g,
        .doc "Bytes written for the group so far, header included"
          :: inlined "pub fn encoded_length(&self) -> usize"
            ["self.get_limit() - self.initial_limit"],
        parentFunction,
        advance "Self::BLOCK_LENGTH as usize" ++ accessors]]

/-- Reads the header and moves the limit past it. -/
def wrapDecoder (g : GroupLayout) : List Code :=
  .doc "Reads the group header at the parent's limit and moves the limit past it"
    :: inlined "pub fn wrap(mut self, mut parent: P) -> Self"
      ["let initial_limit = parent.get_limit();",
       .line ["self.block_length = parent.get_buf().",
         .get g.blockLengthType (headerAddress g.blockLengthOffset), ";"],
       .line ["self.count = parent.get_buf().",
         .get g.numInGroupType (headerAddress g.numInGroupOffset), ";"],
       .line passHeader,
       "self.parent = Some(parent);",
       "self.index = usize::MAX;",
       "self.offset = 0;",
       "self"]

/-- Stands for a group that the acting version does not have. -/
def wrapAbsent : List Code :=
  .doc "Links a group the acting version does not carry: no header is read"
    :: .doc "and iteration yields nothing."
    :: inlined "pub fn wrap_absent(mut self, parent: P) -> Self"
      ["self.parent = Some(parent);", "self.block_length = 0;", "self.count = 0;",
       "self.index = usize::MAX;", "self.offset = 0;", "self"]

/-- The decoder of a group around the accessors of its elements. -/
def groupDecoder (g : GroupLayout) (accessors : List Code) : List Code :=
  let codec := g.structName ++ "Decoder"
  spaced
    [[.doc s!"Decoder of the '{g.name}' group",
      "#[derive(Debug)]",
      braces s!"pub struct {codec}<P>"
        ["parent: Option<P>,", Code.text s!"block_length: {g.blockLengthType.typeName},",
         Code.text s!"count: {g.numInGroupType.typeName},", "index: usize,", "offset: usize,"]],
     defaultImpl codec
       [("block_length", "0"), ("count", "0"), ("index", "usize::MAX"), ("offset", "0")],
     linkImpls codec .decode,
     [braces s!"impl<P> {codec}<P>" [Code.text s!"pub const HEADER_SIZE: usize = {g.headerSize};"]],
     inherentImpl codec "Decoder" <| spaced
       [wrapDecoder g,
        wrapAbsent,
        countFunction g,
        parentFunction,
        advance "self.block_length as usize" ++ accessors]]

/-- The codec of a group around the accessors of its elements. -/
def groupCodec : Side → GroupLayout → List Code → List Code
  | .encode => groupEncoder
  | .decode => groupDecoder

/-- The codecs of all groups of a body: each group's own, then those within it. -/
def groupCodecs (side : Side) (enclosing : Nat) : Body → Except Fault (List Code)
  | [] => .ok []
  | .group head members :: rest => do
    let g ← head.layout
    let inner := max enclosing g.gate.since
    let accessors ← bodyAccessors side g.name members g.blockLength inner
    let nested ← groupCodecs side inner members
    let others ← groupCodecs side enclosing rest
    return .blank :: (groupCodec side g accessors ++ nested ++ others)
  | _ :: rest => groupCodecs side enclosing rest

/-! ### Reading -/

theorem groupAccessor_reads (side : Side) (g : GroupLayout) :
    Reads (emitGroupAccessor side g) (groupTree side g) := by
  refine .blank (.append (.docs _) ?_)
  intro front frames
  cases side <;> simp [inlined, braces, Code.text, reads_gate _ _ _ _]

theorem groupAccessor_eq (side : Side) (g : GroupLayout) : groupAccessor side g = groupTree side g :=
  (groupAccessor_reads side g).ofCalls

theorem reads_groupAccessor (side : Side) (g : GroupLayout) :
    Reads (emitGroupAccessor side g) (groupAccessor side g) := by
  rw [groupAccessor_eq]
  exact groupAccessor_reads side g

theorem alike_body (side : Side) (owner : String) (body : Body) (blockLength enclosing : Nat) :
    Alike Reads (emitBody side owner body blockLength enclosing)
      (bodyAccessors side owner body blockLength enclosing) := by
  refine .same _ fun fields => (alike_fields side fields).bind fun _ _ hfields => ?_
  refine (Alike.mapM (R := Reads) (fun _ => .same _ fun _ => .ok (reads_groupAccessor side _))
    body.groups).bind fun _ _ hgroups => ?_
  refine (Alike.mapM (R := Reads) (fun _ => .same _ fun _ => .ok (reads_varData side _))
    body.varData).bind fun _ _ hvarData => ?_
  exact .ok ((hfields.append (.flatten hgroups)).append (.flatten hvarData))

theorem reads_advance (blockLength : String) :
    Reads (renderAdvance blockLength) (advance blockLength) := by
  intro front frames
  simp [renderAdvance, advance, inlined, braces]

variable {accessors : List Call} {trees : List Code}

theorem reads_groupEncoder (g : GroupLayout) (h : Reads accessors trees) :
    Reads (renderGroupEncoder g accessors) (groupEncoder g trees) := by
  intro front frames
  simp [renderGroupEncoder, openInherent, groupEncoder, wrapEncoder, countFunction, inherentImpl,
    nestedImpl, inlined, braces, bare, spaced, Code.text, reads_default _ _ _ _, reads_links _ _ _ _,
    reads_parent _ _, reads_advance _ _ _, h _ _]

theorem reads_groupDecoder (g : GroupLayout) (h : Reads accessors trees) :
    Reads (renderGroupDecoder g accessors) (groupDecoder g trees) := by
  intro front frames
  simp [renderGroupDecoder, openInherent, groupDecoder, wrapDecoder, wrapAbsent, countFunction,
    inherentImpl, nestedImpl, inlined, braces, bare, spaced, Code.text, reads_default _ _ _ _, reads_links _ _ _ _,
    reads_parent _ _, reads_advance _ _ _, h _ _]

theorem reads_group (side : Side) (g : GroupLayout) (h : Reads accessors trees) :
    Reads (renderGroup side g accessors) (groupCodec side g trees) := by
  cases side with
  | encode => exact reads_groupEncoder g h
  | decode => exact reads_groupDecoder g h

theorem alike_groups (side : Side) : ∀ (enclosing : Nat) (body : Body),
    Alike Reads (renderGroups side enclosing body) (groupCodecs side enclosing body)
  | _, [] => by
      rw [renderGroups, groupCodecs]
      exact .ok .nil
  | enclosing, .group head members :: rest => by
      rw [renderGroups, groupCodecs]
      refine .same _ fun g => (alike_body side _ _ _ _).bind fun _ _ haccessors => ?_
      refine (alike_groups side _ members).bind fun _ _ hnested => ?_
      refine (alike_groups side enclosing rest).bind fun _ _ hothers => .ok (.blank ?_)
      exact ((reads_group side g haccessors).append hnested).append hothers
  | enclosing, .field _ :: rest | enclosing, .varData _ :: rest => by
      simpa [renderGroups, groupCodecs] using alike_groups side enclosing rest

end WireCodec.Codec
