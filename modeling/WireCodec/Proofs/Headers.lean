import WireCodec.Codec.Group
import WireCodec.Proofs.Block
import WireCodec.Proofs.Fitting
/-! # The headers of groups

A header holds the length of the elements of a group and their number.  Its size is taken so that both
lie within it, but nothing compares their places: the check of a block does not look at headers.  So
whether the number overwrites the length when an encoder writes the two, one after the other, depends on
the places that their tokens state (`GroupHead.layout_header_iff`).  In the headers of definitions they
lie side by side (`Definition.isApart_of_dimensionTokens`). -/

namespace WireCodec

/-! ### The parts of a header -/

/-- What a buffer holds from some place on. -/
abbrev Bytes := Nat → UInt8

/-- The buffer after values have been written over some of its bytes. -/
def Extent.write (e : Extent) (value buffer : Bytes) : Bytes := fun p =>
  if e.start ≤ p ∧ p < e.ending then value (p - e.start) else buffer p

theorem Extent.write_of_mem (e : Extent) (value buffer : Bytes) {p : Nat} (h : e.start ≤ p)
    (h' : p < e.ending) : e.write value buffer p = value (p - e.start) := if_pos ⟨h, h'⟩

theorem Extent.write_of_not_mem (e : Extent) (value buffer : Bytes) {p : Nat}
    (h : ¬ (e.start ≤ p ∧ p < e.ending)) : e.write value buffer p = buffer p := if_neg h

/-- The pieces of the lines that a call writes. -/
def Call.pieces : Call → List Piece
  | write pieces | begin pieces => pieces
  | _ => []

/-- The bytes of a header that a piece puts, and the expression that it puts there. -/
def Piece.put? : Piece → Option (Extent × String)
  | put p ⟨base, start, none⟩ value =>
    if base = "initial_limit" then some (⟨value, start, start + p.size⟩, value) else none
  | _ => none

namespace GroupLayout

/-- The bytes of the length, within the header. -/
def blockLengthExtent (g : GroupLayout) : Extent :=
  ⟨"blockLength", g.blockLengthOffset, g.blockLengthOffset + g.blockLengthType.size⟩

/-- The bytes of the number, within the header. -/
def numInGroupExtent (g : GroupLayout) : Extent :=
  ⟨"numInGroup", g.numInGroupOffset, g.numInGroupOffset + g.numInGroupType.size⟩

/-- The bytes of the header that the encoder of the group puts, in this order, and the expressions that
it puts there. -/
def puts (g : GroupLayout) : List (Extent × String) :=
  ((Codec.renderGroupEncoder g []).flatMap Call.pieces).filterMap Piece.put?

/-- A header as the encoder leaves it, for some values of the length and of the number. -/
def written (g : GroupLayout) (blockLength count header : Bytes) : Bytes :=
  g.puts.foldl (fun buffer put => put.1.write (if put.2 = "count" then count else blockLength) buffer)
    header

/-- Whatever number is written behind it, the length stays as it was written. -/
def Keeps (g : GroupLayout) (blockLength : Bytes) : Prop :=
  ∀ count header p, g.blockLengthExtent.start ≤ p → p < g.blockLengthExtent.ending →
    g.written blockLength count header p = blockLength (p - g.blockLengthExtent.start)

/-- The encoder puts the length and then the number, each where its bytes begin. -/
theorem puts_eq (g : GroupLayout) : g.puts =
    [({ g.blockLengthExtent with name := "Self::BLOCK_LENGTH" }, "Self::BLOCK_LENGTH"),
     ({ g.numInGroupExtent with name := "count" }, "count")] := by
  simp [puts, Codec.renderGroupEncoder, Codec.renderDefault, Codec.renderLinks, Codec.openImpl,
    Codec.emitForward, Codec.openInherent, Codec.renderParent, Codec.renderAdvance, Codec.passHeader,
    Codec.headerAddress, Codec.Side.limitTrait, Call.line, Call.enter, Call.pieces, Piece.put?,
    blockLengthExtent, numInGroupExtent, List.filterMap_cons]

theorem written_eq (g : GroupLayout) (blockLength count header : Bytes) :
    g.written blockLength count header
      = g.numInGroupExtent.write count (g.blockLengthExtent.write blockLength header) := by
  rw [written, puts_eq]
  rfl

/-- A length is kept exactly if no byte of the number is one of its bytes. -/
theorem keeps_iff_apart {g : GroupLayout} {blockLength : Bytes} :
    g.Keeps blockLength ↔ g.blockLengthExtent.Apart g.numInGroupExtent := by
  constructor
  · rintro hkept p ⟨hlow, hhigh, hlow', hhigh'⟩
    -- a number all of whose bytes differ from the one that is at `p`
    have hwritten := hkept (fun _ => blockLength (p - g.blockLengthExtent.start) + 1) (fun _ => 0) p
      hlow hhigh
    rw [written_eq, Extent.write_of_mem _ _ _ hlow' hhigh'] at hwritten
    simp at hwritten
  · intro hapart count header p hlow hhigh
    have hother := fun h => hapart p ⟨hlow, hhigh, h⟩
    rw [written_eq, Extent.write_of_not_mem _ _ _ hother, Extent.write_of_mem _ _ _ hlow hhigh]

end GroupLayout

/-! ### Where the parts lie -/

namespace GroupHead

/-- One of the two parts ends before the other one starts. -/
def IsApart (h : GroupHead) : Prop :=
  ∃ p q, h.blockLength.primitive = .ok p ∧ h.numInGroup.primitive = .ok q ∧
    (h.blockLength.blockOffset + p.size ≤ h.numInGroup.blockOffset ∨
      h.numInGroup.blockOffset + q.size ≤ h.blockLength.blockOffset)

variable {h : GroupHead} {g : GroupLayout}

/-- Both parts end within the header. -/
theorem ending_le_headerSize (hg : h.layout = .ok g) :
    g.blockLengthExtent.ending ≤ g.headerSize ∧ g.numInGroupExtent.ending ≤ g.headerSize := by
  obtain ⟨-, p, q, n, hp, hq, hn, rfl⟩ := layout_eq_ok.mp hg
  unfold size Token.headerEnd at hn
  rw [hp, hq] at hn
  rw [← Except.ok.inj hn]
  exact ⟨Nat.le_max_left _ _, Nat.le_max_right _ _⟩

theorem apart_iff_isApart (hg : h.layout = .ok g) :
    g.blockLengthExtent.Apart g.numInGroupExtent ↔ h.IsApart := by
  obtain ⟨-, p, q, n, hp, hq, -, rfl⟩ := layout_eq_ok.mp hg
  have hpsize := p.size_pos
  have hqsize := q.size_pos
  unfold IsApart
  simp only [Extent.apart_iff, GroupLayout.blockLengthExtent, GroupLayout.numInGroupExtent, hp, hq,
    Except.ok.injEq, exists_eq_left', exists_and_left]
  omega

/-- **The headers of groups.**  Of a group that is laid out, both parts of the header end within the
header.  They share no byte exactly if one of them ends before the other one starts, by the places that
their tokens state; and exactly then does an encoder that writes the number keep the length of the
elements, whatever this length is. -/
theorem layout_header_iff (hg : h.layout = .ok g) :
    (g.blockLengthExtent.ending ≤ g.headerSize ∧ g.numInGroupExtent.ending ≤ g.headerSize) ∧
      (g.blockLengthExtent.Apart g.numInGroupExtent ↔ h.IsApart) ∧
      ∀ blockLength, g.Keeps blockLength ↔ h.IsApart := by
  have hapart := apart_iff_isApart hg
  exact ⟨ending_le_headerSize hg, hapart, fun _ => GroupLayout.keeps_iff_apart.trans hapart⟩

end GroupHead

namespace Definition

theorem blockOffset_token (e : Element) (name : String) (since : Nat) {offset : Nat}
    (h : offset < 2 ^ 31) : (e.token { name, offset, version := since }).blockOffset = offset := by
  simp only [Token.blockOffset, Element.token, Position.token, wrap32_of_lt h, Int.toNat_natCast]

theorem isApart_of_dimensionTokens {name : String} {id : Int} {since length span : Nat}
    {p q : Primitive} {rest : List Token} {h : GroupHead}
    (hread : Member.groupHead ({ groupOpening name id since length with span } ::
      (dimensionTokens since p q ++ rest)) = .ok h) : h.IsApart := by
  have hne : rest ≠ [] := by
    rintro rfl
    cases hread
  obtain ⟨t, rest, rfl⟩ := List.exists_cons_of_ne_nil hne
  cases hread
  have hsize : p.size < 2 ^ 31 := by cases p <;> decide
  have hlength := blockOffset_token (.ofPrimitive "blockLength" p) "blockLength" since
    (Nat.two_pow_pos 31)
  have hnumber := blockOffset_token (.ofPrimitive "numInGroup" q) "numInGroup" since hsize
  refine ⟨p, q, rfl, rfl, .inl ?_⟩
  dsimp only
  omega

end Definition

/-! ### A number within the length -/

namespace Legs

/-- A part of the header of the legs. -/
def part (name : String) (offset : Int) (p : Primitive) : Token :=
  { signal := .encoding, name, offset, encodedLength := p.size, encoding := { primitive := some p } }

/-- The legs of an order, whose length takes two bytes and whose number takes one. -/
def head (offset : Int) : GroupHead where
  token := { signal := .beginGroup, name := "legs", id := 1, encodedLength := 4, span := 6 }
  blockLength := part "blockLength" 0 .uint16
  numInGroup := part "numInGroup" offset .uint8

def layout (offset headerSize : Nat) : GroupLayout :=
  { name := "legs", accessor := "legs", structName := "Legs", gate := {}, blockLength := 4
    blockLengthType := .uint16, blockLengthOffset := 0, numInGroupType := .uint8
    numInGroupOffset := offset, headerSize }

theorem layout_head : (head 2).layout = .ok (layout 2 3) := toOption_eq_some.mp (by decide +kernel)

def first : Token := { signal := .beginMessage, name := "Order", id := 1, encodedLength := 0, span := 8 }

/-- An order whose legs have the number in the second byte of the length. -/
def message : List Token :=
  [first, (head 1).token,
   { signal := .beginComposite, name := "groupSize", encodedLength := 2, span := 4 },
   (head 1).blockLength, (head 1).numInGroup, { signal := .endComposite, name := "groupSize" },
   { signal := .endGroup, name := "legs" }, { signal := .endMessage, name := "Order" }]

end Legs

theorem GroupHead.layout_header_iff_legs :
    (Legs.head 2).layout = .ok (Legs.layout 2 3) ∧
      (Legs.layout 2 3).Keeps fun i => if i = 0 then 4 else 0 := by
  have hapart : (Legs.head 2).IsApart := ⟨.uint16, .uint8, rfl, rfl, .inl (by decide)⟩
  exact ⟨Legs.layout_head, ((GroupHead.layout_header_iff Legs.layout_head).2.2 _).mpr hapart⟩

/-- Legs whose number is the second byte of their length are laid out.  Once the number two has been
written, the length of four is no longer there: its second byte is two. -/
theorem number_overwrites_length :
    Body.ofMessage Legs.message = .ok (Legs.first, [.group (Legs.head 1) []]) ∧
      (Legs.head 1).layout = .ok (Legs.layout 1 2) ∧
      ¬ (Legs.layout 1 2).blockLengthExtent.Apart (Legs.layout 1 2).numInGroupExtent ∧
      (Legs.layout 1 2).written (fun i => if i = 0 then 4 else 0) (fun _ => 2) (fun _ => 0) 1 = 2 := by
  refine ⟨?_, toOption_eq_some.mp (by decide +kernel), ?_, by decide⟩
  · have hfirst : Legs.first.Heads Legs.message.tail := ⟨rfl, fun _ h => ⟨_, rfl, Option.some.inj h⟩⟩
    have hgroup : (Legs.head 1).token.Heads ((Legs.message.drop 2).take 5) :=
      ⟨rfl, fun _ h => ⟨_, rfl, Option.some.inj h⟩⟩
    refine Body.ofMessage_eq_ok_iff.mpr ⟨Legs.message.tail, [], rfl, rfl, hfirst, ?_⟩
    exact .group rfl hgroup (by decide) rfl (.nil .field) (.nil .group)
  · intro hapart
    exact hapart 1 (by decide)

end WireCodec
