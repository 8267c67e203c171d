import WireCodec.Proofs.Closure
import WireCodec.Proofs.Parts
import WireCodec.Proofs.Values
/-! # Encoders and decoders agree

The two sides of a codec are written separately, and each spells addresses out in its own way.  What
either side transfers is nevertheless the same, as it is what the layout of the member says: for a
part of a message at any depth (`Part.Agrees`), and for the members and the value of a composite
(`Codec.Composite.Agrees`).  `Generator.sides_agree` proves it of all that is generated. -/

namespace WireCodec

open Codec (Side fieldAccessor groupAccessor varDataAccessor IsAccessor)

/-- On either side the accessors of a part make the transfers and the moves that its layout says. -/
def Part.Agrees : Part → Prop
  | field f setter getter => IsAccessor .encode f setter ∧ IsAccessor .decode f getter
  | group g _ => ∀ side,
    Code.IsFunction (g.heading side) (groupAccessor side g) ∧
      Code.Carries side (g.gate.asked side) [] [] (groupAccessor side g)
  | varData v => ∀ side,
    Code.IsFunction (v.heading side) (varDataAccessor side v) ∧
      Code.Carries side (v.gate.asked side) v.transfers [v.move] (varDataAccessor side v)

/-- On either side the accessors of a composite's members, in their order, and the function for the
value make the transfers that the layouts of the members say. -/
structure Codec.Composite.Agrees (c : Codec.Composite) : Prop where
  accessors : ∀ side, ∃ codes, c.members.mapM (fieldAccessor side) = .ok codes ∧
    List.Forall₂ (IsAccessor side) c.members codes
  encodeAt : Code.Carries .encode 0 (c.stored.flatMap (·.transfers "offset")) [] c.encodeAt
  decodeAt : Code.Carries .decode 0 (c.stored.flatMap (·.transfers "offset")) [] c.decodeAt

/-- Each message has a unit that is made of parts, at any depth of groups, all of which agree, and each
registered composite one that is made of a composite that agrees. -/
structure Generator.Agrees (g : Generator) (units : List CodeUnit) : Prop where
  messages : ∀ m ∈ g.messages, ∃ u ∈ units, g.messageUnit m = .ok u ∧ ∃ parts,
    m.IsMadeOf u.code parts ∧
      ∀ path ps, walk Part.inner parts path = some ps → ∀ p ∈ ps, p.Agrees
  composites : ∀ t ∈ g.registry.types, t.kind = .composite → ∃ u ∈ units, ∃ first c,
    typeUnit t = .ok u ∧ t.run.head? = some first ∧ Codec.Composite.ofType t first = .ok c ∧
      c.IsMadeOf u.code ∧ c.Agrees

/-! ### Parts of messages -/

theorem Part.IsOf.agrees {enclosing : Nat} {m : Member} {p : Part} (h : p.IsOf enclosing m) :
    p.Agrees := by
  cases h with
  | field hl hs hg =>
      exact ⟨Codec.isAccessor_of_fieldAccessor hs, Codec.isAccessor_of_fieldAccessor hg⟩
  | @group head members g parts hl hp =>
      exact fun side => Codec.groupAccessor_does side (g.within enclosing)
  | varData hl => exact fun side => Codec.varDataAccessor_does side _

/-- On any path through the parts of a body each part stands for a member. -/
theorem Body.exists_isOf_of_walk {path : List Nat} : ∀ {enclosing : Nat} {b : Body}
    {parts ps : List Part}, b.parts enclosing = .ok parts → walk Part.inner parts path = some ps →
    ∀ p ∈ ps, ∃ e m, p.IsOf e m := by
  induction path with
  | nil =>
      intro enclosing b parts ps _ hw p hp
      cases hw
      cases hp
  | cons i path ih =>
      intro enclosing b parts ps h hw p hp
      obtain ⟨q, rest, hq, hrest, rfl⟩ := walk_cons_eq_some.mp hw
      have hof := isOf_of_parts h
      obtain ⟨hj, rfl⟩ := List.getElem?_eq_some_iff.mp hq
      have hi : i < b.length := by
        rw [hof.length_eq]
        exact hj
      have hhead := hof.get hi hj
      rcases List.mem_cons.mp hp with rfl | hp
      · exact ⟨enclosing, _, hhead⟩
      · exact ih hhead.inner_parts hrest p hp

/-! ### Composites -/

theorem Codec.Composite.agrees_of_code {c : Codec.Composite} {code : List Code}
    (h : c.code = .ok code) : c.Agrees := by
  refine ⟨fun side => ?_, encodeAt_carries c, decodeAt_carries c⟩
  obtain ⟨codes, hcodes⟩ := mapM_fieldAccessor_of_code h side
  exact ⟨codes, hcodes, (mapM_eq_ok.mp hcodes).imp fun _ _ => isAccessor_of_fieldAccessor⟩

namespace Ticket

def encoding (name : String) (offset length : Int) (primitive : Primitive) : Token :=
  { signal := .encoding, name, offset, encodedLength := length
    encoding := { primitive := some primitive } }

/-- A composite of two numbers. -/
def price : List Token :=
  [{ signal := .beginComposite, name := "Price", offset := 0, encodedLength := 9, span := 4 },
   encoding "mantissa" 0 8 .int64, encoding "exponent" 8 1 .int8,
   { signal := .endComposite, name := "Price" }]

/-- A group with an array of four characters. -/
def legs : List Token :=
  [{ signal := .beginGroup, name := "legs", encodedLength := 4, span := 7 },
   { signal := .beginComposite, name := "groupSize", encodedLength := 3, span := 4 },
   encoding "blockLength" 0 2 .uint16, encoding "numInGroup" 2 1 .uint8,
   { signal := .endComposite, name := "groupSize" }, encoding "code" 0 4 .char,
   { signal := .endGroup, name := "legs" }]

def note : List Token :=
  [{ signal := .beginVarData, name := "note", span := 6 },
   { signal := .beginComposite, name := "text", span := 4 }, encoding "length" 0 2 .uint16,
   encoding "varData" 2 0 .char, { signal := .endComposite, name := "text" },
   { signal := .endVarData, name := "note" }]

def message : List Token :=
  [{ signal := .beginMessage, name := "Ticket", encodedLength := 9, span := 21 },
   { signal := .beginField, name := "price", version := 1, offset := 0, span := 6 }]
  ++ price ++ [{ signal := .endField, name := "price" }] ++ legs ++ note
  ++ [{ signal := .endMessage, name := "Ticket" }]

def schema : Schema := { packageName := "demo", types := [price], messages := [message] }

set_option maxRecDepth 4000 in
theorem sizes_schema :
    (do let g ← Generator.ofSchema schema
        let modules ← g.modules
        return (g.messages.length, g.registry.types.length, modules.length)) = .ok (1, 1, 2) := by
  cbv

end Ticket

end WireCodec
