import Mathlib
import WireCodec.Proofs.Grammar
import WireCodec.Proofs.Sound
/-! # Where members lie

A slot is a member of a block with its tokens and its length.  `LieFrom offset slots` says that slots
lie one behind the other: the offset that a slot states is the sum of the lengths before it, and the
layout of the field that is read from it has this offset and the length of the slot.

`TypeLaid`, `FieldLaid`, `BodyLaid` and `MessageLaid` say of the tokens of types, of fields, of the
bodies of messages and groups, and of messages how they are put together from slots, which length they
have, and that each opening token counts its run.  They follow the constructors of definitions, so
composites are covered wherever they are placed, and groups at any depth. -/

namespace WireCodec.Definition

/-! ### Slots -/

/-- A member of a block with its tokens and the bytes that it takes. -/
structure Slot (α : Type) where
  member : α
  tokens : List Token
  length : Nat

variable {α : Type} {types : List NamedType}

namespace Slot

/-- The bytes that slots take. -/
def total (slots : List (Slot α)) : Nat := (slots.map (·.length)).sum

@[simp] theorem total_nil : total ([] : List (Slot α)) = 0 := rfl

@[simp] theorem total_cons (x : Slot α) (slots : List (Slot α)) :
    total (x :: slots) = x.length + total slots := by
  simp [total]

/-- The slot begins at the offset: it is read as the field, whose token states the offset and the
length, and so does the layout of the field if it has one. -/
structure LiesAt (x : Slot α) (offset : Nat) (f : WireCodec.Field) : Prop where
  first : x.tokens.head? = some f.token
  place : f.token.offset = offset
  length : f.token.encodedLength = x.length
  read : ∀ owner index,
    Member.range owner .field index x.tokens = .ok ([.field f], index + x.tokens.length)
  described : ∀ l, f.layout = .ok l → l.offset = offset ∧ l.length = x.length

/-- Each slot begins where the ones before it end. -/
def LieFrom (offset : Nat) (slots : List (Slot α)) : Prop :=
  ∀ (k : Nat) (x : Slot α), slots[k]? = some x →
    ∃ f, x.LiesAt (offset + total (slots.take k)) f

theorem lieFrom_nil (offset : Nat) : LieFrom offset ([] : List (Slot α)) := by
  intro k x hx
  cases hx

theorem LieFrom.cons {offset : Nat} {x : Slot α} {slots : List (Slot α)} {f : WireCodec.Field}
    (first : x.LiesAt offset f) (tail : LieFrom (offset + x.length) slots) :
    LieFrom offset (x :: slots) := by
  intro k y hy
  cases k with
  | zero =>
      obtain rfl := Option.some.inj hy
      exact ⟨f, by simpa using first⟩
  | succ k =>
      have hlies := tail k y hy
      rw [List.take_succ_cons, total_cons, ← Nat.add_assoc]
      exact hlies

theorem liesAt_of_fits {x : Slot α} {inner : List Token} {f : WireCodec.Field} {offset : Nat}
    (htokens : x.tokens = f.token :: inner) (hheads : f.token.Heads inner)
    (hspans : Field.Spans f.token inner f) (hoffset : f.token.offset = offset)
    (hlength : f.token.encodedLength = x.length) (hfits : f.Fits offset x.length) :
    x.LiesAt offset f := by
  refine ⟨by rw [htokens, List.head?_cons], hoffset, hlength, fun owner index => ?_, hfits.place⟩
  have hreads : Body.Reads .field (f.token :: (inner ++ [])) [.field f] :=
    .field hheads hspans (.nil .field)
  rw [List.append_nil, ← htokens] at hreads
  exact Member.range_of_reads hreads owner index

end Slot

/-! ### Types -/

/-- The tokens of a type, and its length.  A constant takes no bytes: an element whose presence says
so, and an enum whose value is fixed by the field around it.  Any other element takes its values, an
enum or a bit set its primitive value, and a composite what its members take together. -/
inductive TypeLaid (types : List NamedType) : NamedType → Bool → List Token → Nat → Prop
  | constant {e : Element} {isFixed : Bool} {t : Token} (presence : e.presence = .constant)
      (leaf : t.IsLeaf .encoding) : TypeLaid types (.element e) isFixed [t] 0
  | element {e : Element} {isFixed : Bool} {t : Token} (presence : e.presence ≠ .constant)
      (leaf : t.IsLeaf .encoding) :
      TypeLaid types (.element e) isFixed [t] (e.primitive.size * e.length)
  | fixed {e : Enumeration} {first last : Token} {values : List Token}
      (run : IsRun .beginEnum first values last) (leaves : ∀ t ∈ values, t.IsLeaf .validValue) :
      TypeLaid types (.enumeration e) true (first :: (values ++ [last])) 0
  | enumeration {e : Enumeration} {first last : Token} {values : List Token}
      (run : IsRun .beginEnum first values last) (leaves : ∀ t ∈ values, t.IsLeaf .validValue) :
      TypeLaid types (.enumeration e) false (first :: (values ++ [last])) e.primitive.size
  | bitSet {s : BitSet} {isFixed : Bool} {first last : Token} {choices : List Token}
      (run : IsRun .beginSet first choices last) (leaves : ∀ t ∈ choices, t.IsLeaf .choice) :
      TypeLaid types (.bitSet s) isFixed (first :: (choices ++ [last])) s.primitive.size
  | composite {c : Composite} {isFixed : Bool} {first last : Token} {slots : List (Slot NamedType)}
      (lookups : c.members.mapM (fun (_, r) => r.lookup types) = .ok (slots.map (·.member)))
      (run : IsRun .beginComposite first (slots.flatMap (·.tokens)) last)
      (places : Slot.LieFrom 0 slots) (length : first.encodedLength = Slot.total slots)
      (members : ∀ x ∈ slots, TypeLaid types x.member false x.tokens x.length) :
      TypeLaid types (.composite c) isFixed (first :: (slots.flatMap (·.tokens) ++ [last]))
        (Slot.total slots)

theorem typeLaid_of_leaf {t : NamedType} {p : Position} {tokens : List Token} {n : Nat}
    (h : t.tokens types 0 p = .ok (tokens, n)) : TypeLaid types t p.constant.isSome tokens n := by
  obtain ⟨e, rfl, rfl, rfl⟩ | ⟨e, rfl, he⟩ | ⟨s, rfl, hs⟩ := leaf_eq_ok h
  · have hleaf : (e.token p).IsLeaf .encoding := ⟨rfl, rfl⟩
    unfold Element.encodedLength
    split
    next hconstant => exact .constant hconstant hleaf
    next hstored => exact .element hstored hleaf
  · obtain ⟨_, rfl, rfl⟩ := Enumeration.tokens_eq_ok he
    have hleaves : ∀ t ∈ e.values.map fun value =>
        memberToken .validValue p e.primitive value.1 value.2, t.IsLeaf .validValue := by
      intro t ht
      obtain ⟨value, _, rfl⟩ := List.mem_map.mp ht
      exact ⟨rfl, rfl⟩
    cases p.constant.isSome with
    | true => exact .fixed ⟨rfl, rfl, rfl⟩ hleaves
    | false => exact .enumeration ⟨rfl, rfl, rfl⟩ hleaves
  · obtain ⟨rfl, rfl⟩ := Prod.mk.inj hs
    refine .bitSet ⟨rfl, rfl, rfl⟩ fun t ht => ?_
    obtain ⟨choice, _, rfl⟩ := List.mem_map.mp ht
    exact ⟨rfl, rfl⟩

theorem Run.liesAt {t : NamedType} {p : Position} {tokens : List Token} {n : Nat}
    (run : Run types t p tokens n) (made : ∀ e ∈ t.elements, e.Made)
    (hbound : p.offset + n < 2 ^ 31) : ∃ f, (Slot.mk t tokens n).LiesAt p.offset f := by
  obtain ⟨first, inner, rfl, hheads, hstarts⟩ := run.starts
  have hoffset : first.offset = p.offset := by
    rw [hstarts.offset, wrap32_of_lt (by omega)]
  have hlength : first.encodedLength = n := by
    rw [hstarts.encodedLength, wrap32_of_lt (by omega)]
  have hfits := run.fits (w := ⟨first, first, first :: inner⟩) rfl rfl hstarts.offset made hbound
  exact ⟨⟨first, first, first :: inner⟩,
    Slot.liesAt_of_fits rfl hheads (.bare hstarts.isType) hoffset hlength hfits⟩

/-- The slots of the members of a composite. -/
structure MembersLaid (types : List NamedType) (offset : Nat) (members : List (String × Reference))
    (slots : List (Slot NamedType)) : Prop where
  lookups : members.mapM (fun (_, r) => r.lookup types) = .ok (slots.map (·.member))
  places : Slot.LieFrom offset slots
  types : ∀ x ∈ slots, TypeLaid types x.member false x.tokens x.length

theorem MembersLaid.cons {offset n : Nat} {name : String} {r : Reference}
    {members : List (String × Reference)} {slots : List (Slot NamedType)} {t : NamedType}
    {tokens : List Token} {f : WireCodec.Field} (found : r.lookup types = .ok t)
    (first : (Slot.mk t tokens n).LiesAt offset f) (laid : TypeLaid types t false tokens n)
    (tail : MembersLaid types (offset + n) members slots) :
    MembersLaid types offset ((name, r) :: members) (⟨t, tokens, n⟩ :: slots) := by
  refine ⟨?_, .cons first tail.places, List.forall_mem_cons.mpr ⟨laid, tail.types⟩⟩
  rw [List.mapM_cons, tail.lookups]
  dsimp only
  rw [found]
  rfl

theorem MembersLaid.composite {c : Composite} {isFixed : Bool} {p : Position}
    {slots : List (Slot NamedType)} (h : MembersLaid types 0 c.members slots)
    (hbound : Slot.total slots < 2 ^ 31) :
    TypeLaid types (.composite c) isFixed
      (compositeRun p (slots.flatMap (·.tokens)) (Slot.total slots)) (Slot.total slots) := by
  refine .composite h.lookups ⟨rfl, rfl, rfl⟩ h.places ?_ h.types
  simp only [Position.token, wrap32_of_lt hbound]

/-- The members of a composite are laid out in slots. -/
theorem Members.laid (made : ∀ t ∈ types, ∀ e ∈ t.elements, e.Made) {version offset n : Nat}
    {members : List (String × Reference)} {tokens : List Token}
    (h : Members types version offset members tokens n)
    (hmade : ∀ m ∈ members, ∀ e ∈ m.2.elements, e.Made) (hbound : offset + n < 2 ^ 31) :
    ∃ slots, tokens = slots.flatMap (·.tokens) ∧ n = Slot.total slots ∧
      MembersLaid types offset members slots := by
  induction h with
  | nil offset => exact ⟨[], rfl, rfl, rfl, Slot.lieFrom_nil offset, by simp⟩
  | @leaf offset name r members t tokens rest n m found placed tail ih =>
      obtain ⟨hr, hmembers⟩ := List.forall_mem_cons.mp hmade
      obtain ⟨slots, rfl, rfl, hslots⟩ := ih hmembers (by omega)
      have helements := Reference.made_of_lookup made hr found
      obtain ⟨f, hlies⟩ := (Run.leaf placed).liesAt helements (by dsimp only; omega)
      exact ⟨⟨t, tokens, n⟩ :: slots, by simp, by simp,
        hslots.cons found hlies (typeLaid_of_leaf placed)⟩
  | @composite offset name r members c inner rest n m found nested tail ihNested ih =>
      obtain ⟨hr, hmembers⟩ := List.forall_mem_cons.mp hmade
      have helements := Reference.made_of_lookup made hr found
      have hinner : ∀ m ∈ c.members, ∀ e ∈ m.2.elements, e.Made :=
        fun m hm e he => helements e (List.mem_flatMap.mpr ⟨m, hm, he⟩)
      obtain ⟨parts, rfl, rfl, hparts⟩ := ihNested hinner (by omega)
      obtain ⟨slots, rfl, rfl, hslots⟩ := ih hmembers (by omega)
      have hrun : Run types (.composite c) { name, referencedName := r.stated, offset, version }
          (compositeRun _ (parts.flatMap (·.tokens)) (Slot.total parts)) (Slot.total parts) :=
        .composite nested
      obtain ⟨f, hlies⟩ := hrun.liesAt helements (by dsimp only; omega)
      exact ⟨⟨.composite c, compositeRun _ (parts.flatMap (·.tokens)) (Slot.total parts),
          Slot.total parts⟩ :: slots, by simp, by simp,
        hslots.cons found hlies (hparts.composite (by omega))⟩

theorem Run.laid (made : ∀ t ∈ types, ∀ e ∈ t.elements, e.Made) {t : NamedType} {p : Position}
    {tokens : List Token} {n : Nat} (run : Run types t p tokens n)
    (ht : ∀ e ∈ t.elements, e.Made) (hbound : n < 2 ^ 31) :
    TypeLaid types t p.constant.isSome tokens n := by
  cases run with
  | leaf placed => exact typeLaid_of_leaf placed
  | composite nested =>
      obtain ⟨slots, rfl, rfl, hslots⟩ :=
        nested.laid made (fun m hm e he => ht e (List.mem_flatMap.mpr ⟨m, hm, he⟩)) (by omega)
      exact hslots.composite hbound

/-! ### Fields -/

/-- The tokens of a field: those of its type, which lies where the field lies, between its own two. -/
inductive FieldLaid (types : List NamedType) (f : Field) : List Token → Nat → Prop
  | intro {t : NamedType} {first type last : Token} {rest : List Token} {n : Nat}
      (found : f.type.lookup types = .ok t) (run : IsRun .beginField first (type :: rest) last)
      (offset : type.offset = first.offset)
      (laid : TypeLaid types t f.constant.isSome (type :: rest) n) :
      FieldLaid types f (first :: (type :: rest ++ [last])) n

/-- The fields of a block of the given length are laid out in slots. -/
structure FieldsLaid (types : List NamedType) (offset : Nat) (fields : List Field)
    (slots : List (Slot Field)) : Prop where
  members : slots.map (·.member) = fields
  places : Slot.LieFrom offset slots
  fields : ∀ x ∈ slots, FieldLaid types x.member x.tokens x.length

theorem Field.tokens_laid (made : ∀ t ∈ types, ∀ e ∈ t.elements, e.Made) {f : Field}
    {offset n : Nat} {tokens : List Token} (h : f.tokens types offset = .ok (tokens, n))
    (hf : ∀ e ∈ f.type.elements, e.Made) (hbound : offset + n < 2 ^ 31) :
    (∃ w, (Slot.mk f tokens n).LiesAt offset w) ∧ FieldLaid types f tokens n := by
  rw [tokens_eq] at h
  simp only [bind_eq_ok, pure_eq_ok] at h
  obtain ⟨t, found, ⟨run, n⟩, hrun, h⟩ := h
  cases h
  have hrun := run_of_tokens hrun
  obtain ⟨first, inner, rfl, _, hstarts⟩ := hrun.starts
  have hread := IsReadAs.intro found hrun
  have hfits := hread.fits made hf hbound
  have hlaid := hrun.laid made (Reference.made_of_lookup made hf found) (by omega)
  constructor
  · refine ⟨_, Slot.liesAt_of_fits rfl (heads_wrap rfl) (.wrapped rfl) ?_ ?_ hfits⟩
    · simp only [opening]
      exact wrap32_of_lt (by omega)
    · simp only [opening]
      exact wrap32_of_lt (by omega)
  · refine .intro found ⟨rfl, rfl, rfl⟩ ?_ hlaid
    simp only [hstarts.offset, position, opening]

/-- The fields of a block are laid out in slots. -/
theorem fieldTokens_laid (made : ∀ t ∈ types, ∀ e ∈ t.elements, e.Made) :
    ∀ {fields : List Field} {offset n : Nat} {tokens : List Token},
      fieldTokens types offset fields = .ok (tokens, n) →
      (∀ f ∈ fields, ∀ e ∈ f.type.elements, e.Made) → offset + n < 2 ^ 31 →
      ∃ slots, tokens = slots.flatMap (·.tokens) ∧ n = Slot.total slots ∧
        FieldsLaid types offset fields slots
  | [], offset, _, _, h, _, _ => by
      cases h
      exact ⟨[], rfl, rfl, rfl, Slot.lieFrom_nil offset, by simp⟩
  | f :: fields, offset, _, _, h, hmade, hbound => by
      rw [fieldTokens] at h
      simp only [bind_eq_ok, pure_eq_ok] at h
      obtain ⟨⟨run, n⟩, hrun, ⟨rest, m⟩, hrest, h⟩ := h
      cases h
      obtain ⟨hf, hfields⟩ := List.forall_mem_cons.mp hmade
      obtain ⟨slots, rfl, rfl, hslots⟩ := fieldTokens_laid made hrest hfields (by omega)
      obtain ⟨⟨w, hlies⟩, hlaid⟩ := f.tokens_laid made hrun hf (by omega)
      refine ⟨⟨f, run, n⟩ :: slots, by simp, by simp, ?_, .cons hlies hslots.places, ?_⟩
      · rw [List.map_cons, hslots.members]
      · exact List.forall_mem_cons.mpr ⟨hlaid, hslots.fields⟩

/-! ### Var data -/

/-- The tokens of a var data member.  Its composite holds a length, and behind it bytes whose number
no token states. -/
inductive VarDataLaid (v : VarData) : List Token → Prop
  | intro {first head length data tail last : Token}
      (run : IsRun .beginVarData first [head, length, data, tail] last)
      (composite : IsRun .beginComposite head [length, data] tail)
      (leaves : ∀ t ∈ [length, data], t.IsLeaf .encoding) (lengthPlace : length.offset = 0)
      (lengthSize : length.encodedLength = v.lengthType.size)
      (dataPlace : data.offset = v.lengthType.size) :
      VarDataLaid v [first, head, length, data, tail, last]

theorem VarData.tokens_laid (v : VarData) : VarDataLaid v v.tokens := by
  refine .intro ⟨rfl, rfl, rfl⟩ ⟨rfl, rfl, rfl⟩ ?_ rfl rfl rfl
  intro t ht
  rcases List.mem_pair.mp ht with rfl | rfl <;> exact ⟨rfl, rfl⟩

theorem varDataTokens_laid (varData : List VarData) :
    List.Forall₂ VarDataLaid varData (varData.map VarData.tokens) := by
  rw [List.forall₂_map_right_iff, List.forall₂_same]
  exact fun v _ => v.tokens_laid

/-! ### Groups -/

namespace Group

def blockLengthType : Group → Primitive
  | .mk _ _ _ p _ _ _ _ => p

def numInGroupType : Group → Primitive
  | .mk _ _ _ _ q _ _ _ => q

def fields : Group → List Field
  | .mk _ _ _ _ _ fields _ _ => fields

def groups : Group → List Group
  | .mk _ _ _ _ _ _ groups _ => groups

def varData : Group → List VarData
  | .mk _ _ _ _ _ _ _ varData => varData

/-- The header of a group as a composite. -/
def header (g : Group) : Composite :=
  ⟨"groupSizeEncoding", [("blockLength", .inline (.ofPrimitive "blockLength" g.blockLengthType)),
    ("numInGroup", .inline (.ofPrimitive "numInGroup" g.numInGroupType))]⟩

end Group

theorem Element.encodedLength_ofPrimitive (name : String) (p : Primitive) :
    (Element.ofPrimitive name p).encodedLength = p.size := by
  change p.size * 1 = p.size
  exact Nat.mul_one _

theorem Primitive.size_le (p : Primitive) : p.size ≤ 8 := by
  cases p <;> decide

/-- The members of a group's header. -/
def headerTokens (since : Nat) (p q : Primitive) : List Token :=
  [(Element.ofPrimitive "blockLength" p).token { name := "blockLength", offset := 0, version := since },
    (Element.ofPrimitive "numInGroup" q).token
      { name := "numInGroup", offset := p.size, version := since }]

theorem Group.members_header (types : List NamedType) (g : Group) (since : Nat) :
    Members types since 0 g.header.members
      (headerTokens since g.blockLengthType g.numInGroupType)
      (g.blockLengthType.size + g.numInGroupType.size) := by
  have hplaced (name : String) (p : Primitive) (offset : Nat) :
      NamedType.tokens types 0 (.element (.ofPrimitive name p)) { name, offset, version := since }
        = .ok ([(Element.ofPrimitive name p).token { name, offset, version := since }], p.size) := by
    rw [NamedType.tokens_element, Element.encodedLength_ofPrimitive]
  have hnum := Members.leaf (r := .inline (.ofPrimitive "numInGroup" g.numInGroupType)) rfl
    (hplaced "numInGroup" g.numInGroupType (0 + g.blockLengthType.size)) (.nil _)
  have hboth := Members.leaf (r := .inline (.ofPrimitive "blockLength" g.blockLengthType)) rfl
    (hplaced "blockLength" g.blockLengthType 0) hnum
  rw [Nat.zero_add, Nat.add_zero] at hboth
  exact hboth

/-- The header of a group is laid out as a composite. -/
theorem Group.header_laid (made : ∀ t ∈ types, ∀ e ∈ t.elements, e.Made) (g : Group) (since : Nat) :
    TypeLaid types (.composite g.header) false
      (dimensionTokens since g.blockLengthType g.numInGroupType)
      (g.blockLengthType.size + g.numInGroupType.size) := by
  have hp := Primitive.size_le g.blockLengthType
  have hq := Primitive.size_le g.numInGroupType
  have hmade : ∀ m ∈ g.header.members, ∀ e ∈ m.2.elements, e.Made := by
    intro m hm e he
    rcases List.mem_pair.mp hm with rfl | rfl <;>
    · obtain rfl := List.mem_singleton.mp he
      exact .ofPrimitive _ _
  obtain ⟨slots, htokens, hlength, hslots⟩ :=
    (g.members_header types since).laid made hmade (by omega)
  obtain ⟨first, last, hrun, hdimension, hfirst⟩ : ∃ first last,
      IsRun .beginComposite first (headerTokens since g.blockLengthType g.numInGroupType) last ∧
      dimensionTokens since g.blockLengthType g.numInGroupType =
        first :: (headerTokens since g.blockLengthType g.numInGroupType ++ [last]) ∧
      first.encodedLength = (g.blockLengthType.size + g.numInGroupType.size : Nat) :=
    ⟨_, _, ⟨rfl, rfl, rfl⟩, rfl, rfl⟩
  rw [hdimension, htokens, hlength]
  rw [htokens] at hrun
  rw [hlength] at hfirst
  exact .composite hslots.lookups hrun hslots.places hfirst hslots.types

/-- A group with its tokens: its own, those of its header and of its body, and the last one. -/
structure GroupRun where
  group : Group
  first : Token
  header : List Token
  body : List Token
  last : Token

namespace GroupRun

def tokens (x : GroupRun) : List Token := x.first :: (x.header ++ x.body ++ [x.last])

/-- The group's own token counts the run, and the header is laid out as a composite. -/
structure IsFramed (types : List NamedType) (x : GroupRun) : Prop where
  run : IsRun .beginGroup x.first (x.header ++ x.body) x.last
  header : TypeLaid types (.composite x.group.header) false x.header
    (x.group.blockLengthType.size + x.group.numInGroupType.size)

end GroupRun

/-- The tokens of a body: of its fields, which lie from the start of the block on and take its length,
then of its groups, whose bodies are laid out in the same way, then of its var data. -/
inductive BodyLaid (types : List NamedType) :
    List Field → List Group → List VarData → Int → List Token → Prop
  | intro {fields : List Field} {groups : List Group} {varData : List VarData}
      {slots : List (Slot Field)} {runs : List GroupRun} {tails : List (List Token)}
      (fieldsLaid : FieldsLaid types 0 fields slots) (groups_eq : runs.map (·.group) = groups)
      (framed : ∀ x ∈ runs, x.IsFramed types)
      (nested : ∀ x ∈ runs, BodyLaid types x.group.fields x.group.groups x.group.varData
        x.first.encodedLength x.body)
      (varDataLaid : List.Forall₂ VarDataLaid varData tails) :
      BodyLaid types fields groups varData (Slot.total slots)
        (slots.flatMap (·.tokens) ++ runs.flatMap (·.tokens) ++ tails.flatten)

/-- The tokens of a group are a run around its body. -/
theorem exists_groupRun (made : ∀ t ∈ types, ∀ e ∈ t.elements, e.Made) (name : String) (id : Int)
    (since : Nat) (p q : Primitive) (fields : List Field) (groups : List Group)
    (varData : List VarData) (body : List Token) {n : Nat} (hn : n < 2 ^ 31) :
    ∃ x : GroupRun, x.group = .mk name id since p q fields groups varData ∧ x.body = body ∧
      x.tokens = wrap (groupOpening name id since n) (groupClosing name)
        (dimensionTokens since p q ++ body) ∧
      x.first.encodedLength = n ∧ x.IsFramed types := by
  let g : Group := .mk name id since p q fields groups varData
  let first : Token :=
    { groupOpening name id since n with span := (dimensionTokens since p q ++ body).length + 2 }
  have hlength : first.encodedLength = n := by
    simp only [first, groupOpening, wrap32_of_lt hn]
  exact ⟨⟨g, first, dimensionTokens since p q, body, groupClosing name⟩, rfl, rfl, rfl, hlength,
    ⟨rfl, rfl, rfl⟩, g.header_laid made since⟩

/-- The tokens of groups are runs around bodies. -/
theorem groupTokens_laid (made : ∀ t ∈ types, ∀ e ∈ t.elements, e.Made) :
    ∀ {groups : List Group} {tokens : List Token}, groupTokens types groups = .ok tokens →
      (∀ fields ∈ groupFieldLists groups, IsSound types fields) →
      ∃ runs : List GroupRun, tokens = runs.flatMap (·.tokens) ∧ runs.map (·.group) = groups ∧
        (∀ x ∈ runs, x.IsFramed types) ∧
        ∀ x ∈ runs, BodyLaid types x.group.fields x.group.groups x.group.varData
          x.first.encodedLength x.body
  | [], _, h, _ => by
      cases h
      exact ⟨[], rfl, rfl, by simp, by simp⟩
  | .mk name id since p q fields groups varData :: rest, _, h, sound => by
      rw [groupTokens, Group.tokens] at h
      simp only [bind_eq_ok, pure_eq_ok] at h
      obtain ⟨_, ⟨⟨fieldTs, n⟩, hfields, groupTs, hgroups, rfl⟩, restTs, hrest, rfl⟩ := h
      simp only [groupFieldLists, Group.fieldLists, List.cons_append, List.mem_cons,
        List.mem_append] at sound
      have own := sound fields (.inl rfl)
      have hn := own.short _ _ hfields
      obtain ⟨slots, rfl, rfl, hslots⟩ := fieldTokens_laid made hfields own.made (by omega)
      obtain ⟨inner, rfl, hinner, hframed, hnested⟩ :=
        groupTokens_laid made hgroups fun fs hfs => sound fs (.inr (.inl hfs))
      have hbody := BodyLaid.intro hslots hinner hframed hnested (varDataTokens_laid varData)
      rw [← List.flatMap_def] at hbody
      obtain ⟨runs, rfl, hruns, hframedRest, hnestedRest⟩ :=
        groupTokens_laid made hrest fun fs hfs => sound fs (.inr (.inr hfs))
      obtain ⟨x, hgroup, hxbody, hxtokens, hxlength, hxframed⟩ :=
        exists_groupRun made name id since p q fields groups varData _ hn
      refine ⟨x :: runs, ?_, ?_, List.forall_mem_cons.mpr ⟨hxframed, hframedRest⟩,
        List.forall_mem_cons.mpr ⟨?_, hnestedRest⟩⟩
      · rw [List.flatMap_cons, hxtokens, List.append_assoc (dimensionTokens since p q),
          List.append_assoc (dimensionTokens since p q)]
        rfl
      · rw [List.map_cons, hgroup, hruns]
      · rw [hgroup, hxlength, hxbody]
        exact hbody
termination_by groups => sizeOf groups

/-! ### Messages -/

/-- The tokens of a message are a run around its body. -/
inductive MessageLaid (types : List NamedType) (m : Message) : List Token → Prop
  | intro {first last : Token} {body : List Token} (run : IsRun .beginMessage first body last)
      (laid : BodyLaid types m.fields m.groups m.varData first.encodedLength body) :
      MessageLaid types m (first :: (body ++ [last]))

theorem Message.tokens_laid (made : ∀ t ∈ types, ∀ e ∈ t.elements, e.Made) {m : Message}
    {tokens : List Token} (h : m.tokens types = .ok tokens)
    (sound : ∀ fields ∈ m.fieldLists, IsSound types fields) : MessageLaid types m tokens := by
  unfold Message.tokens at h
  simp only [bind_eq_ok, pure_eq_ok] at h
  obtain ⟨⟨fieldTs, n⟩, hfields, groupTs, hgroups, rfl⟩ := h
  have own := sound m.fields List.mem_cons_self
  have hn := own.short _ _ hfields
  obtain ⟨slots, rfl, rfl, hslots⟩ := fieldTokens_laid made hfields own.made (by omega)
  obtain ⟨runs, rfl, hgroups, hframed, hnested⟩ :=
    groupTokens_laid made hgroups fun fs hfs => sound fs (List.mem_cons_of_mem _ hfs)
  have hbody := BodyLaid.intro hslots hgroups hframed hnested (varDataTokens_laid m.varData)
  rw [← List.flatMap_def] at hbody
  refine .intro ⟨rfl, rfl, rfl⟩ ?_
  simp only [wrap32_of_lt hn]
  exact hbody

end WireCodec.Definition
