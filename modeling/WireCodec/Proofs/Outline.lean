import WireCodec.Proofs.Building
/-! # Definitions are recovered from their tokens

The outline of a body lists what its members state: names, numbers, versions, and the types that head
groups and var data, for groups together with the outline of their own members.  The outline of a
definition lists the same of its fields, groups and var data.

Laying out a definition and finding the members of the result keeps the outline of every message
(`outline_of_schema`). -/

namespace WireCodec

/-- What a member states. -/
inductive Outline
  /-- `since` is the version of the field's own token, `version` the later of it and its type's. -/
  | field (name : String) (id : Int) (since version : Nat) (type : String)
  | group (name : String) (id : Int) (since : Nat) (blockLength numInGroup : Option Primitive)
      (members : List Outline)
  | varData (name : String) (id : Int) (since : Nat) (length : Option Primitive)
      (characterEncoding : Option String)
  deriving Repr

/-! ### Bodies -/

mutual
/-- The outline of a member and of all that it holds. -/
def Member.outline : Member → Outline
  | .field f => .field f.token.name f.token.id f.token.version f.version f.type.name
  | .group head members =>
    .group head.token.name head.token.id head.token.version head.blockLength.encoding.primitive
      head.numInGroup.encoding.primitive (Body.outline members)
  | .varData v =>
    .varData v.token.name v.token.id v.token.version v.length.encoding.primitive
      v.data.encoding.characterEncoding

/-- The outline of the members of a body, in their order. -/
def Body.outline : List Member → List Outline
  | [] => []
  | m :: ms => m.outline :: Body.outline ms
end

/-! ### Definitions -/

namespace Definition

def Reference.typeName : Reference → String
  | inline e => e.name
  | named n => n

def Field.outline (f : Field) : Outline := .field f.name f.id f.since f.since f.type.typeName

def VarData.outline (v : VarData) : Outline :=
  .varData v.name v.id v.since (some v.lengthType) v.characterEncoding

mutual
/-- The outline of a group and of all that it holds. -/
def Group.outline : Group → Outline
  | .mk name id since blockLengthType numInGroupType fields groups varData =>
    .group name id since (some blockLengthType) (some numInGroupType)
      (fields.map Field.outline ++ groupOutlines groups ++ varData.map VarData.outline)

def groupOutlines : List Group → List Outline
  | [] => []
  | g :: gs => g.outline :: groupOutlines gs
end

/-- The outline of what a message holds: fields, then groups, then var data. -/
def Message.outline (m : Message) : List Outline :=
  m.fields.map Field.outline ++ groupOutlines m.groups ++ m.varData.map VarData.outline

variable {types : List NamedType}

theorem Reference.name_of_lookup {r : Reference} {t : NamedType} (h : r.lookup types = .ok t) :
    t.name = r.typeName := by
  cases r with
  | inline e =>
      cases h
      rfl
  | named n => exact name_of_find h

theorem Field.IsReadAs.outline_eq {f : Field} {offset n : Nat} {w : WireCodec.Field}
    (h : f.IsReadAs types offset n w) : (Member.field w).outline = f.outline := by
  cases h with
  | @intro t first inner found run =>
      obtain ⟨_, _, hcons, _, hstarts⟩ := run.starts
      cases hcons
      have hname : first.name = f.type.typeName :=
        hstarts.name.trans (Reference.name_of_lookup found)
      have hversion : max f.since first.version = f.since := by
        rw [hstarts.version]
        exact Nat.max_self f.since
      simp only [Member.outline, Field.outline, WireCodec.Field.version, Field.opening, hname,
        hversion]

theorem HeadReadAs.outline_eq {name : String} {id : Int} {since n : Nat} {p q : Primitive}
    {head : GroupHead} (h : HeadReadAs name id since p q n head) (members : Body) :
    (Member.group head members).outline
      = .group name id since (some p) (some q) (Body.outline members) := by
  rw [Member.outline, h.name, h.id, h.since, Token.primitive_eq_ok_iff.mp h.blockLength,
    Token.primitive_eq_ok_iff.mp h.numInGroup]

theorem VarData.ReadAs.outline_eq {v : VarData} {w : WireCodec.VarData} (h : v.ReadAs w) :
    (Member.varData w).outline = v.outline := by
  rw [Member.outline, VarData.outline, h.name, h.id, h.since, Token.primitive_eq_ok_iff.mp h.length,
    h.characterEncoding]

theorem Content.outline_eq {offset n : Nat} {fields : List Field} {groups : List Group}
    {varData : List VarData} {body : Body} (h : Content types offset fields groups varData n body) :
    Body.outline body
      = fields.map Field.outline ++ groupOutlines groups ++ varData.map VarData.outline := by
  induction h with
  | nil => rfl
  | field read tail ih =>
      rw [Body.outline, ih, read.outline_eq]
      rfl
  | group laid read nested tail ihNested ihTail =>
      rw [Body.outline, ihTail, read.outline_eq, ihNested]
      rfl
  | varData read tail ih =>
      rw [Body.outline, ih, read.outline_eq]
      rfl

/-! ### Schemas -/

/-- **Definitions are recovered.** The members of a message that a definition lays out can be found,
and they are those of the definition: as many, in the same order, and to any depth of groups. -/
theorem outline_of_schema {d : Definition} {s : Schema} (h : d.schema = .ok s) (i : Nat) (m : Message)
    (hm : d.messages[i]? = some m) :
    ∃ run token body, s.messages[i]? = some run ∧ Body.ofMessage run = .ok (token, body) ∧
      token.name = m.name ∧ token.id = m.id ∧ Body.outline body = m.outline := by
  have hmessages := mapM_eq_ok.mp (schema_eq_ok h).2
  obtain ⟨hi, rfl⟩ := List.getElem?_eq_some_iff.mp hm
  have hi' : i < s.messages.length := by rwa [← hmessages.length_eq]
  have hrun := hmessages.get hi hi'
  obtain ⟨_, n, span, body, _, hread, hcontent⟩ := Message.content_of_tokens hrun
  exact ⟨_, _, body, List.getElem?_eq_getElem hi', hread, rfl, rfl, hcontent.outline_eq⟩

namespace Order

/-- A composite that is referred to. -/
def price : NamedType :=
  .composite ⟨"Price", [("mantissa", .inline (.ofPrimitive "int64" .int64)), ("side", .named "Side")]⟩

def side : NamedType := .enumeration ⟨"Side", .char, [("Buy", "B"), ("Sell", "S")]⟩

/-- A group in a group, with var data in either. -/
def legs : Group :=
  .mk "legs" 10 2 .uint16 .uint8 [{ name := "price", id := 11, type := .named "Price", since := 3 }]
    [.mk "fills" 12 2 .uint32 .uint16
      [{ name := "side", id := 13, type := .named "Side", constant := some "Side.Buy" }] []
      [{ name := "venue", id := 14, lengthType := .uint8, characterEncoding := some "UTF-8" }]]
    [{ name := "note", id := 15, since := 2 }]

def definition : Definition :=
  { packageName := "demo", types := [price, side]
    messages := [{
      name := "Order", id := 1, groups := [legs]
      fields := [
        { name := "price", id := 2, type := .named "Price" },
        { name := "quantity", id := 3, type := .inline (.ofPrimitive "uint32" .uint32), since := 1 }] }] }

end Order

/-- An order is recovered with its legs, and the fills of these. -/
theorem outline_of_schema_order :
    ∃ s run token body, Order.definition.schema = .ok s ∧ s.messages[0]? = some run ∧
      Body.ofMessage run = .ok (token, body) ∧ token.name = "Order" ∧ token.id = 1 ∧
      Body.outline body =
        [.field "price" 2 0 0 "Price", .field "quantity" 3 1 1 "uint32",
          .group "legs" 10 2 (some .uint16) (some .uint8)
            [.field "price" 11 3 3 "Price",
              .group "fills" 12 2 (some .uint32) (some .uint16)
                [.field "side" 13 0 0 "Side", .varData "venue" 14 0 (some .uint8) (some "UTF-8")],
              .varData "note" 15 2 (some .uint16) none]] := by
  obtain ⟨s, hs⟩ : ∃ s, Order.definition.schema = .ok s := ⟨_, rfl⟩
  obtain ⟨run, token, body, hrun, hbody, hname, hid, houtline⟩ := outline_of_schema hs 0 _ rfl
  exact ⟨s, run, token, body, hs, hrun, hbody, hname, hid, houtline⟩

end Definition
end WireCodec
