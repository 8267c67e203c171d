import WireCodec.Proofs.TypeRun
/-! # How definitions are read back

`Content types offset fields groups varData length body` says that a body consists of members for the
fields, groups and var data of a definition, in this order, and that the fields lie one behind the
other from `offset` on and take `length` bytes.  It has one rule for each kind of member.
`Message.content_of_tokens` proves that the tokens of a message are read as such a body. -/

namespace WireCodec.Definition

variable {types : List NamedType}

/-! ### Fields -/

namespace Field

/-- Where the type of a field stands. -/
def position (f : Field) (typeName : String) (offset : Nat) : Position :=
  { name := typeName, offset, version := f.since, constant := f.constant }

/-- The opening token of a field around a type with the given encoding. -/
def opening (f : Field) (offset length : Nat) (type : Encoding) : Token where
  signal := .beginField
  name := f.name
  id := f.id
  offset := wrap32 offset
  version := f.since
  encodedLength := wrap32 length
  encoding :=
    { presence := type.presence
      constant := f.constant.or (if type.presence = .constant then type.constant else none) }

def closing (f : Field) : Token := { signal := .endField, name := f.name, version := f.since }

theorem tokens_eq (f : Field) (offset : Nat) :
    f.tokens types offset = (do
      let t ← f.type.lookup types
      let (inner, length) ← t.outerTokens types (f.position t.name offset)
      return (wrap (f.opening offset length ((inner.head?.map Token.encoding).getD {}))
        f.closing inner, length)) := by
  unfold tokens
  cases f.type with
  | inline e => rfl
  | named n =>
      simp only [Reference.lookup]
      rfl

/-- A field around its type, as it is read back. -/
inductive IsReadAs (types : List NamedType) (f : Field) (offset length : Nat) : WireCodec.Field → Prop
  | intro {t : NamedType} {first : Token} {inner : List Token} (found : f.type.lookup types = .ok t)
      (run : Run types t (f.position t.name offset) (first :: inner) length) :
      IsReadAs types f offset length
        ⟨{ f.opening offset length first.encoding with span := (first :: inner).length + 2 },
          first, first :: inner⟩

theorem read_of_tokens {f : Field} {offset length : Nat} {tokens : List Token}
    (h : f.tokens types offset = .ok (tokens, length)) :
    ∃ w, IsReadAs types f offset length w ∧ ∃ inner,
      tokens = w.token :: inner ∧ w.token.Heads inner ∧ Field.Spans w.token inner w := by
  rw [tokens_eq] at h
  simp only [bind_eq_ok, pure_eq_ok] at h
  obtain ⟨t, found, ⟨run, n⟩, hrun, h⟩ := h
  cases h
  have hrun := run_of_tokens hrun
  obtain ⟨first, inner, rfl, _, _⟩ := hrun.starts
  exact ⟨_, .intro found hrun, _, rfl, heads_wrap rfl, .wrapped rfl⟩

end Field

/-! ### Groups -/

/-- What is read back of a group, apart from its members. -/
structure HeadReadAs (name : String) (id : Int) (since : Nat) (blockLength numInGroup : Primitive)
    (length : Nat) (head : GroupHead) : Prop where
  name : head.token.name = name
  id : head.token.id = id
  since : head.token.version = since
  length : head.token.encodedLength = wrap32 length
  blockLength : head.blockLength.primitive = .ok blockLength
  numInGroup : head.numInGroup.primitive = .ok numInGroup

/-- The opening token of a group. -/
def groupOpening (name : String) (id : Int) (since length : Nat) : Token :=
  { signal := .beginGroup, name, id, version := since, encodedLength := wrap32 length }

def groupClosing (name : String) : Token := { signal := .endGroup, name }

theorem read_groupHead (name : String) (id : Int) (since length : Nat) (p q : Primitive) (span : Nat)
    {rest : List Token} (hrest : rest ≠ []) :
    ∃ head, Member.groupHead ({ groupOpening name id since length with span } ::
        (dimensionTokens since p q ++ rest)) = .ok head ∧
      HeadReadAs name id since p q length head := by
  obtain ⟨t, rest, rfl⟩ := List.exists_cons_of_ne_nil hrest
  refine ⟨_, rfl, ?_⟩
  exact ⟨rfl, rfl, rfl, by simp only [groupOpening], rfl, rfl⟩

theorem groupInner_dimensionTokens (t : Token) (since : Nat) (p q : Primitive) (inner : List Token)
    (closing : Token) :
    Member.groupInner (t :: (dimensionTokens since p q ++ (inner ++ [closing]))) = inner := by
  unfold Member.groupInner
  have h : (dimensionTokens since p q).length = 4 := rfl
  rw [List.drop_succ_cons, ← h, List.drop_left, List.dropLast_concat]

theorem read_of_groupTokens {name : String} {id : Int} {since length : Nat} {p q : Primitive}
    {content : List Token} {members : Body} (hmembers : Body.Reads .field content members) :
    ∃ head, HeadReadAs name id since p q length head ∧ ∀ {rest : List Token} {body : Body},
      Body.Reads .group rest body →
        Body.Reads .group (wrap (groupOpening name id since length) (groupClosing name)
          (dimensionTokens since p q ++ content) ++ rest) (.group head members :: body) := by
  have hne : content ++ [groupClosing name] ≠ [] := by simp
  obtain ⟨head, hhead, hread⟩ := read_groupHead name id since length p q
    ((dimensionTokens since p q ++ content).length + 2) hne
  refine ⟨head, hread, fun {rest body} hbody => ?_⟩
  have hheads : ({ groupOpening name id since length with
      span := (dimensionTokens since p q ++ content).length + 2 } : Token).Heads
        (dimensionTokens since p q ++ content ++ [groupClosing name]) := heads_wrap rfl
  unfold wrap
  rw [List.cons_append]
  rw [List.append_assoc (dimensionTokens since p q)] at hheads ⊢
  refine .group rfl hheads (Nat.le_refl _) hhead ?_ hbody
  rwa [groupInner_dimensionTokens]

/-! ### Var data -/

/-- What is read back of a var data member. -/
structure VarData.ReadAs (v : VarData) (w : WireCodec.VarData) : Prop where
  name : w.token.name = v.name
  id : w.token.id = v.id
  since : w.token.version = v.since
  length : w.length.primitive = .ok v.lengthType
  characterEncoding : w.data.encoding.characterEncoding = v.characterEncoding

theorem VarData.read_tokens (v : VarData) :
    ∃ w inner, Member.varDataOfRun v.tokens = .ok w ∧ v.ReadAs w ∧ v.tokens = w.token :: inner ∧
      w.token.signal = .beginVarData ∧ w.token.Heads inner :=
  ⟨_, _, rfl, ⟨rfl, rfl, rfl, rfl, rfl⟩, rfl, rfl, heads_wrap rfl⟩

/-! ### Bodies -/

/-- The body that is read back of fields, groups and var data; the fields lie one behind the other
from `offset` on and take `length` bytes. -/
inductive Content (types : List NamedType) :
    Nat → List Field → List Group → List VarData → Nat → Body → Prop
  | nil (offset : Nat) : Content types offset [] [] [] 0 []
  | field {offset : Nat} {f : Field} {fields : List Field} {groups : List Group}
      {varData : List VarData} {w : WireCodec.Field} {n m : Nat} {body : Body}
      (read : f.IsReadAs types offset n w)
      (tail : Content types (offset + n) fields groups varData m body) :
      Content types offset (f :: fields) groups varData (n + m) (.field w :: body)
  | group {offset : Nat} {name : String} {id : Int} {since : Nat} {p q : Primitive}
      {fields : List Field} {groups rest : List Group} {inner varData : List VarData}
      {tokens : List Token} {head : GroupHead} {n : Nat} {members body : Body}
      (laid : fieldTokens types 0 fields = .ok (tokens, n))
      (read : HeadReadAs name id since p q n head)
      (nested : Content types 0 fields groups inner n members)
      (tail : Content types offset [] rest varData 0 body) :
      Content types offset [] (.mk name id since p q fields groups inner :: rest) varData 0
        (.group head members :: body)
  | varData {offset : Nat} {v : VarData} {rest : List VarData} {w : WireCodec.VarData} {body : Body}
      (read : v.ReadAs w) (tail : Content types offset [] [] rest 0 body) :
      Content types offset [] [] (v :: rest) 0 (.varData w :: body)

theorem content_of_varData (types : List NamedType) : ∀ varData : List VarData, ∃ body,
    (∀ offset, Content types offset [] [] varData 0 body) ∧
      Body.Reads .varData (varData.flatMap VarData.tokens) body
  | [] => ⟨[], .nil, .nil _⟩
  | v :: rest => by
      obtain ⟨w, inner, shape, read, htokens, hsignal, hheads⟩ := v.read_tokens
      obtain ⟨body, hcontent, hreads⟩ := content_of_varData types rest
      refine ⟨_, fun offset => .varData read (hcontent offset), ?_⟩
      rw [List.flatMap_cons, htokens, List.cons_append]
      exact .varData hsignal hheads (by rwa [← htokens]) hreads

theorem content_of_fieldTokens {groups : List Group} {varData : List VarData} {rest : List Token}
    {body : Body} (hcontent : ∀ offset, Content types offset [] groups varData 0 body)
    (hreads : Body.Reads .field rest body) :
    ∀ {fields : List Field} {offset n : Nat} {tokens : List Token},
      fieldTokens types offset fields = .ok (tokens, n) → ∃ body,
        Content types offset fields groups varData n body ∧ Body.Reads .field (tokens ++ rest) body
  | [], offset, _, _, h => by
      cases h
      exact ⟨body, hcontent offset, hreads⟩
  | f :: fields, offset, _, _, h => by
      rw [fieldTokens] at h
      simp only [bind_eq_ok, pure_eq_ok] at h
      obtain ⟨⟨ts, n⟩, hts, ⟨tail, m⟩, htail, h⟩ := h
      cases h
      obtain ⟨w, hread, inner, rfl, hheads, hspans⟩ := Field.read_of_tokens hts
      obtain ⟨body', hcontent', hreads'⟩ := content_of_fieldTokens hcontent hreads htail
      refine ⟨_, .field hread hcontent', ?_⟩
      rw [List.append_assoc, List.cons_append]
      exact .field hheads hspans hreads'

theorem content_of_groupTokens (varData : List VarData) : ∀ {groups : List Group} {tokens : List Token},
    groupTokens types groups = .ok tokens → ∃ body,
      (∀ offset, Content types offset [] groups varData 0 body) ∧
        Body.Reads .group (tokens ++ varData.flatMap VarData.tokens) body
  | [], _, h => by
      cases h
      obtain ⟨body, hcontent, hreads⟩ := content_of_varData types varData
      exact ⟨body, hcontent, hreads.weaken (by decide)⟩
  | .mk name id since p q fields groups inner :: rest, _, h => by
      rw [groupTokens, Group.tokens] at h
      simp only [bind_eq_ok, pure_eq_ok] at h
      obtain ⟨_, ⟨⟨fieldTs, n⟩, hfields, groupTs, hgroups, rfl⟩, restTs, hrest, rfl⟩ := h
      obtain ⟨_, hinner, hreads⟩ := content_of_groupTokens inner hgroups
      obtain ⟨members, hmembers, hreadsMembers⟩ :=
        content_of_fieldTokens hinner (hreads.weaken (Nat.zero_le _)) hfields
      obtain ⟨body, hbody, hreadsBody⟩ := content_of_groupTokens varData hrest
      obtain ⟨head, hhead, hgroup⟩ := read_of_groupTokens hreadsMembers
      refine ⟨_, fun offset => .group hfields hhead hmembers (hbody offset), ?_⟩
      rw [List.append_assoc, List.append_assoc (dimensionTokens since p q),
        List.append_assoc (dimensionTokens since p q), List.append_assoc fieldTs]
      exact hgroup hreadsBody
termination_by groups => sizeOf groups

/-- The opening token of a message. -/
def Message.opening (m : Message) (length : Nat) : Token :=
  { signal := .beginMessage, name := m.name, id := m.id, offset := 0, encodedLength := wrap32 length }

def Message.closing (m : Message) : Token := { signal := .endMessage, name := m.name }

theorem Message.content_of_tokens {m : Message} {run : List Token} (h : m.tokens types = .ok run) :
    ∃ fieldTs n span body, fieldTokens types 0 m.fields = .ok (fieldTs, n) ∧
      Body.ofMessage run = .ok ({ m.opening n with span }, body) ∧
      Content types 0 m.fields m.groups m.varData n body := by
  unfold Message.tokens at h
  simp only [bind_eq_ok, pure_eq_ok] at h
  obtain ⟨⟨fieldTs, n⟩, hfields, groupTs, hgroups, rfl⟩ := h
  obtain ⟨_, hinner, hreads⟩ := content_of_groupTokens m.varData hgroups
  obtain ⟨body, hbody, hreadsBody⟩ :=
    content_of_fieldTokens hinner (hreads.weaken (Nat.zero_le _)) hfields
  rw [← List.append_assoc] at hreadsBody
  have hclosing : (m.opening n).signal.closing = some m.closing.signal := rfl
  exact ⟨fieldTs, n, _, body, hfields,
    Body.ofMessage_eq_ok_iff.mpr (encloses_wrap hclosing hreadsBody), hbody⟩

/-! ### Schemas -/

theorem schema_eq_ok {d : Definition} {s : Schema} (h : d.schema = .ok s) :
    d.allTypes.mapM (fun t =>
        (t.outerTokens d.allTypes { name := t.name, offset := 0, version := 0 }).map (·.1))
      = .ok s.types ∧
    d.messages.mapM (Message.tokens d.allTypes) = .ok s.messages := by
  unfold schema at h
  simp only [bind_eq_ok, pure_eq_ok] at h
  obtain ⟨types, htypes, messages, hmessages, rfl⟩ := h
  exact ⟨htypes, hmessages⟩

end WireCodec.Definition
