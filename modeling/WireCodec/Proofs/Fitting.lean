import WireCodec.Proofs.Building
import WireCodec.Proofs.Consecutive
/-! # The members of a definition lie where it places them

The offset and the length that a definition gives to a field are those of the field's layout, provided
that lengths stay below `2 ^ 31` (`Run.fits`).  So the members of a composite follow each other
(`Members.abut`), and so do the fields of a message and of each of its groups
(`Content.generates`). -/

namespace WireCodec

/-! ### Single fields -/

theorem Primitive.size_pos (p : Primitive) : 0 < p.size := by
  cases p <;> decide

theorem Token.arrayLength_of_pos {t : Token} {p : Primitive} (hp : t.primitive = .ok p)
    (hpos : 0 < t.encodedLength) : t.arrayLength = max 1 (t.encodedLength.toNat / p.size) := by
  unfold arrayLength
  rw [Token.primitive_eq_ok_iff.mp hp]
  exact if_pos hpos

theorem Token.arrayLength_eq (t : Token) {p : Primitive} {length : Nat} (hp : t.primitive = .ok p)
    (hlength : t.encodedLength = (p.size * length : Nat)) (hpos : 0 < length) :
    t.arrayLength = length := by
  have hsize := Nat.mul_pos p.size_pos hpos
  rw [arrayLength_of_pos hp (by omega), hlength, Int.toNat_natCast,
    Nat.mul_div_cancel_left _ p.size_pos]
  exact Nat.max_eq_right hpos

namespace Field

variable {f : Field} {offset n : Nat} {p : Primitive}

theorem fits_of_kind (hplace : f.place = offset) (hkind : OnlyText f.kind)
    (hlength : ∀ kind, f.kind = .ok kind → kind.length f.type.encodedLength = n) :
    f.Fits offset n := by
  constructor
  · rw [layout_eq]
    exact hkind.map _
  · intro l hl
    obtain ⟨hk, hl⟩ := layout_eq_ok.mp hl
    rw [hl]
    exact ⟨hplace, hlength _ hk⟩

theorem fits_of_kind_eq {kind : FieldKind} (hplace : f.place = offset) (hkind : f.kind = .ok kind)
    (hlength : kind.length f.type.encodedLength = n) : f.Fits offset n := by
  refine fits_of_kind hplace ?_ ?_
  · rw [hkind]
    exact onlyText_ok _
  · intro kind' h
    rw [hkind] at h
    cases h
    exact hlength

theorem fits_constant (hs : f.type.signal = .encoding) (hp : f.type.primitive = .ok p)
    (hc : f.isConstant) (hvalue : (f.token.encoding.constant.or f.type.encoding.constant).isSome)
    (hplace : f.place = offset) : f.Fits offset 0 := by
  have hkind : f.kind = .constant <$> f.constant := by
    unfold kind
    rw [hs]
    exact if_pos hc
  refine fits_of_kind hplace ?_ ?_
  · rw [hkind]
    exact (onlyText_constant hp hvalue).map _
  · intro kind h
    rw [hkind] at h
    obtain ⟨_, _, rfl⟩ := map_eq_ok.mp h
    rfl

theorem fits_scalar {length : Nat} (hs : f.type.signal = .encoding) (hp : f.type.primitive = .ok p)
    (hc : ¬ f.isConstant) (hlength : f.type.encodedLength = (p.size * length : Nat)) (hpos : 0 < length)
    (hplace : f.place = offset) : f.Fits offset (p.size * length) := by
  have hkind : f.kind = (fun element : Scalar =>
      if f.type.arrayLength = 1 then FieldKind.scalar element
      else .array element f.type.arrayLength) <$> Scalar.ofToken f.type := by
    unfold kind
    rw [hs]
    exact if_neg hc
  have harray := f.type.arrayLength_eq hp hlength hpos
  refine fits_of_kind hplace ?_ ?_
  · rw [hkind]
    exact (Scalar.onlyText_ofToken hp).map _
  · intro kind h
    rw [hkind] at h
    obtain ⟨element, helement, rfl⟩ := map_eq_ok.mp h
    have hprimitive := Scalar.primitive_of_ofToken hp helement
    rw [harray]
    split
    next h1 => rw [FieldKind.length, hprimitive, h1, Nat.mul_one]
    next => rw [FieldKind.length, hprimitive]

theorem fits_variant (hs : f.type.signal = .beginEnum) (hc : f.isConstant)
    (hvalue : (f.token.encoding.constant.or f.type.encoding.constant).isSome)
    (hplace : f.place = offset) : f.Fits offset 0 := by
  obtain ⟨raw, hraw⟩ := Option.isSome_iff_exists.mp hvalue
  have hkind : f.kind = .ok (.constant (.variant (Name.type f.type.typeName)
      (Name.type (afterPoint raw)))) := by
    unfold kind constantLiteral
    rw [hs, hraw]
    exact if_pos hc
  exact fits_of_kind_eq hplace hkind rfl

theorem fits_enumeration (hs : f.type.signal = .beginEnum) (hp : f.type.primitive = .ok p)
    (hc : ¬ f.isConstant) (hplace : f.place = offset) : f.Fits offset p.size := by
  have hkind : f.kind = .ok (.enumeration (Name.type f.type.typeName) p) := by
    unfold kind
    rw [hs]
    refine (if_neg hc).trans ?_
    rw [hp]
    rfl
  exact fits_of_kind_eq hplace hkind rfl

theorem fits_bitSet (hs : f.type.signal = .beginSet) (hp : f.type.primitive = .ok p)
    (hplace : f.place = offset) : f.Fits offset p.size := by
  have hkind : f.kind = .ok (.bitSet (Name.type f.type.typeName) p) := by
    unfold kind
    rw [hs]
    dsimp only
    rw [hp]
    rfl
  exact fits_of_kind_eq hplace hkind rfl

theorem fits_composite (hs : f.type.signal = .beginComposite) (hlength : f.type.encodedLength = n)
    (hplace : f.place = offset) : f.Fits offset n := by
  have hkind : f.kind = .ok (.composite (Name.type f.type.typeName) f.type.typeName) := by
    unfold kind
    rw [hs]
  refine fits_of_kind_eq hplace hkind ?_
  rw [FieldKind.length, hlength, Int.toNat_natCast]

end Field

/-! ### Elements -/

namespace Definition

variable {types : List NamedType}

/-- The elements that can be built: a primitive value that is changed step by step. -/
inductive Element.Made : Element → Prop
  | ofPrimitive (name : String) (p : Primitive) : Made (.ofPrimitive name p)
  | array {e : Element} (h : Made e) (length : Nat) : Made { e with length := max length 1 }
  | optional {e : Element} (h : Made e) : Made { e with presence := .optional }
  | constant {e : Element} (h : Made e) (value : String) :
      Made { e with presence := .constant, constant := some value }
  | null {e : Element} (h : Made e) (value : String) : Made { e with null := some value }
  | minimum {e : Element} (h : Made e) (value : String) : Made { e with minimum := some value }
  | maximum {e : Element} (h : Made e) (value : String) : Made { e with maximum := some value }
  | characterEncoding {e : Element} (h : Made e) (encoding : String) :
      Made { e with characterEncoding := some encoding }
  | semanticType {e : Element} (h : Made e) (name : String) :
      Made { e with semanticType := some name }

theorem Element.Made.length_pos {e : Element} (h : e.Made) : 0 < e.length := by
  induction h with
  | ofPrimitive => exact Nat.one_pos
  | array _ length => exact Nat.lt_of_lt_of_le Nat.one_pos (Nat.le_max_right length 1)
  | _ => assumption

theorem Element.Made.isSome_constant {e : Element} (h : e.Made) (hp : e.presence = .constant) :
    e.constant.isSome := by
  induction h with
  | ofPrimitive => cases hp
  | optional => cases hp
  | constant => rfl
  | _ _ _ ih => exact ih hp

def Reference.elements : Reference → List Element
  | inline e => [e]
  | named _ => []

/-- The elements that a type consists of, apart from those of types it refers to. -/
def NamedType.elements : NamedType → List Element
  | element e => [e]
  | composite c => c.members.flatMap (·.2.elements)
  | _ => []

theorem mem_of_find {n : String} {t : NamedType} (h : find types n = .ok t) : t ∈ types := by
  unfold find at h
  split at h
  · rename_i t' ht'
    cases h
    exact List.mem_of_find?_eq_some ht'
  · cases h

theorem Reference.made_of_lookup {r : Reference} {t : NamedType}
    (made : ∀ t ∈ types, ∀ e ∈ t.elements, e.Made) (hr : ∀ e ∈ r.elements, e.Made)
    (h : r.lookup types = .ok t) : ∀ e ∈ t.elements, e.Made := by
  cases r with
  | inline e =>
      cases h
      exact hr
  | named n => exact made t (mem_of_find h)

/-! ### Runs -/

theorem wrap32_of_lt {n : Nat} (h : n < 2 ^ 31) : wrap32 n = n := by
  unfold wrap32
  rw [Int.bmod_eq_of_le] <;> omega

theorem place_eq {w : WireCodec.Field} {offset : Nat} (h : w.token.offset = wrap32 offset)
    (hbound : offset < 2 ^ 31) : w.place = offset := by
  rw [wrap32_of_lt hbound] at h
  unfold Field.place
  rw [if_pos (by omega), Token.blockOffset, h, Int.toNat_natCast]

theorem Element.fits {e : Element} {p : Position} {w : WireCodec.Field} {offset : Nat}
    (htype : w.type = e.token p)
    (hconstant : w.isConstant ↔ e.presence = .constant) (made : e.Made) (hplace : w.place = offset)
    (hlength : w.type.encodedLength = e.encodedLength) : w.Fits offset e.encodedLength := by
  have hs : w.type.signal = .encoding := by rw [htype]; rfl
  have hp : w.type.primitive = .ok e.primitive := by rw [htype]; rfl
  by_cases hc : e.presence = .constant
  · rw [show e.encodedLength = 0 from if_pos hc]
    refine WireCodec.Field.fits_constant hs hp (hconstant.mpr hc) ?_ hplace
    rw [htype, Option.isSome_or, Bool.or_eq_true]
    exact .inr (made.isSome_constant hc)
  · have hstored : e.encodedLength = e.primitive.size * e.length := if_neg hc
    rw [hstored] at hlength ⊢
    exact WireCodec.Field.fits_scalar hs hp (mt hconstant.mp hc) hlength made.length_pos hplace

/-- A field around a type lies where the type has been placed. -/
theorem Run.fits {t : NamedType} {p : Position} {first : Token} {inner : List Token}
    {w : WireCodec.Field} {offset n : Nat} (run : Run types t p (first :: inner) n)
    (htype : w.type = first) (hpresence : w.token.encoding.presence = first.encoding.presence)
    (hoffset : w.token.offset = wrap32 offset) (made : ∀ e ∈ t.elements, e.Made)
    (hbound : offset + n < 2 ^ 31) : w.Fits offset n := by
  have hplace : w.place = offset := place_eq hoffset (by omega)
  have hconstant : w.isConstant ↔ first.encoding.presence = .constant := by
    unfold WireCodec.Field.isConstant Token.isConstant
    rw [htype, hpresence, Bool.or_self, beq_iff_eq]
  obtain ⟨_, _, hcons, _, hstarts⟩ := run.starts
  obtain ⟨rfl, rfl⟩ := List.cons.inj hcons
  have hlength : w.type.encodedLength = n := by
    rw [htype, hstarts.encodedLength, wrap32_of_lt (by omega)]
  cases run with
  | leaf placed =>
      obtain ⟨e, rfl, heq, rfl⟩ | ⟨e, rfl, he⟩ | ⟨s, rfl, hs⟩ := leaf_eq_ok placed
      · obtain ⟨rfl, rfl⟩ := List.cons.inj heq
        exact e.fits htype hconstant (made e List.mem_cons_self) hplace hlength
      · obtain ⟨_, rfl, heq⟩ := Enumeration.tokens_eq_ok he
        obtain ⟨rfl, rfl⟩ := List.cons.inj heq
        have hs : w.type.signal = .beginEnum := by rw [htype]; rfl
        have hp : w.type.primitive = .ok e.primitive := by rw [htype]; rfl
        have hfixed : w.isConstant ↔ p.constant.isSome := by
          rw [hconstant]
          change (if p.constant.isSome then Presence.constant else .required) = .constant ↔ _
          split <;> simp [*]
        by_cases hc : p.constant.isSome
        · rw [if_pos hc]
          refine WireCodec.Field.fits_variant hs (hfixed.mpr hc) ?_ hplace
          rw [htype, Option.isSome_or, Bool.or_eq_true]
          exact .inr hc
        · rw [if_neg hc]
          exact WireCodec.Field.fits_enumeration hs hp (mt hfixed.mp hc) hplace
      · obtain ⟨heq, rfl⟩ := Prod.mk.inj hs
        obtain ⟨rfl, rfl⟩ := List.cons.inj heq
        exact WireCodec.Field.fits_bitSet (by rw [htype]; rfl) (by rw [htype]; rfl) hplace
  | composite nested =>
      exact WireCodec.Field.fits_composite (by rw [htype]; rfl) hlength hplace

/-! ### Members of composites -/

/-- The members of a composite are read as fields that follow each other. -/
theorem Members.abut (made : ∀ t ∈ types, ∀ e ∈ t.elements, e.Made) {version : Nat} :
    ∀ {members : List (String × Reference)} {offset n : Nat} {tokens : List Token},
      Members types version offset members tokens n → (∀ m ∈ members, ∀ e ∈ m.2.elements, e.Made) →
      offset + n < 2 ^ 31 → ∃ fields : List WireCodec.Field,
        Body.Reads .field tokens (fields.map .field) ∧ Abut offset fields n
  | [], offset, _, _, h, _, _ => by
      cases h
      exact ⟨[], .nil _, .nil offset⟩
  | (name, r) :: members, offset, _, _, h, hmade, hbound => by
      obtain ⟨t, run, rest, k, m, found, hrun, tail, rfl, rfl⟩ := h.of_cons
      obtain ⟨first, inner, rfl, hheads, hstarts⟩ := hrun.starts
      obtain ⟨fields, hreads, habut⟩ :=
        tail.abut made (fun x hx => hmade x (List.mem_cons_of_mem _ hx)) (by omega)
      have hmember := Reference.made_of_lookup made (hmade _ List.mem_cons_self) found
      refine ⟨⟨first, first, first :: inner⟩ :: fields, ?_, .cons ?_ habut⟩
      · exact .field hheads (.bare hstarts.isType) hreads
      · exact hrun.fits rfl rfl hstarts.offset hmember (by omega)

/-! ### Fields of blocks -/

theorem Field.IsReadAs.fits (made : ∀ t ∈ types, ∀ e ∈ t.elements, e.Made) {f : Field}
    {offset n : Nat} {w : WireCodec.Field} (h : f.IsReadAs types offset n w)
    (hf : ∀ e ∈ f.type.elements, e.Made) (hbound : offset + n < 2 ^ 31) : w.Fits offset n := by
  cases h with
  | intro found run =>
      refine run.fits rfl rfl ?_ (Reference.made_of_lookup made hf found) hbound
      simp only [Field.opening]

theorem Content.abut (made : ∀ t ∈ types, ∀ e ∈ t.elements, e.Made) {offset n : Nat}
    {fields : List Field} {groups : List Group} {varData : List VarData} {body : Body}
    (h : Content types offset fields groups varData n body)
    (hfields : ∀ f ∈ fields, ∀ e ∈ f.type.elements, e.Made) (hbound : offset + n < 2 ^ 31) :
    Abut offset body.fields n := by
  induction h with
  | nil offset => exact .nil offset
  | field read tail ih =>
      refine .cons ?_ (ih (fun f hf => hfields f (List.mem_cons_of_mem _ hf)) (by omega))
      exact read.fits made (hfields _ List.mem_cons_self) (by omega)
  | group laid read nested tail ihNested ihTail => exact ihTail hfields hbound
  | varData read tail ih => exact ih hfields hbound

/-! ### Groups and var data -/

mutual
/-- The fields of a group, and those of all groups within it. -/
def Group.fieldLists : Group → List (List Field)
  | .mk _ _ _ _ _ fields groups _ => fields :: groupFieldLists groups

def groupFieldLists : List Group → List (List Field)
  | [] => []
  | g :: gs => g.fieldLists ++ groupFieldLists gs
end

/-- The fields of a block are built, and the block is no longer than can be stated. -/
structure IsSound (types : List NamedType) (fields : List Field) : Prop where
  made : ∀ f ∈ fields, ∀ e ∈ f.type.elements, e.Made
  short : ∀ tokens n, fieldTokens types 0 fields = .ok (tokens, n) → n < 2 ^ 31

theorem HeadReadAs.layout_isOk {name : String} {id : Int} {since n : Nat} {p q : Primitive}
    {head : GroupHead} (h : HeadReadAs name id since p q n head) (hn : n < 2 ^ 31) :
    ∃ g, head.layout = .ok g ∧ g.blockLength = n := by
  have hlength : head.token.encodedLength = n := by
    rw [h.length, wrap32_of_lt hn]
  have hsize : ∃ size, head.size = .ok size := by
    unfold GroupHead.size Token.headerEnd
    rw [h.blockLength, h.numInGroup]
    exact ⟨_, rfl⟩
  obtain ⟨size, hsize⟩ := hsize
  refine ⟨_, GroupHead.layout_eq_ok.mpr ⟨by omega, p, q, size, h.blockLength, h.numInGroup, hsize, rfl⟩,
    ?_⟩
  dsimp only
  rw [hlength, Int.toNat_natCast]

theorem Content.generates (made : ∀ t ∈ types, ∀ e ∈ t.elements, e.Made) {offset n : Nat}
    {fields : List Field} {groups : List Group} {varData : List VarData} {body : Body}
    (h : Content types offset fields groups varData n body)
    (sound : ∀ fields ∈ groupFieldLists groups, IsSound types fields) : body.Generates := by
  induction h with
  | nil =>
      refine ⟨fun g hg => (nomatch hg), fun v hv => (nomatch hv), fun side enclosing => ?_⟩
      rw [Codec.renderGroups]
      exact onlyText_ok []
  | field read tail ih =>
      have h := ih sound
      refine ⟨h.groups, h.varData, fun side enclosing => ?_⟩
      rw [Codec.renderGroups_field]
      exact h.codecs side enclosing
  | @group _ _ _ _ _ _ fields groups _ _ _ _ head n members body laid read nested tail ihNested ihTail =>
      simp only [groupFieldLists, Group.fieldLists, List.cons_append, List.mem_cons,
        List.mem_append] at sound
      have own := sound fields (.inl rfl)
      have hn := own.short _ _ laid
      have inner := ihNested fun fs hfs => sound fs (.inr (.inl hfs))
      have rest := ihTail fun fs hfs => sound fs (.inr (.inr hfs))
      have habut : Abut 0 members.fields n := nested.abut made own.made (by omega)
      obtain ⟨g, hg, hlength⟩ := read.layout_isOk hn
      have hhead : OnlyText head.layout := by
        rw [hg]
        exact onlyText_ok g
      refine ⟨fun g hg => ?_, rest.varData, fun side enclosing => ?_⟩
      · rcases List.mem_cons.mp hg with rfl | hg
        · exact hhead
        · exact rest.groups g hg
      · rw [Codec.renderGroups]
        refine hhead.bind fun g' hg' => ?_
        obtain rfl := Except.ok.inj (hg.symm.trans hg')
        refine OnlyText.bind ?_ fun accessors _ => ?_
        · rw [hlength]
          exact Codec.onlyText_body habut inner
        refine (inner.codecs side _).bind fun nested _ => ?_
        exact (rest.codecs side enclosing).bind fun others _ => onlyText_ok _
  | varData read tail ih =>
      have h := ih sound
      refine ⟨h.groups, fun v hv => ?_, fun side enclosing => ?_⟩
      · rcases List.mem_cons.mp hv with rfl | hv
        · exact WireCodec.VarData.onlyText_layout read.length
        · exact h.varData v hv
      · rw [Codec.renderGroups_varData]
        exact h.codecs side enclosing

end Definition
end WireCodec
