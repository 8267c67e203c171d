import WireCodec.Proofs.Emitted
import WireCodec.Proofs.TextFault
import WireCodec.Proofs.Trees.Units
/-! # Units of tidy code

The code of every unit is tidy where the names of the schema are well spelled
(`Generator.isTidy_of_modules`), and so is the root that declares the units
(`Codec.tidy_declaringRoot`). -/

namespace WireCodec

open Code (AllTidy Leads spaced)
open Text (Fits IsWord IsLine IsCodeLine Unbroken)

variable {slash : Prop}

namespace Codec

theorem tidy_braces {heading : String} {body : List Code} (hh : IsWord slash heading)
    (hb : AllTidy (IsLine slash) body) : AllTidy (IsLine slash) [Code.braces heading body] := by
  simp (disch := first | exact ⟨_, rfl, rfl⟩ | fail) [hh, hb]

theorem tidy_useSuper {code : List Code} (h : AllTidy (IsLine slash) code) :
    AllTidy (IsLine slash) (spaced [["use super::*;"], code]) := by
  simp (disch := first | exact ⟨_, rfl, rfl⟩ | fail) [h]

theorem tidy_module (side : Side) {body : List Code} (h : AllTidy (IsLine slash) body) :
    AllTidy (IsLine slash) [Code.braces s!"pub mod {side.module}" body] := by
  refine tidy_braces ?_ h
  cases side <;> simp (disch := first | exact ⟨_, rfl, rfl⟩ | fail) [Side.module]

/-! ### Composites -/

namespace Composite

/-- The names in a composite are words. -/
structure IsSpelled (slash : Prop) (c : Composite) : Prop where
  name : IsWord slash c.name
  members : ∀ m ∈ c.members, m.IsSpelled slash

theorem isSpelled_of_ofType {t : NamedType} {first : Token} {c : Composite}
    (h : ofType t first = .ok c) (ht : t.IsSpelled (Fits slash)) : c.IsSpelled slash := by
  simp only [ofType, membersOf, bind_eq_ok, pure_eq_ok] at h
  obtain ⟨_, ⟨body, hbody, members, hmembers, _, _, rfl⟩, rfl⟩ := h
  obtain ⟨⟨token, hrun⟩, _⟩ := Body.ofComposite_eq_ok_iff.mp hbody
  obtain ⟨raw, hraw, rfl⟩ := mapM_layout_within.mp hmembers
  exact ⟨Name.isWord_type ht.name,
    Field.isSpelled_of_layouts hraw (hrun.consists ht.run).2.forall_fields _⟩

theorem isWord_valueType {f : FieldLayout} (hf : f.IsSpelled slash) :
    IsWord slash (valueType f.kind) := by
  have hkind := hf.kind
  cases hk : f.kind <;> rw [hk] at hkind <;> unfold valueType
  case enumeration | bitSet | composite => exact hkind
  all_goals simp (disch := first | exact ⟨_, rfl, rfl⟩ | fail)

theorem isWord_readMember {f : FieldLayout} (hf : f.IsSpelled slash) :
    IsWord slash (renderPieces (readMember f)) := by
  have hkind := hf.kind
  cases hk : f.kind <;> rw [hk] at hkind <;> simp only [readMember, hk]
  case enumeration t p | bitSet t p | composite t n =>
    have ht : IsWord slash t := hkind
    simp (disch := first | exact ⟨_, rfl, rfl⟩ | fail) [valueAddress, ht]
  all_goals simp (disch := first | exact ⟨_, rfl, rfl⟩ | fail) [valueAddress, valueElementAddress]

theorem tidy_writeMember {f : FieldLayout} (hf : f.IsSpelled slash) :
    AllTidy (IsLine slash) (writeMember f) := by
  unfold writeMember
  split <;> simp (disch := first | exact ⟨_, rfl, rfl⟩ | fail) [valueAddress, valueElementAddress,
    hf.accessor]

variable {c : Composite}

theorem tidy_value (hc : c.IsSpelled slash) : AllTidy (IsLine slash) c.value := by
  have hstored : ∀ m ∈ c.stored, m.IsSpelled slash := fun m hm =>
    hc.members m (List.mem_of_mem_filter hm)
  have hwrites : AllTidy (IsLine slash) (c.stored.flatMap writeMember) :=
    .flatMap fun m hm => tidy_writeMember (hstored m hm)
  have hparameters : IsWord slash c.parameters.1 ∧ IsWord slash c.parameters.2 := by
    unfold parameters
    split <;> simp (disch := first | exact ⟨_, rfl, rfl⟩ | fail)
  unfold value
  simp (disch := first | exact ⟨_, rfl, rfl⟩ | fail) [hparameters, hc.name, hwrites,
    Code.allTidy_map_line]
  exact ⟨fun m hm => .inl ⟨(hstored m hm).accessor, isWord_valueType (hstored m hm)⟩,
    fun m hm => .inl ⟨(hstored m hm).accessor, isWord_readMember (hstored m hm)⟩⟩

theorem tidy_wholeValue (hc : c.IsSpelled slash) (side : Side) :
    AllTidy (IsLine slash) (c.wholeValue side) := by
  cases side <;> simp (disch := first | exact ⟨_, rfl, rfl⟩ | fail) [wholeValue, hc.name]

theorem tidy_codec (hc : c.IsSpelled slash) {side : Side} {code : List Code}
    (h : c.codec side = .ok code) : AllTidy (IsLine slash) code := by
  simp only [codec, bind_eq_ok, pure_eq_ok] at h
  obtain ⟨accessors, haccessors, rfl⟩ := h
  have hcodec : IsWord slash (c.name ++ side.suffix) := by
    cases side <;> simp (disch := first | exact ⟨_, rfl, rfl⟩ | fail) [Side.suffix, hc.name]
  have htrait : IsWord slash side.bufferTrait := by
    cases side <;> exact Text.isWord_literal ⟨_, rfl, rfl⟩
  have hdefault : AllTidy (IsLine slash) (defaultImpl (c.name ++ side.suffix) [("offset", "0")]) :=
    tidy_defaultImpl hcodec (by simp (disch := first | exact ⟨_, rfl, rfl⟩ | fail))
  have hlast := (tidy_wholeValue hc side).append (tidy_fieldAccessors hc.members haccessors)
  generalize c.name ++ side.suffix = codec at *
  simp (disch := first | exact ⟨_, rfl, rfl⟩ | fail) [-linkImpls, -defaultImpl,
    Code.allTidy_append_blank, hcodec, htrait, hdefault, hlast, tidy_linkImpls hcodec]

theorem tidy_code (hc : c.IsSpelled slash) {code : List Code} (h : c.code = .ok code) :
    AllTidy (IsLine slash) code := by
  rw [code_eq] at h
  simp only [tree, bind_eq_ok, pure_eq_ok] at h
  obtain ⟨sides, hsides, rfl⟩ := h
  refine Code.allTidy_spaced.mpr ?_
  simp only [List.forall_mem_append, List.forall_mem_cons]
  refine ⟨⟨⟨?_, ?_, tidy_value hc, List.forall_mem_nil _⟩, fun code hcode => ?_⟩, ?_,
    List.forall_mem_nil _⟩
  case refine_3 =>
    obtain ⟨side, _, hcode⟩ := exists_of_mapM_eq_ok hsides hcode
    obtain ⟨codec, hcodec, hcode⟩ := bind_eq_ok.mp hcode
    cases hcode
    exact tidy_module side (tidy_useSuper (tidy_codec hc hcodec))
  all_goals simp (disch := first | exact ⟨_, rfl, rfl⟩ | fail)

end Composite

/-! ### Enums -/

namespace Enumeration

/-- The names of an enum and of its variants are words, and so are the literals. -/
structure IsSpelled (slash : Prop) (e : Enumeration) : Prop where
  name : IsWord slash e.name
  variants : ∀ v ∈ e.variants, IsWord slash v.1 ∧ IsWord slash v.2
  null : IsWord slash e.null

theorem isWord_foldlM_addVariant {owner : String} {p : Primitive} {null : Value} :
    ∀ {values : List Token} {variants variants' : List (String × String)},
      (∀ t ∈ values, t.IsSpelled (Fits slash)) →
        (∀ v ∈ variants, IsWord slash v.1 ∧ IsWord slash v.2) →
          values.foldlM (addVariant owner p null) variants = .ok variants' →
            ∀ v ∈ variants', IsWord slash v.1 ∧ IsWord slash v.2
  | [], _, _, _, hv, h => by
      cases h
      exact hv
  | t :: values, variants, _, ht, hv, h => by
      obtain ⟨ht, hvalues⟩ := List.forall_mem_cons.mp ht
      rw [List.foldlM_cons, bind_eq_ok] at h
      obtain ⟨_, hadd, h⟩ := h
      obtain ⟨value, literal, hliteral, rfl⟩ := addVariant_eq_ok hadd
      refine isWord_foldlM_addVariant hvalues ?_ h
      rw [List.forall_mem_append, List.forall_mem_singleton]
      exact ⟨hv, Name.isWord_type ht.name, Value.isWord_literal hliteral⟩

theorem isSpelled_of_ofType {t : NamedType} {first : Token} {e : Enumeration}
    (h : ofType t first = .ok e) (ht : t.IsSpelled (Fits slash)) : e.IsSpelled slash := by
  simp only [ofType, bind_eq_ok] at h
  obtain ⟨p, _, null, _, literal, hliteral, variants, hvariants, h⟩ := h
  obtain ⟨_, h⟩ := guard_eq_ok.mp h
  cases h
  have hvalues : ∀ u ∈ t.run.filter (·.signal == .validValue), u.IsSpelled (Fits slash) :=
    fun u hu => ht.run u (List.mem_of_mem_filter hu)
  exact ⟨Name.isWord_type ht.name, isWord_foldlM_addVariant hvalues (List.forall_mem_nil _) hvariants,
    Value.isWord_literal hliteral⟩

theorem tidy_code {e : Enumeration} (he : e.IsSpelled slash) : AllTidy (IsLine slash) e.code := by
  rw [code_eq]
  unfold tree definition reading writing
  simp (disch := first | exact ⟨_, rfl, rfl⟩ | fail) [he.name, he.null]
  exact ⟨fun a b h => .inl (he.variants _ h), fun a b h => .inl (he.variants _ h).symm,
    fun a b h => .inl (he.variants _ h)⟩

end Enumeration

/-! ### Bit sets -/

namespace BitSet

/-- The names of a bit set and of its choices are words. -/
structure IsSpelled (slash : Prop) (s : BitSet) : Prop where
  name : IsWord slash s.name
  choices : ∀ c ∈ s.choices, IsWord slash c.1

theorem isSpelled_of_ofType {t : NamedType} {first : Token} {s : BitSet}
    (h : ofType t first = .ok s) (ht : t.IsSpelled (Fits slash)) : s.IsSpelled slash := by
  simp only [ofType, bind_eq_ok, pure_eq_ok] at h
  obtain ⟨primitive, _, choices, hchoices, rfl⟩ := h
  refine ⟨Name.isWord_type ht.name, fun c hc => ?_⟩
  obtain ⟨token, htoken, h⟩ := exists_of_mapM_eq_ok hchoices hc
  unfold choice at h
  split at h
  · cases h
  · split at h <;> cases h
    exact Name.isWord_function (ht.run _ (List.mem_of_mem_filter htoken)).name

theorem isWord_debugging {s : BitSet} (hs : s.IsSpelled slash) : IsWord slash s.debugging := by
  unfold debugging
  simp (disch := first | exact ⟨_, rfl, rfl⟩ | fail) only [Text.isWord_append, Text.isWord_toString,
    Text.isWord_join, Text.isWord_literal, hs.name, and_self, true_and, and_true]
  refine ⟨Text.isWord_intercalate (Text.isWord_literal ⟨_, rfl, rfl⟩) fun t ht => ?_, fun t ht => ?_⟩
  all_goals
    obtain ⟨⟨choice, bit⟩, hc, rfl⟩ := List.mem_map.mp ht
    simp (disch := first | exact ⟨_, rfl, rfl⟩ | fail) [hs.choices _ hc]

theorem tidy_code {s : BitSet} (hs : s.IsSpelled slash) : AllTidy (IsLine slash) s.code := by
  rw [code_eq]
  unfold tree
  refine Code.allTidy_spaced.mpr ?_
  simp only [List.forall_mem_cons]
  refine ⟨?_, tidy_braces ?_ (Code.allTidy_spaced.mpr ?_), ?_, List.forall_mem_nil _⟩
  case refine_3 =>
    refine List.forall_mem_append.mpr ⟨?_, fun code hcode => ?_⟩
    · simp (disch := first | exact ⟨_, rfl, rfl⟩ | fail) [hs.name]
    · obtain ⟨⟨choice, bit⟩, hc, hcode⟩ := List.mem_flatMap.mp hcode
      have hchoice := hs.choices _ hc
      rcases List.mem_pair.mp hcode with rfl | rfl <;>
        simp (disch := first | exact ⟨_, rfl, rfl⟩ | fail) [getter, setter, hchoice]
  all_goals simp (disch := first | exact ⟨_, rfl, rfl⟩ | fail) [hs.name, isWord_debugging hs]

end BitSet

/-! ### Messages -/

namespace Message

theorem tidy_constants (s : Schema) (t : Token) : AllTidy (IsLine slash) (constants s t) := by
  have htext : IsCodeLine slash
      (s!"pub const SBE_SEMANTIC_VERSION: &str = " ++ Quoted.text (s.semanticVersion.getD "") ++ ";") :=
    Quoted.isCodeLine_definition (Text.isWord_literal ⟨_, rfl, rfl⟩) (by decide) _
  unfold constants
  simp (disch := first | exact ⟨_, rfl, rfl⟩ | fail) [htext]

theorem tidy_limitImpl {codec trait : String} (hc : IsWord slash codec) (ht : IsWord slash trait) :
    AllTidy (IsLine slash) (limitImpl codec trait) := by
  simp (disch := first | exact ⟨_, rfl, rfl⟩ | fail) [limitImpl, hc, ht]

theorem tidy_encodedLength : AllTidy (IsLine slash) encodedLength := by
  simp (disch := first | exact ⟨_, rfl, rfl⟩ | fail) [encodedLength]

theorem isWord_headerType : IsWord slash headerType :=
  Name.isWord_type (Text.isWord_literal ⟨_, rfl, rfl⟩)

theorem tidy_encoderHeader : AllTidy (IsLine slash) encoderHeader := by
  simp (disch := first | exact ⟨_, rfl, rfl⟩ | fail) [encoderHeader, isWord_headerType]

theorem tidy_decoderHeader : AllTidy (IsLine slash) decoderHeader := by
  have hmodule : IsWord slash (Name.codecModule Definition.headerName) :=
    Name.isWord_codecModule (Text.isWord_literal ⟨_, rfl, rfl⟩)
  simp (disch := first | exact ⟨_, rfl, rfl⟩ | fail) [decoderHeader, isWord_headerType, hmodule]

variable {codec blockType : String} {accessors : List Code}

theorem tidy_encoder (hc : IsWord slash codec) (withHeader : Bool)
    (ha : AllTidy (IsLine slash) accessors) :
    AllTidy (IsLine slash) (encoder codec withHeader accessors) := by
  have hlimit := tidy_limitImpl hc (Text.isWord_literal ⟨_, rfl, rfl⟩ : IsWord slash "Encoder")
  unfold encoder
  cases withHeader <;>
    simp (disch := first | exact ⟨_, rfl, rfl⟩ | fail) [Code.allTidy_append_blank, hc, hlimit,
      tidy_encodedLength]
  case false => exact tidy_encodedLength.append ha
  case true => exact tidy_encoderHeader.append ha

theorem tidy_decoder (hb : IsWord slash blockType) (hc : IsWord slash codec) (withHeader : Bool)
    (ha : AllTidy (IsLine slash) accessors) :
    AllTidy (IsLine slash) (decoder blockType codec withHeader accessors) := by
  have hlimit := tidy_limitImpl hc (Text.isWord_literal ⟨_, rfl, rfl⟩ : IsWord slash "Decoder")
  unfold decoder
  cases withHeader <;>
    simp (disch := first | exact ⟨_, rfl, rfl⟩ | fail) [Code.allTidy_append_blank, hb, hc, hlimit,
      tidy_encodedLength]
  case false => exact tidy_encodedLength.append ha
  case true => exact tidy_decoderHeader.append ha

variable {m : Message}

theorem tidy_sideModule (htoken : m.token.IsSpelled (Fits slash))
    (hbody : m.body.Consists (Token.IsSpelled (Fits slash))) {s : Schema} {withHeader : Bool}
    {side : Side} {code : List Code} (h : m.sideModule s withHeader side = .ok code) :
    AllTidy (IsLine slash) code := by
  simp only [sideModule, bind_eq_ok, pure_eq_ok] at h
  obtain ⟨accessors, haccessors, groups, hgroups, rfl⟩ := h
  have ha := tidy_bodyAccessors hbody haccessors
  have hname : IsWord slash (Name.type m.token.name) := Name.isWord_type htoken.name
  have hdocs : (m.token.description.toList.map Code.doc).all Code.isDocumentation := by
    simp [Code.isDocumentation]
  refine tidy_module side (.append (tidy_useSuper ?_) (tidy_groupCodecs hbody hgroups))
  cases side with
  | encode =>
      refine .docs hdocs (tidy_encoder ?_ withHeader ha) ?_
      · simp (disch := first | exact ⟨_, rfl, rfl⟩ | fail) [Side.suffix, hname]
      · simp (disch := first | exact ⟨_, rfl, rfl⟩ | fail) [encoder]
  | decode =>
      refine .docs hdocs (tidy_decoder (isWord_typeName _) ?_ withHeader ha) ?_
      · simp (disch := first | exact ⟨_, rfl, rfl⟩ | fail) [Side.suffix, hname]
      · simp (disch := first | exact ⟨_, rfl, rfl⟩ | fail) [decoder]

theorem tidy_code (htoken : m.token.IsSpelled (Fits slash))
    (hbody : m.body.Consists (Token.IsSpelled (Fits slash))) {s : Schema} {r : Registry}
    {code : List Code} (h : m.code s r = .ok code) : AllTidy (IsLine slash) code := by
  rw [code_eq] at h
  obtain ⟨_, h⟩ := guard_eq_ok.mp h
  obtain ⟨sides, hsides, h⟩ := bind_eq_ok.mp h
  cases h
  refine Code.allTidy_spaced.mpr ?_
  simp only [List.forall_mem_append, List.forall_mem_cons]
  refine ⟨⟨⟨?_, tidy_constants s m.token, List.forall_mem_nil _⟩, fun code hcode => ?_⟩, ?_,
    List.forall_mem_nil _⟩
  case refine_2 =>
    obtain ⟨side, _, hcode⟩ := exists_of_mapM_eq_ok hsides hcode
    exact tidy_sideModule htoken hbody hcode
  all_goals simp (disch := first | exact ⟨_, rfl, rfl⟩ | fail)

end Message

/-! ### The root -/

/-- The names of an entry are words. -/
structure Entry.IsSpelled (slash : Prop) (e : Entry) : Prop where
  module : IsWord slash e.module
  typeName : IsWord slash e.typeName

theorem Entry.isWord_export {e : Entry} (he : e.IsSpelled slash) : ∀ s ∈ e.export?, IsWord slash s := by
  intro s hs
  unfold Entry.export? at hs
  split at hs <;> cases hs <;>
    simp (disch := first | exact ⟨_, rfl, rfl⟩ | fail) [he.module, he.typeName]

theorem tidy_schemaConstants (s : Schema) : AllTidy (IsLine slash) (schemaConstants s) := by
  have htext : IsCodeLine slash
      ("pub const SEMANTIC_VERSION: &str = " ++ Quoted.text (s.semanticVersion.getD "") ++ ";") :=
    Quoted.isCodeLine_definition (Text.isWord_literal ⟨_, rfl, rfl⟩) (by decide) _
  unfold schemaConstants
  simp (disch := first | exact ⟨_, rfl, rfl⟩ | fail) [htext]

theorem tidy_fixed {lines : List String} (h : lines ∈ fixedTexts) :
    AllTidy (IsLine slash) (lines.map Code.text) :=
  Code.allTidy_map_text.mpr fun l hl => .inl (isWord_of_mem_fixedTexts lines h l hl)

theorem tidy_failures : AllTidy (IsLine slash) failures := by
  have hleads : Leads (parentMissing.map Code.text) := by
    show Text.isItem _
    decide +kernel
  have himpls : AllTidy (IsLine slash) (errorImpls.map Code.text) := tidy_fixed (by simp [fixedTexts])
  have hmissing : AllTidy (IsLine slash) (parentMissing.map Code.text) :=
    tidy_fixed (by simp [fixedTexts])
  unfold failures
  simp (disch := first | exact ⟨_, rfl, rfl⟩ | fail) [-Code.spaced_cons_cons, -Code.spaced_singleton,
    Code.allTidy_spaced, errors, himpls, hmissing, hleads]

theorem isWord_of_mem_otherTypes : ∀ type ∈ otherTypes, IsWord slash type := by
  intro type htype
  rw [otherTypes, List.mem_eraseDups] at htype
  obtain ⟨p, _, rfl⟩ := List.mem_map.mp (List.mem_of_mem_filter htype)
  exact isWord_typeName p

theorem tidy_readOther (order : ByteOrder) {type : String} (ht : IsWord slash type) :
    AllTidy (IsLine slash) (readOther order type) := by
  cases order <;> simp (disch := first | exact ⟨_, rfl, rfl⟩ | fail) [readOther, orderSuffix, ht]

theorem tidy_writeOther (order : ByteOrder) {type : String} (ht : IsWord slash type) :
    AllTidy (IsLine slash) (writeOther order type) := by
  cases order <;> simp (disch := first | exact ⟨_, rfl, rfl⟩ | fail) [writeOther, orderSuffix, ht]

theorem tidy_buffer {heading : String} {common : List String} {other : String → List Code}
    (hh : IsWord slash heading) (hc : common ∈ fixedTexts)
    (ho : ∀ type, IsWord slash type → AllTidy (IsLine slash) (other type)) :
    AllTidy (IsLine slash)
      [Code.braces heading (spaced (common.map Code.text :: otherTypes.map other))] := by
  refine tidy_braces hh (Code.allTidy_spaced.mpr ?_)
  rw [List.forall_mem_cons, List.forall_mem_map]
  exact ⟨tidy_fixed hc, fun type htype => ho type (isWord_of_mem_otherTypes type htype)⟩

theorem tidy_readBuffers (order : ByteOrder) : AllTidy (IsLine slash) (readBuffers order) := by
  refine Code.allTidy_spaced.mpr ?_
  simp only [List.forall_mem_cons]
  exact ⟨tidy_fixed (by simp [fixedTexts]), tidy_buffer (Text.isWord_literal ⟨_, rfl, rfl⟩)
    (by simp [fixedTexts]) fun _ => tidy_readOther order, List.forall_mem_nil _⟩

theorem tidy_writeBuffers (order : ByteOrder) : AllTidy (IsLine slash) (writeBuffers order) := by
  refine Code.allTidy_spaced.mpr ?_
  simp only [List.forall_mem_cons]
  exact ⟨tidy_fixed (by simp [fixedTexts]), tidy_buffer (Text.isWord_literal ⟨_, rfl, rfl⟩)
    (by simp [fixedTexts]) fun _ => tidy_writeOther order, List.forall_mem_nil _⟩

theorem tidy_shared (s : Schema) {entries : List Entry} (he : ∀ e ∈ entries, e.IsSpelled slash) :
    AllTidy (IsLine slash) (shared s entries) := by
  refine Code.allTidy_spaced.mpr ?_
  simp only [List.forall_mem_cons]
  refine ⟨?_, tidy_schemaConstants s, ?_, tidy_failures, tidy_fixed (by simp [fixedTexts]),
    tidy_readBuffers s.byteOrder, tidy_writeBuffers s.byteOrder, List.forall_mem_nil _⟩
  · rw [← List.map_filterMap]
    refine Code.allTidy_map_text.mpr fun l hl => ?_
    obtain ⟨e, hmem, hl⟩ := List.mem_filterMap.mp hl
    exact .inl (Entry.isWord_export (he e hmem) l hl)
  · simp (disch := first | exact ⟨_, rfl, rfl⟩ | fail)

theorem isCodeLine_heading {front name : String} {mark : Char} (h : ['/', '/', mark] <+: front.toList)
    (hmark : mark ≠ '/') (hfront : ∀ c ∈ front.toList, Unbroken c)
    (hname : ∀ c ∈ name.toList, Unbroken c) : IsCodeLine slash (front ++ name ++ "\x60 schema.") := by
  rw [String.append_assoc]
  refine Text.isCodeLine_comment h hmark hfront ?_
  rw [String.toList_append, List.forall_mem_append]
  exact ⟨hname, Text.unbroken_of_all (by decide)⟩

section roots
variable {s : Schema} (hs : ∀ c ∈ s.packageName.toList, Unbroken c)
include hs

theorem isCodeLine_declaringRoot :
    IsCodeLine slash s!"//! Codecs for the \x60{s.packageName}\x60 schema." :=
  isCodeLine_heading (by decide : ['/', '/', '!'] <+: _) (by decide) (Text.unbroken_of_all (by decide)) hs

theorem isCodeLine_containingRoot :
    IsCodeLine slash s!"// Codecs for the \x60{s.packageName}\x60 schema." :=
  isCodeLine_heading (by decide : ['/', '/', ' '] <+: _) (by decide) (Text.unbroken_of_all (by decide)) hs

theorem tidy_declaringRoot {entries : List Entry} (he : ∀ e ∈ entries, e.IsSpelled slash) :
    AllTidy (IsLine slash) (declaringRoot s entries) := by
  have hdeclared : ∀ e ∈ entries, IsWord slash s!"pub mod {e.module};" := by
    intro e hmem
    simp (disch := first | exact ⟨_, rfl, rfl⟩ | fail) [(he e hmem).module]
  have hattributes : AllTidy (IsLine slash) (moduleAttributes.map Code.text) :=
    tidy_fixed (by simp [fixedTexts])
  refine Code.allTidy_spaced.mpr ?_
  simp only [List.forall_mem_cons]
  refine ⟨?_, Code.allTidy_map_line.mpr fun e hmem => ?_, tidy_shared s he, List.forall_mem_nil _⟩
  · simp (disch := first | exact ⟨_, rfl, rfl⟩ | fail) [isCodeLine_declaringRoot hs, hattributes]
  · rw [renderPieces_text]
    exact .inl (hdeclared e hmem)
end roots

end Codec

/-! ### All units -/

/-- The unit is none of a root, its names are words, and it is written from tidy code. -/
structure CodeUnit.IsTidy (slash : Prop) (u : CodeUnit) : Prop where
  read : u.IsRead
  kind : u.entry.kind ≠ .root
  entry : u.entry.IsSpelled slash
  code : AllTidy (IsLine slash) u.code

/-- Every line of the unit is one of code. -/
theorem CodeUnit.IsTidy.allTidy {u : CodeUnit} (h : u.IsTidy slash) :
    AllTidy (IsCodeLine slash) u.code := h.code.mono fun _ => IsLine.isCodeLine

namespace Generator

theorem isTidy_of_typeUnit {t : NamedType} {u : CodeUnit} (h : typeUnit t = .ok u)
    (ht : t.IsSpelled (Fits slash)) : u.IsTidy slash := by
  have htype := Name.isWord_type ht.name
  have hread := isRead_of_typeUnit h
  unfold typeUnit at h
  dsimp only at h
  split at h
  · obtain ⟨e, he, h⟩ := bind_eq_ok.mp h
    cases h
    exact ⟨hread, by rintro ⟨⟩, ⟨Name.isWord_typeModule ht.name, htype⟩,
      Codec.Enumeration.tidy_code (Codec.Enumeration.isSpelled_of_ofType he ht)⟩
  · obtain ⟨b, hb, h⟩ := bind_eq_ok.mp h
    cases h
    exact ⟨hread, by rintro ⟨⟩, ⟨Name.isWord_typeModule ht.name, htype⟩,
      Codec.BitSet.tidy_code (Codec.BitSet.isSpelled_of_ofType hb ht)⟩
  · simp only [bind_eq_ok, pure_eq_ok] at h
    obtain ⟨c, hc, calls, hcalls, rfl⟩ := h
    have hcode := Codec.Composite.code_of_render hcalls
    exact ⟨hread, by rintro ⟨⟩, ⟨Name.isWord_codecModule ht.name, htype⟩,
      Codec.Composite.tidy_code (Codec.Composite.isSpelled_of_ofType hc ht) hcode⟩

theorem isTidy_of_messageUnit {g : Generator} {m : Codec.Message} {u : CodeUnit}
    (h : g.messageUnit m = .ok u) (htoken : m.token.IsSpelled (Fits slash))
    (hbody : m.body.Consists (Token.IsSpelled (Fits slash))) : u.IsTidy slash := by
  have hread := isRead_of_messageUnit h
  have hcode := code_of_messageUnit h
  obtain ⟨calls, _, h⟩ := bind_eq_ok.mp h
  cases h
  exact ⟨hread, by rintro ⟨⟩, ⟨Name.isWord_codecModule htoken.name, Name.isWord_type htoken.name⟩,
    Codec.Message.tidy_code htoken hbody hcode⟩

theorem arrange_moduleFiles (s : Schema) (style : Style) (us : List CodeUnit) :
    arrange s ⟨style, .moduleFiles⟩ us = us.map (CodeUnit.print style)
      ++ [⟨"lib", .root, Code.source style (Codec.declaringRoot s (us.map (·.entry)))⟩] := by
  simp only [arrange, written_renderRoot, rootTree]

theorem arrange_singleFile (s : Schema) (style : Style) {us : List CodeUnit}
    (h : ∀ u ∈ us, u.IsRead) :
    arrange s ⟨style, .singleFile⟩ us = [⟨s.qualifiedName, .root, Code.source style
      (Codec.containingRoot s (us.map fun u => (u.entry, Code.source style u.code)))⟩] := by
  have hunits : us.map (fun u => (u.entry, (u.print style).source))
      = us.map fun u => (u.entry, Code.source style u.code) :=
    List.map_congr_left fun u hu => by rw [u.print_eq (h u hu)]
  simp only [arrange, written_renderRoot, rootTree, hunits]

/-- The units fail in one way, or they are made and then arranged. -/
theorem units_cases (g : Generator) :
    (∃ e, ∀ c, g.units c = .error e) ∨
      ∃ us, g.modules = .ok us ∧ ∀ c, g.units c = .ok (arrange g.schema c us) := by
  cases h : g.modules with
  | error e =>
      refine .inl ⟨e, fun c => ?_⟩
      rw [units, h]
      rfl
  | ok us => exact .inr ⟨us, rfl, units_of_modules h⟩

/-- All units of a schema with well-spelled names are tidy. -/
theorem isTidy_of_modules {s : Schema} {g : Generator} {us : List CodeUnit}
    (hs : s.IsSpelled (Fits slash)) (hg : ofSchema s = .ok g) (h : g.modules = .ok us) :
    ∀ u ∈ us, u.IsTidy slash := by
  obtain ⟨types, htypes, h⟩ := bind_eq_ok.mp h
  obtain ⟨messages, hmessages, h⟩ := bind_eq_ok.mp h
  cases h
  rw [List.forall_mem_append]
  constructor
  · intro u hu
    obtain ⟨t, ht, hu⟩ := exists_of_mapM_eq_ok htypes hu
    exact isTidy_of_typeUnit hu (hs.types (registry_of_ofSchema hg).2 t ht)
  · intro u hu
    obtain ⟨m, hm, hu⟩ := exists_of_mapM_eq_ok hmessages hu
    obtain ⟨tokens, htokens, hmessage⟩ := message_of_ofSchema hg hm
    obtain ⟨htoken, hbody⟩ := (Body.ofMessage_eq_ok_iff.mp hmessage).consists
      (hs.tokens tokens (List.mem_append_right _ htokens))
    exact isTidy_of_messageUnit hu htoken hbody

end Generator
end WireCodec
