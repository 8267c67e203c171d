import WireCodec.Proofs.Accessors
import WireCodec.Proofs.Naming
import WireCodec.Proofs.Trees.Units
/-! # Generated code is tidy

Every line that the generator writes is made of fixed parts and of names, numbers and literals, or is a
line of code for what it begins with (`Text.IsLine`).  Documentation is written in front of functions,
types and variants only.  So all code that is made of layouts with well-spelled names is tidy, part by
part. -/

namespace WireCodec

open Code (AllTidy Leads spaced)
open Codec (Side inlined)
open Text (IsWord IsLine IsCodeLine Unbroken)

variable {slash : Prop}

/-! ### Lines and blocks -/

section lines

variable {ok : String → Prop} {cs : List Code}

open Code

@[simp] theorem tidy_nil : AllTidy ok [] := trivial

@[simp] theorem tidy_blank : AllTidy ok (blank :: cs) ↔ AllTidy ok cs := by
  simp [AllTidy, Tidy, isDocumentation]

@[simp] theorem tidy_line {pieces : List Piece} :
    AllTidy ok (line pieces :: cs) ↔ ok (renderPieces pieces) ∧ AllTidy ok cs := by
  simp [AllTidy, Tidy, isDocumentation]

@[simp] theorem tidy_gate {since : Nat} {absent : String} :
    AllTidy ok (gate since absent :: cs) ↔
      (ok s!"if self.acting_version() < {since} \x7b" ∧ ok s!"return {absent};" ∧ ok "\x7d") ∧
        AllTidy ok cs := by
  simp [AllTidy, Tidy, isDocumentation]

@[simp] theorem tidy_block {opening : List Piece} {body : List Code} {closing : String} :
    AllTidy ok (block opening body closing :: cs)
      ↔ ok (renderPieces opening) ∧ AllTidy ok body ∧ ok closing ∧ AllTidy ok cs := by
  simp [AllTidy, Tidy, isDocumentation, and_assoc]

@[simp] theorem tidy_choice {opening : List Piece} {first second : List Code} :
    AllTidy ok (choice opening first second :: cs) ↔
      ok (renderPieces opening) ∧ AllTidy ok first ∧ ok "\x7d else \x7b" ∧ AllTidy ok second ∧
        ok "\x7d" ∧ AllTidy ok cs := by
  simp [AllTidy, Tidy, isDocumentation, and_assoc]

@[simp] theorem tidy_doc {text : String} : AllTidy ok (doc text :: cs) ↔ Leads cs ∧ AllTidy ok cs := by
  simp [AllTidy, Tidy, isDocumentation]

@[simp] theorem tidy_map_append {α : Type} {f : α → List Piece} {as : List α} :
    AllTidy ok ((as.map fun a => line (f a)) ++ cs)
      ↔ (∀ a ∈ as, ok (renderPieces (f a))) ∧ AllTidy ok cs := by
  induction as with
  | nil => simp
  | cons a as ih => simp [ih, and_assoc]

@[simp] theorem leads_doc {text : String} : Leads (doc text :: cs) := trivial

@[simp] theorem leads_line {s : String} : Leads (line [.text s] :: cs) ↔ Text.isItem s := by
  simp [Leads]

theorem leads_inlined {heading : String} {body : List Code} : Leads (inlined heading body) := by
  simp (disch := exact ⟨_, rfl, rfl⟩)

end lines

/-! ### Pieces -/

@[simp] theorem isWord_renderPieces_nil : IsWord slash (renderPieces []) := nofun

@[simp] theorem isWord_renderPieces_cons {p : Piece} {ps : List Piece} :
    IsWord slash (renderPieces (p :: ps)) ↔ IsWord slash p.render ∧ IsWord slash (renderPieces ps) := by
  unfold renderPieces
  rw [List.map_cons, String.join_cons, Text.isWord_append]

@[simp] theorem isWord_renderPieces_append {ps qs : List Piece} :
    IsWord slash (renderPieces (ps ++ qs)) ↔
      IsWord slash (renderPieces ps) ∧ IsWord slash (renderPieces qs) := by
  unfold renderPieces
  rw [List.map_append, String.join_append, Text.isWord_append]

@[simp] theorem isWord_address {a : Address} : IsWord slash a.text ↔ IsWord slash a.base := by
  have hstart : IsWord slash (if a.displacement = 0 then a.base else s!"{a.base} + {a.displacement}")
      ↔ IsWord slash a.base := by
    split
    · exact Iff.rfl
    -- fixed parts are told from other texts by the discharger, which fails without a word on those
    · simp (disch := first | exact ⟨_, rfl, rfl⟩ | fail)
  unfold Address.text
  generalize (if a.displacement = 0 then a.base else _) = start at hstart ⊢
  split
  · exact hstart
  all_goals simp (disch := first | exact ⟨_, rfl, rfl⟩ | fail) [hstart]

namespace Piece

@[simp] theorem isWord_text {s : String} : IsWord slash (render (.text s)) ↔ IsWord slash s := Iff.rfl

@[simp] theorem isWord_get {p : Primitive} {a : Address} :
    IsWord slash (render (.get p a)) ↔ IsWord slash a.base := by
  show IsWord slash s!"get_{p.typeName}_at({a.text})" ↔ _
  simp (disch := first | exact ⟨_, rfl, rfl⟩ | fail)

@[simp] theorem isWord_put {p : Primitive} {a : Address} {value : String} :
    IsWord slash (render (.put p a value)) ↔ IsWord slash a.base ∧ IsWord slash value := by
  show IsWord slash s!"put_{p.typeName}_at({a.text}, {value})" ↔ _
  simp (disch := first | exact ⟨_, rfl, rfl⟩ | fail)

@[simp] theorem isWord_getSlice {a : Address} {length : String} :
    IsWord slash (render (.getSlice a length)) ↔ IsWord slash a.base ∧ IsWord slash length := by
  show IsWord slash s!"get_slice_at({a.text}, {length})" ↔ _
  simp (disch := first | exact ⟨_, rfl, rfl⟩ | fail)

@[simp] theorem isWord_putSlice {a : Address} {bytes : String} :
    IsWord slash (render (.putSlice a bytes)) ↔ IsWord slash a.base ∧ IsWord slash bytes := by
  show IsWord slash s!"put_slice_at({a.text}, {bytes})" ↔ _
  simp (disch := first | exact ⟨_, rfl, rfl⟩ | fail)

@[simp] theorem isWord_nest {callee subject : String} {a : Address} :
    IsWord slash (render (.nest callee subject a)) ↔
      IsWord slash callee ∧ IsWord slash subject ∧ IsWord slash a.base := by
  show IsWord slash s!"{callee}({subject}, {a.text})" ↔ _
  simp (disch := first | exact ⟨_, rfl, rfl⟩ | fail) [and_assoc]

@[simp] theorem isWord_bind {a : Address} :
    IsWord slash (render (.bind a)) ↔ IsWord slash a.base := by
  show IsWord slash s!"let offset = {a.text};" ↔ _
  simp (disch := first | exact ⟨_, rfl, rfl⟩ | fail)

@[simp] theorem isWord_moveLimit {owner base distance : String} :
    IsWord slash (render (.moveLimit owner base distance)) ↔
      IsWord slash owner ∧ IsWord slash base ∧ IsWord slash distance := by
  show IsWord slash s!"{owner}.set_limit({base} + {distance})" ↔ _
  simp (disch := first | exact ⟨_, rfl, rfl⟩ | fail) [and_assoc]

end Piece

attribute [simp] Text.IsLine

namespace Codec

/-! ### Accessors of fields -/

theorem isDocumentation_docs (texts : List String) : (texts.map Code.doc).all Code.isDocumentation := by
  simp [Code.isDocumentation]

section fields

variable {f : FieldLayout}

theorem tidy_setOne (hf : IsWord slash f.accessor) (p : Primitive) {type value : String}
    (ht : IsWord slash type) (hv : IsWord slash value) :
    AllTidy (IsLine slash) (setOne f p type value) := by
  simp (disch := first | exact ⟨_, rfl, rfl⟩ | fail) [setOne, hf, ht, hv]

theorem isCodeLine_skipped (hf : IsWord slash f.name) :
    IsCodeLine slash s!"// skipping CONSTANT {f.name}" :=
  Text.isCodeLine_comment (by decide : ['/', '/', ' '] <+: _) (by decide)
    (Text.unbroken_of_all (by decide)) fun c hc => (hf c hc).unbroken

theorem tidy_setter (hf : f.IsSpelled slash) :
    AllTidy (IsLine slash) (setter f) ∧ (f.kind.isConstant = false → Leads (setter f)) := by
  obtain ⟨hname, ha, hkind⟩ := hf
  unfold setter
  cases hk : f.kind with
  | scalar s =>
      exact ⟨tidy_setOne ha _ (isWord_typeName _) (Text.isWord_literal ⟨_, rfl, rfl⟩),
        fun _ => leads_inlined⟩
  | array element n => simp (disch := first | exact ⟨_, rfl, rfl⟩ | fail) [ha]
  | constant c => simp [isCodeLine_skipped hname, FieldKind.isConstant]
  | enumeration t p =>
      rw [hk] at hkind
      refine ⟨tidy_setOne ha _ hkind ?_, fun _ => leads_inlined⟩
      simp (disch := first | exact ⟨_, rfl, rfl⟩ | fail)
  | bitSet t p =>
      rw [hk] at hkind
      exact ⟨tidy_setOne ha _ hkind (Text.isWord_literal ⟨_, rfl, rfl⟩), fun _ => leads_inlined⟩
  | composite t n =>
      rw [hk] at hkind
      have ht : IsWord slash t := hkind
      simp (disch := first | exact ⟨_, rfl, rfl⟩ | fail) [ha, ht]

theorem isWord_absent (hf : f.IsSpelled slash) {absent : String} (h : f.absent = .ok (some absent)) :
    IsWord slash absent := by
  have hkind := hf.kind
  unfold FieldLayout.absent at h
  cases hk : f.kind <;> rw [hk] at h hkind <;> dsimp only at h
  case scalar s =>
    split at h
    · cases h
      exact Text.isWord_literal ⟨_, rfl, rfl⟩
    · obtain ⟨literal, hl, hs⟩ := map_eq_ok.mp h
      cases hs
      exact Value.isWord_literal hl
  case array element n =>
    obtain ⟨null, hn, h⟩ := bind_eq_ok.mp h
    cases h
    simp (disch := first | exact ⟨_, rfl, rfl⟩ | fail) [Value.isWord_literal hn]
  case constant => cases h
  case enumeration t p | bitSet t p =>
    cases h
    have ht : IsWord slash t := hkind
    simp (disch := first | exact ⟨_, rfl, rfl⟩ | fail) [ht]
  case composite =>
    cases h
    exact Text.isWord_literal ⟨_, rfl, rfl⟩

theorem gate_cases (hf : f.IsSpelled slash) {code : List Code} (h : gate f = .ok code) :
    code = [] ∨ ∃ since absent, code = [.gate since absent] ∧ IsWord slash absent := by
  obtain ⟨absent, habsent, h⟩ := bind_eq_ok.mp h
  cases absent with
  | none =>
      cases h
      exact .inl rfl
  | some absent =>
      cases h
      unfold gateOf
      split
      · exact .inr ⟨_, _, rfl, isWord_absent hf habsent⟩
      · exact .inl rfl

theorem tidy_gated (hf : f.IsSpelled slash) {code body : List Code} (h : gate f = .ok code)
    (hb : AllTidy (IsLine slash) body) : AllTidy (IsLine slash) (code ++ body) := by
  rcases gate_cases hf h with rfl | ⟨since, absent, rfl, habsent⟩
  · exact hb
  · simp (disch := first | exact ⟨_, rfl, rfl⟩ | fail) [habsent, hb]

theorem tidy_inlined {heading : String} {body : List Code} (hh : IsWord slash heading)
    (hb : AllTidy (IsLine slash) body) : AllTidy (IsLine slash) (inlined heading body) := by
  simp (disch := first | exact ⟨_, rfl, rfl⟩ | fail) [hh, hb]

theorem tidy_getLiteral (hf : IsWord slash f.accessor) {type literal : String}
    (ht : IsWord slash type) (hl : IsLine slash literal) :
    AllTidy (IsLine slash) (getLiteral f type literal) := by
  refine tidy_inlined ?_ (tidy_line.mpr ⟨?_, trivial⟩)
  · simp (disch := first | exact ⟨_, rfl, rfl⟩ | fail) [hf, ht]
  · rwa [renderPieces_text]

/-- The accessor of a constant.  A quoted text and a variant stand on one line, whatever they hold. -/
theorem tidy_getConstant (hf : f.IsSpelled slash) {c : Constant} (hk : f.kind = .constant c)
    {code : List Code} (h : getConstant f c = .ok code) :
    AllTidy (IsLine slash) code ∧ Leads code := by
  have ha := hf.accessor
  have hkind := hf.kind
  rw [hk] at hkind
  cases c with
  | number p v =>
      obtain ⟨literal, hl, h⟩ := bind_eq_ok.mp h
      cases h
      exact ⟨tidy_getLiteral ha (isWord_typeName p) (.inl (Value.isWord_literal hl)), leads_inlined⟩
  | bytes s =>
      cases h
      refine ⟨tidy_getLiteral ha ?_ (.inr (Quoted.isCodeLine_bytes s)), leads_inlined⟩
      exact Text.isWord_literal ⟨_, rfl, rfl⟩
  | text s =>
      cases h
      refine ⟨tidy_getLiteral ha ?_ (.inr (Quoted.isCodeLine_text s)), leads_inlined⟩
      exact Text.isWord_literal ⟨_, rfl, rfl⟩
  | variant enumType variant =>
      cases h
      obtain ⟨ht, hv⟩ := hkind
      refine ⟨tidy_getLiteral ha ht (.inr ?_), leads_inlined⟩
      have hfront : IsWord slash (enumType ++ "::") :=
        Text.isWord_append.mpr ⟨ht, Text.isWord_literal ⟨_, rfl, rfl⟩⟩
      have hcolon : ':' ∈ (enumType ++ "::").toList := by
        rw [String.toList_append]
        exact List.mem_append_right _ (by decide)
      exact hfront.isCodeLine_append hcolon (by decide) hv

theorem tidy_getScalar (hf : f.IsSpelled slash) {s : Scalar} {code : List Code}
    (h : getScalar f s = .ok code) : AllTidy (IsLine slash) code ∧ Leads code := by
  have ha := hf.accessor
  obtain ⟨gate, hgate, h⟩ := bind_eq_ok.mp h
  split at h
  · obtain ⟨isNull, hnull, h⟩ := bind_eq_ok.mp h
    cases h
    have hnull := Value.isWord_nullCheck hnull
      (Text.isWord_literal ⟨_, rfl, rfl⟩ : IsWord slash "value")
    refine ⟨tidy_inlined ?_ (tidy_gated hf hgate ?_), leads_inlined⟩
    all_goals simp (disch := first | exact ⟨_, rfl, rfl⟩ | fail) [ha, hnull]
  · cases h
    refine ⟨tidy_inlined ?_ (tidy_gated hf hgate ?_), leads_inlined⟩
    all_goals simp (disch := first | exact ⟨_, rfl, rfl⟩ | fail) [ha]

theorem tidy_getComposite (hf : f.IsSpelled slash) {typeName : String} (ht : IsWord slash typeName)
    {code : List Code} (h : getComposite f typeName = .ok code) :
    AllTidy (IsLine slash) code ∧ Leads code := by
  have ha := hf.accessor
  unfold getComposite at h
  split at h
  · obtain ⟨gate, hgate, h⟩ := bind_eq_ok.mp h
    cases h
    refine ⟨tidy_inlined ?_ (tidy_gated hf hgate ?_), leads_inlined⟩
    all_goals simp (disch := first | exact ⟨_, rfl, rfl⟩ | fail) [ha, ht]
  · cases h
    refine ⟨tidy_inlined ?_ ?_, leads_inlined⟩
    all_goals simp (disch := first | exact ⟨_, rfl, rfl⟩ | fail) [ha, ht]

/-- The decoder's accessor of a field is a function. -/
theorem tidy_getter (hf : f.IsSpelled slash) {code : List Code} (h : getter f = .ok code) :
    AllTidy (IsLine slash) code ∧ Leads code := by
  have ha := hf.accessor
  have hkind := hf.kind
  unfold getter at h
  cases hk : f.kind <;> rw [hk] at h hkind <;> dsimp only at h
  case scalar => exact tidy_getScalar hf h
  case constant => exact tidy_getConstant hf hk h
  case composite => exact tidy_getComposite hf hkind h
  case array element n =>
    obtain ⟨gate, hgate, h⟩ := bind_eq_ok.mp h
    cases h
    refine ⟨tidy_inlined ?_ (tidy_gated hf hgate ?_), leads_inlined⟩
    all_goals simp (disch := first | exact ⟨_, rfl, rfl⟩ | fail) [ha]
  case enumeration t p | bitSet t p =>
    obtain ⟨gate, hgate, h⟩ := bind_eq_ok.mp h
    cases h
    have ht : IsWord slash t := hkind
    refine ⟨tidy_inlined ?_ (tidy_gated hf hgate ?_), leads_inlined⟩
    all_goals simp (disch := first | exact ⟨_, rfl, rfl⟩ | fail) [ha, ht]

theorem tidy_fieldAccessor (hf : f.IsSpelled slash) {side : Side} {code : List Code}
    (h : fieldAccessor side f = .ok code) : AllTidy (IsLine slash) code := by
  rw [fieldAccessor_eq] at h
  cases side with
  | encode =>
      cases h
      obtain ⟨htidy, hleads⟩ := tidy_setter hf
      rw [tidy_blank]
      split
      · exact htidy
      next hconstant =>
        exact .docs (isDocumentation_docs (document f)) htidy (hleads (by simpa using hconstant))
  | decode =>
      obtain ⟨getter, hgetter, h⟩ := bind_eq_ok.mp h
      cases h
      obtain ⟨htidy, hleads⟩ := tidy_getter hf hgetter
      rw [tidy_blank]
      exact .docs (isDocumentation_docs (document f)) htidy hleads

end fields

theorem tidy_fieldAccessors {fields : List FieldLayout} (hf : ∀ f ∈ fields, f.IsSpelled slash)
    {side : Side} {code : List Code} (h : fieldAccessors side fields = .ok code) :
    AllTidy (IsLine slash) code := by
  obtain ⟨codes, hcodes, h⟩ := bind_eq_ok.mp h
  cases h
  refine .flatten fun code hcode => ?_
  obtain ⟨f, hmem, hcode⟩ := exists_of_mapM_eq_ok hcodes hcode
  exact tidy_fieldAccessor (hf f hmem) hcode

/-! ### Accessors of var data and groups -/

theorem tidy_varDataAccessor {v : VarDataLayout} (hv : IsWord slash v.accessor) (side : Side) :
    AllTidy (IsLine slash) (varDataAccessor side v) := by
  have hdocs := isDocumentation_docs (documentVarData v)
  rw [varDataAccessor_eq]
  unfold varDataTree
  rw [tidy_blank]
  cases side with
  | encode =>
      refine .docs hdocs ?_ leads_inlined
      dsimp only
      unfold setVarData valueParameter
      dsimp only
      split <;>
        simp (disch := first | exact ⟨_, rfl, rfl⟩ | fail) [passVarData, bytesAddress, hv]
  | decode =>
      refine .docs hdocs ?_ leads_inlined
      dsimp only
      unfold getVarData gateOf
      cases v.gate.isGated <;>
        simp (disch := first | exact ⟨_, rfl, rfl⟩ | fail) [passVarData, bytesAddress, hv]

theorem tidy_groupAccessor {g : GroupLayout} (hg : g.IsSpelled slash) (side : Side) :
    AllTidy (IsLine slash) (groupAccessor side g) := by
  have hdocs := isDocumentation_docs (documentGroup g)
  rw [groupAccessor_eq]
  unfold groupTree
  rw [tidy_blank]
  cases side with
  | encode =>
      refine .docs hdocs ?_ leads_inlined
      simp (disch := first | exact ⟨_, rfl, rfl⟩ | fail) [Side.suffix, hg.accessor, hg.structName]
  | decode =>
      refine .docs hdocs ?_ leads_inlined
      unfold gateOf
      cases g.gate.isGated <;>
        simp (disch := first | exact ⟨_, rfl, rfl⟩ | fail) [Side.suffix, hg.accessor, hg.structName]

theorem tidy_bodyAccessors {side : Side} {owner : String} {b : Body} {length enclosing : Nat}
    (hb : b.Consists (Token.IsSpelled (Text.Fits slash))) {code : List Code}
    (h : bodyAccessors side owner b length enclosing = .ok code) : AllTidy (IsLine slash) code := by
  unfold bodyAccessors at h
  simp only [bind_eq_ok, pure_eq_ok] at h
  obtain ⟨fields, hfields, fieldCode, hfieldCode, groupCode, hgroupCode, varDataCode, hvarDataCode,
    rfl⟩ := h
  refine (AllTidy.append ?_ (.flatten fun code hcode => ?_)).append (.flatten fun code hcode => ?_)
  · obtain ⟨raw, hraw, rfl, _⟩ := blockLayouts_eq_ok.mp hfields
    exact tidy_fieldAccessors (Field.isSpelled_of_layouts hraw hb.forall_fields enclosing) hfieldCode
  · obtain ⟨⟨head, members⟩, hmem, hcode⟩ := exists_of_mapM_eq_ok hgroupCode hcode
    obtain ⟨g, hg, hcode⟩ := bind_eq_ok.mp hcode
    cases hcode
    obtain ⟨ha, hs⟩ := GroupHead.isSpelled_of_layout hg (hb.forall_groups _ hmem)
    refine tidy_groupAccessor ?_ side
    exact ⟨ha, hs⟩
  · obtain ⟨v, hmem, hcode⟩ := exists_of_mapM_eq_ok hvarDataCode hcode
    obtain ⟨layout, hlayout, hcode⟩ := bind_eq_ok.mp hcode
    cases hcode
    have hv := VarData.isWord_of_layout hlayout (hb.forall_varData v hmem)
    refine tidy_varDataAccessor ?_ side
    exact hv

/-! ### Codecs of groups -/

theorem tidy_linkImpls {codec : String} (hc : IsWord slash codec) (side : Side) :
    AllTidy (IsLine slash) (linkImpls codec side) := by
  cases side <;> simp (disch := first | exact ⟨_, rfl, rfl⟩ | fail) [Side.limitTrait, hc]

theorem tidy_defaultImpl {codec : String} (hc : IsWord slash codec) {fields : List (String × String)}
    (hf : ∀ f ∈ fields, IsWord slash f.1 ∧ IsWord slash f.2) :
    AllTidy (IsLine slash) (defaultImpl codec fields) := by
  simp (disch := first | exact ⟨_, rfl, rfl⟩ | fail) [hc, Code.allTidy_map_line]
  exact fun name value h => .inl (hf (name, value) h)

theorem tidy_advance {blockLength : String} (h : IsWord slash blockLength) :
    AllTidy (IsLine slash) (advance blockLength) := by
  simp (disch := first | exact ⟨_, rfl, rfl⟩ | fail) [advance, h]

theorem tidy_wrapEncoder (g : GroupLayout) : AllTidy (IsLine slash) (wrapEncoder g) := by
  simp (disch := first | exact ⟨_, rfl, rfl⟩ | fail) [wrapEncoder, passHeader, headerAddress]

theorem tidy_wrapDecoder (g : GroupLayout) : AllTidy (IsLine slash) (wrapDecoder g) := by
  simp (disch := first | exact ⟨_, rfl, rfl⟩ | fail) [wrapDecoder, passHeader, headerAddress]

theorem tidy_wrapAbsent : AllTidy (IsLine slash) wrapAbsent := by
  simp (disch := first | exact ⟨_, rfl, rfl⟩ | fail) [wrapAbsent]

section groups

variable {g : GroupLayout} {accessors : List Code}

theorem tidy_groupEncoder (hg : g.IsSpelled slash) (ha : AllTidy (IsLine slash) accessors) :
    AllTidy (IsLine slash) (groupEncoder g accessors) := by
  have hcodec : IsWord slash (g.structName ++ "Encoder") :=
    Text.isWord_append.mpr ⟨hg.structName, Text.isWord_literal ⟨_, rfl, rfl⟩⟩
  have hdefault : AllTidy (IsLine slash) (defaultImpl (g.structName ++ "Encoder")
      [("count", "0"), ("index", "usize::MAX"), ("offset", "usize::MAX"), ("initial_limit", "0")]) :=
    tidy_defaultImpl hcodec (by simp (disch := first | exact ⟨_, rfl, rfl⟩ | fail))
  have hlast : AllTidy (IsLine slash) (advance "Self::BLOCK_LENGTH as usize" ++ accessors) :=
    (tidy_advance (Text.isWord_literal ⟨_, rfl, rfl⟩)).append ha
  unfold groupEncoder
  simp (disch := first | exact ⟨_, rfl, rfl⟩ | fail) [-linkImpls, -defaultImpl, countFunction,
    Code.allTidy_append_blank, hg.structName, hdefault, hlast, tidy_linkImpls hcodec, tidy_wrapEncoder]

theorem tidy_groupDecoder (hg : g.IsSpelled slash) (ha : AllTidy (IsLine slash) accessors) :
    AllTidy (IsLine slash) (groupDecoder g accessors) := by
  have hcodec : IsWord slash (g.structName ++ "Decoder") :=
    Text.isWord_append.mpr ⟨hg.structName, Text.isWord_literal ⟨_, rfl, rfl⟩⟩
  have hdefault : AllTidy (IsLine slash) (defaultImpl (g.structName ++ "Decoder")
      [("block_length", "0"), ("count", "0"), ("index", "usize::MAX"), ("offset", "0")]) :=
    tidy_defaultImpl hcodec (by simp (disch := first | exact ⟨_, rfl, rfl⟩ | fail))
  have hlast : AllTidy (IsLine slash) (advance "self.block_length as usize" ++ accessors) :=
    (tidy_advance (Text.isWord_literal ⟨_, rfl, rfl⟩)).append ha
  unfold groupDecoder
  simp (disch := first | exact ⟨_, rfl, rfl⟩ | fail) [-linkImpls, -defaultImpl, countFunction,
    Code.allTidy_append_blank, hg.structName, hdefault, hlast, tidy_linkImpls hcodec, tidy_wrapDecoder,
    tidy_wrapAbsent]

theorem tidy_groupCodec (hg : g.IsSpelled slash) (ha : AllTidy (IsLine slash) accessors) (side : Side) :
    AllTidy (IsLine slash) (groupCodec side g accessors) := by
  cases side with
  | encode => exact tidy_groupEncoder hg ha
  | decode => exact tidy_groupDecoder hg ha

end groups

/-- The codecs of all groups within a body, by the members that the body consists of. -/
theorem tidy_groupCodecs {side : Side} {b : Body}
    (hb : b.Consists (Token.IsSpelled (Text.Fits slash))) :
    ∀ {enclosing : Nat} {code : List Code}, groupCodecs side enclosing b = .ok code →
      AllTidy (IsLine slash) code := by
  induction hb with
  | nil =>
      intro enclosing code h
      rw [groupCodecs] at h
      cases h
      exact tidy_nil
  | field _ _ _ ih =>
      intro enclosing code h
      rw [groupCodecs_field] at h
      exact ih h
  | varData _ _ ih =>
      intro enclosing code h
      rw [groupCodecs_varData] at h
      exact ih h
  | group token body _ ihBody ih =>
      intro enclosing code h
      simp only [groupCodecs, bind_eq_ok, pure_eq_ok] at h
      obtain ⟨g, hg, accessors, haccessors, nested, hnested, others, hothers, rfl⟩ := h
      have hcodec := tidy_groupCodec (GroupHead.isSpelled_of_layout hg token)
        (tidy_bodyAccessors body haccessors) side
      exact tidy_blank.mpr ((hcodec.append (ihBody hnested)).append (ih hothers))

end Codec
end WireCodec
