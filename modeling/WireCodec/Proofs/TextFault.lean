import WireCodec.Codec.Composite
import WireCodec.Codec.BitSet
import WireCodec.Codec.Enumeration
import WireCodec.Codec.Group
import WireCodec.Proofs.Outcome
/-! # Where only texts can fail

Reading a literal or the name of a character encoding fails with a fault of the text, and so does
writing a value as a literal of another type.  Everything else that accessors are made of succeeds, so
the accessors of a field fail for the sake of a text only (`Codec.onlyText_fields`).  The
layout of a field does so if its type has a primitive type and its constant a value. -/

namespace WireCodec

/-- An outcome that is a result, or the given fault of a text. -/
theorem onlyText_ite {α : Type} {c : Prop} [Decidable c] {x y : Except Fault α} (hx : OnlyText x)
    (hy : OnlyText y) : OnlyText (if c then x else y) := by
  split
  · exact hx
  · exact hy

/-! ### Literals -/

namespace Value

theorem onlyText_parseInteger (p : Primitive) (raw : String) : OnlyText (parseInteger p raw) := by
  unfold parseInteger
  split
  · exact onlyText_ite (onlyText_error rfl) (onlyText_ok _)
  · exact onlyText_error rfl
  · exact onlyText_ite (onlyText_ok _) (onlyText_error rfl)

theorem onlyText_parse (p : Primitive) (raw : String) : OnlyText (parse p raw) := by
  unfold parse
  refine onlyText_ite ?_ (onlyText_ite ?_ (onlyText_parseInteger p raw))
  · dsimp only
    split
    · exact onlyText_ok _
    · exact onlyText_error rfl
  · split
    · exact onlyText_ite (onlyText_ok _) (onlyText_error rfl)
    · exact onlyText_parseInteger p raw

theorem onlyText_literal (p : Primitive) (v : Value) : OnlyText (v.literal p) := by
  unfold literal
  cases v with
  | int n => exact onlyText_ok _
  | float x => exact onlyText_ite (onlyText_ok _) (onlyText_error rfl)
  | text s => exact onlyText_error rfl

theorem onlyText_nullCheck (p : Primitive) (expression : String) (v : Value) :
    OnlyText (v.nullCheck p expression) := by
  unfold nullCheck
  exact onlyText_ite (onlyText_ok _) ((onlyText_literal p v).bind fun _ _ => onlyText_ok _)

end Value

theorem TextEncoding.onlyText_ofDeclared (member : String) (declared : Option String) :
    OnlyText (ofDeclared member declared) := by
  unfold ofDeclared
  split
  · exact onlyText_ok _
  · exact onlyText_ite (onlyText_ok _) (onlyText_ite (onlyText_ok _) (onlyText_error rfl))

theorem Encoding.onlyText_applicable (stated : Option String) (p : Primitive) (convention : Value) :
    OnlyText (applicable stated p convention) := by
  unfold applicable
  split
  · exact Value.onlyText_parse p _
  · exact onlyText_ok _

/-! ### Layouts -/

theorem Scalar.onlyText_ofToken {t : Token} {p : Primitive} (h : t.primitive = .ok p) :
    OnlyText (Scalar.ofToken t) := by
  unfold ofToken
  rw [h]
  refine (Encoding.onlyText_applicable _ _ _).bind fun _ _ => ?_
  refine (Encoding.onlyText_applicable _ _ _).bind fun _ _ => ?_
  exact (Encoding.onlyText_applicable _ _ _).bind fun _ _ => onlyText_ok _

theorem Scalar.primitive_of_ofToken {t : Token} {p : Primitive} {s : Scalar} (h : t.primitive = .ok p)
    (hs : Scalar.ofToken t = .ok s) : s.primitive = p := by
  unfold ofToken at hs
  simp only [h, bind_eq_ok, pure_eq_ok, Except.ok.injEq] at hs
  obtain ⟨_, rfl, _, _, _, _, _, _, rfl⟩ := hs
  rfl

theorem Field.onlyText_constant {f : Field} {p : Primitive} (h : f.type.primitive = .ok p)
    (hvalue : (f.token.encoding.constant.or f.type.encoding.constant).isSome) :
    OnlyText f.constant := by
  obtain ⟨raw, hraw⟩ := Option.isSome_iff_exists.mp hvalue
  have hliteral : f.constantLiteral = .ok raw := by
    unfold constantLiteral
    rw [hraw]
  unfold constant
  rw [h, hliteral]
  refine (TextEncoding.onlyText_ofDeclared _ _).bind fun encoding _ => ?_
  split
  · exact onlyText_ite (onlyText_ok _) (onlyText_error rfl)
  · exact onlyText_ok _
  · exact (Value.onlyText_parse _ _).bind fun _ _ => onlyText_ok _

theorem VarData.onlyText_layout {v : VarData} {p : Primitive} (h : v.length.primitive = .ok p) :
    OnlyText v.layout := by
  unfold layout
  rw [h]
  exact (TextEncoding.onlyText_ofDeclared _ _).bind fun _ _ => onlyText_ok _

/-! ### Accessors -/

theorem FieldLayout.onlyText_absent (f : FieldLayout) : OnlyText f.absent := by
  unfold absent
  split
  · exact onlyText_ite (onlyText_ok _) ((Value.onlyText_literal _ _).map _)
  · exact (Value.onlyText_literal _ _).bind fun _ _ => onlyText_ok _
  all_goals exact onlyText_ok _

namespace Codec

theorem onlyText_fieldGate (f : FieldLayout) : OnlyText (emitFieldGate f) := by
  unfold emitFieldGate
  refine f.onlyText_absent.bind fun absent _ => ?_
  cases absent with
  | some absent => exact onlyText_ok _
  | none => exact onlyText_ok _

theorem onlyText_constant (f : FieldLayout) (c : Constant) : OnlyText (emitConstant f c) := by
  cases c with
  | number p v => exact (Value.onlyText_literal p v).bind fun _ _ => onlyText_ok _
  | bytes s => exact onlyText_ok _
  | text s => exact onlyText_ok _
  | variant enumType variant => exact onlyText_ok _

theorem onlyText_scalarGetter (f : FieldLayout) (s : Scalar) : OnlyText (emitScalarGetter f s) := by
  unfold emitScalarGetter
  refine (onlyText_fieldGate f).bind fun _ _ => ?_
  split
  · exact (Value.onlyText_nullCheck _ _ _).bind fun _ _ => onlyText_ok _
  · exact onlyText_ok _

theorem onlyText_compositeGetter (f : FieldLayout) (typeName : String) :
    OnlyText (emitCompositeGetter f typeName) := by
  unfold emitCompositeGetter
  split
  · exact (onlyText_fieldGate f).bind fun _ _ => onlyText_ok _
  · exact onlyText_ok _

theorem onlyText_getter (f : FieldLayout) : OnlyText (emitGetter f) := by
  unfold emitGetter
  cases f.kind with
  | scalar s => exact onlyText_scalarGetter f s
  | constant c => exact onlyText_constant f c
  | composite typeName schemaName => exact onlyText_compositeGetter f typeName
  | array element length => exact (onlyText_fieldGate f).bind fun _ _ => onlyText_ok _
  | enumeration typeName p => exact (onlyText_fieldGate f).bind fun _ _ => onlyText_ok _
  | bitSet typeName p => exact (onlyText_fieldGate f).bind fun _ _ => onlyText_ok _

theorem onlyText_fields (side : Side) (fields : List FieldLayout) :
    OnlyText (emitFields side fields) := by
  unfold emitFields
  refine (onlyText_mapM fun f _ => ?_).bind fun _ _ => onlyText_ok _
  unfold emitField
  cases side with
  | encode => exact onlyText_ok _
  | decode => exact (onlyText_getter f).bind fun _ _ => onlyText_ok _

/-! ### Enums and bit sets -/

theorem Enumeration.onlyText_addVariant {schemaName : String} {p : Primitive} {null : Value}
    {variants : List (String × String)} {t : Token} (h : t.encoding.constant.isSome) :
    OnlyText (addVariant schemaName p null variants t) := by
  obtain ⟨raw, hraw⟩ := Option.isSome_iff_exists.mp h
  unfold addVariant
  rw [hraw]
  refine (Value.onlyText_parse p raw).bind fun value _ => ?_
  refine onlyText_ite (onlyText_error rfl) ?_
  refine (Value.onlyText_literal p value).bind fun literal _ => ?_
  exact onlyText_ite (onlyText_error rfl) (onlyText_ok _)

theorem Enumeration.addVariant_eq_ok {schemaName : String} {p : Primitive} {null : Value}
    {variants variants' : List (String × String)} {t : Token}
    (h : addVariant schemaName p null variants t = .ok variants') :
    ∃ value literal, Value.literal p value = .ok literal ∧
      variants' = variants ++ [(Name.type t.name, literal)] := by
  unfold addVariant at h
  split at h
  · obtain ⟨raw, _, h⟩ := bind_eq_ok.mp h
    obtain ⟨value, _, h⟩ := bind_eq_ok.mp h
    obtain ⟨_, h⟩ := guard_eq_ok.mp h
    obtain ⟨literal, hliteral, h⟩ := bind_eq_ok.mp h
    obtain ⟨_, h⟩ := guard_eq_ok.mp h
    cases h
    exact ⟨value, literal, hliteral, rfl⟩
  · exact absurd h throw_ne_ok

theorem Enumeration.onlyText_foldlM_addVariant {schemaName : String} {p : Primitive} {null : Value} :
    ∀ {values : List Token} {variants : List (String × String)},
      (∀ t ∈ values, t.encoding.constant.isSome) →
        OnlyText (values.foldlM (addVariant schemaName p null) variants)
  | [], variants, _ => onlyText_ok variants
  | t :: values, variants, h => by
      rw [List.foldlM_cons]
      exact (onlyText_addVariant (h t List.mem_cons_self)).bind fun _ _ =>
        onlyText_foldlM_addVariant fun u hu => h u (List.mem_cons_of_mem _ hu)

theorem Enumeration.length_foldlM_addVariant {schemaName : String} {p : Primitive} {null : Value} :
    ∀ {values : List Token} {variants variants' : List (String × String)},
      values.foldlM (addVariant schemaName p null) variants = .ok variants' →
        variants'.length = variants.length + values.length
  | [], _, _, h => by
      cases h
      rfl
  | t :: values, variants, _, h => by
      rw [List.foldlM_cons, bind_eq_ok] at h
      obtain ⟨_, ht, h⟩ := h
      obtain ⟨_, _, _, rfl⟩ := addVariant_eq_ok ht
      rw [length_foldlM_addVariant h, List.length_append, List.length_singleton, List.length_cons]
      omega

theorem Enumeration.onlyText_ofType {t : NamedType} {first : Token} {p : Primitive}
    (h : first.primitive = .ok p)
    (hliteral : ∀ u ∈ t.run, u.signal = .validValue → u.encoding.constant.isSome)
    (hvalue : ∃ u ∈ t.run, u.signal = .validValue) : OnlyText (ofType t first) := by
  unfold ofType
  rw [h]
  refine (Encoding.onlyText_applicable _ _ _).bind fun null _ => ?_
  refine (Value.onlyText_literal _ _).bind fun nullLiteral _ => ?_
  have hvalues : ∀ u ∈ t.run.filter (·.signal == .validValue), u.encoding.constant.isSome := by
    intro u hu
    obtain ⟨hu, hsignal⟩ := List.mem_filter.mp hu
    exact hliteral u hu (beq_iff_eq.mp hsignal)
  refine (onlyText_foldlM_addVariant hvalues).bind fun variants hvariants => ?_
  have hne : variants ≠ [] := by
    obtain ⟨u, hu, hsignal⟩ := hvalue
    have hmem : u ∈ t.run.filter (·.signal == .validValue) :=
      List.mem_filter.mpr ⟨hu, beq_iff_eq.mpr hsignal⟩
    have hpos := List.length_pos_of_mem hmem
    have hlength := length_foldlM_addVariant hvariants
    rintro rfl
    rw [List.length_nil] at hlength
    omega
  rw [if_neg hne]
  exact onlyText_ok _

theorem BitSet.onlyText_choice {p : Primitive} {t : Token} (h : t.encoding.constant.isSome) :
    OnlyText (choice p t) := by
  obtain ⟨raw, hraw⟩ := Option.isSome_iff_exists.mp h
  unfold choice
  rw [hraw]
  dsimp only
  split
  · exact onlyText_ok _
  · exact onlyText_error rfl

theorem BitSet.onlyText_ofType {t : NamedType} {first : Token} {p : Primitive}
    (h : first.primitive = .ok p)
    (hbit : ∀ u ∈ t.run, u.signal = .choice → u.encoding.constant.isSome) :
    OnlyText (ofType t first) := by
  unfold ofType
  rw [h]
  refine (onlyText_mapM fun u hu => ?_).bind fun _ _ => onlyText_ok _
  obtain ⟨hu, hsignal⟩ := List.mem_filter.mp hu
  exact onlyText_choice (hbit u hu (beq_iff_eq.mp hsignal))

end Codec
end WireCodec
