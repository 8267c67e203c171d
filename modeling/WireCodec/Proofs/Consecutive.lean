import WireCodec.Proofs.Generator
import WireCodec.Proofs.TextFault
/-! # Fields that follow each other

`Abut offset fields length` says that fields lie one behind the other from `offset` on and take
`length` bytes, as far as they can be laid out.  The check of a block accepts such fields
(`Abut.checkBlock`), so that the accessors of a body fail for the sake of a text only
(`Codec.onlyText_body`). -/

namespace WireCodec

/-- Only a text can keep the field from its place. -/
structure Field.Fits (f : Field) (offset length : Nat) : Prop where
  onlyText : OnlyText f.layout
  place : ∀ l, f.layout = .ok l → l.offset = offset ∧ l.length = length

/-- The fields lie one behind the other. -/
inductive Abut : Nat → List Field → Nat → Prop
  | nil (offset : Nat) : Abut offset [] 0
  | cons {offset n m : Nat} {f : Field} {fields : List Field} (fits : f.Fits offset n)
      (tail : Abut (offset + n) fields m) : Abut offset (f :: fields) (n + m)

namespace Abut

variable {offset length : Nat} {fields : List Field}

theorem onlyText (h : Abut offset fields length) : ∀ f ∈ fields, OnlyText f.layout := by
  induction h with
  | nil =>
      intro f hf
      cases hf
  | cons fits tail ih =>
      intro f hf
      rcases List.mem_cons.mp hf with rfl | hf
      · exact fits.onlyText
      · exact ih f hf

theorem bounds (h : Abut offset fields length) {layouts : List FieldLayout}
    (hl : fields.mapM Field.layout = .ok layouts) :
    ∀ l ∈ layouts, offset ≤ l.offset ∧ l.offset + l.length ≤ offset + length := by
  induction h generalizing layouts with
  | nil =>
      cases hl
      intro l hl
      cases hl
  | cons fits tail ih =>
      simp only [List.mapM_cons, bind_eq_ok, pure_eq_ok] at hl
      obtain ⟨first, hfirst, rest, hrest, rfl⟩ := hl
      obtain ⟨hoffset, hlength⟩ := fits.place first hfirst
      intro l hl
      rcases List.mem_cons.mp hl with rfl | hl
      · omega
      · have := ih hrest l hl
        omega

theorem pairwise_apart (h : Abut offset fields length) {layouts : List FieldLayout}
    (hl : fields.mapM Field.layout = .ok layouts) :
    layouts.Pairwise fun f g => f.extent.Apart g.extent := by
  induction h generalizing layouts with
  | nil =>
      cases hl
      exact .nil
  | cons fits tail ih =>
      simp only [List.mapM_cons, bind_eq_ok, pure_eq_ok] at hl
      obtain ⟨first, hfirst, rest, hrest, rfl⟩ := hl
      obtain ⟨hoffset, hlength⟩ := fits.place first hfirst
      refine .cons ?_ (ih hrest)
      intro l hl
      have hbounds := tail.bounds hrest l hl
      refine Extent.apart_iff.mpr (.inl ?_)
      unfold FieldLayout.extent
      dsimp only
      omega

theorem checkBlock (h : Abut 0 fields length) {layouts : List FieldLayout}
    (hl : fields.mapM Field.layout = .ok layouts) (owner : String) :
    Layout.checkBlock owner layouts (some length) = .ok () := by
  refine Layout.checkBlock_eq_ok_iff.mpr ⟨h.pairwise_apart hl, ?_⟩
  intro l hl' _
  have := h.bounds hl l hl'
  omega

theorem onlyText_within (h : Abut 0 fields length) (owner : String) (enclosing : Nat) :
    OnlyText (do
      let layouts ← fields.mapM fun f => do return FieldLayout.within (← f.layout) enclosing
      Layout.checkBlock owner layouts (some length)
      return layouts) := by
  refine (onlyText_mapM fun f hf => ?_).bind fun layouts hlayouts => ?_
  · exact (h.onlyText f hf).bind fun _ _ => onlyText_ok _
  · obtain ⟨raw, hraw, rfl⟩ := mapM_layout_within.mp hlayouts
    rw [Layout.checkBlock_map_within, h.checkBlock hraw]
    exact onlyText_ok _

end Abut

/-- Only a text can keep what follows the fields of a body from being generated. -/
structure Body.Generates (body : Body) : Prop where
  groups : ∀ g ∈ body.groups, OnlyText g.1.layout
  varData : ∀ v ∈ body.varData, OnlyText v.layout
  codecs : ∀ side enclosing, OnlyText (Codec.renderGroups side enclosing body)

namespace Codec

theorem onlyText_blockLayouts {owner : String} {body : Body} {length : Nat}
    (h : Abut 0 body.fields length) (enclosing : Nat) :
    OnlyText (blockLayouts owner body length enclosing) := h.onlyText_within owner enclosing

theorem onlyText_body {side : Side} {owner : String} {body : Body} {length enclosing : Nat}
    (hfields : Abut 0 body.fields length) (h : body.Generates) :
    OnlyText (emitBody side owner body length enclosing) := by
  unfold emitBody
  refine (onlyText_blockLayouts hfields enclosing).bind fun fields _ => ?_
  refine (onlyText_fields side fields).bind fun _ _ => ?_
  refine (onlyText_mapM fun g hg => ?_).bind fun _ _ => ?_
  · exact (h.groups g hg).bind fun _ _ => onlyText_ok _
  refine (onlyText_mapM fun v hv => ?_).bind fun _ _ => onlyText_ok _
  exact (h.varData v hv).bind fun _ _ => onlyText_ok _

theorem Composite.onlyText_membersOf {t : NamedType} {first : Token} {body : Body}
    (hbody : Body.ofComposite t.run = .ok body)
    (hfields : Abut 0 body.fields first.encodedLength.toNat) : OnlyText (membersOf t first) := by
  unfold membersOf
  rw [hbody]
  exact hfields.onlyText_within t.name first.version

theorem Composite.onlyText_render (c : Composite) : OnlyText c.render := by
  unfold render
  refine (onlyText_mapM fun side _ => ?_).bind fun _ _ => onlyText_ok _
  unfold renderSide renderCodec
  refine OnlyText.bind ?_ fun _ _ => onlyText_ok _
  exact (onlyText_fields side c.members).bind fun _ _ => onlyText_ok _

theorem Message.onlyText_render {m : Message} (hlength : 0 ≤ m.token.encodedLength)
    (hfields : Abut 0 m.body.fields m.token.encodedLength.toNat) (h : m.body.Generates) (s : Schema)
    (r : Registry) : OnlyText (m.render s r) := by
  unfold render
  rw [if_neg (Int.not_lt.mpr hlength)]
  refine (onlyText_mapM fun side _ => ?_).bind fun _ _ => onlyText_ok _
  unfold renderSide
  refine (onlyText_body hfields h).bind fun _ _ => ?_
  exact (h.codecs side _).bind fun _ _ => onlyText_ok _

end Codec
end WireCodec
