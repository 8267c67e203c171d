import WireCodec.Proofs.Fitting
import WireCodec.Proofs.Presence
/-! # Stated lengths

The type of a field states a length, and the layout of the field has one.  The two agree for composites,
for a primitive type that states a whole number of values, and for an enum or a set that states exactly
one (`Field.StatesWhole`, `Field.layout_length_eq_iff`).  Any other length is replaced without a fault:
what is too short for one value is widened to it, and what is left over behind the last whole value is
cut off; enums and sets always have the length of one value.

The check of a block knows the lengths of the layouts only.  Where all fields state whole values, it
keeps the stated bytes apart (`Layout.declared_apart`). -/

namespace WireCodec

theorem mul_max_one_div_eq_iff {n size : Nat} (hn : 0 < n) :
    size * max 1 (n / size) = n ↔ size ∣ n := by
  constructor
  · intro h
    exact ⟨_, h.symm⟩
  · rintro ⟨k, rfl⟩
    have hsize : 0 < size := Nat.pos_of_mul_pos_right hn
    have hk : 0 < k := Nat.pos_of_mul_pos_left hn
    rw [Nat.mul_div_cancel_left k hsize, Nat.max_eq_right hk]

namespace Field

variable {f : Field} {l : FieldLayout}

/-- The bytes that the field states: those from its place on that its type counts. -/
def declared (f : Field) : Extent := ⟨f.name, f.place, f.place + f.type.encodedLength.toNat⟩

/-- The length that the type states is one that its values have. -/
def StatesWhole (f : Field) : Prop :=
  match f.type.signal with
  | .encoding => ∃ p, f.type.primitive = .ok p ∧ p.size ∣ f.type.encodedLength.toNat
  | .beginEnum | .beginSet => ∃ p, f.type.primitive = .ok p ∧ f.type.encodedLength.toNat = p.size
  | .beginComposite => True
  | _ => False

theorem statesWhole_iff_dvd {p : Primitive} (hs : f.type.signal = .encoding)
    (hp : f.type.primitive = .ok p) : f.StatesWhole ↔ p.size ∣ f.type.encodedLength.toNat := by
  simp [StatesWhole, hs, hp]

theorem statesWhole_iff_eq {p : Primitive} (hs : f.type.signal = .beginEnum ∨ f.type.signal = .beginSet)
    (hp : f.type.primitive = .ok p) : f.StatesWhole ↔ f.type.encodedLength.toNat = p.size := by
  rcases hs with hs | hs <;> simp [StatesWhole, hs, hp]

theorem statesWhole_of_composite (hs : f.type.signal = .beginComposite) : f.StatesWhole := by
  simp [StatesWhole, hs]

/-- The length that a field is laid out with: as many whole values of a primitive type as the stated
length holds, but one at least; one value of an enum or a set; and the stated length of a composite. -/
inductive HasLength (f : Field) (n : Nat) : Prop
  | values {p : Primitive} (signal : f.type.signal = .encoding) (primitive : f.type.primitive = .ok p)
      (length : n = p.size * max 1 (f.type.encodedLength.toNat / p.size))
  | value {p : Primitive} (signal : f.type.signal = .beginEnum ∨ f.type.signal = .beginSet)
      (primitive : f.type.primitive = .ok p) (length : n = p.size)
  | composite (signal : f.type.signal = .beginComposite) (length : n = f.type.encodedLength.toNat)

theorem hasLength_of_layout (hc : f.isConstant = false) (hpos : 0 < f.type.encodedLength)
    (h : f.layout = .ok l) : f.HasLength l.length := by
  have hconstant : ¬ f.isConstant = true := by simp [hc]
  obtain ⟨hkind, hl⟩ := layout_eq_ok.mp h
  have hlength : l.length = l.kind.length f.type.encodedLength := by rw [hl]
  unfold Field.kind at hkind
  rw [hlength]
  cases hs : f.type.signal with
  | encoding =>
      rw [hs] at hkind
      obtain ⟨element, helement, hkind⟩ := bind_eq_ok.mp ((if_neg hconstant).symm.trans hkind)
      obtain ⟨p, hp, hscalar⟩ := bind_eq_ok.mp helement
      have hsize : element.primitive = p := by
        obtain ⟨_, -, hscalar⟩ := bind_eq_ok.mp hscalar
        obtain ⟨_, -, hscalar⟩ := bind_eq_ok.mp hscalar
        obtain ⟨_, -, hscalar⟩ := bind_eq_ok.mp hscalar
        rw [← pure_eq_ok.mp hscalar]
      refine .values hs hp ?_
      rw [← Token.arrayLength_of_pos hp hpos, ← pure_eq_ok.mp hkind]
      split
      next hone => rw [hone, Nat.mul_one, FieldKind.length, hsize]
      next => rw [FieldKind.length, hsize]
  | beginEnum =>
      rw [hs] at hkind
      obtain ⟨p, hp, hkind⟩ := bind_eq_ok.mp ((if_neg hconstant).symm.trans hkind)
      refine .value (.inl hs) hp ?_
      rw [← pure_eq_ok.mp hkind]
      rfl
  | beginSet =>
      rw [hs] at hkind
      obtain ⟨p, hp, hkind⟩ := bind_eq_ok.mp hkind
      refine .value (.inr hs) hp ?_
      rw [← pure_eq_ok.mp hkind]
      rfl
  | beginComposite =>
      rw [hs] at hkind
      refine .composite hs ?_
      rw [← Except.ok.inj hkind]
      rfl
  | _ =>
      rw [hs] at hkind
      cases hkind

/-- The stated length is kept exactly if it is that of whole values. -/
theorem HasLength.eq_iff {n : Nat} (h : f.HasLength n) (hpos : 0 < f.type.encodedLength) :
    n = f.type.encodedLength.toNat ↔ f.StatesWhole := by
  cases h with
  | values hs hp hlength =>
      rw [statesWhole_iff_dvd hs hp, hlength, mul_max_one_div_eq_iff (by omega)]
  | value hs hp hlength => rw [statesWhole_iff_eq hs hp, hlength, eq_comm]
  | composite hs hlength => exact iff_of_true hlength (statesWhole_of_composite hs)

/-- **Stated lengths.**  A field that is not constant and whose type states a positive length keeps
this length exactly if the type states whole values.  Otherwise it is laid out all the same, with the
length of whole values. -/
theorem layout_length_eq_iff (hc : f.isConstant = false) (hpos : 0 < f.type.encodedLength)
    (h : f.layout = .ok l) :
    (l.length = f.type.encodedLength.toNat ↔ f.StatesWhole) ∧ f.HasLength l.length := by
  have hlength := hasLength_of_layout hc hpos h
  exact ⟨hlength.eq_iff hpos, hlength⟩

end Field

/-! ### The check of a block -/

namespace Layout

/-- A field that states whole values is laid out at its place, with no fewer bytes than it states. -/
theorem le_length_of_layout {f : Field} {l : FieldLayout} (hc : f.isConstant = false)
    (hwhole : 0 < f.type.encodedLength → f.StatesWhole) (h : f.layout = .ok l) :
    l.offset = f.place ∧ f.type.encodedLength.toNat ≤ l.length := by
  refine ⟨by rw [(Field.layout_eq_ok.mp h).2], ?_⟩
  by_cases hpos : 0 < f.type.encodedLength
  · exact Nat.le_of_eq (((Field.hasLength_of_layout hc hpos h).eq_iff hpos).mpr (hwhole hpos)).symm
  · omega

/-- Where the fields of a block state whole values, the check of the block keeps the stated bytes
apart. -/
theorem declared_apart {owner : String} {fs : List Field} {layouts : List FieldLayout}
    {limit : Option Nat} (hlayouts : fs.mapM Field.layout = .ok layouts)
    (hwhole : ∀ f ∈ fs, 0 < f.type.encodedLength → f.StatesWhole)
    (hcheck : checkBlock owner layouts limit = .ok ()) :
    fs.Pairwise fun f g => f.isConstant = false → g.isConstant = false →
      f.declared.Apart g.declared := by
  have hapart := pairwise_of_mapM hlayouts (checkBlock_eq_ok_iff_apart.mp hcheck).1
  refine hapart.imp_of_mem ?_
  intro f g hf hg hfg hfc hgc
  obtain ⟨l, -, hl⟩ := ok_of_mapM_eq_ok hlayouts hf
  obtain ⟨k, -, hk⟩ := ok_of_mapM_eq_ok hlayouts hg
  obtain ⟨hplace, hle⟩ := le_length_of_layout hfc (hwhole f hf) hl
  obtain ⟨hplace', hle'⟩ := le_length_of_layout hgc (hwhole g hg) hk
  exact (hfg l k hl hk).mono (Nat.le_of_eq hplace) (Nat.add_le_add (Nat.le_of_eq hplace.symm) hle)
    (Nat.le_of_eq hplace') (Nat.add_le_add (Nat.le_of_eq hplace'.symm) hle')

end Layout

/-! ### Cut values -/

namespace Cut

/-- A field of some primitive type that is wrapped in the run of the message's field. -/
def field (name : String) (id : Int) (offset length : Int) (p : Primitive) : Field :=
  let type : Token :=
    { signal := .encoding, name := p.name, offset, encodedLength := length
      encoding := { primitive := some p } }
  ⟨{ signal := .beginField, name, id, offset, span := 3 }, type, [type]⟩

/-- An amount of six bytes, whose values have four. -/
def amount : Field := field "amount" 1 0 6 .int32

/-- A number in the last two of these bytes. -/
def number : Field := field "number" 2 4 2 .uint16

def layout (name : String) (offset length : Nat) (p : Primitive) : FieldLayout :=
  { name, accessor := name, offset, length, gate := {}
    kind := .scalar
      { primitive := p, isOptional := false, null := p.null, minimum := p.minimum
        maximum := p.maximum, characterEncoding := none, semanticType := none } }

def layouts : List FieldLayout := [layout "amount" 0 4 .int32, layout "number" 4 2 .uint16]

theorem mapM_layout : [amount, number].mapM Field.layout = .ok layouts :=
  toOption_eq_some.mp (by decide +kernel)

def first : Token :=
  { signal := .beginMessage, name := "Order", id := 1, encodedLength := 6, span := 8 }

def message : List Token :=
  first :: (amount.token :: (amount.run ++ [{ signal := .endField, name := "amount" }])
    ++ number.token :: (number.run ++ [{ signal := .endField, name := "number" }])
    ++ [{ signal := .endMessage, name := "Order" }])

theorem ofMessage_message :
    Body.ofMessage message = .ok (first, [.field amount, .field number]) := by
  have hfirst : first.Heads message.tail := ⟨rfl, fun _ h => ⟨_, rfl, Option.some.inj h⟩⟩
  have hamount : amount.token.Heads (amount.run ++ [{ signal := .endField, name := "amount" }]) :=
    ⟨rfl, fun _ h => ⟨_, rfl, Option.some.inj h⟩⟩
  have hnumber : number.token.Heads (number.run ++ [{ signal := .endField, name := "number" }]) :=
    ⟨rfl, fun _ h => ⟨_, rfl, Option.some.inj h⟩⟩
  refine Body.ofMessage_eq_ok_iff.mpr ⟨message.tail, [], rfl, rfl, hfirst, ?_⟩
  exact .field hamount (.wrapped rfl) (.field hnumber (.wrapped rfl) (.nil .field))

end Cut

theorem Field.layout_length_eq_iff_number :
    Cut.number.isConstant = false ∧ 0 < Cut.number.type.encodedLength ∧
      Cut.number.layout = .ok (Cut.layout "number" 4 2 .uint16) ∧ Cut.number.StatesWhole := by
  have hlayout : Cut.number.layout = .ok (Cut.layout "number" 4 2 .uint16) :=
    toOption_eq_some.mp (by decide +kernel)
  exact ⟨rfl, by decide, hlayout, (Field.layout_length_eq_iff rfl (by decide) hlayout).1.mp rfl⟩

/-- The six bytes of the amount are cut to four, and the check of its message accepts a number that lies
in the last two of them. -/
theorem amount_is_cut :
    Body.ofMessage Cut.message = .ok (Cut.first, [.field Cut.amount, .field Cut.number]) ∧
      Cut.amount.isConstant = false ∧ Cut.amount.type.encodedLength = 6 ∧
      Cut.amount.layout = .ok (Cut.layout "amount" 0 4 .int32) ∧
      [Cut.amount, Cut.number].mapM Field.layout = .ok Cut.layouts ∧
      Layout.checkBlock "Order" Cut.layouts (some 6) = .ok () ∧
      ¬ Cut.amount.declared.Apart Cut.number.declared := by
  have hcheck : Layout.checkBlock "Order" Cut.layouts (some 6) = .ok () := by
    rw [Layout.checkBlock_eq_ok_iff]
    simp [Cut.layouts, Cut.layout, FieldLayout.extent, Extent.apart_iff]
  refine ⟨Cut.ofMessage_message, rfl, rfl, toOption_eq_some.mp (by decide +kernel), Cut.mapM_layout,
    hcheck, ?_⟩
  intro hapart
  exact hapart 4 (by decide)

end WireCodec
