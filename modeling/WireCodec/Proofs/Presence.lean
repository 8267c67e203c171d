import WireCodec.Proofs.Accessors
import WireCodec.Proofs.Block
import WireCodec.Proofs.Layout
import WireCodec.Proofs.Reading
/-! # Fields that take no room

A layout takes no room (`FieldLayout.TakesNoRoom`) if it is that of a constant of no bytes, whose
accessors access nothing and which the check of a block passes over.  The layout of any other field
takes room: its setter accesses the buffer (`FieldLayout.exists_access`).

Whether a field is declared constant is asked for single values, arrays and enums only.  A set or a
composite that is declared constant is laid out like any other one, and its accessors access the buffer
(`Field.layout_takesNoRoom_iff`). -/

namespace WireCodec

namespace FieldLayout

/-- The field is a constant of no bytes.  Its accessors access nothing, and the check of a block comes
to the same result with it and without it. -/
structure TakesNoRoom (l : FieldLayout) : Prop where
  isConstant : l.kind.isConstant
  length : l.length = 0
  untouched : ∀ side code, Codec.fieldAccessor side l = .ok code →
    ∀ version, Code.accesses version code = []
  ignored : ∀ owner front back limit,
    Layout.checkBlock owner (front ++ l :: back) limit = Layout.checkBlock owner (front ++ back) limit

/-- A field of no bytes has no part in the check of its block. -/
theorem checkBlock_of_length {l : FieldLayout} (h : l.length = 0) (owner : String)
    (front back : List FieldLayout) (limit : Option Nat) :
    Layout.checkBlock owner (front ++ l :: back) limit
      = Layout.checkBlock owner (front ++ back) limit := by
  have hextents : Layout.extents (front ++ l :: back) = Layout.extents (front ++ back) := by
    unfold Layout.extents
    rw [List.filter_append, List.filter_cons_of_neg (by simp [h]), ← List.filter_append]
  unfold Layout.checkBlock
  rw [hextents]

/-- What is transferred for a field that is no constant. -/
theorem transfers_eq_nil_iff {l : FieldLayout} (base : String) :
    l.transfers base = [] ↔ l.kind.isConstant := by
  unfold transfers
  cases l.kind <;> simp [FieldKind.isConstant]

/-- The setter of a field accesses the buffer in all versions, unless the field is a constant. -/
theorem exists_access {l : FieldLayout} (h : ¬ l.kind.isConstant) :
    ∃ code, Codec.fieldAccessor .encode l = .ok code ∧ ∀ version, Code.accesses version code ≠ [] := by
  obtain ⟨code, hcode⟩ : ∃ code, Codec.fieldAccessor .encode l = .ok code := ⟨_, rfl⟩
  refine ⟨code, hcode, fun version hnone => h ?_⟩
  have hcarries := (Codec.isAccessor_of_fieldAccessor hcode).carries.accesses version
  have hmap : (l.transfers "self.offset").map (·.madeBy .encode) = [] := by
    rw [← hnone, hcarries]
    exact (if_pos (Nat.zero_le version)).symm
  exact (transfers_eq_nil_iff _).mp (List.map_eq_nil_iff.mp hmap)

theorem takesNoRoom_iff {l : FieldLayout} :
    l.TakesNoRoom ↔ l.kind.isConstant ∧ l.length = 0 := by
  constructor
  · intro h
    exact ⟨h.isConstant, h.length⟩
  · rintro ⟨hconstant, hlength⟩
    refine ⟨hconstant, hlength, ?_, checkBlock_of_length hlength⟩
    intro side code hcode version
    rw [(Codec.isAccessor_of_fieldAccessor hcode).carries.accesses version,
      (transfers_eq_nil_iff _).mpr hconstant, List.map_nil, ite_self]

end FieldLayout

namespace Field

variable {f : Field}

/-- A field is laid out as a constant if it is declared constant and is a single value, an array or an
enum. -/
theorem isConstant_of_kind {kind : FieldKind} (h : f.kind = .ok kind) :
    kind.isConstant ↔ f.isConstant ∧ (f.type.signal = .encoding ∨ f.type.signal = .beginEnum) := by
  unfold Field.kind at h
  cases hs : f.type.signal with
  | encoding =>
      rw [hs] at h
      by_cases hc : f.isConstant
      · obtain ⟨c, -, rfl⟩ := map_eq_ok.mp ((if_pos hc).symm.trans h)
        simp [FieldKind.isConstant, hc]
      · obtain ⟨element, -, hkind⟩ := bind_eq_ok.mp ((if_neg hc).symm.trans h)
        obtain rfl := pure_eq_ok.mp hkind
        split <;> simp [FieldKind.isConstant, hc]
  | beginEnum =>
      rw [hs] at h
      by_cases hc : f.isConstant
      · obtain ⟨raw, -, hkind⟩ := bind_eq_ok.mp ((if_pos hc).symm.trans h)
        obtain rfl := pure_eq_ok.mp hkind
        simp [FieldKind.isConstant, hc]
      · obtain ⟨p, -, hkind⟩ := bind_eq_ok.mp ((if_neg hc).symm.trans h)
        obtain rfl := pure_eq_ok.mp hkind
        simp [FieldKind.isConstant, hc]
  | beginSet =>
      rw [hs] at h
      obtain ⟨p, -, hkind⟩ := bind_eq_ok.mp h
      obtain rfl := pure_eq_ok.mp hkind
      simp [FieldKind.isConstant]
  | beginComposite =>
      rw [hs] at h
      cases h
      simp [FieldKind.isConstant]
  | _ =>
      rw [hs] at h
      cases h

/-- **Which fields take no room.**  A field takes no room exactly if it is declared constant, by its
own token or by that of its type, and its type is a primitive one or an enum.  Every other field has a
setter that accesses the buffer.  So have sets and composites that are declared constant; a set then
occupies the bytes of its primitive type and a composite the length that it states. -/
theorem layout_takesNoRoom_iff {l : FieldLayout} (h : f.layout = .ok l) :
    (l.TakesNoRoom ↔
      f.isConstant ∧ (f.type.signal = .encoding ∨ f.type.signal = .beginEnum)) ∧
      (¬ l.TakesNoRoom → ∃ code, Codec.fieldAccessor .encode l = .ok code ∧
        ∀ version, Code.accesses version code ≠ []) ∧
      (f.type.signal = .beginSet → ∃ p, f.type.primitive = .ok p ∧ l.length = p.size) ∧
      (f.type.signal = .beginComposite → l.length = f.type.encodedLength.toNat) := by
  obtain ⟨hkind, hl⟩ := layout_eq_ok.mp h
  have hlength : l.length = l.kind.length f.type.encodedLength := by
    rw [hl]
  have hnone : l.kind.isConstant → l.length = 0 := by
    intro hconstant
    rw [hlength]
    cases hk : l.kind with
    | constant c => rfl
    | _ =>
        rw [hk] at hconstant
        cases hconstant
  have hroom : l.TakesNoRoom ↔ l.kind.isConstant := by
    rw [FieldLayout.takesNoRoom_iff]
    exact ⟨fun h => h.1, fun h => ⟨h, hnone h⟩⟩
  refine ⟨hroom.trans (isConstant_of_kind hkind), ?_, ?_, ?_⟩
  · intro htakes
    exact FieldLayout.exists_access (mt hroom.mpr htakes)
  · intro hs
    unfold Field.kind at hkind
    rw [hs] at hkind
    obtain ⟨p, hp, hset⟩ := bind_eq_ok.mp hkind
    refine ⟨p, hp, ?_⟩
    rw [hlength, ← pure_eq_ok.mp hset]
    rfl
  · intro hs
    unfold Field.kind at hkind
    rw [hs] at hkind
    rw [hlength, ← Except.ok.inj hkind]
    rfl

end Field

namespace Orders

/-- The currency of an order is always the same. -/
def currency : Field :=
  let type : Token :=
    { signal := .encoding, name := "uint8", offset := 0, encodedLength := 0
      encoding := { presence := .constant, primitive := some .uint8, constant := some "42" } }
  ⟨{ signal := .beginField, name := "currency", id := 1, span := 3 }, type, [type]⟩

def currencyLayout : FieldLayout :=
  { name := "currency", accessor := "currency", offset := 0, length := 0, gate := {}
    kind := .constant (.number .uint8 (.int 42)) }

theorem layout_currency : currency.layout = .ok currencyLayout :=
  toOption_eq_some.mp (by decide +kernel)

/-- The run of a set that is declared constant. -/
def flagSet : List Token :=
  [{ signal := .beginSet, name := "Flags", offset := 0, encodedLength := 1, span := 2
     encoding := { presence := .constant, primitive := some .uint8, constant := some "1" } },
   { signal := .endSet, name := "Flags" }]

/-- The flags of an order are declared constant. -/
def flags : Field :=
  ⟨{ signal := .beginField, name := "flags", id := 2, span := 4 }, flagSet.head (by decide), flagSet⟩

def flagsLayout : FieldLayout :=
  { name := "flags", accessor := "flags", offset := 0, length := 1, gate := {}
    kind := .bitSet "Flags" .uint8 }

theorem layout_flags : flags.layout = .ok flagsLayout := toOption_eq_some.mp (by decide +kernel)

def first : Token :=
  { signal := .beginMessage, name := "Order", id := 1, encodedLength := 1, span := 6 }

/-- A message with these flags. -/
def message : List Token :=
  first :: flags.token :: (flagSet ++ [{ signal := .endField, name := "flags" },
    { signal := .endMessage, name := "Order" }])

theorem ofMessage_message : Body.ofMessage message = .ok (first, [.field flags]) := by
  have hfirst : first.Heads message.tail := ⟨rfl, fun _ h => ⟨_, rfl, Option.some.inj h⟩⟩
  have hflags : flags.token.Heads (flagSet ++ [{ signal := .endField, name := "flags" }]) :=
    ⟨rfl, fun _ h => ⟨_, rfl, Option.some.inj h⟩⟩
  refine Body.ofMessage_eq_ok_iff.mpr ⟨message.tail, [], rfl, rfl, hfirst, ?_⟩
  exact .field hflags (.wrapped rfl) (.nil .field)

end Orders

theorem Field.layout_takesNoRoom_iff_currency :
    Orders.currency.layout = .ok Orders.currencyLayout ∧ Orders.currencyLayout.TakesNoRoom :=
  ⟨Orders.layout_currency,
    (Field.layout_takesNoRoom_iff Orders.layout_currency).1.mpr ⟨by decide, by decide⟩⟩

/-- The flags are declared constant, and they occupy a byte that their setter accesses. -/
theorem constant_flags_take_room :
    Body.ofMessage Orders.message = .ok (Orders.first, [.field Orders.flags]) ∧
      Orders.flags.isConstant ∧ Orders.flags.layout = .ok Orders.flagsLayout ∧
      Orders.flagsLayout.length = 1 ∧ ¬ Orders.flagsLayout.TakesNoRoom ∧
      ∃ code, Codec.fieldAccessor .encode Orders.flagsLayout = .ok code ∧
        ∀ version, Code.accesses version code ≠ [] := by
  have hvisible : ¬ Orders.flagsLayout.kind.isConstant := by decide
  refine ⟨Orders.ofMessage_message, by decide, Orders.layout_flags, rfl, ?_, ?_⟩
  · intro htakes
    exact hvisible htakes.isConstant
  · exact FieldLayout.exists_access hvisible

end WireCodec
