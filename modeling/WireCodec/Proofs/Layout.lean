import WireCodec.Layout
import WireCodec.Proofs.Outcome
/-! # What layouts state

A layout restates what the tokens of a member say.  `GroupHead.layout_eq_ok` does so for groups; for
fields, `Field.layout_eq_ok` reduces the layout to the kind of the field. -/

namespace WireCodec

/-! ### Fields -/

/-- The bytes that a field of some kind occupies; `stated` is the length that its type states. -/
def FieldKind.length (stated : Int) : FieldKind → Nat
  | .constant _ => 0
  | .scalar s => s.primitive.size
  | .array element n => element.primitive.size * n
  | .enumeration _ p => p.size
  | .bitSet _ p => p.size
  | .composite .. => stated.toNat

/-- The place of a field: that of the field's token, or else that of its type. -/
def Field.place (f : Field) : Nat :=
  if 0 ≤ f.token.offset then f.token.blockOffset else f.type.blockOffset

theorem Field.layout_eq (f : Field) :
    f.layout = (fun kind =>
      { name := f.name, accessor := Name.function f.name, offset := f.place
        length := kind.length f.type.encodedLength, gate := ⟨f.version⟩, kind }) <$> f.kind := by
  unfold Field.layout
  cases f.kind with
  | error e => rfl
  | ok kind => cases kind <;> rfl

theorem Field.layout_eq_ok {f : Field} {l : FieldLayout} :
    f.layout = .ok l ↔ f.kind = .ok l.kind ∧ l =
      { name := f.name, accessor := Name.function f.name, offset := f.place
        length := l.kind.length f.type.encodedLength, gate := ⟨f.version⟩, kind := l.kind } := by
  rw [Field.layout_eq, map_eq_ok]
  constructor
  · rintro ⟨kind, h, rfl⟩
    exact ⟨h, rfl⟩
  · rintro ⟨h, hl⟩
    exact ⟨l.kind, h, hl.symm⟩

/-! ### Groups -/

theorem GroupHead.layout_eq_ok {h : GroupHead} {g : GroupLayout} :
    h.layout = .ok g ↔
      0 ≤ h.token.encodedLength ∧
      ∃ blockLengthType numInGroupType headerSize,
        h.blockLength.primitive = .ok blockLengthType ∧
        h.numInGroup.primitive = .ok numInGroupType ∧ h.size = .ok headerSize ∧
        g = {
          name := h.token.name
          accessor := Name.function h.token.name
          structName := Name.type h.token.name
          gate := ⟨h.token.version⟩
          blockLength := h.token.encodedLength.toNat
          blockLengthType
          blockLengthOffset := h.blockLength.blockOffset
          numInGroupType
          numInGroupOffset := h.numInGroup.blockOffset
          headerSize } := by
  unfold GroupHead.layout
  split
  · refine ⟨fun hfails => ?_, fun ⟨hlength, _⟩ => ?_⟩
    · cases hfails
    · omega
  · simp only [bind_eq_ok, pure_eq_ok]
    constructor
    · rintro ⟨p, hp, q, hq, n, hn, rfl⟩
      exact ⟨by omega, p, q, n, hp, hq, hn, rfl⟩
    · rintro ⟨_, p, q, n, hp, hq, hn, rfl⟩
      exact ⟨p, hp, q, hq, n, hn, rfl⟩

end WireCodec
