import WireCodec.Proofs.Access
import WireCodec.Proofs.Outcome
import WireCodec.Proofs.Trees.Message
/-! # What accessors do

What the accessors of a member transfer is said by the layout of the member alone
(`FieldLayout.transfers`, `VarDataLayout.transfers`, `GroupLayout.transfers`), for the encoder and for
the decoder.  Setters and getters make exactly these transfers; a getter makes them for the versions
that have the member, and a constant has none. -/

namespace WireCodec

open Codec (Side inlined)

attribute [simp] Codec.nestedImpl Codec.inherentImpl Codec.forward
  Codec.forwardingImpl Codec.linkImpls Codec.defaultImpl Codec.parentFunction FieldLayout.address
  Codec.elementAddress

/-! ### Fields -/

/-- The transfers of a field of some kind, whose place is given by a base expression and a
displacement. -/
@[simp] def FieldKind.transfers (base : String) (displacement : Nat) : FieldKind → List Transfer
  | .scalar s => [.value s.primitive ⟨base, displacement, none⟩]
  | .array element _ =>
    [.value element.primitive ⟨base, displacement, some element.primitive.size⟩]
  | .constant _ => []
  | .enumeration _ p => [.value p ⟨base, displacement, none⟩]
  | .bitSet _ p => [.value p ⟨base, displacement, none⟩]
  | .composite .. => [.nested ⟨base, displacement, none⟩]

namespace FieldLayout

/-- The transfers of a field. -/
def transfers (f : FieldLayout) (base : String) : List Transfer := f.kind.transfers base f.offset

/-- The heading of the accessor of a field that is no constant.  Setters and getters are about values
of the same type. -/
def heading (f : FieldLayout) : Side → String
  | .encode => match f.kind with
    | .composite typeName _ => s!"pub fn {f.accessor}_encoder(self) -> {typeName}Encoder<Self>"
    | .array element n =>
      s!"pub fn {f.accessor}(&mut self, value: [{element.primitive.typeName}; {n}])"
    | kind => s!"pub fn {f.accessor}(&mut self, value: {Codec.Composite.valueType kind})"
  | .decode => match f.kind with
    | .composite typeName _ =>
      if f.gate.isGated then
        s!"pub fn {f.accessor}_decoder(self) -> Either<Self, {typeName}Decoder<Self>>"
      else s!"pub fn {f.accessor}_decoder(self) -> {typeName}Decoder<Self>"
    | .scalar s =>
      if s.isOptional then s!"pub fn {f.accessor}(&self) -> Option<{s.primitive.typeName}>"
      else s!"pub fn {f.accessor}(&self) -> {s.primitive.typeName}"
    | .array element n => s!"pub fn {f.accessor}(&self) -> [{element.primitive.typeName}; {n}]"
    | kind => s!"pub fn {f.accessor}(&self) -> {Codec.Composite.valueType kind}"

end FieldLayout

namespace Codec

theorem isComment_docs (texts : List String) : (.blank :: texts.map Code.doc).all Code.isComment := by
  simp [Code.isComment]

/-- A setter is one function, which makes the transfers of its field. -/
theorem setter_eq {f : FieldLayout} (h : f.kind.isConstant = false) :
    ∃ body, setter f = inlined (f.heading .encode) body ∧
      Code.Carries .encode 0 (f.transfers "self.offset") [] body := by
  obtain ⟨name, accessor, offset, length, gate, kind⟩ := f
  cases kind with
  | constant c => cases h
  | scalar s | array s n | enumeration t p | bitSet t p | composite t n =>
      refine ⟨_, rfl, ?_⟩
      refine ⟨fun version => ?_, rfl, rfl⟩
      simp [Code.accesses, FieldLayout.transfers]

theorem isSome_absent {f : FieldLayout} (h : f.kind.isConstant = false) {absent : Option String}
    (ha : f.absent = .ok absent) : absent.isSome := by
  unfold FieldLayout.absent at ha
  cases hk : f.kind with
  | scalar s =>
      simp only [hk] at ha
      split at ha
      · cases ha
        rfl
      · obtain ⟨_, _, rfl⟩ := map_eq_ok.mp ha
        rfl
  | array element n =>
      simp only [hk, bind_eq_ok, pure_eq_ok] at ha
      obtain ⟨_, _, rfl⟩ := ha
      rfl
  | constant c =>
      rw [hk] at h
      cases h
  | enumeration | bitSet | composite =>
      simp only [hk] at ha
      cases ha
      rfl

theorem gate_eq_ok {f : FieldLayout} (h : f.kind.isConstant = false) {code : List Code}
    (hc : gate f = .ok code) :
    ∃ absent, code = gateOf f.gate absent := by
  unfold gate at hc
  obtain ⟨absent, ha, hc⟩ := bind_eq_ok.mp hc
  obtain ⟨absent, rfl⟩ := Option.isSome_iff_exists.mp (isSome_absent h ha)
  rw [pure_eq_ok] at hc
  exact ⟨absent, hc.symm⟩

/-- A getter of the shape that all have: a gate, and then the transfers of the field. -/
theorem function_of_gate {f : FieldLayout} (h : f.kind.isConstant = false) {heading : String}
    {transfers : List Transfer} {body code : List Code}
    (hb : Code.Carries .decode 0 transfers [] body)
    (hc : (do return inlined heading ((← gate f) ++ body)) = .ok code) :
    Code.IsFunction heading code ∧ Code.Carries .decode f.gate.since transfers [] code := by
  obtain ⟨gate, hg, hc⟩ := bind_eq_ok.mp hc
  obtain ⟨absent, rfl⟩ := gate_eq_ok h hg
  rw [pure_eq_ok] at hc
  subst hc
  exact ⟨rfl, (hb.gated f.gate absent).inlined heading⟩

theorem getScalar_eq_ok {f : FieldLayout} {s : Scalar} (hk : f.kind = .scalar s) {code : List Code}
    (hc : getScalar f s = .ok code) : Code.IsFunction (f.heading .decode) code ∧
      Code.Carries .decode f.gate.since (f.transfers "self.offset") [] code := by
  obtain ⟨name, accessor, offset, length, g, kind⟩ := f
  subst hk
  obtain ⟨gate, hg, hc⟩ := bind_eq_ok.mp hc
  obtain ⟨absent, rfl⟩ := gate_eq_ok rfl hg
  split at hc
  next ho =>
    obtain ⟨isNull, _, hc⟩ := bind_eq_ok.mp hc
    rw [pure_eq_ok] at hc
    have hh : FieldLayout.heading ⟨name, accessor, offset, length, g, .scalar s⟩ .decode = _ :=
      if_pos ho
    rw [hh, ← hc]
    refine ⟨rfl, Code.Carries.inlined (Code.Carries.gated ?_ g absent) _⟩
    refine ⟨fun version => ?_, rfl, rfl⟩
    simp [Code.accesses, FieldLayout.transfers]
  next ho =>
    rw [pure_eq_ok] at hc
    have hh : FieldLayout.heading ⟨name, accessor, offset, length, g, .scalar s⟩ .decode = _ :=
      if_neg ho
    rw [hh, ← hc]
    refine ⟨rfl, Code.Carries.inlined (Code.Carries.gated ?_ g absent) _⟩
    refine ⟨fun version => ?_, rfl, rfl⟩
    simp [Code.accesses, FieldLayout.transfers]

theorem getComposite_eq_ok {f : FieldLayout} {t n : String} (hk : f.kind = .composite t n)
    {code : List Code} (hc : getComposite f t = .ok code) :
    Code.IsFunction (f.heading .decode) code ∧
      Code.Carries .decode f.gate.since (f.transfers "self.offset") [] code := by
  obtain ⟨name, accessor, offset, length, g, kind⟩ := f
  subst hk
  simp only [getComposite] at hc
  split at hc
  next hg =>
    have hh : FieldLayout.heading ⟨name, accessor, offset, length, g, .composite t n⟩ .decode = _ :=
      if_pos hg
    rw [hh]
    refine function_of_gate rfl ⟨fun version => ?_, rfl, rfl⟩ hc
    simp [Code.accesses, FieldLayout.transfers]
  next hg =>
    have hh : FieldLayout.heading ⟨name, accessor, offset, length, g, .composite t n⟩ .decode = _ :=
      if_neg hg
    have hs : g.since = 0 := Gate.isGated_eq_false_iff.mp (Bool.eq_false_iff.mpr hg)
    rw [pure_eq_ok] at hc
    rw [hh, hs, ← hc]
    refine ⟨rfl, Code.Carries.inlined ?_ _⟩
    refine ⟨fun version => ?_, rfl, rfl⟩
    simp [Code.accesses, FieldLayout.transfers]

/-- A getter is one function, which makes the transfers of its field behind a gate. -/
theorem getter_eq_ok {f : FieldLayout} (h : f.kind.isConstant = false) {code : List Code}
    (hc : getter f = .ok code) : Code.IsFunction (f.heading .decode) code ∧
      Code.Carries .decode f.gate.since (f.transfers "self.offset") [] code := by
  obtain ⟨name, accessor, offset, length, g, kind⟩ := f
  cases kind with
  | constant c => cases h
  | scalar s => exact getScalar_eq_ok rfl hc
  | composite t n => exact getComposite_eq_ok rfl hc
  | array s n | enumeration t p | bitSet t p =>
      refine function_of_gate h ⟨fun version => ?_, rfl, rfl⟩ hc
      simp [Code.accesses, FieldLayout.transfers]

/-- The getter of a constant does not touch the buffer. -/
theorem getConstant_eq_ok {f : FieldLayout} {c : Constant} {code : List Code}
    (hc : getConstant f c = .ok code) : Code.Carries .decode 0 [] [] code := by
  have literal : ∀ type literal, Code.Carries .decode 0 [] [] (getLiteral f type literal) :=
    fun type literal => ⟨fun version => by simp [getLiteral, Code.accesses], rfl, rfl⟩
  cases c with
  | number p v =>
      obtain ⟨_, _, hc⟩ := bind_eq_ok.mp hc
      rw [pure_eq_ok] at hc
      subst hc
      exact literal _ _
  | bytes | text | variant =>
      cases hc
      exact literal _ _

end Codec

/-- The version that an accessor of a side asks for: only getters ask for one. -/
def Gate.asked (g : Gate) : Side → Nat
  | .encode => 0
  | .decode => g.since

/-- The gate of a field; constants are for all versions. -/
def FieldLayout.visibility (f : FieldLayout) : Gate := if f.kind.isConstant then {} else f.gate

namespace Codec

/-- The code is what a side has as the accessor of a field: one function, which makes the transfers of
the field for the versions that have it, or nothing for the encoder of a constant. -/
structure IsAccessor (side : Side) (f : FieldLayout) (code : List Code) : Prop where
  function : f.kind.isConstant = false → Code.IsFunction (f.heading side) code
  skipped : f.kind.isConstant → side = .encode → Code.functions code = []
  carries : Code.Carries side (f.visibility.asked side) (f.transfers "self.offset") [] code

/-- **What accessors of fields do.** -/
theorem isAccessor_of_fieldAccessor {side : Side} {f : FieldLayout} {code : List Code}
    (h : fieldAccessor side f = .ok code) : IsAccessor side f code := by
  have hcomment := isComment_docs (document f)
  rw [fieldAccessor_eq] at h
  cases hk : f.kind.isConstant with
  | false =>
      have hv : f.visibility = f.gate := if_neg (by simp [hk])
      cases side with
      | encode =>
          simp only [fieldTree, hk, pure_eq_ok] at h
          obtain ⟨body, hs, hb⟩ := setter_eq hk
          subst h
          rw [hs]
          exact ⟨fun _ => (Code.isFunction_inlined _ body).comments hcomment,
            fun hc => absurd hc (by simp [hk]), (hb.inlined _).comments hcomment⟩
      | decode =>
          simp only [fieldTree, bind_eq_ok, pure_eq_ok] at h
          obtain ⟨getter, hg, rfl⟩ := h
          obtain ⟨hfun, hcarries⟩ := getter_eq_ok hk hg
          rw [← hv] at hcarries
          exact ⟨fun _ => hfun.comments hcomment, fun hc => absurd hc (by simp [hk]),
            hcarries.comments hcomment⟩
  | true =>
      have hv : f.visibility = {} := if_pos hk
      obtain ⟨name, accessor, offset, length, g, kind⟩ := f
      cases kind with
      | constant c =>
          cases side with
          | encode =>
              cases h
              refine ⟨?_, fun _ _ => rfl, ?_⟩
              · intro hc
                cases hc
              · rw [hv]
                exact ⟨fun version => rfl, rfl, rfl⟩
          | decode =>
              simp only [fieldTree, bind_eq_ok, pure_eq_ok] at h
              obtain ⟨getter, hg, rfl⟩ := h
              refine ⟨?_, ?_, ?_⟩
              · intro hc
                cases hc
              · intro _ hs
                cases hs
              · rw [hv]
                exact (getConstant_eq_ok hg).comments hcomment
      | _ => cases hk

end Codec

/-! ### Var data -/

/-- The layout of a var data member within a codec of some version. -/
def VarDataLayout.within (v : VarDataLayout) (enclosing : Nat) : VarDataLayout :=
  { v with gate := v.gate.within enclosing }

namespace VarDataLayout

/-- The transfers of a var data member: the length, and the bytes behind it. -/
def transfers (v : VarDataLayout) : List Transfer :=
  [.value v.lengthType ⟨"limit", 0, none⟩, .bytes ⟨"limit", v.lengthType.size, none⟩]

/-- The move of the limit past the length and the bytes. -/
def move (v : VarDataLayout) : Piece :=
  .moveLimit "self" "limit" s!"{v.lengthType.size} + data_length"

def heading (v : VarDataLayout) : Side → String
  | .encode =>
    let valueType := if v.text = some .utf8 then "&str" else "&[u8]"
    s!"pub fn {v.accessor}(&mut self, value: {valueType}) -> SbeResult<()>"
  | .decode => s!"pub fn {v.accessor}(&mut self) -> &'a [u8]"

end VarDataLayout

namespace Codec

theorem setVarData_does (v : VarDataLayout) :
    Code.IsFunction (v.heading .encode) (setVarData v) ∧
      Code.Carries .encode 0 v.transfers [v.move] (setVarData v) := by
  obtain ⟨name, accessor, gate, lengthType, encoding, text⟩ := v
  rcases text with _ | _ | _ <;>
  · refine ⟨rfl, Code.Carries.inlined ?_ _⟩
    refine ⟨fun version => ?_, rfl, rfl⟩
    simp [Code.accesses, passVarData, bytesAddress, VarDataLayout.transfers,
      VarDataLayout.prefixSize]

theorem getVarData_does (v : VarDataLayout) :
    Code.IsFunction (v.heading .decode) (getVarData v) ∧
      Code.Carries .decode v.gate.since v.transfers [v.move] (getVarData v) := by
  refine ⟨rfl, Code.Carries.inlined (Code.Carries.gated ?_ v.gate "&[]") _⟩
  refine ⟨fun version => ?_, rfl, rfl⟩
  simp [Code.accesses, passVarData, bytesAddress, VarDataLayout.transfers,
    VarDataLayout.prefixSize]

/-- **What accessors of var data do.**  Either side transfers the length and the bytes, and moves the
limit past both. -/
theorem varDataAccessor_does (side : Side) (v : VarDataLayout) :
    Code.IsFunction (v.heading side) (varDataAccessor side v) ∧
      Code.Carries side (v.gate.asked side) v.transfers [v.move] (varDataAccessor side v) := by
  have hd := isComment_docs (documentVarData v)
  rw [varDataAccessor_eq]
  cases side with
  | encode =>
      obtain ⟨hf, hc⟩ := setVarData_does v
      exact ⟨hf.comments hd, hc.comments hd⟩
  | decode =>
      obtain ⟨hf, hc⟩ := getVarData_does v
      exact ⟨hf.comments hd, hc.comments hd⟩

end Codec

/-! ### Groups -/

/-- The layout of a group within a codec of some version. -/
def GroupLayout.within (g : GroupLayout) (enclosing : Nat) : GroupLayout :=
  { g with gate := g.gate.within enclosing }

namespace GroupLayout

def heading (g : GroupLayout) (side : Side) : String :=
  let codec := g.structName ++ side.suffix
  match side with
  | .encode =>
    s!"pub fn {g.accessor}_encoder(self, count: {g.numInGroupType.typeName}) -> {codec}<Self>"
  | .decode => s!"pub fn {g.accessor}_decoder(self) -> {codec}<Self>"

/-- The transfers of a group's header. -/
def transfers (g : GroupLayout) : List Transfer :=
  [.value g.blockLengthType ⟨"initial_limit", g.blockLengthOffset, none⟩,
   .value g.numInGroupType ⟨"initial_limit", g.numInGroupOffset, none⟩]

/-- The moves of the limit past the header, and past the block of an element. -/
def moves (side : Side) : List Piece :=
  [.moveLimit "parent" "initial_limit" "Self::HEADER_SIZE",
   .moveLimit "parent" "self.offset" (match side with
    | .encode => "Self::BLOCK_LENGTH as usize"
    | .decode => "self.block_length as usize")]

/-- The line that states the size of the header. -/
def sizeLine (g : GroupLayout) : Code :=
  .text s!"pub const HEADER_SIZE: usize = {g.headerSize};"

end GroupLayout

namespace Codec

theorem groupAccessor_does (side : Side) (g : GroupLayout) :
    Code.IsFunction (g.heading side) (groupAccessor side g) ∧
      Code.Carries side (g.gate.asked side) [] [] (groupAccessor side g) := by
  have hd := isComment_docs (documentGroup g)
  rw [groupAccessor_eq]
  cases side with
  | encode =>
      refine ⟨(Code.isFunction_inlined _ _).comments hd, Code.Carries.comments hd ?_⟩
      exact ⟨fun version => rfl, rfl, rfl⟩
  | decode =>
      refine ⟨(Code.isFunction_inlined _ _).comments hd, Code.Carries.comments hd ?_⟩
      refine Code.Carries.inlined (Code.Carries.gated ?_ g.gate _) _
      exact ⟨fun version => rfl, rfl, rfl⟩

/-- The accesses of a group's codec: the header, and what the accessors of its elements access. -/
theorem accesses_groupCodec (version : Nat) (side : Side) (g : GroupLayout) (accessors : List Code) :
    Code.accesses version (groupCodec side g accessors)
      = g.transfers.map (·.madeBy side) ++ Code.accesses version accessors := by
  unfold Code.accesses groupCodec
  cases side with
  | encode =>
      simp [groupEncoder, wrapEncoder, countFunction, advance, passHeader, headerAddress,
        GroupLayout.transfers]
  | decode =>
      simp [groupDecoder, wrapDecoder, wrapAbsent, countFunction, advance, passHeader, headerAddress,
        GroupLayout.transfers]

theorem moves_groupCodec (side : Side) (g : GroupLayout) (accessors : List Code) :
    Code.moves (groupCodec side g accessors) = GroupLayout.moves side ++ Code.moves accessors := by
  unfold Code.moves groupCodec
  cases side with
  | encode =>
      simp [groupEncoder, wrapEncoder, countFunction, advance, passHeader, GroupLayout.moves,
        List.filter_cons]
  | decode =>
      simp [groupDecoder, wrapDecoder, wrapAbsent, countFunction, advance, passHeader,
        GroupLayout.moves, List.filter_cons]

end Codec
end WireCodec
