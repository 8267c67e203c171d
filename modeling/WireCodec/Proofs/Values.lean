import Mathlib
import WireCodec.Proofs.Codecs
/-! # Values of composites

The value of a composite is read and written by code of its own, `Composite.decodeAt` and
`Composite.encodeAt`, beside the accessors of the members.  Both make the transfers of all members that
are no constants, and they make them for every version (`Composite.decodeAt_carries`).

So the accessor of a member that was introduced later than its composite does not touch the buffer for
earlier versions, and the value reads the member all the same (`Generator.readsOnlyVisible_iff`). -/

namespace WireCodec

open Codec (Side inlined fieldAccessor)
open Code (braces spaced)

namespace Code

/-- The body of a block with that heading. -/
def bodyOf? (heading : String) : Code → Option (List Code)
  | block [.text opening] body _ => if opening = heading ++ " \x7b" then some body else none
  | _ => none

/-- The bodies of the blocks with that heading among some items. -/
def headed (heading : String) (items : List Code) : List (List Code) :=
  items.filterMap (bodyOf? heading)

variable {heading other : String}

theorem modules_eq_headed (name : String) (items : List Code) :
    modules name items = headed s!"pub mod {name}" items := by
  refine List.filterMap_congr fun c _ => ?_
  cases c <;> rfl

theorem headed_spaced (heading : String) (parts : List (List Code)) :
    headed heading (spaced parts) = parts.flatMap (headed heading) :=
  filterMap_spaced rfl parts

@[simp] theorem headed_nil : headed heading [] = [] := rfl

@[simp] theorem headed_cons_line (pieces : List Piece) (items : List Code) :
    headed heading (line pieces :: items) = headed heading items := rfl

@[simp] theorem headed_cons_doc (text : String) (items : List Code) :
    headed heading (doc text :: items) = headed heading items := rfl

theorem headed_cons_self (body items : List Code) :
    headed heading (braces heading body :: items) = body :: headed heading items :=
  List.filterMap_cons_some (if_pos rfl)

theorem headed_cons_of_ne (h : other ≠ heading) (body items : List Code) :
    headed heading (braces other body :: items) = headed heading items := by
  refine List.filterMap_cons_none (if_neg fun heq => h ?_)
  rwa [String.append_left_inj] at heq

end Code

namespace Codec.Composite

/-! ### The two functions of the value -/

/-- The line that reads a member of the value. -/
def initializer (m : FieldLayout) : Code :=
  .line (.text s!"{m.accessor}: " :: (readMember m ++ [.text ","]))

/-- The function that reads the value. -/
def decodeAt (c : Composite) : List Code :=
  inlined s!"pub fn decode_at({c.parameters.1}: &ReadBuf<'_>, {c.parameters.2}: usize) -> Self"
    [braces "Self" (c.stored.map initializer)]

/-- The function that writes the value. -/
def encodeAt (c : Composite) : List Code :=
  inlined
    s!"pub fn encode_at(&self, {c.parameters.1}: &mut WriteBuf<'_>, {c.parameters.2}: usize)"
    (c.stored.flatMap writeMember)

/-- The functions are those of the value. -/
theorem value_eq (c : Composite) :
    c.value = spaced
      [[.doc (c.description.getD "Plain value of every non-constant member"),
        "#[derive(Clone, Copy, Debug, PartialEq)]",
        braces s!"pub struct {c.name}"
          (c.stored.map fun m => Code.text s!"pub {m.accessor}: {valueType m.kind},")],
       [braces s!"impl {c.name}" (spaced [c.decodeAt, c.encodeAt])]] := rfl

theorem initializer_carries (m : FieldLayout) :
    Code.Carries .decode 0 (m.transfers "offset") [] [initializer m] := by
  obtain ⟨name, accessor, offset, length, gate, kind⟩ := m
  cases kind with
  | scalar | array | constant | enumeration | bitSet | composite =>
      refine ⟨fun version => ?_, rfl, rfl⟩
      simp [Code.accesses, initializer, readMember, valueAddress, valueElementAddress,
        FieldLayout.transfers]

theorem isOpen_initializer (m : FieldLayout) : (initializer m).isOpen := by
  obtain ⟨name, accessor, offset, length, gate, kind⟩ := m
  cases kind <;> rfl

theorem writeMember_carries (m : FieldLayout) :
    Code.Carries .encode 0 (m.transfers "offset") [] (writeMember m) := by
  obtain ⟨name, accessor, offset, length, gate, kind⟩ := m
  cases kind with
  | scalar | array | constant | enumeration | bitSet | composite =>
      refine ⟨fun version => ?_, rfl, rfl⟩
      simp [Code.accesses, writeMember, valueAddress, valueElementAddress, FieldLayout.transfers]

theorem isOpen_writeMember (m : FieldLayout) : (writeMember m).all Code.isOpen := by
  obtain ⟨name, accessor, offset, length, gate, kind⟩ := m
  cases kind <;> rfl

/-- **What `decode_at` does.**  It reads every member that is no constant, for every version. -/
theorem decodeAt_carries (c : Composite) :
    Code.Carries .decode 0 (c.stored.flatMap (·.transfers "offset")) [] c.decodeAt := by
  have h : Code.Carries .decode 0 (c.stored.flatMap (·.transfers "offset")) []
      (c.stored.flatMap fun m => [initializer m]) :=
    .flatMap fun m _ => ⟨by simp [isOpen_initializer], initializer_carries m⟩
  rw [← List.map_eq_flatMap] at h
  exact (h.braces "Self").inlined _

/-- **What `encode_at` does.**  It writes every member that is no constant. -/
theorem encodeAt_carries (c : Composite) :
    Code.Carries .encode 0 (c.stored.flatMap (·.transfers "offset")) [] c.encodeAt :=
  (Code.Carries.flatMap fun m _ => ⟨isOpen_writeMember m, writeMember_carries m⟩).inlined _

/-! ### The unit of a composite -/

/-- The items of the module of a side, whose codec has its last functions from `functions`. -/
def sideItems (c : Composite) (side : Side) (functions : List Code) : List Code :=
  let codec := c.name ++ side.suffix
  spaced [["use super::*;"], spaced
    [["#[derive(Debug)]",
      braces s!"pub struct {codec}<P>" ["parent: Option<P>,", "offset: usize,"]],
     defaultImpl codec [("offset", "0")],
     linkImpls codec side,
     inherentImpl codec side.bufferTrait <| spaced
       [inlined "pub fn wrap(mut self, parent: P, offset: usize) -> Self"
          ["self.parent = Some(parent);", "self.offset = offset;", "self"],
        parentFunction, functions]]]

/-- The code is that of a composite.  It has one block for the composite's own functions, which are the
two of the value, and on either side one module with one codec, whose functions end with the one for the
whole value and the accessors of all members. -/
structure IsMadeOf (c : Composite) (code : List Code) : Prop where
  value : Code.headed s!"impl {c.name}" code = [spaced [c.decodeAt, c.encodeAt]]
  codecs : ∀ side : Side, ∃ items own functions accessors, Code.modules side.module code = [items] ∧
    Code.codecs items = [(c.name ++ side.suffix, own)] ∧ Code.lastBody? own = some functions ∧
    c.members.mapM (fieldAccessor side) = .ok accessors ∧
    c.wholeValue side ++ accessors.flatten <:+ functions

theorem structs_sideItems (c : Composite) (side : Side) (functions : List Code) :
    Code.structs (c.sideItems side functions) = [c.name ++ side.suffix] := by
  unfold sideItems inherentImpl
  simp only [Code.structs_spaced, List.flatMap_cons, List.flatMap_nil, Code.structs_cons_line,
    Code.structs_nil, Code.structs_cons_nested, structs_defaultImpl, structs_linkImpls,
    structs_nestedImpl]
  rfl

theorem codecs_sideItems (c : Composite) (side : Side) (functions : List Code) :
    ∃ own all, Code.codecs (c.sideItems side functions) = [(c.name ++ side.suffix, own)] ∧
      Code.lastBody? own = some all ∧ functions <:+ all := by
  have hcodec : Code.IsCodec _ _ (c.sideItems side functions) :=
    .of_structs [_, _, _] rfl (Code.structs_cons_nested _ _ []) (c.structs_sideItems side functions)
  have hends : Code.EndsInBlock (c.sideItems side) :=
    (((Code.EndsWith.self.spaced [_, _]).inherentImpl _ _).spaced [_, _, _]).spaced [_]
  have hnone : (([] : List Code).takeWhile fun d => (Code.struct? d).isNone).all Code.isPlain := rfl
  obtain ⟨own, hown, hcut⟩ := hcodec.codecs_append hnone
  obtain ⟨all, hall, hfunctions⟩ := hends.lastBody functions
  rw [List.append_nil] at hown
  refine ⟨own, all, hown, ?_, hfunctions⟩
  rwa [Code.lastBody?_of_cut hcodec hcut]

theorem sideModule_eq_ok {c : Composite} {side : Side} {code : List Code} :
    c.sideModule side = .ok code ↔ ∃ accessors, c.members.mapM (fieldAccessor side) = .ok accessors ∧
      code = [braces s!"pub mod {side.module}"
        (c.sideItems side (c.wholeValue side ++ accessors.flatten))] := by
  simp only [sideModule, codec, fieldAccessors, bind_eq_ok, pure_eq_ok]
  constructor
  · rintro ⟨_, ⟨_, ⟨accessors, haccessors, rfl⟩, rfl⟩, rfl⟩
    exact ⟨accessors, haccessors, rfl⟩
  · rintro ⟨accessors, haccessors, rfl⟩
    exact ⟨_, ⟨_, ⟨accessors, haccessors, rfl⟩, rfl⟩, rfl⟩

/-- The code around the items of the modules of both sides. -/
def framed (c : Composite) (items : Side → List Code) : List Code :=
  spaced <|
    [[Code.text "use super::*;"], [Code.text s!"pub const ENCODED_LENGTH: usize = {c.length};"],
     c.value]
    ++ Side.all.map (fun side => [braces s!"pub mod {side.module}" (items side)])
    ++ [[Code.text "pub use decoder::*;", Code.text "pub use encoder::*;"]]

theorem code_eq_ok {c : Composite} {code : List Code} (h : c.code = .ok code) :
    ∃ accessors : Side → List (List Code),
      (∀ side, c.members.mapM (fieldAccessor side) = .ok (accessors side)) ∧
      code = c.framed fun side => c.sideItems side (c.wholeValue side ++ (accessors side).flatten) := by
  rw [code_eq] at h
  simp only [tree, bind_eq_ok, pure_eq_ok, Side.all, List.mapM_cons, List.mapM_nil] at h
  obtain ⟨_, ⟨encoder, hencoder, _, ⟨decoder, hdecoder, _, rfl, rfl⟩, rfl⟩, rfl⟩ := h
  obtain ⟨setters, hsetters, rfl⟩ := sideModule_eq_ok.mp hencoder
  obtain ⟨getters, hgetters, rfl⟩ := sideModule_eq_ok.mp hdecoder
  have hsides : ∀ side, ∃ accessors, c.members.mapM (fieldAccessor side) = .ok accessors
    | .encode => ⟨setters, hsetters⟩
    | .decode => ⟨getters, hgetters⟩
  obtain ⟨accessors, haccessors⟩ := Classical.axiomOfChoice hsides
  obtain rfl : accessors .encode = setters :=
    Except.ok.inj ((haccessors .encode).symm.trans hsetters)
  obtain rfl : accessors .decode = getters :=
    Except.ok.inj ((haccessors .decode).symm.trans hgetters)
  exact ⟨accessors, haccessors, rfl⟩

theorem headed_value (c : Composite) (heading : String) (h : s!"pub struct {c.name}" ≠ heading) :
    Code.headed heading c.value
      = Code.headed heading [braces s!"impl {c.name}" (spaced [c.decodeAt, c.encodeAt])] := by
  rw [value_eq, Code.headed_spaced, List.flatMap_cons, List.flatMap_singleton, Code.headed_cons_doc,
    Code.headed_cons_line, Code.headed_cons_of_ne h]
  rfl

theorem modules_framed (c : Composite) (items : Side → List Code) (side : Side) :
    Code.modules side.module (c.framed items) = [items side] := by
  have hstruct : s!"pub struct {c.name}" ≠ s!"pub mod {side.module}" := fun heq => by
    simpa [toString] using congrArg (·.toList.take 5) heq
  have himpl : s!"impl {c.name}" ≠ s!"pub mod {side.module}" := fun heq => by
    simpa [toString] using congrArg (·.toList.take 5) heq
  have hvalue : Code.modules side.module c.value = [] := by
    rw [Code.modules_eq_headed, c.headed_value _ hstruct, Code.headed_cons_of_ne himpl]
    rfl
  rw [framed, Code.modules_spaced, List.flatMap_append, List.flatMap_append]
  simp only [Side.all, List.map_cons, List.map_nil, List.flatMap_cons, List.flatMap_nil,
    Message.modules_side, hvalue, Code.text, Code.modules_cons_line, Code.modules_nil]
  cases side <;> rfl

theorem headed_framed (c : Composite) (items : Side → List Code) :
    Code.headed s!"impl {c.name}" (c.framed items) = [spaced [c.decodeAt, c.encodeAt]] := by
  have hstruct : s!"pub struct {c.name}" ≠ s!"impl {c.name}" := fun heq => by
    simpa [toString] using congrArg (·.toList.head?) heq
  have hmodule (side : Side) : s!"pub mod {side.module}" ≠ s!"impl {c.name}" := fun heq => by
    simpa [toString] using congrArg (·.toList.head?) heq
  rw [framed, Code.headed_spaced, List.flatMap_append, List.flatMap_append]
  simp only [Side.all, List.map_cons, List.map_nil, List.flatMap_cons, List.flatMap_nil,
    c.headed_value _ hstruct, Code.headed_cons_self, Code.headed_cons_of_ne (hmodule _), Code.text,
    Code.headed_cons_line, Code.headed_nil]
  rfl

/-- A composite that has code is what its code is made of. -/
theorem isMadeOf_of_code {c : Composite} {code : List Code} (h : c.code = .ok code) :
    c.IsMadeOf code := by
  obtain ⟨accessors, haccessors, rfl⟩ := code_eq_ok h
  refine ⟨c.headed_framed _, fun side => ?_⟩
  obtain ⟨own, all, hown, hall, hfunctions⟩ :=
    c.codecs_sideItems side (c.wholeValue side ++ (accessors side).flatten)
  exact ⟨_, own, all, accessors side, c.modules_framed _ side, hown, hall, haccessors side, hfunctions⟩

theorem mapM_fieldAccessor_of_code {c : Composite} {code : List Code} (h : c.code = .ok code)
    (side : Side) : ∃ codes, c.members.mapM (fieldAccessor side) = .ok codes := by
  obtain ⟨_, _, _, codes, _, _, _, hcodes, _⟩ := (isMadeOf_of_code h).codecs side
  exact ⟨codes, hcodes⟩

theorem mem_members_of_mem_stored {c : Composite} {m : FieldLayout} (h : m ∈ c.stored) :
    m ∈ c.members ∧ m.kind.isConstant = false := by
  simpa [stored] using h

theorem transfers_ne_nil {m : FieldLayout} (h : m.kind.isConstant = false) (base : String) :
    m.transfers base ≠ [] := by
  unfold FieldLayout.transfers
  cases hk : m.kind with
  | constant c =>
      rw [hk] at h
      cases h
  | _ => simp

/-! ### Reads for versions that do not have a member -/

/-- No byte of a member is read for a version that does not have the member, neither by the accessor
of the member nor with the value. -/
def ReadsOnlyVisible (c : Composite) : Prop :=
  ∀ m ∈ c.stored, ∀ version < m.gate.since,
    (∀ accessor, fieldAccessor .decode m = .ok accessor → Code.accesses version accessor = []) ∧
      Code.accesses version [initializer m] = []

end Codec.Composite

theorem Generator.composite_of_typeUnit {t : NamedType} {u : CodeUnit} (h : typeUnit t = .ok u)
    (hk : t.kind = .composite) : ∃ first c, t.run.head? = some first ∧
      Codec.Composite.ofType t first = .ok c ∧ c.code = .ok u.code := by
  obtain ⟨b, hb⟩ := Option.isSome_iff_exists.mp (isSome_block?_of_typeUnit h hk)
  simp only [typeUnit, hk, bind_eq_ok, pure_eq_ok] at h
  obtain ⟨c, hc, calls, hcalls, rfl⟩ := h
  have hcode := Codec.Composite.code_of_render hcalls
  unfold NamedType.block? at hb
  split at hb
  case h_2 => cases hb
  case h_1 first body _ hf _ =>
    rw [hf] at hc
    exact ⟨first, c, hf, hc, hcode⟩

/-- **Which composites read only what a version has.**  The accessor of a member reads it for the
versions that have it.  `decode_at` reads all members for all versions, and `to_value` calls it without
a gate; so only a composite all of whose stored members are as old as itself reads none that a version
does not have. -/
theorem Generator.readsOnlyVisible_iff {t : NamedType} {u : CodeUnit} (h : typeUnit t = .ok u)
    (hk : t.kind = .composite) : ∃ first c, t.run.head? = some first ∧
      Codec.Composite.ofType t first = .ok c ∧ c.code = .ok u.code ∧ c.IsMadeOf u.code ∧
      (∀ m ∈ c.stored, ∃ accessor, fieldAccessor .decode m = .ok accessor ∧ ∀ version,
        Code.accesses version accessor
          = if m.gate.since ≤ version then (m.transfers "self.offset").map (·.madeBy .decode) else []) ∧
      Code.Carries .decode 0 (c.stored.flatMap (·.transfers "offset")) [] c.decodeAt ∧
      Code.gates (c.wholeValue .decode) = [] ∧
      (c.ReadsOnlyVisible ↔ ∀ m ∈ c.stored, m.gate.isGated = false) := by
  obtain ⟨first, c, hf, hc, hcode⟩ := composite_of_typeUnit h hk
  have haccessor : ∀ m ∈ c.stored, ∃ accessor, fieldAccessor .decode m = .ok accessor ∧ ∀ version,
      Code.accesses version accessor
        = if m.gate.since ≤ version then (m.transfers "self.offset").map (·.madeBy .decode)
          else [] := by
    intro m hm
    obtain ⟨hmem, hstored⟩ := Codec.Composite.mem_members_of_mem_stored hm
    obtain ⟨codes, hcodes⟩ := Codec.Composite.mapM_fieldAccessor_of_code hcode .decode
    obtain ⟨accessor, _, ha⟩ := ok_of_mapM_eq_ok hcodes hmem
    have hv : m.visibility = m.gate := if_neg (by simp [hstored])
    have hcarries := (Codec.isAccessor_of_fieldAccessor ha).carries.accesses
    rw [hv] at hcarries
    exact ⟨accessor, ha, hcarries⟩
  refine ⟨first, c, hf, hc, hcode, Codec.Composite.isMadeOf_of_code hcode, haccessor,
    Codec.Composite.decodeAt_carries c, rfl, ?_, ?_⟩
  · intro hreads m hm
    obtain ⟨_, hstored⟩ := Codec.Composite.mem_members_of_mem_stored hm
    rw [Gate.isGated_eq_false_iff]
    by_contra hgated
    -- version 0 does not have the member, and the value reads it
    have hnone := (hreads m hm 0 (Nat.pos_of_ne_zero hgated)).2
    rw [(Codec.Composite.initializer_carries m).accesses] at hnone
    simp only [Nat.le_refl, if_true, List.map_eq_nil_iff] at hnone
    exact Codec.Composite.transfers_ne_nil hstored _ hnone
  · intro hungated m hm version hv
    rw [Gate.isGated_eq_false_iff.mp (hungated m hm)] at hv
    exact absurd hv (Nat.not_lt_zero version)

/-! ### A member of a later version -/

namespace Point

def coordinate (name : String) (offset : Int) (version : Nat) : Token :=
  { signal := .encoding, name, offset, version, encodedLength := 4
    encoding := { primitive := some .int32 } }

def first : Token :=
  { signal := .beginComposite, name := "Point", offset := 0, encodedLength := 8, span := 4 }

/-- A point that has got its second coordinate in version 2. -/
def run : List Token :=
  [first, coordinate "x" 0 0, coordinate "y" 4 2, { signal := .endComposite, name := "Point" }]

def type : NamedType := ⟨"Point", .composite, run, []⟩

def schema : Schema := { packageName := "demo", types := [run], messages := [] }

def generator : Generator := ⟨schema, ⟨[type]⟩, []⟩

/-- The layout of a coordinate. -/
def layout (name : String) (offset since : Nat) : FieldLayout :=
  { name, accessor := name, offset, length := 4, gate := ⟨since⟩
    kind := .scalar ⟨.int32, false, .int (-(2 ^ 31)), .int (-(2 ^ 31) + 1), .int (2 ^ 31 - 1), none,
      none⟩ }

def composite : Codec.Composite :=
  { name := "Point", description := none, length := 8
    members := [layout "x" 0 0, layout "y" 4 2] }

theorem ofSchema_schema : Generator.ofSchema schema = .ok generator := by cbv

theorem ofType_type : Codec.Composite.ofType type first = .ok composite := by cbv

set_option maxRecDepth 4000 in
theorem entries_generator :
    (·.map CodeUnit.entry) <$> generator.modules = .ok [⟨"point_codec", .composite, "Point"⟩] := by
  cbv

theorem exists_unit : ∃ u, Generator.typeUnit type = .ok u := by
  obtain ⟨us, hus, _⟩ := map_eq_ok.mp entries_generator
  obtain ⟨types, htypes, _⟩ := bind_eq_ok.mp hus
  obtain ⟨u, _, hu⟩ := ok_of_mapM_eq_ok htypes (List.mem_cons_self : type ∈ [type])
  exact ⟨u, hu⟩

end Point

/-- The value reads the second coordinate for version 1, which does not have it. -/
theorem Generator.point_reads_hidden :
    ∃ g us, ofSchema Point.schema = .ok g ∧ g.units {} = .ok us ∧ ∃ t ∈ g.registry.types,
      t.kind = .composite ∧ ∃ first c, t.run.head? = some first ∧
        Codec.Composite.ofType t first = .ok c ∧ ¬ c.ReadsOnlyVisible := by
  obtain ⟨cs, hcs, _⟩ := map_eq_ok.mp Point.entries_generator
  refine ⟨_, _, Point.ofSchema_schema, units_of_modules hcs {}, Point.type, List.mem_cons_self, rfl,
    Point.first, Point.composite, rfl, Point.ofType_type, fun h => ?_⟩
  have hnone := (h (Point.layout "y" 4 2) (by decide) 1 (by decide)).2
  rw [(Codec.Composite.initializer_carries _).accesses] at hnone
  cases hnone

theorem Generator.readsOnlyVisible_iff_point :
    ∃ u, typeUnit Point.type = .ok u ∧ Point.type.kind = .composite ∧ ∃ first c,
      Point.type.run.head? = some first ∧ Codec.Composite.ofType Point.type first = .ok c ∧
      c.code = .ok u.code ∧ c.IsMadeOf u.code ∧
      (c.ReadsOnlyVisible ↔ ∀ m ∈ c.stored, m.gate.isGated = false) := by
  obtain ⟨u, hu⟩ := Point.exists_unit
  obtain ⟨first, c, hf, hc, hcode, hmade, _, _, _, hiff⟩ := readsOnlyVisible_iff hu rfl
  exact ⟨u, hu, rfl, first, c, hf, hc, hcode, hmade, hiff⟩

end WireCodec
