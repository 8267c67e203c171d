import WireCodec.Proofs.Block
import WireCodec.Proofs.Layout
import WireCodec.Proofs.Trees.Units
/-! # The blocks of a schema

A generator writes codecs for blocks: for the body of every message, for the body of every group at
any depth, and for every registered composite (`Generator.blocks`).  Where all units of a schema can
be generated each of its blocks has been laid out and checked (`Generator.isLaidOut_of_mem_blocks`). -/

namespace WireCodec

/-- The fields at fixed offsets of a message, of a group's elements or of a composite, and the number
of bytes that are set aside for them. -/
structure Block where
  owner : String
  fields : List Field
  length : Nat

/-- The fields have layouts, and the check of the block accepts them. -/
def Block.IsLaidOut (b : Block) : Prop :=
  ∃ layouts, b.fields.mapM Field.layout = .ok layouts ∧
    Layout.checkBlock b.owner layouts (some b.length) = .ok ()

/-- The blocks of the groups of a body, at any depth. -/
def Body.groupBlocks : Body → List Block
  | [] => []
  | .group head members :: rest =>
    ⟨head.token.name, Body.fields members, head.token.encodedLength.toNat⟩
      :: (Body.groupBlocks members ++ Body.groupBlocks rest)
  | .field _ :: rest => Body.groupBlocks rest
  | .varData _ :: rest => Body.groupBlocks rest

/-- The blocks of a message: its own and those of its groups. -/
def Codec.Message.blocks (m : Codec.Message) : List Block :=
  ⟨m.token.name, m.body.fields, m.token.encodedLength.toNat⟩ :: m.body.groupBlocks

/-- The block of a registered composite. -/
def NamedType.block? (t : NamedType) : Option Block :=
  match t.kind, t.run.head?, Body.ofComposite t.run with
  | .composite, some first, .ok body => some ⟨t.name, body.fields, first.encodedLength.toNat⟩
  | _, _, _ => none

/-- The blocks that a generator writes codecs for. -/
def Generator.blocks (g : Generator) : List Block :=
  g.messages.flatMap Codec.Message.blocks ++ g.registry.types.filterMap NamedType.block?

/-! ### Gates -/

/-- The layout of a field within a codec of some version. -/
def FieldLayout.within (f : FieldLayout) (enclosing : Nat) : FieldLayout :=
  { f with gate := f.gate.within enclosing }

/-- Gates play no part in the check of a block. -/
theorem Layout.checkBlock_map_within (owner : String) (fields : List FieldLayout) (limit : Option Nat)
    (enclosing : Nat) :
    checkBlock owner (fields.map (·.within enclosing)) limit = checkBlock owner fields limit := by
  have h : extents (fields.map (·.within enclosing)) = extents fields := by
    unfold extents
    rw [List.filter_map, List.map_map]
    rfl
  unfold checkBlock
  rw [h]

theorem mapM_layout_within {fields : List Field} {enclosing : Nat} {layouts : List FieldLayout} :
    fields.mapM (fun f => do return FieldLayout.within (← f.layout) enclosing) = .ok layouts ↔
      ∃ raw, fields.mapM Field.layout = .ok raw ∧ raw.map (·.within enclosing) = layouts := by
  induction fields generalizing layouts with
  | nil => simp
  | cons f fs ih =>
      simp only [List.mapM_cons, bind_eq_ok, pure_eq_ok, ih]
      constructor
      · rintro ⟨_, ⟨l, hl, rfl⟩, _, ⟨raw, hraw, rfl⟩, rfl⟩
        exact ⟨l :: raw, ⟨l, hl, raw, hraw, rfl⟩, rfl⟩
      · rintro ⟨_, ⟨l, hl, raw, hraw, rfl⟩, rfl⟩
        exact ⟨_, ⟨l, hl, rfl⟩, _, ⟨raw, hraw, rfl⟩, rfl⟩

/-! ### Bodies -/

namespace Codec

theorem blockLayouts_eq_ok {owner : String} {body : Body} {length enclosing : Nat}
    {layouts : List FieldLayout} :
    blockLayouts owner body length enclosing = .ok layouts ↔
      ∃ raw, body.fields.mapM Field.layout = .ok raw ∧ raw.map (·.within enclosing) = layouts ∧
        Layout.checkBlock owner raw (some length) = .ok () := by
  unfold blockLayouts
  simp only [bind_eq_ok, pure_eq_ok]
  constructor
  · rintro ⟨ls, hls, ⟨⟩, hc, rfl⟩
    obtain ⟨raw, hraw, rfl⟩ := mapM_layout_within.mp hls
    exact ⟨raw, hraw, rfl, by rwa [Layout.checkBlock_map_within] at hc⟩
  · rintro ⟨raw, hraw, rfl, hc⟩
    exact ⟨_, mapM_layout_within.mpr ⟨raw, hraw, rfl⟩, (), by rwa [Layout.checkBlock_map_within], rfl⟩

/-- The accessors of a body are written only for fields that are laid out. -/
theorem isLaidOut_of_bodyAccessors {side : Side} {owner : String} {body : Body}
    {length enclosing : Nat} {code : List Code}
    (h : bodyAccessors side owner body length enclosing = .ok code) :
    Block.IsLaidOut ⟨owner, body.fields, length⟩ := by
  unfold bodyAccessors at h
  rw [bind_eq_ok] at h
  obtain ⟨layouts, h, _⟩ := h
  obtain ⟨raw, hraw, _, hc⟩ := blockLayouts_eq_ok.mp h
  exact ⟨raw, hraw, hc⟩

@[simp] theorem groupCodecs_field (side : Side) (enclosing : Nat) (f : Field) (rest : Body) :
    groupCodecs side enclosing (.field f :: rest) = groupCodecs side enclosing rest := by
  simp [groupCodecs]

@[simp] theorem renderGroups_field (side : Side) (enclosing : Nat) (f : Field) (rest : Body) :
    renderGroups side enclosing (.field f :: rest) = renderGroups side enclosing rest := by
  simp [renderGroups]

@[simp] theorem renderGroups_varData (side : Side) (enclosing : Nat) (v : VarData) (rest : Body) :
    renderGroups side enclosing (.varData v :: rest) = renderGroups side enclosing rest := by
  simp [renderGroups]

@[simp] theorem groupCodecs_varData (side : Side) (enclosing : Nat) (v : VarData) (rest : Body) :
    groupCodecs side enclosing (.varData v :: rest) = groupCodecs side enclosing rest := by
  simp [groupCodecs]

theorem isLaidOut_of_groupCodecs {side : Side} : ∀ {body : Body} {enclosing : Nat} {code : List Code},
    groupCodecs side enclosing body = .ok code → ∀ b ∈ body.groupBlocks, b.IsLaidOut
  | [], _, _, _, b, hb => by simp [Body.groupBlocks] at hb
  | .group head members :: rest, enclosing, code, h, b, hb => by
      simp only [groupCodecs, bind_eq_ok] at h
      obtain ⟨g, hg, accessors, ha, nested, hn, others, ho, _⟩ := h
      rw [Body.groupBlocks, List.mem_cons, List.mem_append] at hb
      rcases hb with rfl | hb | hb
      · obtain ⟨_, _, _, _, _, _, _, rfl⟩ := GroupHead.layout_eq_ok.mp hg
        exact isLaidOut_of_bodyAccessors ha
      · exact isLaidOut_of_groupCodecs hn b hb
      · exact isLaidOut_of_groupCodecs ho b hb
  | .field _ :: rest, _, _, h, b, hb => by
      rw [groupCodecs_field] at h
      rw [Body.groupBlocks] at hb
      exact isLaidOut_of_groupCodecs h b hb
  | .varData _ :: rest, _, _, h, b, hb => by
      rw [groupCodecs_varData] at h
      rw [Body.groupBlocks] at hb
      exact isLaidOut_of_groupCodecs h b hb

theorem Message.isLaidOut_of_code {m : Message} {s : Schema} {r : Registry} {code : List Code}
    (h : m.code s r = .ok code) : ∀ b ∈ m.blocks, b.IsLaidOut := by
  rw [Message.code_eq, Message.tree] at h
  split at h
  · cases h
  · rw [bind_eq_ok] at h
    obtain ⟨sides, hs, _⟩ := h
    obtain ⟨_, _, h⟩ := ok_of_mapM_eq_ok hs (x := .encode) (by decide)
    simp only [Message.sideModule, bind_eq_ok] at h
    obtain ⟨accessors, ha, groups, hg, _⟩ := h
    intro b hb
    rcases List.mem_cons.mp hb with rfl | hb
    · exact isLaidOut_of_bodyAccessors ha
    · exact isLaidOut_of_groupCodecs hg b hb

theorem Composite.isLaidOut_of_membersOf {t : NamedType} {first : Token} {members : List FieldLayout}
    (h : Composite.membersOf t first = .ok members) :
    ∃ body, Body.ofComposite t.run = .ok body ∧
      Block.IsLaidOut ⟨t.name, body.fields, first.encodedLength.toNat⟩ := by
  simp only [Composite.membersOf, bind_eq_ok, pure_eq_ok] at h
  obtain ⟨body, hb, ls, hls, ⟨⟩, hc, rfl⟩ := h
  obtain ⟨raw, hraw, rfl⟩ := mapM_layout_within.mp hls
  rw [Layout.checkBlock_map_within] at hc
  exact ⟨body, hb, raw, hraw, hc⟩

end Codec

/-! ### Units -/

namespace Generator

theorem registry_of_ofSchema {g : Generator} {s : Schema} (h : ofSchema s = .ok g) :
    g.schema = s ∧ Registry.ofSchema s = .ok g.registry := by
  simp only [ofSchema, bind_eq_ok, pure_eq_ok] at h
  obtain ⟨r, hr, ms, _, rfl⟩ := h
  exact ⟨rfl, hr⟩

theorem message_of_ofSchema {g : Generator} {s : Schema} (h : ofSchema s = .ok g)
    {m : Codec.Message} (hm : m ∈ g.messages) :
    ∃ tokens ∈ s.messages, Body.ofMessage tokens = .ok (m.token, m.body) := by
  simp only [ofSchema, bind_eq_ok, pure_eq_ok] at h
  obtain ⟨r, _, ms, hms, rfl⟩ := h
  obtain ⟨tokens, htokens, hm⟩ := exists_of_mapM_eq_ok hms hm
  simp only [bind_eq_ok, pure_eq_ok] at hm
  obtain ⟨⟨token, body⟩, hbody, rfl⟩ := hm
  exact ⟨tokens, htokens, hbody⟩

theorem modules_eq_ok {g : Generator} {cs : List CodeUnit} :
    g.modules = .ok cs ↔ ∃ types messages, g.registry.types.mapM typeUnit = .ok types ∧
      g.messages.mapM g.messageUnit = .ok messages ∧ types ++ messages = cs := by
  simp only [modules, bind_eq_ok, pure_eq_ok]
  constructor
  · rintro ⟨ts, hts, ms, hms, h⟩
    exact ⟨ts, ms, hts, hms, h⟩
  · rintro ⟨ts, ms, hts, hms, h⟩
    exact ⟨ts, hts, ms, hms, h⟩

theorem units_eq_ok {g : Generator} {c : Configuration} {us : List SourceUnit} :
    g.units c = .ok us ↔
      ∃ types messages, g.registry.types.mapM typeUnit = .ok types ∧
        g.messages.mapM g.messageUnit = .ok messages ∧
        arrange g.schema c (types ++ messages) = us := by
  simp only [units, bind_eq_ok, pure_eq_ok, modules_eq_ok]
  constructor
  · rintro ⟨_, ⟨ts, ms, hts, hms, rfl⟩, h⟩
    exact ⟨ts, ms, hts, hms, h⟩
  · rintro ⟨ts, ms, hts, hms, h⟩
    exact ⟨_, ⟨ts, ms, hts, hms, rfl⟩, h⟩

/-- Printing cannot fail. -/
theorem units_of_modules {g : Generator} {cs : List CodeUnit} (h : g.modules = .ok cs)
    (c : Configuration) : g.units c = .ok (arrange g.schema c cs) := by
  rw [units, h]
  rfl

theorem isLaidOut_of_typeUnit {t : NamedType} {u : CodeUnit} {b : Block} (h : typeUnit t = .ok u)
    (hb : t.block? = some b) : b.IsLaidOut := by
  unfold NamedType.block? at hb
  split at hb
  case h_2 => cases hb
  case h_1 first body hk hf hbody =>
    simp only [typeUnit, hk, hf, Option.getD_some, bind_eq_ok] at h
    obtain ⟨c, hc, _⟩ := h
    simp only [Codec.Composite.ofType, bind_eq_ok] at hc
    obtain ⟨members, hm, _⟩ := hc
    obtain ⟨body', hbody', hl⟩ := Codec.Composite.isLaidOut_of_membersOf hm
    rw [hbody] at hbody'
    cases hbody'
    cases hb
    exact hl

theorem isSome_block?_of_typeUnit {t : NamedType} {u : CodeUnit} (h : typeUnit t = .ok u)
    (hk : t.kind = .composite) : t.block?.isSome := by
  simp only [typeUnit, hk, bind_eq_ok] at h
  obtain ⟨c, hc, _⟩ := h
  simp only [Codec.Composite.ofType, bind_eq_ok] at hc
  obtain ⟨members, hm, _⟩ := hc
  obtain ⟨body, hbody, _⟩ := Codec.Composite.isLaidOut_of_membersOf hm
  cases hr : t.run with
  | nil =>
      rw [hr] at hbody
      simp [Body.ofComposite, tokenAt, bind, Except.bind] at hbody
  | cons first rest =>
      rw [hr] at hbody
      simp [NamedType.block?, hk, hr, hbody]

theorem isSome_block?_of_units {g : Generator} {c : Configuration} {us : List SourceUnit}
    (h : g.units c = .ok us) {t : NamedType} (ht : t ∈ g.registry.types)
    (hk : t.kind = .composite) : t.block?.isSome := by
  obtain ⟨types, messages, hts, _, _⟩ := units_eq_ok.mp h
  obtain ⟨u, _, hu⟩ := ok_of_mapM_eq_ok hts ht
  exact isSome_block?_of_typeUnit hu hk

/-- Where all units can be generated, every block is laid out. -/
theorem isLaidOut_of_mem_blocks {g : Generator} {c : Configuration} {us : List SourceUnit}
    (h : g.units c = .ok us) {b : Block} (hb : b ∈ g.blocks) : b.IsLaidOut := by
  obtain ⟨types, messages, ht, hm, _⟩ := units_eq_ok.mp h
  rcases List.mem_append.mp hb with hb | hb
  · obtain ⟨m, hmem, hb⟩ := List.mem_flatMap.mp hb
    obtain ⟨u, _, hu⟩ := ok_of_mapM_eq_ok hm hmem
    exact Codec.Message.isLaidOut_of_code (code_of_messageUnit hu) b hb
  · obtain ⟨t, hmem, hb⟩ := List.mem_filterMap.mp hb
    obtain ⟨u, _, hu⟩ := ok_of_mapM_eq_ok ht hmem
    exact isLaidOut_of_typeUnit hu hb

end Generator
end WireCodec
