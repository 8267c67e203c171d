import Mathlib
import WireCodec.Proofs.Parts
/-! # Which versions see a member

A decoder's accessor turns versions away that do not have its member, unless these cannot reach the
codec that holds the accessor.  `Codec.Message.isHidden_iff` says that this loses nothing: along any
path through groups, some accessor turns a version away exactly if one of the members on the path was
introduced later. -/

namespace WireCodec

open Codec (Side)

/-- The member is no constant. -/
def Member.IsStored : Member → Prop
  | field f => ∀ c, f.kind ≠ .ok (.constant c)
  | _ => True

/-- The accessor that a decoder has for a member turns the version away. -/
def Part.IsHiddenFrom (version : Nat) (p : Part) : Prop :=
  ∃ since ∈ Code.gates (p.accessor .decode), version < since

theorem VarData.gate_of_layout {v : VarData} {layout : VarDataLayout} (h : v.layout = .ok layout) :
    layout.gate = ⟨v.token.version⟩ := by
  simp only [VarData.layout, bind_eq_ok, pure_eq_ok] at h
  obtain ⟨_, _, _, _, rfl⟩ := h
  rfl

/-- A gate that is kept turns away the versions before it; one that is dropped would turn away none
that reach the codec. -/
theorem Gate.lt_within_iff {g : Gate} {enclosing version : Nat} (h : enclosing ≤ version) :
    version < (g.within enclosing).since ↔ version < g.since := by
  unfold Gate.within
  split
  next hle =>
    simp
    omega
  next => rfl

namespace Code.Carries

/-- The gates of an accessor are the version that it asks for. -/
theorem exists_gate_iff {side : Side} {since : Nat} {transfers : List Transfer} {moved : List Piece}
    {code : List Code} (h : Carries side since transfers moved code) (version : Nat) :
    (∃ s ∈ Code.gates code, version < s) ↔ version < since := by
  rw [h.gates]
  split
  next => simp
  next =>
    simp
    omega

end Code.Carries

namespace Part.IsOf
variable {enclosing : Nat} {m : Member} {p : Part}

/-- The accessor of a member turns away the versions that do not have the member. -/
theorem isHiddenFrom_iff (h : IsOf enclosing m p) (hs : m.IsStored) {version : Nat}
    (hv : enclosing ≤ version) : p.IsHiddenFrom version ↔ version < m.introduced := by
  unfold IsHiddenFrom
  cases h with
  | @field f layout setter getter hl _ hg =>
      obtain ⟨hkind, hlayout⟩ := Field.layout_eq_ok.mp hl
      have hstored : (layout.within enclosing).kind.isConstant = false := by
        cases hk : layout.kind with
        | constant c => exact absurd (hkind.trans (congrArg _ hk)) (hs c)
        | _ => simp [FieldLayout.within, hk, FieldKind.isConstant]
      have hsince : layout.gate.since = f.version := by rw [hlayout]
      have hvis : (layout.within enclosing).visibility = layout.gate.within enclosing :=
        if_neg (by simp [hstored])
      rw [accessor, (Codec.isAccessor_of_fieldAccessor hg).carries.exists_gate_iff, hvis,
        Gate.asked, Gate.lt_within_iff hv, hsince, Member.introduced]
  | @group head members g parts hl hp =>
      obtain ⟨_, _, _, _, _, _, _, rfl⟩ := GroupHead.layout_eq_ok.mp hl
      rw [accessor, (Codec.groupAccessor_does _ _).2.exists_gate_iff]
      exact Gate.lt_within_iff hv
  | @varData v layout hl =>
      have hsince : layout.gate.since = v.token.version := by rw [VarData.gate_of_layout hl]
      rw [accessor, (Codec.varDataAccessor_does _ _).2.exists_gate_iff, Gate.asked]
      have hturned : version < (layout.within enclosing).gate.since ↔ version < layout.gate.since :=
        Gate.lt_within_iff hv
      rw [hturned, hsince, Member.introduced]

end Part.IsOf

/-! ### Paths through groups -/

/-- Only the last member on a path can be anything but a group. -/
theorem Member.isStored_of_walk {m : Member} {path : List Nat} {rest : Body}
    (h : walk Member.inner m.inner path = some rest)
    (hs : ∀ x ∈ (m :: rest).getLast?, x.IsStored) : m.IsStored := by
  cases m with
  | group | varData => trivial
  | field f =>
      cases path with
      | nil =>
          cases h
          exact hs _ rfl
      | cons i path => cases h

/-- The version of the latest among some members. -/
def Body.latest (b : Body) : Nat := (b.map Member.introduced).foldr max 0

/-- On a path from a codec of version `enclosing`, what is hidden from a version that reaches the
codec is what was introduced later. -/
theorem Body.walk_isHiddenFrom {path : List Nat} : ∀ {enclosing : Nat} {b : Body} {parts : List Part}
    {members : List Member}, b.parts enclosing = .ok parts →
    walk Member.inner b path = some members → (∀ m ∈ members.getLast?, m.IsStored) →
    ∃ ps, walk Part.inner parts path = some ps ∧ ∀ version, enclosing ≤ version →
      ((∃ p ∈ ps, p.IsHiddenFrom version) ↔ version < Body.latest members) := by
  induction path with
  | nil =>
      intro enclosing b parts members hp hw hs
      cases hw
      exact ⟨[], rfl, fun version _ => by simp [Body.latest]⟩
  | cons i path ih =>
      intro enclosing b parts members hp hw hs
      obtain ⟨m, rest, hm, hrest, rfl⟩ := walk_cons_eq_some.mp hw
      obtain ⟨p, hpi, hof⟩ := Body.exists_isOf hp hm
      have hlast : ∀ x ∈ rest.getLast?, x.IsStored := by
        intro x hx
        refine hs x ?_
        rw [List.getLast?_cons, Option.mem_def.mp hx]
        rfl
      obtain ⟨ps, hps, hhidden⟩ := ih hof.inner_parts hrest hlast
      refine ⟨p :: ps, walk_cons_eq_some.mpr ⟨p, ps, hpi, hps, rfl⟩, fun version hv => ?_⟩
      have hhead := hof.isHiddenFrom_iff (Member.isStored_of_walk hrest hs) hv
      have hlatest : version < Body.latest (m :: rest) ↔
          version < m.introduced ∨ version < Body.latest rest := by
        change version < max m.introduced (Body.latest rest) ↔ _
        omega
      rw [List.exists_mem_cons_iff, hhead, hlatest]
      -- a version that the member turns away does not reach the codec within it
      by_cases hm : version < m.introduced
      · exact iff_of_true (.inl hm) (.inl hm)
      · exact or_congr_right (hhidden version (Nat.max_le.mpr ⟨hv, Nat.not_lt.mp hm⟩))

/-- **Dropped gates lose nothing.**  The unit of a message is made of parts, and on any path through its
groups to a member that is no constant, a version that reaches the message is turned away by an accessor
on the path exactly if the latest of the members on it was introduced later. -/
theorem Codec.Message.isHidden_iff {m : Codec.Message} {tokens : List Token}
    (hm : Body.ofMessage tokens = .ok (m.token, m.body)) {g : Generator} {u : CodeUnit}
    (h : g.messageUnit m = .ok u) :
    ∃ parts, m.IsMadeOf u.code parts ∧ ∀ path members,
      walk Member.inner m.body path = some members → (∀ x ∈ members.getLast?, x.IsStored) →
        ∃ ps, walk Part.inner parts path = some ps ∧ ∀ version, m.token.version ≤ version →
          ((∃ p ∈ ps, p.IsHiddenFrom version) ↔ version < Body.latest members) := by
  obtain ⟨parts, hp⟩ := exists_isMadeOf hm (Generator.code_of_messageUnit h)
  exact ⟨parts, hp, fun path members hw hs => Body.walk_isHiddenFrom hp.tree hw hs⟩

/-! ### A field in a group in a group -/

namespace Nested

def encoding (name : String) (offset : Int) (primitive : Primitive) : Token :=
  { signal := .encoding, name, offset, encodedLength := primitive.size
    encoding := { primitive := some primitive } }

/-- The opening tokens of a group whose elements have so many bytes. -/
def opening (name : String) (version span : Nat) (length : Int) : List Token :=
  [{ signal := .beginGroup, name, version, encodedLength := length, span },
   { signal := .beginComposite, name := "groupSize", encodedLength := 3, span := 4 },
   encoding "blockLength" 0 .uint16, encoding "numInGroup" 2 .uint8,
   { signal := .endComposite, name := "groupSize" }]

/-- A price of version 3 in legs of version 1 in fills of version 2, in an order of version 1. -/
def tokens : List Token :=
  { signal := .beginMessage, name := "Order", version := 1, encodedLength := 0, span := 17 }
  :: (opening "fills" 2 15 0 ++ opening "legs" 1 9 8
    ++ [{ signal := .beginField, name := "price", version := 3, offset := 0, span := 3 },
      encoding "int64" 0 .int64, { signal := .endField, name := "price" },
      { signal := .endGroup, name := "legs" }, { signal := .endGroup, name := "fills" },
      { signal := .endMessage, name := "Order" }])

def price : Field :=
  ⟨{ signal := .beginField, name := "price", version := 3, offset := 0, span := 3 },
   encoding "int64" 0 .int64, [encoding "int64" 0 .int64]⟩

/-- The opening of a group as it is read. -/
def head (name : String) (version span : Nat) (length : Int) : GroupHead :=
  ⟨{ signal := .beginGroup, name, version, encodedLength := length, span },
   encoding "blockLength" 0 .uint16, encoding "numInGroup" 2 .uint8⟩

def legs : Member := .group (head "legs" 1 9 8) [.field price]

def fills : Member := .group (head "fills" 2 15 0) [legs]

def message : Codec.Message :=
  ⟨{ signal := .beginMessage, name := "Order", version := 1, encodedLength := 0, span := 17 },
   [fills]⟩

theorem ofMessage_tokens : Body.ofMessage tokens = .ok (message.token, message.body) := by cbv

def generator : Generator := ⟨{ packageName := "demo", messages := [tokens] }, ⟨[]⟩, [message]⟩

set_option maxRecDepth 4000 in
theorem exists_unit : ∃ u, generator.messageUnit message = .ok u := by
  have h : CodeUnit.entry <$> generator.messageUnit message
      = .ok ⟨"order_codec", .message, "Order"⟩ := by cbv
  obtain ⟨u, hu, _⟩ := map_eq_ok.mp h
  exact ⟨u, hu⟩

end Nested

theorem Codec.Message.isHidden_iff_nested :
    ∃ u, Nested.generator.messageUnit Nested.message = .ok u ∧
      ∃ parts, Nested.message.IsMadeOf u.code parts ∧
        walk Member.inner Nested.message.body [0, 0, 0]
          = some [Nested.fills, Nested.legs, .field Nested.price] ∧
        ∃ ps, walk Part.inner parts [0, 0, 0] = some ps ∧ ∀ version, 1 ≤ version →
          ((∃ p ∈ ps, p.IsHiddenFrom version) ↔ version < 3) := by
  obtain ⟨u, hu⟩ := Nested.exists_unit
  obtain ⟨parts, hparts, hpath⟩ := isHidden_iff Nested.ofMessage_tokens hu
  refine ⟨u, hu, parts, hparts, rfl, hpath [0, 0, 0] _ rfl ?_⟩
  rintro _ ⟨rfl⟩ c hc
  cases hc

end WireCodec
