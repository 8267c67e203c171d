import WireCodec.Proofs.Codecs
import WireCodec.Proofs.Reading
/-! # The parts of a message

The code of a message is flat: the accessors of a body stand side by side, and the codecs of its
groups follow each other at every depth.  `Body.parts` lays a body out as a tree instead, with one
part for each member and, below the part of a group, the parts of its members.

Where a message has code, its members have parts, and on either side the accessors of a body are those
of its parts in their order and the codecs of the groups are those of the tree
(`Codec.Message.exists_isMadeOf`). -/

namespace WireCodec

open Codec (Side fieldAccessor groupAccessor varDataAccessor groupCodec bodyAccessors groupCodecs)

/-- What is generated for a member. -/
inductive Part
  /-- The accessors of a field, for the encoder and for the decoder. -/
  | field (layout : FieldLayout) (setter getter : List Code)
  | group (layout : GroupLayout) (parts : List Part)
  | varData (layout : VarDataLayout)
  deriving Repr

namespace Part

/-- The accessor of a member. -/
def accessor (side : Side) : Part → List Code
  | field _ setter getter => match side with
    | .encode => setter
    | .decode => getter
  | group g _ => groupAccessor side g
  | varData v => varDataAccessor side v

/-- The parts of the members of a group. -/
def inner : Part → List Part
  | group _ parts => parts
  | _ => []

/-- The groups among some parts, each with its own parts: a group stands in front of those within it. -/
def groups : List Part → List (GroupLayout × List Part)
  | [] => []
  | group g parts :: rest => (g, parts) :: (groups parts ++ groups rest)
  | _ :: rest => groups rest

/-- The codecs of the groups among some parts, one behind the other. -/
def codecs (side : Side) (parts : List Part) : List Code :=
  (groups parts).flatMap fun group =>
    .blank :: groupCodec side group.1 (group.2.flatMap (accessor side))

theorem codecs_cons_group (side : Side) (g : GroupLayout) (inner rest : List Part) :
    codecs side (group g inner :: rest)
      = .blank :: (groupCodec side g (inner.flatMap (accessor side)) ++ codecs side inner
        ++ codecs side rest) := by
  unfold codecs
  rw [groups, List.flatMap_cons, List.flatMap_append, List.cons_append, List.append_assoc]

end Part

/-- The parts of a body within a codec of version `enclosing`. -/
def Body.parts (enclosing : Nat) : Body → Except Fault (List Part)
  | [] => .ok []
  | .field f :: rest => do
    let layout := (← f.layout).within enclosing
    let setter ← fieldAccessor .encode layout
    let getter ← fieldAccessor .decode layout
    return .field layout setter getter :: (← Body.parts enclosing rest)
  | .group head members :: rest => do
    let g ← head.layout
    let parts ← Body.parts (max enclosing g.gate.since) members
    return .group (g.within enclosing) parts :: (← Body.parts enclosing rest)
  | .varData v :: rest => do
    let layout ← v.layout
    return .varData (layout.within enclosing) :: (← Body.parts enclosing rest)

/-! ### Parts of members -/

namespace Member

/-- The members within a member. -/
def inner : Member → Body
  | group _ members => members
  | _ => []

/-- The version that introduced the member; of a field, the later one of the field and its type. -/
def introduced : Member → Nat
  | field f => f.version
  | group head _ => head.token.version
  | varData v => v.token.version

end Member

/-- The part stands for a member in a codec of version `enclosing`. -/
inductive Part.IsOf (enclosing : Nat) : Member → Part → Prop
  | field {f : Field} {layout : FieldLayout} {setter getter : List Code} (hl : f.layout = .ok layout)
      (hs : fieldAccessor .encode (layout.within enclosing) = .ok setter)
      (hg : fieldAccessor .decode (layout.within enclosing) = .ok getter) :
      IsOf enclosing (.field f) (.field (layout.within enclosing) setter getter)
  | group {head : GroupHead} {members : Body} {g : GroupLayout} {parts : List Part}
      (hl : head.layout = .ok g) (hp : members.parts (max enclosing g.gate.since) = .ok parts) :
      IsOf enclosing (.group head members) (.group (g.within enclosing) parts)
  | varData {v : VarData} {layout : VarDataLayout} (hl : v.layout = .ok layout) :
      IsOf enclosing (.varData v) (.varData (layout.within enclosing))

theorem Body.isOf_of_parts {enclosing : Nat} : ∀ {b : Body} {parts : List Part},
    b.parts enclosing = .ok parts → List.Forall₂ (Part.IsOf enclosing) b parts
  | [], parts, h => by
      simp only [Body.parts, Except.ok.injEq] at h
      subst h
      exact .nil
  | .field f :: rest, parts, h => by
      simp only [Body.parts, bind_eq_ok, pure_eq_ok] at h
      obtain ⟨layout, hl, setter, hs, getter, hg, tail, ht, rfl⟩ := h
      exact .cons (.field hl hs hg) (isOf_of_parts ht)
  | .group head members :: rest, parts, h => by
      simp only [Body.parts, bind_eq_ok, pure_eq_ok] at h
      obtain ⟨g, hl, inner, hi, tail, ht, rfl⟩ := h
      exact .cons (.group hl hi) (isOf_of_parts ht)
  | .varData v :: rest, parts, h => by
      simp only [Body.parts, bind_eq_ok, pure_eq_ok] at h
      obtain ⟨layout, hl, tail, ht, rfl⟩ := h
      exact .cons (.varData hl) (isOf_of_parts ht)

namespace Part.IsOf

/-- Within a member the codec is as late as the member. -/
theorem inner_parts {enclosing : Nat} {m : Member} {p : Part} (h : IsOf enclosing m p) :
    m.inner.parts (max enclosing m.introduced) = .ok p.inner := by
  cases h with
  | @group head members g parts hl hp =>
      obtain ⟨_, _, _, _, _, _, _, rfl⟩ := GroupHead.layout_eq_ok.mp hl
      exact hp
  | field => simp [Member.inner, Part.inner, Body.parts]
  | varData => simp [Member.inner, Part.inner, Body.parts]

end Part.IsOf

theorem Body.exists_isOf {enclosing : Nat} {b : Body} {parts : List Part}
    (h : b.parts enclosing = .ok parts) {i : Nat} {m : Member} (hm : b[i]? = some m) :
    ∃ p, parts[i]? = some p ∧ p.IsOf enclosing m := by
  have hof := isOf_of_parts h
  obtain ⟨hi, rfl⟩ := List.getElem?_eq_some_iff.mp hm
  have hj : i < parts.length := by
    rw [← hof.length_eq]
    exact hi
  exact ⟨parts[i], List.getElem?_eq_getElem hj, hof.get hi hj⟩

/-! ### Paths -/

/-- The items on the way along a path, which gives the place of each among the items within the one
before it. -/
def walk {α : Type} (inner : α → List α) : List α → List Nat → Option (List α)
  | _, [] => some []
  | xs, i :: path => do
    let x ← xs[i]?
    return x :: (← walk inner (inner x) path)

theorem walk_cons_eq_some {α : Type} {inner : α → List α} {xs ys : List α} {i : Nat}
    {path : List Nat} :
    walk inner xs (i :: path) = some ys ↔
      ∃ x rest, xs[i]? = some x ∧ walk inner (inner x) path = some rest ∧ ys = x :: rest := by
  simp only [walk, Option.bind_eq_bind, Option.bind_eq_some_iff, Option.pure_def,
    Option.some.injEq]
  constructor
  · rintro ⟨x, hx, rest, hrest, rfl⟩
    exact ⟨x, rest, hx, hrest, rfl⟩
  · rintro ⟨x, rest, hx, hrest, rfl⟩
    exact ⟨x, hx, rest, hrest, rfl⟩

/-! ### The order of members -/

namespace Body

/-- Fields come first, then groups, then var data. -/
def IsOrdered (b : Body) : Prop :=
  b = b.fields.map .field ++ b.groups.map (fun (head, members) => .group head members)
    ++ b.varData.map .varData

theorem isOrdered_of_reads {stage : Stage} {tokens : List Token} {b : Body}
    (h : Reads stage tokens b) :
    b.IsOrdered ∧ (stage ≠ .field → b.fields = []) ∧ (stage = .varData → b.groups = []) := by
  unfold IsOrdered
  induction h with
  | nil stage => exact ⟨rfl, fun _ => rfl, fun _ => rfl⟩
  | field run spans tail ih =>
      refine ⟨?_, fun h => absurd rfl h, nofun⟩
      exact congrArg (Member.field _ :: ·) ih.1
  | @group stage t inner rest head members ms signal run order header body tail ihBody ih =>
      obtain ⟨hms, hfields, _⟩ := ih
      have hnone := hfields (by simp)
      rw [hnone] at hms
      refine ⟨?_, fun _ => hnone, ?_⟩
      · rw [show fields (.group head members :: ms) = [] from hnone]
        exact congrArg (Member.group head members :: ·) hms
      · rintro rfl
        simp [Stage.rank] at order
  | @varData stage t inner rest v ms signal run shape tail ih =>
      obtain ⟨hms, hfields, hgroups⟩ := ih
      have hnone := hfields (by simp)
      have hempty := hgroups rfl
      rw [hnone, hempty] at hms
      refine ⟨?_, fun _ => hnone, fun _ => hempty⟩
      rw [show fields (.varData v :: ms) = [] from hnone,
        show groups (.varData v :: ms) = [] from hempty]
      exact congrArg (Member.varData v :: ·) hms

end Body

/-! ### Accessors, member by member -/

namespace Member

/-- The accessor of a member in a codec of version `enclosing`. -/
def accessor (side : Side) (enclosing : Nat) : Member → Except Fault (List Code)
  | field f => do fieldAccessor side ((← f.layout).within enclosing)
  | group head _ => do return groupAccessor side ((← head.layout).within enclosing)
  | varData v => do return varDataAccessor side ((← v.layout).within enclosing)

end Member

theorem bodyAccessors_eq_ok {side : Side} {owner : String} {b : Body} {length enclosing : Nat}
    {code : List Code} (hb : b.IsOrdered)
    (h : bodyAccessors side owner b length enclosing = .ok code) :
    ∃ codes, b.mapM (Member.accessor side enclosing) = .ok codes ∧ code = codes.flatten := by
  simp only [bodyAccessors, Codec.fieldAccessors, bind_eq_ok, pure_eq_ok] at h
  obtain ⟨layouts, hlayouts, _, ⟨fieldCodes, hf, rfl⟩, groupCodes, hg, varDataCodes, hv, rfl⟩ := h
  obtain ⟨raw, hraw, rfl, _⟩ := Codec.blockLayouts_eq_ok.mp hlayouts
  rw [List.mapM_map] at hf
  have hfields : b.fields.mapM (fun f => Member.accessor side enclosing (.field f))
      = .ok fieldCodes := mapM_of_mapM hraw hf
  refine ⟨fieldCodes ++ groupCodes ++ varDataCodes, ?_, by simp⟩
  rw [hb, List.mapM_append, List.mapM_append, List.mapM_map, List.mapM_map, List.mapM_map]
  simp only [bind_eq_ok, pure_eq_ok]
  exact ⟨_, ⟨_, hfields, _, hg, rfl⟩, _, hv, rfl⟩

theorem groupCodec_within (side : Side) (g : GroupLayout) (enclosing : Nat) (accessors : List Code) :
    groupCodec side (g.within enclosing) accessors = groupCodec side g accessors := by
  cases side <;> rfl

namespace Body

/-- The parts are those of a body: on either side their accessors and codecs are the ones that are
generated for its members. -/
structure HasParts (enclosing : Nat) (b : Body) (parts : List Part) : Prop where
  tree : b.parts enclosing = .ok parts
  accessors : ∀ side, b.mapM (Member.accessor side enclosing) = .ok (parts.map (·.accessor side))
  codecs : ∀ side, groupCodecs side enclosing b = .ok (Part.codecs side parts)

namespace HasParts
variable {enclosing : Nat} {rest : Body} {parts : List Part}

theorem nil (enclosing : Nat) : HasParts enclosing [] [] :=
  ⟨by simp [Body.parts], fun _ => rfl, fun _ => by simp [groupCodecs, Part.codecs, Part.groups]⟩

theorem field {f : Field} {layout : FieldLayout} {code : Side → List Code}
    (hl : f.layout = .ok layout)
    (hc : ∀ side, fieldAccessor side (layout.within enclosing) = .ok (code side))
    (h : HasParts enclosing rest parts) : HasParts enclosing (.field f :: rest)
      (.field (layout.within enclosing) (code .encode) (code .decode) :: parts) := by
  refine ⟨?_, fun side => ?_, fun side => ?_⟩
  · simp only [Body.parts, bind_eq_ok, pure_eq_ok]
    exact ⟨layout, hl, _, hc .encode, _, hc .decode, parts, h.tree, rfl⟩
  · rw [List.mapM_cons]
    simp only [bind_eq_ok, pure_eq_ok]
    refine ⟨code side, bind_eq_ok.mpr ⟨layout, hl, hc side⟩, _, h.accessors side, ?_⟩
    cases side <;> rfl
  · rw [Codec.groupCodecs_field, h.codecs]
    simp [Part.codecs, Part.groups]

theorem varData {v : VarData} {layout : VarDataLayout} (hl : v.layout = .ok layout)
    (h : HasParts enclosing rest parts) :
    HasParts enclosing (.varData v :: rest) (.varData (layout.within enclosing) :: parts) := by
  refine ⟨?_, fun side => ?_, fun side => ?_⟩
  · simp only [Body.parts, bind_eq_ok, pure_eq_ok]
    exact ⟨layout, hl, parts, h.tree, rfl⟩
  · rw [List.mapM_cons]
    simp only [bind_eq_ok, pure_eq_ok]
    refine ⟨_, bind_eq_ok.mpr ⟨layout, hl, rfl⟩, _, h.accessors side, rfl⟩
  · rw [Codec.groupCodecs_varData, h.codecs]
    simp [Part.codecs, Part.groups]

theorem group {head : GroupHead} {members : Body} {g : GroupLayout} {inner : List Part}
    (hg : head.layout = .ok g)
    (hi : HasParts (max enclosing g.gate.since) members inner)
    (ha : ∀ side, bodyAccessors side g.name members g.blockLength (max enclosing g.gate.since)
      = .ok (inner.flatMap (·.accessor side)))
    (h : HasParts enclosing rest parts) : HasParts enclosing (.group head members :: rest)
      (.group (g.within enclosing) inner :: parts) := by
  refine ⟨?_, fun side => ?_, fun side => ?_⟩
  · simp only [Body.parts, bind_eq_ok, pure_eq_ok]
    exact ⟨g, hg, inner, hi.tree, parts, h.tree, rfl⟩
  · rw [List.mapM_cons]
    simp only [bind_eq_ok, pure_eq_ok]
    refine ⟨_, bind_eq_ok.mpr ⟨g, hg, rfl⟩, _, h.accessors side, rfl⟩
  · simp only [groupCodecs, bind_eq_ok, pure_eq_ok]
    refine ⟨g, hg, _, ha side, _, hi.codecs side, _, h.codecs side, ?_⟩
    rw [Part.codecs_cons_group, groupCodec_within]

/-- The accessors of a body are those of its parts. -/
theorem bodyAccessors_eq {b : Body} (h : HasParts enclosing b parts) (hb : b.IsOrdered) {side : Side}
    {owner : String} {length : Nat} {code : List Code}
    (hc : bodyAccessors side owner b length enclosing = .ok code) :
    bodyAccessors side owner b length enclosing = .ok (parts.flatMap (·.accessor side)) := by
  obtain ⟨codes, hcodes, rfl⟩ := bodyAccessors_eq_ok hb hc
  rw [h.accessors side] at hcodes
  cases hcodes
  exact hc

end HasParts

/-- Where a body can be generated on both sides, it has parts. -/
theorem exists_hasParts {stage : Stage} {tokens : List Token} {b : Body} (h : Reads stage tokens b)
    {enclosing : Nat}
    (ha : ∀ side, ∃ codes, b.mapM (Member.accessor side enclosing) = .ok codes)
    (hc : ∀ side, ∃ codes, groupCodecs side enclosing b = .ok codes) :
    ∃ parts, HasParts enclosing b parts := by
  induction h generalizing enclosing with
  | nil stage => exact ⟨[], .nil enclosing⟩
  | @field t inner rest f ms run spans tail ih =>
      simp only [List.mapM_cons, bind_eq_ok, pure_eq_ok, Member.accessor] at ha
      -- both sides are written from the one layout of the field
      obtain ⟨_, _, ⟨layout, hl, _⟩, _⟩ := ha .encode
      simp only [hl, Except.ok.injEq, exists_eq_left'] at ha
      choose _ code hcode codes hcodes _ using ha
      simp only [Codec.groupCodecs_field] at hc
      obtain ⟨parts, hp⟩ := ih (fun side => ⟨codes side, hcodes side⟩) hc
      exact ⟨_, .field hl hcode hp⟩
  | @group stage t inner rest head members ms signal run order header body tail ihBody ih =>
      simp only [List.mapM_cons, bind_eq_ok, pure_eq_ok] at ha
      simp only [groupCodecs, bind_eq_ok, pure_eq_ok] at hc
      obtain ⟨_, g, hg, _⟩ := hc .encode
      simp only [hg, Except.ok.injEq, exists_eq_left'] at hc
      choose _ accessors ha' nested hn others ho _ using hc
      choose _ _ _ codes hcodes _ using ha
      -- the members of the group have been read, so they are in order as well
      have hordered := (isOrdered_of_reads body).1
      have hmembers : ∀ side, ∃ codes,
          members.mapM (Member.accessor side (max enclosing g.gate.since)) = .ok codes := by
        intro side
        obtain ⟨codes, hcodes, _⟩ := bodyAccessors_eq_ok hordered (ha' side)
        exact ⟨codes, hcodes⟩
      obtain ⟨inner, hi⟩ := ihBody hmembers (fun side => ⟨nested side, hn side⟩)
      obtain ⟨parts, hp⟩ := ih (fun side => ⟨codes side, hcodes side⟩)
        (fun side => ⟨others side, ho side⟩)
      exact ⟨_, .group hg hi (fun side => hi.bodyAccessors_eq hordered (ha' side)) hp⟩
  | @varData stage t inner rest v ms signal run shape tail ih =>
      simp only [List.mapM_cons, bind_eq_ok, pure_eq_ok, Member.accessor] at ha
      obtain ⟨_, _, ⟨layout, hl, _⟩, _⟩ := ha .encode
      choose _ _ _ codes hcodes _ using ha
      simp only [Codec.groupCodecs_varData] at hc
      obtain ⟨parts, hp⟩ := ih (fun side => ⟨codes side, hcodes side⟩) hc
      exact ⟨_, .varData hl hp⟩

end Body

/-! ### Messages -/

namespace Codec.Message

/-- The code is that of a message with these parts.  On either side it has one module, in which the
codecs of the message and of its groups follow each other, and the functions of each codec end with the
accessors of the parts that the codec holds. -/
structure IsMadeOf (m : Message) (code : List Code) (parts : List Part) : Prop where
  tree : m.body.parts m.token.version = .ok parts
  codecs : ∀ side : Side, ∃ items own codecs, Code.modules side.module code = [items] ∧
    Code.codecs items = (Name.type m.token.name ++ side.suffix, own) :: codecs ∧
    (∃ functions, Code.lastBody? own = some functions ∧
      parts.flatMap (·.accessor side) <:+ functions) ∧
    List.Forall₂ (fun found group => found.1 = group.1.structName ++ side.suffix ∧
      group.1.IsCodec side (group.2.flatMap (·.accessor side)) found.2) codecs (Part.groups parts)

/-- A message that has code is made of parts. -/
theorem exists_isMadeOf {m : Message} {tokens : List Token}
    (hm : Body.ofMessage tokens = .ok (m.token, m.body)) {s : Schema} {r : Registry}
    {code : List Code} (h : m.code s r = .ok code) : ∃ parts, m.IsMadeOf code parts := by
  obtain ⟨inner, rest, _, _, _, hreads⟩ := Body.ofMessage_eq_ok_iff.mp hm
  have hordered := (Body.isOrdered_of_reads hreads).1
  choose accessors groups haccessors hgroups hmodules using modules_of_code h
  have hmembers : ∀ side, ∃ codes,
      m.body.mapM (Member.accessor side m.token.version) = .ok codes := by
    intro side
    obtain ⟨codes, hcodes, _⟩ := bodyAccessors_eq_ok hordered (haccessors side)
    exact ⟨codes, hcodes⟩
  obtain ⟨parts, hp⟩ := Body.exists_hasParts hreads hmembers fun side => ⟨_, hgroups side⟩
  refine ⟨parts, hp.tree, fun side => ?_⟩
  have hparts : parts.flatMap (·.accessor side) = accessors side :=
    Except.ok.inj ((hp.bodyAccessors_eq hordered (haccessors side)).symm.trans (haccessors side))
  have hcodecs : Part.codecs side parts = groups side :=
    Except.ok.inj ((hp.codecs side).symm.trans (hgroups side))
  obtain ⟨hfound, hplain⟩ := Code.codecs_flatMap (Part.groups parts)
    fun group _ => Codec.isCodec_groupCodec side group.1 (group.2.flatMap (·.accessor side))
  change List.Forall₂ _ (Code.codecs (Part.codecs side parts)) _ at hfound
  change ((Part.codecs side parts).takeWhile _).all Code.isPlain at hplain
  rw [hcodecs] at hfound hplain
  obtain ⟨own, hown, hfunctions⟩ :=
    codecs_sideItems m s (hasHeader s r) side (accessors side) hplain
  refine ⟨_, own, _, hmodules side, hown, ?_, ?_⟩
  · rwa [hparts]
  · exact hfound.imp fun _ _ h => ⟨h.1, Codec.isCodec_of_cut h.2⟩

end Codec.Message
end WireCodec
