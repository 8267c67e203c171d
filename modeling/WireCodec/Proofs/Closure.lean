import Mathlib
import WireCodec.Proofs.Layout
import WireCodec.Proofs.Nesting
import WireCodec.Proofs.Ordering
/-! # The types that accessors name

The accessors of a field name the codec of the field's type, which the generator writes if the type is
registered.  No check connects the two.  `Generator.knows_iff` says when the type of a field is
registered under its name and as what it is used: exactly if it is of that kind that the name is first
come across.  In nested tokens the type itself is come across, unless it is a composite of variable
length; so there only such composites, and names that stand for types of two kinds, are left open
(`Generator.knows_of_isNested`). -/

namespace WireCodec

/-! ### Names in accessors -/

/-- The type that the accessors of a field name, by its name in generated code. -/
def FieldKind.named? : FieldKind → Option (TypeKind × String)
  | .enumeration typeName _ => some (.enumeration, typeName)
  | .constant (.variant enumType _) => some (.enumeration, enumType)
  | .bitSet typeName _ => some (.bitSet, typeName)
  | .composite typeName _ => some (.composite, typeName)
  | _ => none

theorem Field.named?_of_constant {f : Field} {c : Constant} (h : f.constant = .ok c) :
    (FieldKind.constant c).named? = none := by
  unfold Field.constant at h
  simp only [bind_eq_ok] at h
  obtain ⟨p, _, raw, _, encoding, _, h⟩ := h
  split at h
  · split at h
    · cases h
      rfl
    · cases h
  · cases h
    rfl
  · obtain ⟨v, _, h⟩ := bind_eq_ok.mp h
    cases h
    rfl

theorem Field.named?_of_kind {f : Field} {kind : FieldKind} (h : f.kind = .ok kind) :
    kind.named? = f.type.signal.typeKind?.map (·, Name.type f.type.typeName) := by
  unfold Field.kind at h
  split at h
  next hs =>
    rw [hs]
    split at h
    · obtain ⟨c, hc, rfl⟩ := map_eq_ok.mp h
      exact Field.named?_of_constant hc
    · simp only [bind_eq_ok, pure_eq_ok] at h
      obtain ⟨element, _, rfl⟩ := h
      split <;> rfl
  next hs =>
    rw [hs]
    dsimp only at h
    split at h
    · simp only [bind_eq_ok, pure_eq_ok] at h
      obtain ⟨raw, _, rfl⟩ := h
      rfl
    · simp only [bind_eq_ok, pure_eq_ok] at h
      obtain ⟨p, _, rfl⟩ := h
      rfl
  next hs =>
    rw [hs]
    simp only [bind_eq_ok, pure_eq_ok] at h
    obtain ⟨p, _, rfl⟩ := h
    rfl
  next hs =>
    rw [hs]
    cases h
    rfl
  next => cases h

/-! ### Units of types -/

/-- What the root declares of a named type. -/
def NamedType.entry (t : NamedType) : Codec.Entry :=
  match t.kind with
  | .enumeration => ⟨Name.typeModule t.name, .enumeration, Name.type t.name⟩
  | .bitSet => ⟨Name.typeModule t.name, .bitSet, Name.type t.name⟩
  | .composite => ⟨Name.codecModule t.name, .composite, Name.type t.name⟩

theorem Generator.entry_of_typeUnit {t : NamedType} {u : CodeUnit} (h : typeUnit t = .ok u) :
    u.entry = t.entry := by
  cases hk : t.kind with
  | enumeration =>
      simp only [typeUnit, hk, bind_eq_ok, pure_eq_ok] at h
      obtain ⟨e, _, rfl⟩ := h
      simp only [NamedType.entry, hk]
  | bitSet =>
      simp only [typeUnit, hk, bind_eq_ok, pure_eq_ok] at h
      obtain ⟨e, _, rfl⟩ := h
      simp only [NamedType.entry, hk]
  | composite =>
      simp only [typeUnit, hk, bind_eq_ok, pure_eq_ok] at h
      obtain ⟨c, _, code, _, rfl⟩ := h
      simp only [NamedType.entry, hk]

/-! ### Types in schemas -/

/-- The tokens of all types and messages are whole runs. -/
def Schema.IsNested (s : Schema) : Prop := ∀ tokens ∈ s.types ++ s.messages, Nested tokens

/-- The type of that name is registered, and it is of that kind. -/
def Registry.Knows (r : Registry) (name : String) (kind : TypeKind) : Prop :=
  ∃ t, r.get? name = some t ∧ t.kind = kind

theorem Registry.knows_ofSchema {s : Schema} {r : Registry} {fs : List NamedType}
    (h : Registry.ofSchema s = .ok r) (hfs : allFound s = .ok fs) {name : String} {kind : TypeKind} :
    r.Knows name kind ↔ (fs.find? (·.name == name)).map NamedType.kind = some kind := by
  unfold Knows
  rw [get?_ofSchema h hfs, Option.map_eq_some_iff]

theorem Schema.found_of_mem {s : Schema} {fs : List NamedType} (hfs : Registry.allFound s = .ok fs)
    {tokens : List Token} (h : tokens ∈ s.types ++ s.messages) :
    ∃ own ⊆ fs, Registry.found false 0 tokens = .ok own := by
  obtain ⟨fss, hfss, rfl⟩ := map_eq_ok.mp hfs
  obtain ⟨own, hmem, hown⟩ := ok_of_mapM_eq_ok hfss h
  exact ⟨own, fun t ht => List.mem_flatten_of_mem hmem ht, hown⟩

/-- In nested tokens every composite that is come across is followed. -/
theorem Schema.IsNested.isFollowed {s : Schema} {fs : List NamedType} (hs : s.IsNested)
    (hfs : Registry.allFound s = .ok fs) {u : NamedType} (hu : u ∈ fs) (hkind : u.kind = .composite) :
    u.IsFollowed fs := by
  obtain ⟨fss, hfss, rfl⟩ := map_eq_ok.mp hfs
  obtain ⟨own, hmem, hu⟩ := List.mem_flatten.mp hu
  obtain ⟨tokens, htokens, hown⟩ := exists_of_mapM_eq_ok hfss hmem
  obtain ⟨types, htypes⟩ := (hs tokens htokens).surveys
  obtain rfl := Except.ok.inj (hown.symm.trans htypes.passes.found_eq)
  exact (htypes.follows u hu hkind).mono fun t ht => List.mem_flatten_of_mem hmem ht

namespace Generator

variable {s : Schema} {g : Generator} {fs : List NamedType}

/-- In nested tokens the types of all fields are come across. -/
theorem sighted_of_isNested (hs : s.IsNested) (h : ofSchema s = .ok g)
    (hfs : Registry.allFound s = .ok fs) : ∀ b ∈ g.blocks, ∀ f ∈ b.fields, Sighted fs f.type := by
  intro b hb
  rcases List.mem_append.mp hb with hb | hb
  · obtain ⟨m, hm, hb⟩ := List.mem_flatMap.mp hb
    obtain ⟨tokens, htokens, hbody⟩ := message_of_ofSchema h hm
    have hmem := List.mem_append_right s.types htokens
    obtain ⟨own, hsub, hown⟩ := Schema.found_of_mem hfs hmem
    obtain ⟨types, htypes⟩ := (hs tokens hmem).surveys
    obtain rfl := Except.ok.inj (hown.symm.trans htypes.passes.found_eq)
    have hsighted := ((hs tokens hmem).sighted_of_ofMessage hbody htypes.passes).mono hsub
    rcases List.mem_cons.mp hb with rfl | hb
    · exact hsighted.fields
    · exact hsighted.groups b hb
  · obtain ⟨t, ht, hb⟩ := List.mem_filterMap.mp hb
    unfold NamedType.block? at hb
    split at hb
    case h_2 => cases hb
    case h_1 first body hk hf hbody =>
      cases hb
      obtain ⟨types, htypes, hperm⟩ := Registry.perm_of_ofSchema (registry_of_ofSchema h).2
      have hfirst := (Registry.mem_collect_iff htypes hfs).mp (hperm.mem_iff.mp ht)
      exact (hs.isFollowed hfs (List.mem_of_find?_eq_some hfirst) hk).sighted hbody |>.fields

theorem allFound_of_ofSchema (h : ofSchema s = .ok g) : ∃ fs, Registry.allFound s = .ok fs := by
  obtain ⟨types, htypes, _⟩ := Registry.perm_of_ofSchema (registry_of_ofSchema h).2
  obtain ⟨fs, hfs, _⟩ := Registry.collect_eq_ok.mp htypes
  exact ⟨fs, hfs⟩

/-- **The types that accessors name.**  In a schema that is generated, all registered types have
their units, and each field's accessors name a type of the kind that the field's tokens open.  That
type is registered exactly if its name is first come across as that kind; and in nested tokens it is
come across, unless it is a composite of variable length. -/
theorem knows_iff {c : Configuration} {us : List SourceUnit} (h : ofSchema s = .ok g)
    (hus : g.units c = .ok us) :
    ∃ fs cs, Registry.allFound s = .ok fs ∧ g.modules = .ok cs ∧ arrange s c cs = us ∧
      (∀ t ∈ g.registry.types,
        (∃ u ∈ cs, u.entry = t.entry) ∧ (t.kind = .composite → t.block?.isSome)) ∧
      ∀ b ∈ g.blocks, ∀ f ∈ b.fields, ∀ kind, f.type.signal.typeKind? = some kind →
        (∃ l, f.layout = .ok l ∧ l.kind.named? = some (kind, Name.type f.type.typeName)) ∧
        (g.registry.Knows f.type.typeName kind ↔
          (fs.find? (·.name == f.type.typeName)).map NamedType.kind = some kind) ∧
        (s.IsNested → (kind = .composite → 0 ≤ f.type.encodedLength) →
          ∃ t ∈ fs, t.name = f.type.typeName ∧ t.kind = kind) := by
  obtain ⟨fs, hfs⟩ := allFound_of_ofSchema h
  obtain ⟨hschema, hregistry⟩ := registry_of_ofSchema h
  obtain ⟨types, messages, htypes, hmessages, harrange⟩ := units_eq_ok.mp hus
  have hmodules : g.modules = .ok (types ++ messages) :=
    modules_eq_ok.mpr ⟨types, messages, htypes, hmessages, rfl⟩
  rw [hschema] at harrange
  refine ⟨fs, types ++ messages, hfs, hmodules, harrange, fun t ht => ⟨?_, ?_⟩, ?_⟩
  · obtain ⟨u, hu, hunit⟩ := ok_of_mapM_eq_ok htypes ht
    exact ⟨u, List.mem_append_left _ hu, entry_of_typeUnit hunit⟩
  · exact isSome_block?_of_units hus ht
  · intro b hb f hf kind hkind
    refine ⟨?_, Registry.knows_ofSchema hregistry hfs, fun hs hlength => ?_⟩
    · obtain ⟨layouts, hlayouts, _⟩ := isLaidOut_of_mem_blocks hus hb
      obtain ⟨l, _, hl⟩ := ok_of_mapM_eq_ok hlayouts hf
      refine ⟨l, hl, ?_⟩
      rw [Field.named?_of_kind (Field.layout_eq_ok.mp hl).1, hkind]
      rfl
    · exact sighted_of_isNested hs h hfs b hb f hf kind hkind hlength

/-- In nested tokens, where no name is come across as two kinds of types, every field's type is
registered that is no composite of variable length. -/
theorem knows_of_isNested (h : ofSchema s = .ok g) (hs : s.IsNested)
    (hfs : Registry.allFound s = .ok fs)
    (hkinds : ∀ t ∈ fs, ∀ u ∈ fs, t.name = u.name → t.kind = u.kind) {b : Block} (hb : b ∈ g.blocks)
    {f : Field} (hf : f ∈ b.fields) {kind : TypeKind} (hkind : f.type.signal.typeKind? = some kind)
    (hlength : kind = .composite → 0 ≤ f.type.encodedLength) :
    g.registry.Knows f.type.typeName kind := by
  obtain ⟨t, ht, hname, rfl⟩ := sighted_of_isNested hs h hfs b hb f hf kind hkind hlength
  rw [Registry.knows_ofSchema (registry_of_ofSchema h).2 hfs]
  cases hfirst : fs.find? (·.name == f.type.typeName) with
  | none =>
      have hne := List.find?_eq_none.mp hfirst t ht
      rw [beq_iff_eq] at hne
      exact absurd hname hne
  | some u =>
      have hu := List.find?_some hfirst
      rw [beq_iff_eq] at hu
      rw [Option.map_some, hkinds u (List.mem_of_find?_eq_some hfirst) t ht (hu.trans hname.symm)]

end Generator

/-! ### A composite of variable length -/

namespace Quote

/-- The run of a composite `Price` that states the given length. -/
def price (length : Int) : List Token :=
  [{ signal := .beginComposite, name := "Price", offset := 0, encodedLength := length, span := 3 },
   { signal := .encoding, name := "mantissa", offset := 0, encodedLength := 4
     encoding := { primitive := some .int32 } },
   { signal := .endComposite, name := "Price" }]

/-- A message with a `Price`. -/
def message (length : Int) : List Token :=
  [{ signal := .beginMessage, name := "Quote", encodedLength := 4, span := 7 },
   { signal := .beginField, name := "price", offset := 0, span := 5 }]
  ++ price length ++
  [{ signal := .endField, name := "price" }, { signal := .endMessage, name := "Quote" }]

def schema (length : Int) : Schema := { packageName := "demo", messages := [message length] }

def field (length : Int) : Field :=
  { token := { signal := .beginField, name := "price", offset := 0, span := 5 }
    type :=
      { signal := .beginComposite, name := "Price", offset := 0, encodedLength := length, span := 3 }
    run := price length }

def generator (length : Int) (types : List NamedType) : Generator :=
  ⟨schema length, ⟨types⟩,
   [⟨{ signal := .beginMessage, name := "Quote", encodedLength := 4, span := 7 },
     [.field (field length)]⟩]⟩

theorem ofSchema_variable : Generator.ofSchema (schema (-1)) = .ok (generator (-1) []) := by cbv

theorem ofSchema_stated :
    Generator.ofSchema (schema 4) = .ok (generator 4 [⟨"Price", .composite, price 4, []⟩]) := by cbv

theorem entries_variable :
    (·.map CodeUnit.entry) <$> (generator (-1) []).modules
      = .ok [⟨"quote_codec", .message, "Quote"⟩] := by cbv

theorem entries_stated :
    (·.map CodeUnit.entry) <$> (generator 4 [⟨"Price", .composite, price 4, []⟩]).modules
      = .ok [⟨"price_codec", .composite, "Price"⟩, ⟨"quote_codec", .message, "Quote"⟩] := by cbv

theorem nested_price (length : Int) : Nested (price length) :=
  @Nested.run _ { signal := .endComposite, name := "Price" } _ [] rfl rfl (.single rfl rfl .nil) .nil

theorem isNested (length : Int) : (schema length).IsNested := by
  have hfield : Nested (_ :: (price length ++ _ :: [])) :=
    @Nested.run { signal := .beginField, name := "price", offset := 0, span := 5 }
      { signal := .endField, name := "price" } _ [] rfl rfl (nested_price length) .nil
  intro tokens htokens
  obtain rfl := List.mem_singleton.mp htokens
  exact @Nested.run _ { signal := .endMessage, name := "Quote" } _ [] rfl rfl hfield .nil

end Quote

/-- The accessors of a field name the codec of a composite of variable length, which is not registered;
the only unit is that of the message. -/
theorem Generator.price_not_registered :
    ∃ g cs, ofSchema (Quote.schema (-1)) = .ok g ∧ g.modules = .ok cs ∧
      g.units {} = .ok (arrange g.schema {} cs) ∧
      cs.map CodeUnit.entry = [⟨"quote_codec", .message, "Quote"⟩] ∧
      ∃ b ∈ g.blocks, ∃ f ∈ b.fields, f.type.signal.typeKind? = some .composite ∧
        f.type.typeName = "Price" ∧ ¬ g.registry.Knows "Price" .composite := by
  obtain ⟨cs, hcs, hentries⟩ := map_eq_ok.mp Quote.entries_variable
  refine ⟨_, cs, Quote.ofSchema_variable, hcs, units_of_modules hcs {}, hentries,
    ⟨"Quote", [Quote.field (-1)], 4⟩, ?_, Quote.field (-1), List.mem_singleton_self _, rfl, rfl, ?_⟩
  · exact List.mem_append_left _ (List.mem_flatMap.mpr ⟨_, List.mem_cons_self, List.mem_cons_self⟩)
  · rintro ⟨t, ht, _⟩
    cases ht

/-- With a length that is stated the composite is registered. -/
theorem Generator.knows_iff_price :
    ∃ g us fs, ofSchema (Quote.schema 4) = .ok g ∧ g.units {} = .ok us ∧
      Registry.allFound (Quote.schema 4) = .ok fs ∧
      (∃ t ∈ fs, t.name = "Price" ∧ t.kind = .composite) ∧
      (g.registry.Knows "Price" .composite ↔
        (fs.find? (·.name == "Price")).map NamedType.kind = some .composite) := by
  obtain ⟨cs, hcs, _⟩ := map_eq_ok.mp Quote.entries_stated
  have hus := units_of_modules hcs {}
  obtain ⟨fs, _, hfs, _, _, _, hknows⟩ := knows_iff Quote.ofSchema_stated hus
  have hblock : (⟨"Quote", [Quote.field 4], 4⟩ : Block) ∈
      (Quote.generator 4 [⟨"Price", .composite, Quote.price 4, []⟩]).blocks :=
    List.mem_append_left _ (List.mem_flatMap.mpr ⟨_, List.mem_cons_self, List.mem_cons_self⟩)
  obtain ⟨_, hiff, hsighted⟩ :=
    hknows _ hblock (Quote.field 4) (List.mem_singleton_self _) .composite rfl
  exact ⟨_, _, fs, Quote.ofSchema_stated, hus, hfs,
    hsighted (Quote.isNested 4) fun _ => by decide, hiff⟩

end WireCodec
