import Mathlib
import WireCodec.Proofs.Generator
/-! # The bytes that codecs touch

A block is checked with the lengths that its fields state where they are used.  The codec of a
composite, however, has the length of the definition that is registered under the composite's name,
and that may be another one.  `Generator.touched_apart_iff` says what the check is worth: in a schema
that is generated, the bytes that the codecs of a block touch are apart and within the block exactly
if this holds of the composites that are registered as longer than they are stated, and if no field
that is stated to be empty lies behind the block. -/

namespace WireCodec

/-- The length of the codec that is generated for a composite of that name. -/
def Registry.codecLength? (r : Registry) (name : String) : Option Nat :=
  match r.get? name with
  | some t => if t.kind = .composite then t.run.head?.map (·.encodedLength.toNat) else none
  | none => none

namespace FieldLayout

/-- The bytes that the codec of a field touches.  The length of a composite is that of its codec;
constants touch nothing. -/
def touched? (r : Registry) (f : FieldLayout) : Option Extent :=
  match f.kind with
  | .constant _ => none
  | .composite _ schemaName =>
    (r.codecLength? schemaName).map fun n => ⟨f.name, f.offset, f.offset + n⟩
  | _ => some f.extent

/-- Does the codec of the field touch more bytes than the field states? -/
def IsOverlong (r : Registry) (f : FieldLayout) : Prop :=
  ∃ e, f.touched? r = some e ∧ f.extent.ending < e.ending

theorem start_of_touched? {r : Registry} {f : FieldLayout} {e : Extent} (h : f.touched? r = some e) :
    e.start = f.extent.start := by
  unfold touched? at h
  split at h
  · cases h
  · obtain ⟨n, _, rfl⟩ := Option.map_eq_some_iff.mp h
    rfl
  · cases h
    rfl

theorem apart_touched? {r : Registry} {f g : FieldLayout} {e e' : Extent}
    (h : f.extent.Apart g.extent) (hf : ¬ f.IsOverlong r) (hg : ¬ g.IsOverlong r)
    (he : f.touched? r = some e) (he' : g.touched? r = some e') : e.Apart e' := by
  refine h.mono (Nat.le_of_eq (start_of_touched? he).symm) ?_ (Nat.le_of_eq (start_of_touched? he').symm) ?_
  · exact Nat.not_lt.mp fun hlt => hf ⟨e, he, hlt⟩
  · exact Nat.not_lt.mp fun hlt => hg ⟨e', he', hlt⟩

end FieldLayout

/-- The bytes that the codecs of a block touch are apart in pairs and end within the block. -/
def Block.IsApart (r : Registry) (layouts : List FieldLayout) (length : Nat) : Prop :=
  (layouts.filterMap (·.touched? r)).Pairwise Extent.Apart ∧
    ∀ e ∈ layouts.filterMap (·.touched? r), e.ending ≤ length

/-- The same of the composites that are registered as longer than stated, and of the fields that are
stated to be empty. -/
structure Block.OverlongApart (r : Registry) (layouts : List FieldLayout) (length : Nat) : Prop where
  apart : layouts.Pairwise fun f g => f.IsOverlong r ∨ g.IsOverlong r →
    ∀ e, f.touched? r = some e → ∀ e', g.touched? r = some e' → e.Apart e'
  within : ∀ f ∈ layouts, f.IsOverlong r ∨ f.length = 0 →
    ∀ e, f.touched? r = some e → e.ending ≤ length

theorem Layout.isApart_iff {owner : String} {layouts : List FieldLayout} {length : Nat}
    (h : checkBlock owner layouts (some length) = .ok ()) (r : Registry) :
    Block.IsApart r layouts length ↔ Block.OverlongApart r layouts length := by
  obtain ⟨hp, hend⟩ := checkBlock_eq_ok_iff.mp h
  unfold Block.IsApart
  rw [List.pairwise_filterMap]
  simp only [List.mem_filterMap, forall_exists_index, and_imp]
  constructor
  · rintro ⟨hpair, hwithin⟩
    refine ⟨hpair.imp fun h _ e he e' he' => h e he e' he', ?_⟩
    intro f hf _ e he
    exact hwithin e f hf he
  · rintro ⟨hpair, hwithin⟩
    constructor
    · refine (hp.and hpair).imp ?_
      rintro f g ⟨hfg, hover⟩ e he e' he'
      by_cases ho : f.IsOverlong r ∨ g.IsOverlong r
      · exact hover ho e he e' he'
      · rw [not_or] at ho
        exact FieldLayout.apart_touched? hfg ho.1 ho.2 he he'
    · intro e f hf he
      by_cases ho : f.IsOverlong r ∨ f.length = 0
      · exact hwithin f hf ho e he
      · rw [not_or] at ho
        have hle : e.ending ≤ f.extent.ending := Nat.not_lt.mp fun hlt => ho.1 ⟨e, he, hlt⟩
        exact Nat.le_trans hle (hend f hf (Nat.pos_of_ne_zero ho.2))

/-- **The bytes of generated blocks.**  In a schema that is generated every registered composite has
its block and every block is laid out; the bytes that its codecs touch are apart and within the block
exactly if those of the overlong composites and of the empty fields are. -/
theorem Generator.touched_apart_iff {g : Generator} {c : Configuration} {us : List SourceUnit}
    (h : g.units c = .ok us) :
    (∀ t ∈ g.registry.types, t.kind = .composite → t.block?.isSome) ∧
      ∀ b ∈ g.blocks, ∃ layouts, b.fields.mapM Field.layout = .ok layouts ∧
        (Block.IsApart g.registry layouts b.length ↔
          Block.OverlongApart g.registry layouts b.length) := by
  refine ⟨fun t ht hk => isSome_block?_of_units h ht hk, fun b hb => ?_⟩
  obtain ⟨layouts, hl, hc⟩ := isLaidOut_of_mem_blocks h hb
  exact ⟨layouts, hl, Layout.isApart_iff hc g.registry⟩

/-! ### A composite with two definitions -/

namespace TwoPairs

/-- A number of four bytes. -/
def number (name : String) (offset : Int) : Token :=
  { signal := .encoding, name, offset, encodedLength := 4, encoding := { primitive := some .uint32 } }

/-- The run of a composite `Pair` of so many bytes. -/
def pair (length : Int) (members : List Token) : List Token :=
  { signal := .beginComposite, name := "Pair", offset := 0, encodedLength := length
    span := members.length + 2 } :: (members ++ [{ signal := .endComposite, name := "Pair" }])

/-- A message of a `Pair` that it states to have four bytes, and a number behind them. -/
def message : List Token :=
  [{ signal := .beginMessage, name := "M", encodedLength := 8, span := 8 },
   { signal := .beginField, name := "a", offset := 0, span := 5 }]
  ++ pair 4 [number "x" 0]
  ++ [{ signal := .endField, name := "a" }, number "b" 4, { signal := .endMessage, name := "M" }]

/-- The types of the schema define `Pair` with eight bytes. -/
def schema : Schema :=
  { packageName := "demo", types := [pair 8 [number "x" 0, number "y" 4]], messages := [message] }

/-- The registry holds the first definition. -/
def registry : Registry := ⟨[⟨"Pair", .composite, pair 8 [number "x" 0, number "y" 4], []⟩]⟩

def body : Body :=
  [.field { token := { signal := .beginField, name := "a", offset := 0, span := 5 }
            type := { signal := .beginComposite, name := "Pair", offset := 0, encodedLength := 4
                      span := 3 }
            run := pair 4 [number "x" 0] },
   .field ⟨number "b" 4, number "b" 4, [number "b" 4]⟩]

def generator : Generator :=
  ⟨schema, registry,
   [⟨{ signal := .beginMessage, name := "M", encodedLength := 8, span := 8 }, body⟩]⟩

theorem ofSchema_schema : Generator.ofSchema schema = .ok generator := by cbv

set_option maxRecDepth 4000 in
theorem entries_generator :
    (·.map CodeUnit.entry) <$> generator.modules
      = .ok [⟨"pair_codec", .composite, "Pair"⟩, ⟨"m_codec", .message, "M"⟩] := by cbv

theorem units_generator : ∃ us, generator.units {} = .ok us := by
  obtain ⟨cs, hcs, _⟩ := map_eq_ok.mp entries_generator
  exact ⟨_, Generator.units_of_modules hcs {}⟩

/-- By what the fields state, the second begins where the first one ends. -/
def layouts : List FieldLayout :=
  [{ name := "a", accessor := "a", offset := 0, length := 4, gate := ⟨0⟩
     kind := .composite "Pair" "Pair" },
   { name := "b", accessor := "b", offset := 4, length := 4, gate := ⟨0⟩
     kind := .scalar ⟨.uint32, false, .int (2 ^ 32 - 1), .int 0, .int (2 ^ 32 - 2), none, none⟩ }]

theorem mapM_layout : body.fields.mapM Field.layout = .ok layouts := by cbv

theorem touched_layouts :
    layouts.filterMap (·.touched? registry) = [⟨"a", 0, 8⟩, ⟨"b", 4, 8⟩] := by decide

end TwoPairs

/-- The codec of a composite touches a byte of the next field: the composite is registered with eight
bytes and used as one of four. -/
theorem Generator.pair_overlaps_number :
    ∃ g us, ofSchema TwoPairs.schema = .ok g ∧ g.units {} = .ok us ∧ ∃ b ∈ g.blocks,
      ∃ layouts, b.fields.mapM Field.layout = .ok layouts ∧
        ¬ Block.IsApart g.registry layouts b.length := by
  obtain ⟨us, hu⟩ := TwoPairs.units_generator
  refine ⟨TwoPairs.generator, us, TwoPairs.ofSchema_schema, hu, ⟨"M", TwoPairs.body.fields, 8⟩, ?_,
    TwoPairs.layouts, TwoPairs.mapM_layout, ?_⟩
  · exact List.mem_append_left _ (List.mem_flatMap.mpr ⟨_, List.mem_cons_self, List.mem_cons_self⟩)
  · rintro ⟨hp, _⟩
    rw [show TwoPairs.generator.registry = TwoPairs.registry from rfl, TwoPairs.touched_layouts] at hp
    exact List.rel_of_pairwise_cons hp List.mem_cons_self 4 (by decide)

theorem Generator.touched_apart_iff_pair :
    ∃ us, TwoPairs.generator.units {} = .ok us ∧
      (⟨"M", TwoPairs.body.fields, 8⟩ : Block) ∈ TwoPairs.generator.blocks ∧
      ∃ layouts, TwoPairs.body.fields.mapM Field.layout = .ok layouts ∧
        (Block.IsApart TwoPairs.registry layouts 8 ↔
          Block.OverlongApart TwoPairs.registry layouts 8) := by
  obtain ⟨us, hu⟩ := TwoPairs.units_generator
  have hb : (⟨"M", TwoPairs.body.fields, 8⟩ : Block) ∈ TwoPairs.generator.blocks :=
    List.mem_append_left _ (List.mem_flatMap.mpr ⟨_, List.mem_cons_self, List.mem_cons_self⟩)
  exact ⟨us, hu, hb, (touched_apart_iff hu).2 _ hb⟩

end WireCodec
