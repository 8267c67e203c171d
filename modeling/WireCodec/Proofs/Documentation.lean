import WireCodec.Proofs.Units
/-! # Documentation in generated units

Where the names of a schema consist of letters, digits, underscores, points and minus signs, nothing but
documentation begins with three slashes.  So the units that are printed without documentation are the
documented ones without their lines of documentation (`Generator.units_withoutDocs`), and every run of
such lines stands in front of an item (`Generator.isItem_of_docRun`). -/

namespace WireCodec

open Code (AllTidy linesAll)
open Text (Documented Fits IsCodeLine IsLine Unbroken)

/-! ### Names -/

/-- A letter, a digit, an underscore, a point or a minus sign. -/
def Name.IsPlain (c : Char) : Prop :=
  Letter.isAsciiUpper c ∨ Letter.isAsciiLower c ∨ Letter.isAsciiDigit c ∨ c = '_' ∨ c = '.' ∨ c = '-'

instance : DecidablePred Name.IsPlain := fun _ => inferInstanceAs (Decidable (_ ∨ _))

theorem Name.IsPlain.fits {slash : Prop} {c : Char} (h : IsPlain c) : Fits slash c := by
  rcases h with h | h | h | rfl | rfl | rfl
  iterate 3
    obtain ⟨hlow, _⟩ := Bool.and_eq_true_iff.mp h
    exact Text.fits_of_le (of_decide_eq_true hlow) (by decide)
  · exact Text.fits_of_ne (by decide) (by decide)
  · exact Text.fits_point
  · exact Text.fits_minus

/-! ### Units with and without documentation -/

variable {slash : Prop} {indent : String}

/-- The unit with documentation is the other one, with documentation in front of items. -/
def SourceUnit.Documents (slash : Prop) (u v : SourceUnit) : Prop :=
  u.module = v.module ∧ u.kind = v.kind ∧
    ∃ ls code, u.source = Text.terminated ls ∧ v.source = Text.terminated code ∧
      Documented slash ls code

/-- The second unit is the first one less its lines of documentation, and none of them is in it. -/
structure SourceUnit.IsStripped (u v : SourceUnit) : Prop where
  module : u.module = v.module
  kind : u.kind = v.kind
  source : Text.withoutDocs u.source = v.source
  code : ∀ l ∈ Text.rows v.source, Text.isDoc l = false

theorem CodeUnit.IsTidy.documented {u : CodeUnit} (h : u.IsTidy slash)
    (hb : Style.IsBlank ⟨indent, true⟩) :
    (u.print ⟨indent, true⟩).Documents slash (u.print ⟨indent, false⟩) := by
  rw [u.print_eq h.read, u.print_eq h.read]
  exact ⟨rfl, rfl, _, _, rfl, rfl, Code.documented_linesAll hb 0 h.allTidy⟩

namespace Codec

variable {s : Schema} {us : List CodeUnit}

theorem documented_declaringRoot (hs : ∀ c ∈ s.packageName.toList, Unbroken c)
    (hus : ∀ u ∈ us, u.IsTidy slash) (hb : Style.IsBlank ⟨indent, true⟩) :
    Documented slash (linesAll ⟨indent, true⟩ 0 (declaringRoot s (us.map (·.entry))))
      (linesAll ⟨indent, false⟩ 0 (declaringRoot s (us.map (·.entry)))) := by
  have hentries : ∀ e ∈ us.map (·.entry), e.IsSpelled slash :=
    List.forall_mem_map.mpr fun u hu => (hus u hu).entry
  exact Code.documented_linesAll hb 0 ((tidy_declaringRoot hs hentries).mono fun _ => IsLine.isCodeLine)

theorem documented_contained {u : CodeUnit} (h : u.IsTidy slash) (hb : Style.IsBlank ⟨indent, true⟩) :
    Documented slash
      (linesAll ⟨indent, true⟩ 0 [Code.braces s!"pub mod {u.entry.module}"
        (Code.ofText (Code.source ⟨indent, true⟩ u.code))])
      (linesAll ⟨indent, false⟩ 0 [Code.braces s!"pub mod {u.entry.module}"
        (Code.ofText (Code.source ⟨indent, false⟩ u.code))]) := by
  have hplain : Style.IsBlank ⟨indent, false⟩ := hb
  have hword : Text.IsWord slash (s!"pub mod {u.entry.module}" ++ " \x7b") := by
    simp (disch := first | exact ⟨_, rfl, rfl⟩ | fail) [h.entry.module]
  rw [Code.linesAll_braces_ofText hb h.allTidy, Code.linesAll_braces_ofText hplain h.allTidy]
  have hbody := (Code.documented_linesAll hb 0 h.allTidy).map
    (fun _ => hb.isRow_indented 1) (fun _ => hb.isCodeLine_indented 1) (hb.isDoc_indented 1)
    (hb.isItem_indented 1)
  have hclosing : IsCodeLine slash "\x7d" := ⟨Text.unbroken_of_all (by decide), fun h => by cases h⟩
  exact .code hword.isCodeLine (hbody.append (.code hclosing .nil))

theorem documented_containingRoot (hs : ∀ c ∈ s.packageName.toList, Unbroken c)
    (hus : ∀ u ∈ us, u.IsTidy slash) (hb : Style.IsBlank ⟨indent, true⟩) :
    Documented slash
      (linesAll ⟨indent, true⟩ 0
        (containingRoot s (us.map fun u => (u.entry, Code.source ⟨indent, true⟩ u.code))))
      (linesAll ⟨indent, false⟩ 0
        (containingRoot s (us.map fun u => (u.entry, Code.source ⟨indent, false⟩ u.code)))) := by
  unfold containingRoot
  refine Code.documented_spaced (List.rel_append (List.rel_append (.cons ?_ .nil) ?_) (.cons ?_ .nil))
  · refine Code.documented_linesAll hb 0 (tidy_line.mpr ⟨?_, tidy_nil⟩)
    rw [renderPieces_text]
    exact isCodeLine_containingRoot hs
  · rw [List.map_map, List.map_map, List.forall₂_map_left_iff, List.forall₂_map_right_iff,
      List.forall₂_same]
    exact fun u hu => documented_contained (hus u hu) hb
  · simp only [List.map_map]
    refine Code.documented_linesAll hb 0 ((tidy_shared s ?_).mono fun _ => IsLine.isCodeLine)
    exact List.forall_mem_map.mpr fun u hu => (hus u hu).entry

end Codec

theorem Generator.documented_arrange {s : Schema} {us : List CodeUnit}
    (hs : ∀ c ∈ s.packageName.toList, Unbroken c) (hus : ∀ u ∈ us, u.IsTidy slash)
    (hb : Style.IsBlank ⟨indent, true⟩) (a : Arrangement) :
    List.Forall₂ (SourceUnit.Documents slash) (arrange s ⟨⟨indent, true⟩, a⟩ us)
      (arrange s ⟨⟨indent, false⟩, a⟩ us) := by
  cases a with
  | moduleFiles =>
      have hroot := Codec.documented_declaringRoot hs hus hb
      rw [arrange_moduleFiles, arrange_moduleFiles]
      refine List.rel_append ?_ (.cons ⟨rfl, rfl, _, _, rfl, rfl, hroot⟩ .nil)
      rw [List.forall₂_map_left_iff, List.forall₂_map_right_iff, List.forall₂_same]
      exact fun u hu => (hus u hu).documented hb
  | singleFile =>
      have hread : ∀ u ∈ us, u.IsRead := fun u hu => (hus u hu).read
      rw [arrange_singleFile s _ hread, arrange_singleFile s _ hread]
      exact .cons ⟨rfl, rfl, _, _, rfl, rfl, Codec.documented_containingRoot hs hus hb⟩ .nil

/-! ### A described enum -/

namespace Described

/-- An enum with one value and a description of three lines. -/
def side : List Token :=
  [{ signal := .beginEnum, name := "Side", span := 3, encodedLength := 1
     description := some "Buy\n\nor sell"
     encoding := { primitive := some .uint8 } },
   { signal := .validValue, name := "BUY"
     encoding := { primitive := some .uint8, constant := some "1" } },
   { signal := .endEnum, name := "Side" }]

def schema : Schema := { packageName := "demo", types := [side] }

def generator : Generator where
  schema := schema
  registry := ⟨[⟨"Side", .enumeration, side, []⟩]⟩
  messages := []

theorem ofSchema_schema : Generator.ofSchema schema = .ok generator := by cbv

theorem isSpelled : schema.IsSpelled Name.IsPlain := by decide +kernel

theorem isBlank : Style.IsBlank ⟨"\t", true⟩ := by decide

/-- The unit of the enum begins with the lines of its description. -/
theorem exists_unit : ∃ u, generator.modules = .ok [u] ∧
    (linesAll ⟨"\t", true⟩ 0 u.code).take 4 = ["/// Buy", "///", "/// or sell",
      "#[derive(Clone, Copy, Debug, PartialEq, Eq, PartialOrd, Ord, Hash)]"] := by
  have hlines : generator.modules.toOption.map (·.map fun u => (linesAll ⟨"\t", true⟩ 0 u.code).take 4)
      = some [["/// Buy", "///", "/// or sell",
        "#[derive(Clone, Copy, Debug, PartialEq, Eq, PartialOrd, Ord, Hash)]"]] := by decide +kernel
  obtain ⟨us, hus, hlines⟩ := Option.map_eq_some_iff.mp hlines
  obtain ⟨u, rfl, hu⟩ := List.map_eq_singleton_iff.mp hlines
  exact ⟨u, toOption_eq_some.mp hus, hu⟩

end Described

/-! ### All units -/

namespace Generator

variable {s : Schema} {g : Generator}

/-- Printed with and without documentation, the units fail in the same way, or the ones are the others
with documentation. -/
theorem documented_units (hg : ofSchema s = .ok g) (hs : s.IsSpelled Name.IsPlain)
    (hb : Style.IsBlank ⟨indent, true⟩) (a : Arrangement) :
    (∃ e, g.units ⟨⟨indent, true⟩, a⟩ = .error e ∧ g.units ⟨⟨indent, false⟩, a⟩ = .error e) ∨
      ∃ us vs, g.units ⟨⟨indent, true⟩, a⟩ = .ok us ∧ g.units ⟨⟨indent, false⟩, a⟩ = .ok vs ∧
        List.Forall₂ (SourceUnit.Documents False) us vs := by
  rcases units_cases g with ⟨e, he⟩ | ⟨us, hus, hunits⟩
  · exact .inl ⟨e, he _, he _⟩
  · have hfits : s.IsSpelled (Fits False) := hs.mono fun _ => Name.IsPlain.fits
    have htidy := isTidy_of_modules hfits hg hus
    refine .inr ⟨_, _, hunits _, hunits _, ?_⟩
    rw [(registry_of_ofSchema hg).1]
    exact documented_arrange (fun c hc => (hfits.package c hc).unbroken) htidy hb a

/-- **Documentation is all that is left out.** Printed with and without documentation, the units fail in
the same way, or they are the same modules of the same kinds, and what is printed without documentation
is what is left of the other when every line of documentation is deleted. -/
theorem units_withoutDocs (hg : ofSchema s = .ok g) (hs : s.IsSpelled Name.IsPlain)
    (hb : Style.IsBlank ⟨indent, true⟩) (a : Arrangement) :
    (∃ e, g.units ⟨⟨indent, true⟩, a⟩ = .error e ∧ g.units ⟨⟨indent, false⟩, a⟩ = .error e) ∨
      ∃ us vs, g.units ⟨⟨indent, true⟩, a⟩ = .ok us ∧ g.units ⟨⟨indent, false⟩, a⟩ = .ok vs ∧
        List.Forall₂ SourceUnit.IsStripped us vs := by
  refine (documented_units hg hs hb a).imp_right ?_
  rintro ⟨us, vs, hus, hvs, h⟩
  refine ⟨us, vs, hus, hvs, h.imp ?_⟩
  rintro u v ⟨hmodule, hkind, ls, code, hu, hv, hdocs⟩
  refine ⟨hmodule, hkind, ?_, ?_⟩
  · rw [hu, hv, Text.withoutDocs_terminated fun l hl => (hdocs.isRow l hl).feed, hdocs.filter_eq]
  · rw [hv, Text.rows_terminated fun l hl => (hdocs.isCodeLine l hl).isRow.feed, List.forall_mem_append,
      List.forall_mem_singleton]
    exact ⟨fun l hl => Bool.eq_false_iff.mpr (hdocs.isCodeLine l hl).code, rfl⟩

theorem units_withoutDocs_described :
    ∃ us vs, Described.generator.units ⟨⟨"\t", true⟩, .singleFile⟩ = .ok us ∧
      Described.generator.units ⟨⟨"\t", false⟩, .singleFile⟩ = .ok vs ∧
        List.Forall₂ SourceUnit.IsStripped us vs := by
  obtain ⟨u, hu, _⟩ := Described.exists_unit
  refine (units_withoutDocs Described.ofSchema_schema Described.isSpelled Described.isBlank
    .singleFile).resolve_left ?_
  rintro ⟨e, he, _⟩
  rw [units_of_modules hu] at he
  cases he

/-- **Documentation stands in front of items.** In every unit that is printed with documentation, a run
of lines of documentation that is as long as can be is followed by a line, and this one is not blank, no
comment and no closing brace. -/
theorem isItem_of_docRun (hg : ofSchema s = .ok g) (hs : s.IsSpelled Name.IsPlain)
    (hb : Style.IsBlank ⟨indent, true⟩) {a : Arrangement} {us : List SourceUnit}
    (h : g.units ⟨⟨indent, true⟩, a⟩ = .ok us) {u : SourceUnit} (hu : u ∈ us)
    {front run back : List String} (hrows : Text.rows u.source = front ++ run ++ back)
    (hrun : Text.IsDocRun front run back) : ∃ next ∈ back.head?, Text.isItem next := by
  rcases documented_units hg hs hb a with ⟨e, he, _⟩ | ⟨us', vs, hus, _, hdocs⟩
  · rw [h] at he
    cases he
  · rw [h] at hus
    cases hus
    have hall : ∀ u ∈ us, ∃ v, u.Documents False v :=
      forall_of_forall₂ (hdocs.flip.imp fun v _ h => ⟨v, h⟩)
    obtain ⟨v, _, _, ls, code, hsource, _, hprinted⟩ := hall u hu
    rw [hsource, Text.rows_terminated fun l hl => (hprinted.isRow l hl).feed] at hrows
    have hlast : Documented False [""] [""] := .code ⟨by simp, fun h => by cases h⟩ .nil
    exact (hprinted.append hlast).isItem_of_run hrows hrun id

/-- The description of the enum stands in front of its definition. -/
theorem isItem_of_docRun_described :
    ∃ us, Described.generator.units ⟨⟨"\t", true⟩, .moduleFiles⟩ = .ok us ∧ ∃ u ∈ us, ∃ back,
      Text.rows u.source = [] ++ ["/// Buy", "///", "/// or sell"] ++ back ∧
        Text.IsDocRun [] ["/// Buy", "///", "/// or sell"] back ∧
          ∃ next ∈ back.head?, Text.isItem next := by
  obtain ⟨u, hmodules, hlines⟩ := Described.exists_unit
  have hunits := units_of_modules hmodules ⟨⟨"\t", true⟩, .moduleFiles⟩
  have hu : u.print ⟨"\t", true⟩ ∈ arrange Described.schema ⟨⟨"\t", true⟩, .moduleFiles⟩ [u] :=
    List.mem_cons_self
  have hfits : Described.schema.IsSpelled (Fits False) :=
    Described.isSpelled.mono fun _ => Name.IsPlain.fits
  have htidy := isTidy_of_modules hfits Described.ofSchema_schema hmodules u List.mem_cons_self
  have hrows : Text.rows (u.print ⟨"\t", true⟩).source = linesAll ⟨"\t", true⟩ 0 u.code ++ [""] := by
    rw [u.print_eq htidy.read]
    exact Text.rows_terminated fun l hl =>
      (Code.isRow_of_mem_linesAll Described.isBlank 0 htidy.allTidy l hl).feed
  rw [← List.take_append_drop 4 (linesAll _ 0 u.code), hlines, List.append_assoc] at hrows
  have hrun : Text.IsDocRun [] ["/// Buy", "///", "/// or sell"]
      ("#[derive(Clone, Copy, Debug, PartialEq, Eq, PartialOrd, Ord, Hash)]"
        :: ((linesAll ⟨"\t", true⟩ 0 u.code).drop 4 ++ [""])) :=
    ⟨List.cons_ne_nil _ _, by decide, by simp, by simp; decide⟩
  exact ⟨_, hunits, _, hu, _, hrows, hrun, isItem_of_docRun Described.ofSchema_schema
    Described.isSpelled Described.isBlank hunits hu hrows hrun⟩

end Generator

end WireCodec
