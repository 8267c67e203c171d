import WireCodec.Proofs.Modules
import WireCodec.Proofs.Units
/-! # One file for all units

The file that contains all units consists of a heading, of every unit in a module of its own, one level
deeper, and of what the root of separate files consists of from the exports on
(`Generator.units_singleFile`).  Nothing is lost when the text of a unit is cut into lines again,
because no name of the schema and no literal brings a line end into it. -/

namespace WireCodec

open Code (AllTidy linesAll source spaced)
open Text (Fits IsCodeLine IsLine IsRow Unbroken outdent? terminated)

/-! ### Texts of files -/

/-- A module with some body. -/
def SourceUnit.around (u : SourceUnit) (body : String) : String :=
  s!"pub mod {u.module} \x7b\n" ++ body ++ "\x7d\n"

/-- The text of a file that contains units: a line for the heading, every unit in a module whose body is
the unit when one level of indentation is taken off, and some further text. -/
def IsContaining (indent heading : String) (units : List SourceUnit) (tail text : String) : Prop :=
  IsRow heading ∧ ∃ bodies,
    List.Forall₂ (fun u body => outdent? indent body = some u.source) units bodies ∧
      text = heading ++ "\n"
        ++ String.join (List.zipWith (fun u body => "\n" ++ u.around body) units bodies) ++ "\n" ++ tail

/-- The text of a file that declares units in files of their own: some headings, up to the first empty
line, the declarations, and further text that begins with an export of what is in each unit. -/
def IsDeclaring (units : List SourceUnit) (tail text : String) : Prop :=
  ∃ headings exports rest,
    (∀ l ∈ headings, IsRow l ∧ l ≠ "") ∧
    text = terminated headings ++ "\n" ++ terminated (units.map fun u => s!"pub mod {u.module};")
      ++ "\n" ++ tail ∧
    tail = terminated exports ++ "\n" ++ rest ∧
    List.Forall₂ (fun u line => ∃ names, line = s!"pub use {u.module}::" ++ names) units exports

/-! ### Printing -/

namespace Code

variable {style : Style} {slash : Prop}

theorem source_append (style : Style) (xs ys : List Code) :
    source style (xs ++ ys) = source style xs ++ source style ys := by
  show terminated (linesAll style 0 (xs ++ ys)) = _
  rw [linesAll_append, Text.terminated_append]
  rfl

theorem source_map_text (style : Style) (ls : List String) :
    source style (ls.map text) = terminated ls := by
  show terminated (linesAll style 0 (ls.map text)) = _
  rw [linesAll_map_text, List.map_congr_left fun l _ => Style.indented_zero l, List.map_id']

theorem source_text (style : Style) (l : String) : source style [text l] = l ++ "\n" :=
  (source_map_text style [l]).trans (Text.terminated_singleton l)

theorem source_spaced_cons (style : Style) (p q : List Code) (parts : List (List Code)) :
    source style (spaced (p :: q :: parts))
      = source style p ++ "\n" ++ source style (spaced (q :: parts)) := by
  rw [spaced_cons_cons, source_append, ← List.singleton_append, source_append, String.append_assoc]
  rfl

theorem source_spaced (style : Style) (first last : List Code) (parts : List (List Code)) :
    source style (spaced (first :: (parts ++ [last])))
      = source style first ++ String.join (parts.map fun p => "\n" ++ source style p) ++ "\n"
        ++ source style last := by
  induction parts generalizing first with
  | nil =>
      rw [List.nil_append, source_spaced_cons, spaced_singleton]
      simp
  | cons p parts ih =>
      rw [List.cons_append, source_spaced_cons, ih, List.map_cons, String.join_cons]
      simp only [String.append_assoc]

end Code

namespace Codec

variable {style : Style} {slash : Prop}

/-- The body of the module that contains a unit. -/
def containedBody (style : Style) (u : CodeUnit) : String :=
  terminated ((linesAll style 0 u.code).map (style.indented 1))

theorem outdent?_containedBody (hb : style.IsBlank) {u : CodeUnit} (h : u.IsTidy slash) :
    outdent? style.indent (containedBody style u) = some (u.print style).source := by
  have hindent : '\n' ∉ style.indent.toList := fun hc => by
    rcases hb _ hc with h | h <;> cases h
  rw [u.print_eq h.read]
  unfold containedBody
  rw [List.map_congr_left fun l _ => Style.indented_one l]
  exact Text.outdent?_terminated hindent fun l hl =>
    (Code.isRow_of_mem_linesAll hb 0 h.allTidy l hl).feed

theorem source_contained (hb : style.IsBlank) {u : CodeUnit} (h : u.IsTidy slash) :
    source style [Code.braces s!"pub mod {u.entry.module}" (Code.ofText (source style u.code))]
      = (u.print style).around (containedBody style u) := by
  show terminated (linesAll style 0 _) = _
  rw [Code.linesAll_braces_ofText hb h.allTidy, Text.terminated_cons, Text.terminated_append]
  have hopen : ∀ t : String, " \x7b" ++ ("\n" ++ t) = " \x7b\n" ++ t := fun t =>
    String.append_assoc.symm
  have hclose : terminated ["\x7d"] = "\x7d\n" := by decide
  unfold SourceUnit.around containedBody
  simp only [hclose, hopen, String.append_assoc]
  rfl

theorem source_containingRoot {s : Schema} (hb : style.IsBlank) {us : List CodeUnit}
    (h : ∀ u ∈ us, u.IsTidy slash) :
    source style (containingRoot s (us.map fun u => (u.entry, source style u.code)))
      = s!"// Codecs for the \x60{s.packageName}\x60 schema." ++ "\n"
        ++ String.join (us.map fun u => "\n" ++ (u.print style).around (containedBody style u))
        ++ "\n" ++ source style (shared s (us.map (·.entry))) := by
  have hunits : ∀ u ∈ us, "\n" ++ source style
      [Code.braces s!"pub mod {u.entry.module}" (Code.ofText (source style u.code))]
      = "\n" ++ (u.print style).around (containedBody style u) := fun u hu =>
    congrArg ("\n" ++ ·) (source_contained hb (h u hu))
  unfold containingRoot
  rw [List.cons_append, List.nil_append, List.cons_append, Code.source_spaced, Code.source_text,
    List.map_map, List.map_map, List.map_map, ← List.map_congr_left hunits]
  rfl

theorem source_declaringRoot {s : Schema} (hs : ∀ c ∈ s.packageName.toList, Unbroken c) (style : Style)
    (entries : List Entry) :
    ∃ headings, (∀ l ∈ headings, IsRow l ∧ l ≠ "") ∧ source style (declaringRoot s entries)
      = terminated headings ++ "\n" ++ terminated (entries.map fun e => s!"pub mod {e.module};")
        ++ "\n" ++ source style (shared s entries) := by
  refine ⟨[s!"//! Codecs for the \x60{s.packageName}\x60 schema.", "#![forbid(unsafe_code)]",
    "#![allow(clippy::all)]", "#![allow(non_camel_case_types)]"], ?_, ?_⟩
  · have hheading : IsCodeLine True s!"//! Codecs for the \x60{s.packageName}\x60 schema." :=
      isCodeLine_declaringRoot hs
    simp only [List.forall_mem_cons]
    refine ⟨⟨hheading.isRow, fun h => absurd (String.append_eq_empty_iff.mp h).2 (by decide)⟩,
      ?_, ?_, ?_, List.forall_mem_nil _⟩ <;>
      exact ⟨⟨by decide, by decide⟩, by decide⟩
  · unfold declaringRoot
    rw [Code.source_spaced_cons, Code.source_spaced_cons, Code.spaced_singleton,
      ← Code.source_map_text style, ← Code.source_map_text style, List.map_map]
    simp only [String.append_assoc]
    rfl

/-- What all roots share begins with the exports. -/
theorem source_shared (s : Schema) (style : Style) (entries : List Entry) :
    ∃ rest, source style (shared s entries)
      = terminated (entries.filterMap Entry.export?) ++ "\n" ++ rest := by
  unfold shared
  rw [Code.source_spaced_cons, ← List.map_filterMap, Code.source_map_text]
  exact ⟨_, rfl⟩

theorem Entry.exists_export {e : Entry} (h : e.kind ≠ .root) :
    ∃ names, e.export? = some (s!"pub use {e.module}::" ++ names) := by
  unfold Entry.export?
  split
  · refine ⟨"*;", ?_⟩
    simp only [String.append_assoc]
    rfl
  · refine ⟨"*;", ?_⟩
    simp only [String.append_assoc]
    rfl
  · refine ⟨s!"\x7b{e.typeName}, {e.typeName}Decoder, {e.typeName}Encoder\x7d;", ?_⟩
    simp only [String.append_assoc]
    rfl
  · refine ⟨s!"\x7b{e.typeName}Decoder, {e.typeName}Encoder\x7d;", ?_⟩
    simp only [String.append_assoc]
    rfl
  next hroot => exact absurd hroot h

/-- Every unit is exported by a line of its own. -/
theorem forall₂_exports {style : Style} {us : List CodeUnit} (h : ∀ u ∈ us, u.entry.kind ≠ .root) :
    List.Forall₂ (fun u line => ∃ names, line = s!"pub use {u.module}::" ++ names)
      (us.map (CodeUnit.print style)) ((us.map (·.entry)).filterMap Entry.export?) := by
  induction us with
  | nil => exact .nil
  | cons u us ih =>
      obtain ⟨hu, hus⟩ := List.forall_mem_cons.mp h
      obtain ⟨names, hnames⟩ := Entry.exists_export hu
      rw [List.map_cons, List.map_cons, List.filterMap_cons_some hnames]
      exact .cons ⟨names, rfl⟩ (ih hus)

theorem isDeclaring_source {s : Schema} (hs : ∀ c ∈ s.packageName.toList, Unbroken c) (style : Style)
    {us : List CodeUnit} (h : ∀ u ∈ us, u.entry.kind ≠ .root) :
    IsDeclaring (us.map (CodeUnit.print style)) (source style (shared s (us.map (·.entry))))
      (source style (declaringRoot s (us.map (·.entry)))) := by
  obtain ⟨headings, hheadings, hsource⟩ := source_declaringRoot hs style (us.map (·.entry))
  obtain ⟨rest, htail⟩ := source_shared s style (us.map (·.entry))
  refine ⟨headings, _, rest, hheadings, ?_, htail, forall₂_exports h⟩
  rw [hsource, List.map_map, List.map_map]
  rfl

theorem isContaining_source {s : Schema} (hs : ∀ c ∈ s.packageName.toList, Unbroken c) {style : Style}
    (hb : style.IsBlank) {us : List CodeUnit} (h : ∀ u ∈ us, u.IsTidy slash) :
    IsContaining style.indent s!"// Codecs for the \x60{s.packageName}\x60 schema."
      (us.map (CodeUnit.print style)) (source style (shared s (us.map (·.entry))))
      (source style (containingRoot s (us.map fun u => (u.entry, source style u.code)))) := by
  have hheading : IsCodeLine slash s!"// Codecs for the \x60{s.packageName}\x60 schema." :=
    isCodeLine_containingRoot hs
  refine ⟨hheading.isRow, us.map (containedBody style), ?_, ?_⟩
  · rw [List.forall₂_map_left_iff, List.forall₂_map_right_iff, List.forall₂_same]
    exact fun u hu => outdent?_containedBody hb (h u hu)
  · rw [source_containingRoot hb h, List.zipWith_map, List.zipWith_self]

end Codec

/-! ### All units -/

namespace Generator

/-- **One file holds what separate files hold.** Both ways fail alike, or both ways the units are the
same, in modules of the one file, and with its tail the root of the separate files ends as well. -/
theorem units_singleFile {s : Schema} {g : Generator} (hg : ofSchema s = .ok g)
    (hs : s.IsSpelled Unbroken) {style : Style} (hb : style.IsBlank) :
    (∃ e, g.units ⟨style, .moduleFiles⟩ = .error e ∧ g.units ⟨style, .singleFile⟩ = .error e) ∨
      ∃ inner lib root tail, g.units ⟨style, .moduleFiles⟩ = .ok (inner ++ [lib]) ∧
        g.units ⟨style, .singleFile⟩ = .ok [root] ∧
        (∀ u ∈ inner, u.kind ≠ .root) ∧ lib.kind = .root ∧ root.kind = .root ∧
        IsDeclaring inner tail lib.source ∧
        IsContaining style.indent s!"// Codecs for the \x60{s.packageName}\x60 schema." inner tail
          root.source := by
  obtain ⟨rfl, -⟩ := registry_of_ofSchema hg
  rcases units_cases g with ⟨e, he⟩ | ⟨us, hus, hunits⟩
  · exact .inl ⟨e, he _, he _⟩
  have hfits : g.schema.IsSpelled (Fits True) := hs.mono fun _ h => ⟨h, fun _ => trivial⟩
  have htidy := isTidy_of_modules hfits hg hus
  have hkinds : ∀ u ∈ us, u.entry.kind ≠ .root := fun u hu => (htidy u hu).kind
  have hfiles := hunits ⟨style, .moduleFiles⟩
  have hsingle := hunits ⟨style, .singleFile⟩
  rw [arrange_moduleFiles] at hfiles
  rw [arrange_singleFile _ _ fun u hu => (htidy u hu).read] at hsingle
  have hdeclaring := Codec.isDeclaring_source hs.package style hkinds
  have hcontaining := Codec.isContaining_source hs.package hb htidy
  exact .inr ⟨us.map (CodeUnit.print style), _, _, _, hfiles, hsingle,
    List.forall_mem_map.mpr hkinds, rfl, rfl, hdeclaring, hcontaining⟩

/-- Two enums in separate files and in one. -/
theorem units_singleFile_twins :
    ∃ inner lib root tail,
      (Twins.generator "Side" "Way").units ⟨{}, .moduleFiles⟩ = .ok (inner ++ [lib]) ∧
        (Twins.generator "Side" "Way").units ⟨{}, .singleFile⟩ = .ok [root] ∧
        (∀ u ∈ inner, u.kind ≠ .root) ∧ lib.kind = .root ∧ root.kind = .root ∧
        IsDeclaring inner tail lib.source ∧
        IsContaining "    " "// Codecs for the \x60demo\x60 schema." inner tail root.source := by
  have hmodules : (((Twins.generator "Side" "Way").units {}).toOption.map (·.map (·.module)))
      = some ["side", "way", "lib"] := by decide +kernel
  obtain ⟨us, hus, _⟩ := Twins.exists_units hmodules
  have hspelled : (Twins.schema "Side" "Way").IsSpelled Unbroken := by decide +kernel
  have hblank : Style.IsBlank {} := by decide
  refine (units_singleFile Twins.ofSchema_distinct hspelled hblank).resolve_left ?_
  rintro ⟨e, he, _⟩
  rw [hus] at he
  cases he

end Generator

end WireCodec
