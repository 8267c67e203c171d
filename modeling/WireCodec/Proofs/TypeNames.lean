import WireCodec.Proofs.Identifiers
/-! # Names made of identifiers

An identifier of a schema names functions, modules and types.  Functions and modules are named by it in
small letters, escaped where this is a keyword, so their names are always identifiers and no keywords, and
the modules are refused by no output directory.

A type is named by its words (`Name.words`), capitalized and put together.  This name is not escaped, and
the words may be none or begin with a digit.  `Generator.generated_names` says for which identifiers it is an
identifier, and for which it is the one keyword with a capital letter. -/

namespace WireCodec

/-! ### Words -/

namespace Text

theorem flatten_split (separator : Char) (cs : List Char) :
    (split separator cs).flatten = cs.filter (· ≠ separator) := by
  induction cs with
  | nil => rfl
  | cons c cs ih =>
      rw [split, List.filter_cons]
      cases hsplit : split separator cs with
      | nil => exact absurd hsplit (split_ne_nil cs)
      | cons word words =>
          rw [hsplit] at ih
          by_cases hc : c = separator
          · simpa [hc] using ih
          · simpa [hc] using ih

end Text

namespace Name

open Casing (lowerAscii upperAscii)
open Letter (isAscii)

/-- The words of a name, which stand between underscores. -/
def words (cs : List Char) : List (List Char) := (Text.split '_' cs).filter (· ≠ [])

theorem flatten_words (cs : List Char) : (words cs).flatten = cs.filter (· ≠ '_') := by
  rw [words, List.flatten_filter_ne_nil, Text.flatten_split]

theorem ne_nil_of_mem_words {cs word : List Char} (h : word ∈ words cs) : word ≠ [] := by
  simpa using List.of_mem_filter h

/-- A type is named by its words, each of them capitalized. -/
theorem pascal_eq (cs : List Char) :
    pascal cs = (words cs).flatMap fun word => capitalize (isAllUpper word) word := by
  unfold pascal
  split
  · rfl
  next hnone =>
    have hone : Text.split '_' cs = [cs] := Text.split_of_not_mem (by simpa using hnone)
    cases cs with
    | nil => rfl
    | cons c cs => simp [words, hone]

/-- A letter or a digit. -/
def isAlphanumeric (c : Char) : Bool := isLetter c || Letter.isAsciiDigit c

theorem isAlphanumeric_iff {c : Char} (h : isIdentifierRest c) : isAlphanumeric c ↔ c ≠ '_' := by
  constructor
  · rintro hc rfl
    exact absurd hc (by decide)
  · intro hc
    simpa [isIdentifierRest, isAlphanumeric, hc] using h

theorem isIdentifierRest_of_isAlphanumeric {c : Char} (h : isAlphanumeric c) : isIdentifierRest c := by
  rw [isAlphanumeric] at h
  rw [isIdentifierRest, h, Bool.true_or]

theorem isAscii_of_isAlphanumeric {c : Char} (h : isAlphanumeric c) : isAscii c :=
  isAscii_of_isPackageRest (isPackageRest_of_isIdentifierRest (isIdentifierRest_of_isAlphanumeric h))

theorem isAlphanumeric_of_mem_words {s : String} (h : isIdentifier s) {word : List Char}
    (hword : word ∈ words s.toList) : ∀ c ∈ word, isAlphanumeric c := by
  intro c hc
  have hmem : c ∈ (words s.toList).flatten := List.mem_flatten.mpr ⟨word, hword, hc⟩
  rw [flatten_words, List.mem_filter, decide_eq_true_eq] at hmem
  have hrest := forall_of_isFormed h (fun _ => isIdentifierRest_of_isIdentifierStart) c hmem.1
  exact (isAlphanumeric_iff hrest).mpr hmem.2

/-! ### Capital letters -/

theorem capitalize_cons {c : Char} {cs : List Char} (h : ∀ d ∈ c :: cs, isAscii d)
    (lowerRest : Bool) :
    capitalize lowerRest (c :: cs)
      = upperAscii c :: if lowerRest then cs.map lowerAscii else cs := by
  obtain ⟨hc, hcs⟩ := List.forall_mem_cons.mp h
  rw [capitalize, Casing.upperChar_of_isAscii hc, Casing.lower_of_isAscii hcs]
  rfl

theorem isAllUpper_iff {cs : List Char} (h : ∀ c ∈ cs, isAscii c) :
    isAllUpper cs ↔ cs = cs.map upperAscii := by
  rw [isAllUpper, beq_iff_eq, Casing.upper_of_isAscii h]

section

variable {c : Char}

theorem isAlphanumeric_iff_toNat :
    isAlphanumeric c ↔ isLetter c ∨ (48 ≤ c.toNat ∧ c.toNat ≤ 57) := by
  rw [isAlphanumeric, Bool.or_eq_true, Letter.isAsciiDigit_iff]

theorem isAlphanumeric_upperAscii (h : isAlphanumeric c) : isAlphanumeric (upperAscii c) := by
  rw [isAlphanumeric_iff_toNat, isLetter_iff] at h ⊢
  rw [Casing.toNat_upperAscii]
  split <;> omega

theorem isAlphanumeric_lowerAscii (h : isAlphanumeric c) : isAlphanumeric (lowerAscii c) := by
  rw [isAlphanumeric_iff_toNat, isLetter_iff] at h ⊢
  rw [Casing.toNat_lowerAscii]
  split <;> omega

theorem isIdentifierStart_upperAscii_iff (h : isAlphanumeric c) :
    isIdentifierStart (upperAscii c) ↔ isLetter c := by
  rw [isAlphanumeric_iff_toNat, isLetter_iff] at h
  rw [isIdentifierStart_iff, isLetter_iff, isLetter_iff, Casing.toNat_upperAscii]
  split <;> omega

theorem isAsciiLower_upperAscii (c : Char) : Letter.isAsciiLower (upperAscii c) = false := by
  rw [← Bool.not_eq_true, Letter.isAsciiLower_iff, Casing.toNat_upperAscii]
  split <;> omega

theorem upperAscii_lowerAscii (c : Char) : upperAscii (lowerAscii c) = upperAscii c := by
  rw [← Char.toNat_inj, Casing.toNat_upperAscii, Casing.toNat_upperAscii, Casing.toNat_lowerAscii]
  split_ifs <;> omega

theorem eq_of_upperAscii_eq (h : upperAscii c = 'S') : c = 's' ∨ c = 'S' := by
  have hcode : (upperAscii c).toNat = 83 := by rw [h]; rfl
  rw [← Char.toNat_inj, ← Char.toNat_inj]
  rw [Casing.toNat_upperAscii] at hcode
  show c.toNat = 115 ∨ c.toNat = 83
  split at hcode <;> omega

end

/-! ### Type names -/

/-- The words, capitalized, consist of letters and digits, and each begins with none that is small. -/
theorem capitalize_word {word : List Char} (h : ∀ c ∈ word, isAlphanumeric c) (hne : word ≠ [])
    (lowerRest : Bool) :
    ∃ c cs, capitalize lowerRest word = c :: cs ∧ Letter.isAsciiLower c = false ∧
      ∀ d ∈ c :: cs, isAlphanumeric d := by
  obtain ⟨c, cs, rfl⟩ := List.exists_cons_of_ne_nil hne
  have hascii : ∀ d ∈ c :: cs, isAscii d := fun d hd => isAscii_of_isAlphanumeric (h d hd)
  obtain ⟨hc, hcs⟩ := List.forall_mem_cons.mp h
  refine ⟨_, _, capitalize_cons hascii lowerRest, isAsciiLower_upperAscii c, ?_⟩
  rw [List.forall_mem_cons]
  refine ⟨isAlphanumeric_upperAscii hc, ?_⟩
  split
  · rw [List.forall_mem_map]
    exact fun d hd => isAlphanumeric_lowerAscii (hcs d hd)
  · exact hcs

variable {s : String}

theorem toList_type (s : String) :
    (type s).toList = (words s.toList).flatMap fun word => capitalize (isAllUpper word) word := by
  rw [type, toPascal, String.toList_ofList, pascal_eq]

theorem isAlphanumeric_of_mem_type (h : isIdentifier s) : ∀ c ∈ (type s).toList, isAlphanumeric c := by
  intro c hc
  rw [toList_type, List.mem_flatMap] at hc
  obtain ⟨word, hword, hc⟩ := hc
  obtain ⟨d, ds, heq, _, hall⟩ := capitalize_word (isAlphanumeric_of_mem_words h hword)
    (ne_nil_of_mem_words hword) (isAllUpper word)
  exact hall c (heq ▸ hc)

/-- The name of a type begins with the first letter or digit, made a capital. -/
theorem head?_type (h : isIdentifier s) :
    (type s).toList.head? = (s.toList.find? (· ≠ '_')).map upperAscii := by
  have hfirst : s.toList.find? (· ≠ '_') = (words s.toList).flatten.head? := by
    rw [flatten_words, List.head?_filter]
  rw [toList_type, hfirst]
  cases hwords : words s.toList with
  | nil => rfl
  | cons word rest =>
      have hword : word ∈ words s.toList := hwords ▸ List.mem_cons_self
      obtain ⟨c, cs, rfl⟩ := List.exists_cons_of_ne_nil (ne_nil_of_mem_words hword)
      have hascii : ∀ d ∈ c :: cs, isAscii d :=
        fun d hd => isAscii_of_isAlphanumeric (isAlphanumeric_of_mem_words h hword d hd)
      rw [List.flatMap_cons, capitalize_cons hascii]
      rfl

/-- The name of a type is an identifier exactly if the first character that is no underscore is a
letter. -/
theorem isIdentifier_type_iff (h : isIdentifier s) :
    isIdentifier (type s) ↔ ∃ c, s.toList.find? (· ≠ '_') = some c ∧ isLetter c := by
  have hhead := head?_type h
  have hall := isAlphanumeric_of_mem_type h
  unfold isIdentifier
  cases hfirst : s.toList.find? (· ≠ '_') with
  | none =>
      rw [hfirst, Option.map_none, List.head?_eq_none_iff] at hhead
      rw [hhead]
      simp [isFormed]
  | some c =>
      rw [hfirst, Option.map_some] at hhead
      obtain ⟨cs, hcs⟩ := List.head?_eq_some_iff.mp hhead
      have hrest : isIdentifierRest c := forall_of_isFormed h
        (fun _ => isIdentifierRest_of_isIdentifierStart) c (List.mem_of_find?_eq_some hfirst)
      have hc : isAlphanumeric c :=
        (isAlphanumeric_iff hrest).mpr (by simpa using List.find?_some hfirst)
      rw [hcs] at hall ⊢
      rw [isFormed_cons, isIdentifierStart_upperAscii_iff hc]
      constructor
      · exact fun hform => ⟨c, rfl, hform.1⟩
      · rintro ⟨_, ⟨⟩, hletter⟩
        exact ⟨hletter, fun d hd => isIdentifierRest_of_isAlphanumeric (hall d (List.mem_cons_of_mem _ hd))⟩

theorem eq_self_of_mem_keywords :
    ∀ k ∈ keywords, k.toList.head?.all (!Letter.isAsciiLower ·) → k = "Self" := by decide

theorem toList_self : "Self".toList = ['S', 'e', 'l', 'f'] := rfl

/-- A word that becomes the keyword with a capital letter. -/
theorem mem_of_capitalize_eq {word : List Char} (h : ∀ c ∈ word, isAscii c) (hne : word ≠ [])
    (hself : capitalize (isAllUpper word) word = ['S', 'e', 'l', 'f']) :
    ∃ w ∈ ["self", "Self", "SELF"], word = w.toList := by
  obtain ⟨c, cs, rfl⟩ := List.exists_cons_of_ne_nil hne
  rw [capitalize_cons h] at hself
  obtain ⟨hfirst, hrest⟩ := List.cons.inj hself
  split at hrest
  next hupper =>
    -- In a word of capital letters, only the first one stays.
    rw [isAllUpper_iff h, List.map_cons, List.cons.injEq] at hupper
    have hcapitals : cs = ['E', 'L', 'F'] := by
      rw [hupper.2, ← List.map_congr_left fun d _ => upperAscii_lowerAscii d,
        ← Function.comp_def, ← List.map_map, hrest]
      rfl
    refine ⟨"SELF", by decide, ?_⟩
    rw [hupper.1, hfirst, hcapitals]
    rfl
  next =>
    rw [hrest]
    rcases eq_of_upperAscii_eq hfirst with rfl | rfl
    · exact ⟨"self", by decide, rfl⟩
    · exact ⟨"Self", by decide, rfl⟩

theorem capitalize_self :
    ∀ w ∈ ["self", "Self", "SELF"], capitalize (isAllUpper w.toList) w.toList = "Self".toList := by
  decide

theorem type_eq_self_iff (h : isIdentifier s) :
    type s = "Self" ↔ ∃ w ∈ ["self", "Self", "SELF"], words s.toList = [w.toList] := by
  have hall := fun word (hword : word ∈ words s.toList) => isAlphanumeric_of_mem_words h hword
  have hne := fun word (hword : word ∈ words s.toList) => ne_nil_of_mem_words hword
  rw [← String.toList_inj, toList_type]
  constructor
  · rw [toList_self]
    intro hself
    cases hwords : words s.toList with
    | nil =>
        rw [hwords] at hself
        cases hself
    | cons first rest =>
        rw [hwords, List.forall_mem_cons] at hall hne
        rw [hwords, List.flatMap_cons] at hself
        cases rest with
        | nil =>
            rw [List.flatMap_nil, List.append_nil] at hself
            obtain ⟨w, hw, rfl⟩ := mem_of_capitalize_eq
              (fun c hc => isAscii_of_isAlphanumeric (hall.1 c hc)) hne.1 hself
            exact ⟨w, hw, rfl⟩
        | cons second rest =>
            -- The second word would begin with another character that is not small.
            rw [List.forall_mem_cons] at hall hne
            obtain ⟨c, cs, hfirst, _⟩ := capitalize_word hall.1 hne.1 (isAllUpper first)
            obtain ⟨d, ds, hsecond, hlower, _⟩ :=
              capitalize_word hall.2.1 hne.2.1 (isAllUpper second)
            rw [List.flatMap_cons, hfirst, hsecond, List.cons_append, List.cons.injEq] at hself
            have hmem : d ∈ ['e', 'l', 'f'] := by
              rw [← hself.2]
              simp
            have hsmall : ['e', 'l', 'f'].all Letter.isAsciiLower := by decide
            rw [List.all_eq_true.mp hsmall d hmem] at hlower
            cases hlower
  · rintro ⟨w, hw, hwords⟩
    rw [hwords, List.flatMap_singleton]
    exact capitalize_self w hw

/-- The name of a type is a keyword exactly if its only word is one of three spellings of it. -/
theorem type_mem_keywords_iff (h : isIdentifier s) :
    type s ∈ keywords ↔ ∃ w ∈ ["self", "Self", "SELF"], words s.toList = [w.toList] := by
  rw [← type_eq_self_iff h]
  constructor
  · intro hmem
    apply eq_self_of_mem_keywords _ hmem
    rw [head?_type h, Option.all_map]
    cases hfirst : s.toList.find? (· ≠ '_') with
    | none => rfl
    | some c => simp [isAsciiLower_upperAscii]
  · intro heq
    rw [heq]
    decide

/-! ### Names that code may use -/

/-- An identifier that is no keyword. -/
def IsUsable (s : String) : Prop := isIdentifier s ∧ s ∉ keywords

theorem isUsable_type_iff (h : isIdentifier s) :
    IsUsable (type s) ↔ (∃ c, s.toList.find? (· ≠ '_') = some c ∧ isLetter c) ∧
      ∀ w ∈ ["self", "Self", "SELF"], words s.toList ≠ [w.toList] := by
  rw [IsUsable, isIdentifier_type_iff h, type_mem_keywords_iff h]
  simp only [not_exists, not_and, ne_eq]

theorem notMem_keywords_of_underscore (h : '_' ∈ s.toList) : s ∉ keywords :=
  fun hk => underscore_notMem_keyword s hk h

theorem isModule_append {suffix : String} (h : isModule s)
    (hsuffix : suffix.toList.all isModuleRest) : isModule (s ++ suffix) := by
  rw [isModule_eq] at h ⊢
  rw [String.toList_append, isFormed_append_iff (ne_nil_of_isFormed h)]
  exact ⟨h, List.all_eq_true.mp hsuffix⟩

theorem isModule_escape (h : isModule s) : isModule (escape s) := by
  by_cases hk : s ∈ keywords
  · rw [escape_of_mem hk]
    exact isModule_append h (by decide)
  · rwa [escape_of_notMem hk]

theorem escape_notMem_keywords (s : String) : escape s ∉ keywords := by
  by_cases hk : s ∈ keywords
  · rw [escape_of_mem hk]
    apply notMem_keywords_of_underscore
    rw [String.toList_append]
    exact List.mem_append_right _ (by decide)
  · rwa [escape_of_notMem hk]

theorem isModule_typeModule (h : isIdentifier s) : isModule (typeModule s) :=
  isModule_escape (isModule_toSnake h)

theorem isModule_codecModule (h : isIdentifier s) : isModule (codecModule s) :=
  isModule_append (isModule_toSnake h) (by decide)

/-- Functions and the modules of plain types are named alike. -/
theorem isUsable_typeModule (h : isIdentifier s) : IsUsable (typeModule s) :=
  ⟨isIdentifier_of_isModule (isModule_typeModule h), escape_notMem_keywords _⟩

theorem isUsable_codecModule (h : isIdentifier s) : IsUsable (codecModule s) := by
  refine ⟨isIdentifier_of_isModule (isModule_codecModule h), notMem_keywords_of_underscore ?_⟩
  rw [codecModule, String.toList_append]
  exact List.mem_append_right _ (by decide)

theorem isPackage_of_isIdentifier (h : isIdentifier s) : isPackage s :=
  isFormed_mono h (fun _ => id) fun _ => isPackageRest_of_isIdentifierRest

theorem notMem_of_isIdentifier (h : isIdentifier s) : '.' ∉ s.toList ∧ '-' ∉ s.toList := by
  have hrest := forall_of_isFormed h fun _ => isIdentifierRest_of_isIdentifierStart
  exact ⟨fun hc => absurd (hrest _ hc) (by decide), fun hc => absurd (hrest _ hc) (by decide)⟩

end Name

/-! ### Units of a schema -/

def Declaration.name : Declaration → String
  | plain name => name
  | codec name => name

theorem Declaration.isModule_module {x : Declaration} (h : Name.isIdentifier x.name) :
    Name.isModule x.module := by
  cases x with
  | plain name => exact Name.isModule_typeModule h
  | codec name => exact Name.isModule_codecModule h

namespace Generator

/-- The names that the modules of the units are made of are identifiers. -/
structure NamesFiles (g : Generator) (c : Configuration) : Prop where
  declarations : c.arrangement = .moduleFiles → ∀ x ∈ g.declarations, Name.isIdentifier x.name
  package : c.arrangement = .singleFile → Name.isIdentifier g.schema.packageName
  namespaceName : c.arrangement = .singleFile →
    ∀ n ∈ g.schema.namespaceName, Name.isIdentifier n

variable {g : Generator} {c : Configuration} {us : List SourceUnit}

theorem NamesFiles.isModule (h : NamesFiles g c) (hunits : g.units c = .ok us) :
    ∀ u ∈ us, Name.isModule u.module := by
  have hmodules := modules_of_units hunits
  rw [← List.forall_mem_map (f := SourceUnit.module) (P := fun module => Name.isModule module),
    hmodules]
  cases harrangement : c.arrangement with
  | moduleFiles =>
      simp only [List.forall_mem_append, List.forall_mem_map, List.forall_mem_singleton]
      refine ⟨fun x hx => ?_, by decide⟩
      exact Declaration.isModule_module (h.declarations harrangement x hx)
  | singleFile =>
      have hnamespace := h.namespaceName harrangement
      rw [List.forall_mem_singleton,
        Schema.isModule_qualifiedName_iff (Name.isPackage_of_isIdentifier (h.package harrangement))
          fun n hn => Name.isPackage_of_isIdentifier (hnamespace n hn)]
      exact fun n hn => Name.notMem_of_isIdentifier (hnamespace n hn)

/-- **Generated names.**  An identifier of a schema names functions and modules by usable identifiers.  It
names a type by a usable one exactly if its first character that is no underscore is a letter, and its words
are not only the keyword with a capital letter, in any of three spellings.  No output directory refuses a unit
for a module that is named by identifiers. -/
theorem generated_names {s : String} (h : Name.isIdentifier s) :
    Name.IsUsable (Name.function s) ∧
    (Name.IsUsable (Name.typeModule s) ∧ Name.isModule (Name.typeModule s)) ∧
    (Name.IsUsable (Name.codecModule s) ∧ Name.isModule (Name.codecModule s)) ∧
    (Name.IsUsable (Name.type s) ↔
      (∃ c, s.toList.find? (· ≠ '_') = some c ∧ Name.isLetter c) ∧
        ∀ w ∈ ["self", "Self", "SELF"], Name.words s.toList ≠ [w.toList]) ∧
    ∀ (g : Generator) (c : Configuration) (us : List SourceUnit), NamesFiles g c →
      g.units c = .ok us → ∀ u ∈ us, Name.isModule u.module ∧
        ∀ (d : OutputDirectory) (t : FileTree),
          ((d.write u : StateM FileTree _) t).1 ≠ .error (.pathTraversal u.module) := by
  have hmodule := Name.isUsable_typeModule h
  refine ⟨hmodule, ⟨hmodule, Name.isModule_typeModule h⟩,
    ⟨Name.isUsable_codecModule h, Name.isModule_codecModule h⟩, Name.isUsable_type_iff h, ?_⟩
  intro g c us hnames hunits u hu
  have hunit := hnames.isModule hunits u hu
  refine ⟨hunit, fun d t => ?_⟩
  rw [ne_eq, OutputDirectory.write_eq_pathTraversal_iff, not_not]
  exact hunit

/-- A name with capital letters, digits and underscores, and a schema of two such names. -/
theorem generated_names_twins :
    Name.isIdentifier "_HTTPRequest2" ∧
      Name.typeModule "_HTTPRequest2" = "_http_request2" ∧
      Name.isModule (Name.typeModule "_HTTPRequest2") ∧
      Name.type "_HTTPRequest2" = "HTTPRequest2" ∧ Name.IsUsable (Name.type "_HTTPRequest2") ∧
      ∃ us, (Twins.generator "Side" "Way").units {} = .ok us ∧
        us.map (·.module) = ["side", "way", "lib"] ∧
        ∀ u ∈ us, ∀ (d : OutputDirectory) (t : FileTree),
          ((d.write u : StateM FileTree _) t).1 ≠ .error (.pathTraversal u.module) := by
  have hname : Name.isIdentifier "_HTTPRequest2" := by decide
  obtain ⟨-, ⟨-, hmodule⟩, -, htype, hwritten⟩ := generated_names hname
  have hfiles : NamesFiles (Twins.generator "Side" "Way") {} :=
    ⟨fun _ => by decide, (nomatch ·), (nomatch ·)⟩
  obtain ⟨us, hus, hmodules⟩ : ∃ us, (Twins.generator "Side" "Way").units {} = .ok us ∧
      us.map (·.module) = ["side", "way", "lib"] := Twins.exists_units (by decide +kernel)
  refine ⟨hname, by decide +kernel, hmodule, by decide +kernel, ?_, us, hus, hmodules, ?_⟩
  · rw [htype]
    exact ⟨⟨'H', by decide, by decide⟩, by decide⟩
  · exact fun u hu => (hwritten _ _ us hfiles hus u hu).2

/-- Identifiers that name types by a keyword, by a number and by nothing at all, while the functions that
they name are usable. -/
theorem names_of_types_are_not_usable :
    (Name.isIdentifier "self" ∧ Name.function "self" = "self_" ∧ Name.type "self" = "Self" ∧
      "Self" ∈ Name.keywords) ∧
    (Name.isIdentifier "_1" ∧ Name.function "_1" = "_1" ∧ Name.type "_1" = "1" ∧
      ¬ Name.isIdentifier "1") ∧
    (Name.isIdentifier "_" ∧ Name.function "_" = "_" ∧ Name.type "_" = "") := by
  decide +kernel

end Generator
end WireCodec
