import WireCodec.Proofs.Tenancy
/-! # Bundles of code

A bundle is the code of a schema with the schema's name.  A run that writes takes each bundle to the
directory that those before it leave (`deliveries`), and a run that lists shows a line for each of its units
(`Bundle.lines`).

A bundle that is passed over has lines and no files, and the files of one that is renamed lie elsewhere.  So
lines and files agree exactly if no name comes twice and each can be that of a directory
(`tell_delivered_iff`). -/

namespace WireCodec

/-! ### Paths below a directory -/

namespace Path

/-- A directory with a slash behind it, if it needs one. -/
def under (directory : String) : String :=
  if directory = "" ∨ directory.toList.getLast? = some '/' then directory else directory ++ "/"

theorem join_of_relative {child : String} (h : isAbsolute child = false) (parent : String) :
    join parent child = under parent ++ child := by
  unfold join under
  rw [h, Bool.false_or]
  by_cases hparent : parent = "" ∨ parent.toList.getLast? = some '/'
  · rw [if_pos hparent, if_pos (by simpa using hparent)]
    rfl
  · rw [if_neg hparent, if_neg (by simpa using hparent)]

theorem under_append {path : String} (h : path ≠ "") (front : String) :
    under (front ++ path) = front ++ under path := by
  have hne : path.toList ≠ [] := by rwa [ne_eq, String.toList_eq_nil_iff]
  have hboth : front ++ path ≠ "" := by
    intro heq
    exact h (String.append_eq_empty_iff.mp heq).2
  unfold under
  rw [String.toList_append, List.getLast?_append_of_ne_nil _ hne]
  simp only [h, hboth, false_or]
  split
  · rfl
  · rw [String.append_assoc]

/-- A name that a directory in another one can have. -/
structure IsFolder (name : String) : Prop where
  ne_empty : name ≠ ""
  relative : isAbsolute name = false
  closed : name.toList.getLast? ≠ some '/'

variable {name file : String}

theorem isAbsolute_slash (path : String) : isAbsolute ("/" ++ path) = true := by
  simp [isAbsolute]

/-- What stands in front of a slash in a relative path is relative, and not empty. -/
theorem relative_of_slash (h : isAbsolute (name ++ "/" ++ file) = false) :
    name ≠ "" ∧ isAbsolute name = false := by
  have hne : name ≠ "" := by
    rintro rfl
    rw [String.empty_append, isAbsolute_slash] at h
    cases h
  rw [String.append_assoc, isAbsolute_append hne] at h
  exact ⟨hne, h⟩

/-- The path of a file in a directory below another one is made of both names with a slash between, unless
the directory's name ends in one already. -/
theorem join_join_eq_iff (hne : name ≠ "") (hname : isAbsolute name = false)
    (hfile : isAbsolute file = false) (parent : String) :
    join (join parent name) file = join parent (name ++ "/" ++ file) ↔
      name.toList.getLast? ≠ some '/' := by
  have hline : isAbsolute (name ++ "/" ++ file) = false := by
    rwa [String.append_assoc, isAbsolute_append hne]
  rw [join_of_relative hname, join_of_relative hfile, join_of_relative hline, under_append hne,
    String.append_assoc, String.append_right_inj]
  unfold under
  split
  next hslash =>
    have hend := hslash.resolve_left hne
    rw [String.append_assoc, String.append_right_inj]
    constructor
    · intro heq
      rw [heq, isAbsolute_slash] at hfile
      cases hfile
    · exact fun hclosed => absurd hend hclosed
  next hopen =>
    exact iff_of_true rfl (not_or.mp hopen).2

theorem isAbsolute_under_append {directory : String} (h : directory ≠ "") (path : String) :
    isAbsolute (under directory ++ path) = isAbsolute directory := by
  unfold under
  split
  · exact isAbsolute_append h path
  · rw [String.append_assoc, isAbsolute_append h]

theorem join_join_mark_ne (hline : isAbsolute (name ++ "/" ++ file) = false)
    (hfile : isAbsolute file = false) (parent digest : String) :
    join (join parent (name ++ "_" ++ digest)) file ≠ join parent (name ++ "/" ++ file) := by
  obtain ⟨hne, hname⟩ := relative_of_slash hline
  have hmark : Command.mark digest ≠ "" := by
    intro heq
    exact absurd (heq ▸ Command.underscore_mem_mark digest) (by decide)
  have hboth : name ++ Command.mark digest ≠ "" :=
    fun heq => hmark (String.append_eq_empty_iff.mp heq).2
  have hrenamed : isAbsolute (name ++ Command.mark digest) = false := by
    rwa [isAbsolute_append hne]
  rw [Command.append_mark, join_of_relative hrenamed, join_of_relative hfile, join_of_relative hline,
    under_append hboth, under_append hmark, String.append_assoc, String.append_assoc, String.append_assoc,
    ne_eq, String.append_right_inj, String.append_right_inj]
  -- Behind the name stands an underscore in one of them, and a slash in the other.
  intro heq
  have hslash := isAbsolute_slash file
  rw [← heq, isAbsolute_under_append hmark, Command.isAbsolute_mark] at hslash
  cases hslash

end Path

namespace Command

open Tenancy (placementAfter placements)

/-! ### Bundles -/

/-- The code of a schema, with the name of the schema. -/
structure Bundle where
  name : String
  units : List SourceUnit

namespace Bundle

/-- What a place is found by. -/
def call (b : Bundle) : String × String := (b.name, SourceUnit.digest b.units)

/-- The files of the units in a directory. -/
def paths (directory : String) (b : Bundle) : List String :=
  b.units.map fun u => Path.join directory u.fileName

/-- The lines that list the units. -/
def lines (b : Bundle) : List String := b.units.map fun u => b.name ++ "/" ++ u.fileName

end Bundle

section

variable {strategy : Strategy} {output : String} {before : List (String × String)} {b : Bundle}
  {bs : List Bundle}

/-- The directories that bundles are taken to, from what came before. -/
def deliveries (strategy : Strategy) (output : String) (before : List (String × String))
    (bs : List Bundle) : List (String × Bundle) :=
  (bs.zip (placements strategy output before (bs.map Bundle.call))).filterMap fun x =>
    x.2.directory?.map (·, x.1)

/-- The files of bundles in their directories. -/
def delivered (strategy : Strategy) (output : String) (before : List (String × String))
    (bs : List Bundle) : List String :=
  (deliveries strategy output before bs).flatMap fun x => x.2.paths x.1

theorem deliveries_singleton :
    deliveries strategy output before [b]
      = ((placementAfter strategy output before b.name (SourceUnit.digest b.units)).directory?.map
          (·, b)).toList := by
  unfold deliveries Bundle.call
  rw [List.map_singleton, placements, List.zip_cons_cons, List.filterMap_cons]
  cases (placementAfter strategy output before b.name (SourceUnit.digest b.units)).directory? <;> rfl

theorem deliveries_cons (b : Bundle) (bs : List Bundle) :
    deliveries strategy output before (b :: bs)
      = deliveries strategy output before [b]
          ++ deliveries strategy output (before ++ [b.call]) bs := by
  unfold deliveries
  rw [List.map_cons, List.map_singleton, placements, List.zip_cons_cons, ← List.singleton_append,
    List.filterMap_append]
  rfl

theorem delivered_cons (b : Bundle) (bs : List Bundle) :
    delivered strategy output before (b :: bs)
      = delivered strategy output before [b]
          ++ delivered strategy output (before ++ [b.call]) bs := by
  unfold delivered
  rw [deliveries_cons, List.flatMap_append]

theorem length_delivered_singleton_le :
    (delivered strategy output before [b]).length ≤ b.lines.length := by
  unfold delivered
  rw [deliveries_singleton]
  cases (placementAfter strategy output before b.name (SourceUnit.digest b.units)).directory? with
  | none => exact Nat.zero_le _
  | some directory => simp [Bundle.paths, Bundle.lines]

theorem length_delivered_le :
    (delivered strategy output before bs).length ≤ (bs.flatMap Bundle.lines).length := by
  induction bs generalizing before with
  | nil => exact Nat.le_refl _
  | cons b bs ih =>
      rw [delivered_cons, List.flatMap_cons, List.length_append, List.length_append]
      exact Nat.add_le_add length_delivered_singleton_le ih

/-! ### Lines and files -/

/-- The lines are the paths of the files in the output directory. -/
def Tell (output : String) (lines paths : List String) : Prop :=
  paths = lines.map (Path.join output) ∧ ∀ line ∈ lines, Path.isAbsolute line = false

theorem tell_own_iff (hunits : b.units ≠ []) (hplain : ∀ u ∈ b.units, Name.isModule u.module) :
    Tell output b.lines (b.paths (Path.join output b.name)) ↔ Path.IsFolder b.name := by
  have hfile : ∀ u ∈ b.units, Path.isAbsolute u.fileName = false :=
    fun u hu => (SourceUnit.isPlain_fileName (hplain u hu)).descends.relative
  unfold Tell Bundle.lines Bundle.paths
  rw [List.map_map, List.map_inj_left, List.forall_mem_map]
  constructor
  · rintro ⟨hpaths, hlines⟩
    obtain ⟨u, hu⟩ := List.exists_mem_of_ne_nil _ hunits
    obtain ⟨hne, hrelative⟩ := Path.relative_of_slash (hlines u hu)
    have hclosed := (Path.join_join_eq_iff hne hrelative (hfile u hu) output).mp (hpaths u hu)
    exact ⟨hne, hrelative, hclosed⟩
  · rintro ⟨hne, hrelative, hclosed⟩
    refine ⟨fun u hu => ?_, fun u hu => ?_⟩
    · exact (Path.join_join_eq_iff hne hrelative (hfile u hu) output).mpr hclosed
    · rwa [String.append_assoc, Path.isAbsolute_append hne]

theorem not_tell_renamed (hunits : b.units ≠ []) (hplain : ∀ u ∈ b.units, Name.isModule u.module)
    (digest : String) :
    ¬ Tell output b.lines (b.paths (Path.join output (b.name ++ "_" ++ digest))) := by
  unfold Tell Bundle.lines Bundle.paths
  rw [List.map_map, List.map_inj_left, List.forall_mem_map]
  rintro ⟨hpaths, hlines⟩
  obtain ⟨u, hu⟩ := List.exists_mem_of_ne_nil _ hunits
  have hfile := (SourceUnit.isPlain_fileName (hplain u hu)).descends.relative
  exact Path.join_join_mark_ne (hlines u hu) hfile output digest (hpaths u hu)

theorem tell_delivered_singleton_iff (hunits : b.units ≠ [])
    (hplain : ∀ x ∈ deliveries strategy output before [b], ∀ u ∈ x.2.units, Name.isModule u.module) :
    Tell output b.lines (delivered strategy output before [b]) ↔
      b.name ∉ before.map (·.1) ∧ Path.IsFolder b.name := by
  unfold delivered
  rw [deliveries_singleton] at hplain ⊢
  cases hplace :
    (placementAfter strategy output before b.name (SourceUnit.digest b.units)).directory? with
  | none =>
      have hseen := (Tenancy.seen_of_directory?_eq_none hplace).1
      have hlines : b.lines ≠ [] := by simpa [Bundle.lines] using hunits
      refine iff_of_false (fun h => hlines ?_) fun h => h.1 hseen
      exact List.map_eq_nil_iff.mp h.1.symm
  | some directory =>
      rw [hplace] at hplain
      have hmodules : ∀ u ∈ b.units, Name.isModule u.module :=
        hplain (directory, b) (List.mem_singleton_self _)
      have hpaths : (Option.some directory |>.map (·, b)).toList.flatMap (fun x => x.2.paths x.1)
          = b.paths directory := List.flatMap_singleton _ _
      rw [hpaths]
      obtain ⟨-, ⟨rfl, hnew⟩ | ⟨rfl, hseen⟩⟩ := Tenancy.directory_of_placementAfter hplace
      · rw [tell_own_iff hunits hmodules]
        exact (and_iff_right hnew).symm
      · exact iff_of_false (not_tell_renamed hunits hmodules _) fun h => h.1 hseen

theorem tell_append_iff {lines more paths rest : List String} (h : paths.length ≤ lines.length)
    (h' : rest.length ≤ more.length) :
    Tell output (lines ++ more) (paths ++ rest) ↔ Tell output lines paths ∧ Tell output more rest := by
  unfold Tell
  rw [List.map_append, List.forall_mem_append]
  constructor
  · rintro ⟨hpaths, hlines, hmore⟩
    have hlength := congrArg List.length hpaths
    simp only [List.length_append, List.length_map] at hlength
    obtain ⟨hfirst, hrest⟩ := List.append_inj hpaths (by rw [List.length_map]; omega)
    exact ⟨⟨hfirst, hlines⟩, hrest, hmore⟩
  · rintro ⟨⟨rfl, hlines⟩, rfl, hmore⟩
    exact ⟨rfl, hlines, hmore⟩

/-- **Lines and files.**  The lines of bundles are the paths of their files exactly if no name comes twice,
and each can be that of a directory. -/
theorem tell_delivered_iff (hunits : ∀ b ∈ bs, b.units ≠ [])
    (hplain : ∀ x ∈ deliveries strategy output before bs, ∀ u ∈ x.2.units, Name.isModule u.module) :
    Tell output (bs.flatMap Bundle.lines) (delivered strategy output before bs) ↔
      (∀ b ∈ bs, b.name ∉ before.map (·.1) ∧ Path.IsFolder b.name) ∧ (bs.map Bundle.name).Nodup := by
  induction bs generalizing before with
  | nil => simp [Tell, delivered, deliveries]
  | cons b bs ih =>
      rw [deliveries_cons, List.forall_mem_append] at hplain
      obtain ⟨hfirst, hrest⟩ := List.forall_mem_cons.mp hunits
      have hnew : ∀ c : Bundle, c.name ∉ (before ++ [b.call]).map (·.1) ↔
          c.name ∉ before.map (·.1) ∧ c.name ≠ b.name := by
        intro c
        rw [List.map_append, List.mem_append, not_or, List.map_singleton, List.mem_singleton]
        rfl
      rw [delivered_cons, List.flatMap_cons,
        tell_append_iff length_delivered_singleton_le length_delivered_le,
        tell_delivered_singleton_iff hfirst hplain.1, ih hrest hplain.2, List.forall_mem_cons,
        List.map_cons, List.nodup_cons]
      simp only [hnew]
      constructor
      · rintro ⟨hb, hbs, hnodup⟩
        refine ⟨⟨hb, fun c hc => ⟨(hbs c hc).1.1, (hbs c hc).2⟩⟩, ?_, hnodup⟩
        intro hmem
        obtain ⟨c, hc, heq⟩ := List.mem_map.mp hmem
        exact (hbs c hc).1.2 heq
      · rintro ⟨⟨hb, hbs⟩, hnone, hnodup⟩
        have hother : ∀ c ∈ bs, c.name ≠ b.name :=
          fun c hc heq => hnone (heq ▸ List.mem_map_of_mem hc)
        exact ⟨hb, fun c hc => ⟨⟨(hbs c hc).1, hother c hc⟩, (hbs c hc).2⟩, hnodup⟩

end

end Command
end WireCodec
