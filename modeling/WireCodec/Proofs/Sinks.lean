import Mathlib.Data.List.Dedup
import WireCodec.Proofs.Containment
/-! # What sinks hold

After some units are written, a shelf holds the latest source of each module and nothing twice
(`Shelf.get?_foldl_add`, `Shelf.length_foldl_add`).  An output directory has a file for each unit, and
units of different modules have different files (`OutputDirectory.pathOf_eq_iff`). -/

namespace WireCodec

/-! ### The latest source -/

namespace SourceUnit

/-- The latest source that units give a module. -/
def latest? : List SourceUnit → String → Option String
  | [], _ => none
  | u :: us, module => (latest? us module).or (if u.module = module then some u.source else none)

theorem isSome_latest?_iff {us : List SourceUnit} {module : String} :
    (latest? us module).isSome ↔ module ∈ us.map (·.module) := by
  induction us with
  | nil => simp [latest?]
  | cons u us ih =>
      rw [latest?, Option.isSome_or, Bool.or_eq_true, ih, List.map_cons, List.mem_cons]
      by_cases hu : u.module = module
      · simp [hu]
      · simp [hu, Ne.symm hu]

theorem latest?_eq_none {us : List SourceUnit} {module : String}
    (h : module ∉ us.map (·.module)) : latest? us module = none := by
  rwa [← isSome_latest?_iff, Bool.not_eq_true, Option.isSome_eq_false_iff,
    Option.isNone_iff_eq_none] at h

/-- Where modules are distinct, the latest source of a unit's module is the unit's own. -/
theorem latest?_of_nodup {us : List SourceUnit} (h : (us.map (·.module)).Nodup) :
    ∀ u ∈ us, latest? us u.module = some u.source := by
  induction us with
  | nil =>
      intro u hu
      cases hu
  | cons v us ih =>
      rw [List.map_cons, List.nodup_cons] at h
      intro u hu
      rw [latest?]
      rcases List.mem_cons.mp hu with rfl | hu
      · rw [latest?_eq_none h.1, if_pos rfl]
        rfl
      · rw [ih h.2 u hu]
        rfl

end SourceUnit

open SourceUnit (latest?)

/-! ### Shelves -/

namespace Shelf

theorem lookup_insert (module source name : String) (sources : List (String × String)) :
    (insert module source sources).lookup name
      = if module = name then some source else sources.lookup name := by
  induction sources with
  | nil =>
      rw [insert]
      by_cases h : module = name
      · simp [h]
      · have hne : (name == module) = false := beq_eq_false_iff_ne.mpr (Ne.symm h)
        simp [List.lookup_cons, h, hne]
  | cons x sources ih =>
      obtain ⟨first, old⟩ := x
      rw [insert]
      by_cases h : module = name
      · subst h
        rw [if_pos rfl] at ih ⊢
        split_ifs with hlt heq
        · exact List.lookup_cons_self
        · exact List.lookup_cons_self
        · have hne : (module == first) = false := beq_eq_false_iff_ne.mpr heq
          simp only [List.lookup_cons, hne]
          exact ih
      · have hne : (name == module) = false := beq_eq_false_iff_ne.mpr (Ne.symm h)
        rw [if_neg h] at ih ⊢
        split_ifs with hlt heq
        · simp only [List.lookup_cons, hne]
        · subst heq
          simp only [List.lookup_cons, hne]
        · rw [List.lookup_cons, List.lookup_cons, ih]

theorem mem_map_insert {module source name : String} {sources : List (String × String)} :
    name ∈ (insert module source sources).map (·.1) ↔
      name = module ∨ name ∈ sources.map (·.1) := by
  induction sources with
  | nil => simp [insert]
  | cons x sources ih =>
      obtain ⟨first, old⟩ := x
      rw [insert]
      split_ifs with hlt heq
      · simp
      · subst heq
        simp
      · rw [List.map_cons, List.mem_cons, ih, List.map_cons, List.mem_cons]
        exact or_left_comm

/-- Each module stands once, in the order of names. -/
def IsSorted (s : Shelf) : Prop := (s.sources.map (·.1)).Pairwise (· < ·)

theorem pairwise_insert (module source : String) {sources : List (String × String)}
    (h : (sources.map (·.1)).Pairwise (· < ·)) :
    ((insert module source sources).map (·.1)).Pairwise (· < ·) := by
  induction sources with
  | nil => exact List.pairwise_singleton _ _
  | cons x sources ih =>
      obtain ⟨first, old⟩ := x
      rw [List.map_cons, List.pairwise_cons] at h
      rw [insert]
      split_ifs with hlt heq
      · rw [List.map_cons, List.pairwise_cons]
        refine ⟨?_, List.pairwise_cons.mpr h⟩
        intro name hname
        rcases List.mem_cons.mp hname with rfl | hname
        · exact hlt
        · exact String.lt_trans hlt (h.1 name hname)
      · subst heq
        exact List.pairwise_cons.mpr h
      · rw [List.map_cons, List.pairwise_cons]
        refine ⟨?_, ih h.2⟩
        intro name hname
        rcases mem_map_insert.mp hname with rfl | hname
        · exact String.not_le.mp fun hle => heq (String.le_antisymm hle (String.not_lt.mp hlt))
        · exact h.1 name hname

theorem isSorted_foldl_add {s : Shelf} (h : s.IsSorted) (us : List SourceUnit) :
    (us.foldl add s).IsSorted := by
  induction us generalizing s with
  | nil => exact h
  | cons u us ih => exact ih (pairwise_insert u.module u.source h)

theorem get?_foldl_add (us : List SourceUnit) (s : Shelf) (module : String) :
    (us.foldl add s).get? module = (latest? us module).or (s.get? module) := by
  induction us generalizing s with
  | nil => rfl
  | cons u us ih =>
      have hadd : (s.add u).get? module
          = if u.module = module then some u.source else s.get? module :=
        lookup_insert u.module u.source module s.sources
      rw [List.foldl_cons, ih, hadd, latest?, Option.or_assoc]
      by_cases hu : u.module = module
      · simp [hu]
      · simp [hu]

theorem mem_modules_foldl_add {us : List SourceUnit} {s : Shelf} {module : String} :
    module ∈ (us.foldl add s).modules ↔ module ∈ us.map (·.module) ∨ module ∈ s.modules := by
  induction us generalizing s with
  | nil => simp
  | cons u us ih =>
      have hadd : module ∈ (s.add u).modules ↔ module = u.module ∨ module ∈ s.modules :=
        mem_map_insert
      rw [List.foldl_cons, ih, hadd, List.map_cons, List.mem_cons, or_left_comm, or_assoc]

theorem nodup_modules_foldl_add (us : List SourceUnit) : (us.foldl add {}).modules.Nodup := by
  have hsorted : (us.foldl add {}).IsSorted :=
    isSorted_foldl_add (show IsSorted {} from List.Pairwise.nil) us
  apply hsorted.imp
  rintro a b hlt rfl
  exact String.lt_irrefl a hlt

theorem length_foldl_add (us : List SourceUnit) :
    (us.foldl add {}).sources.length = (us.map (·.module)).dedup.length := by
  have hnodup := nodup_modules_foldl_add us
  have hperm : (us.foldl add {}).modules.Perm (us.map (·.module)).dedup := by
    rw [List.perm_ext_iff_of_nodup hnodup (List.nodup_dedup _)]
    intro module
    rw [mem_modules_foldl_add, List.mem_dedup]
    simp [modules]
  rw [← hperm.length_eq]
  exact (List.length_map _).symm

theorem writeAll_eq (us : List SourceUnit) (s : Shelf) :
    (Sink.writeAll us s : Id (Shelf × Except Fault Unit)) = (us.foldl add s, .ok ()) := by
  induction us generalizing s with
  | nil => rfl
  | cons u us ih => exact ih (s.add u)

end Shelf

/-! ### Output directories -/

namespace OutputDirectory

variable {d : OutputDirectory} {u : SourceUnit}

theorem resolve_pathOf (h : Name.isModule u.module) (here : Place) (d : OutputDirectory) :
    Path.resolve here (d.pathOf u) = Path.resolve here d.path ++ [u.fileName] :=
  (SourceUnit.isPlain_fileName h).resolve_join here d.path

theorem pathOf_eq_iff {v : SourceUnit} (hu : Name.isModule u.module) (hv : Name.isModule v.module) :
    d.pathOf u = d.pathOf v ↔ u.module = v.module := by
  constructor
  · intro h
    have hplace := resolve_pathOf hu [] d
    rw [h, resolve_pathOf hv] at hplace
    have hname : [v.module ++ ".rs"] = [u.module ++ ".rs"] := List.append_cancel_left hplace
    rw [List.singleton_inj, String.append_left_inj] at hname
    exact hname.symm
  · intro h
    rw [pathOf, pathOf, SourceUnit.fileName, SourceUnit.fileName, h]

theorem nodup_pathOf_iff {us : List SourceUnit} (h : ∀ u ∈ us, Name.isModule u.module) :
    (us.map d.pathOf).Nodup ↔ (us.map (·.module)).Nodup := by
  unfold List.Nodup
  rw [List.pairwise_map, List.pairwise_map]
  apply List.Pairwise.iff_of_mem
  intro u v hu hv
  exact not_congr (pathOf_eq_iff (h u hu) (h v hv))

end OutputDirectory
end WireCodec
