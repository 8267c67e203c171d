import WireCodec.Proofs.Calls
/-! # Modules of units

Every named type and every message has a module of its own, named after it.  Different names can become
one module: `Declaration.Clash` says which ones do.

Nothing stops units of one module.  A sink that keeps units, in memory or in files, keeps the latest
source of each module, so all units are kept exactly if no two names clash
(`Generator.units_held_iff`). -/

namespace WireCodec

/-! ### Names that become one -/

namespace Name

theorem underscore_notMem_keyword : ∀ k ∈ keywords, '_' ∉ k.toList := by decide

theorem escape_of_mem {s : String} (h : s ∈ keywords) : escape s = s ++ "_" := by
  unfold escape
  rw [if_pos (List.contains_iff_mem.mpr h)]

theorem escape_of_notMem {s : String} (h : s ∉ keywords) : escape s = s := by
  unfold escape
  rw [if_neg fun hc => h (List.contains_iff_mem.mp hc)]

theorem escape_eq_iff {s t : String} (hlast : t.toList.getLast? ≠ some '_') (ht : t ∉ keywords) :
    escape s = t ↔ s = t := by
  constructor
  · intro h
    by_cases hs : s ∈ keywords
    · rw [escape_of_mem hs] at h
      have hend : (s ++ "_").toList.getLast? = some '_' := by
        rw [String.toList_append]
        exact List.getLast?_concat
      rw [h] at hend
      exact absurd hend hlast
    · rwa [escape_of_notMem hs] at h
  · rintro rfl
    exact escape_of_notMem ht

/-- Escaping makes one name of a keyword and the keyword with an underscore, and of no others. -/
theorem escape_eq_escape_iff {s t : String} :
    escape s = escape t ↔
      s = t ∨ (s ∈ keywords ∧ t = s ++ "_") ∨ (t ∈ keywords ∧ s = t ++ "_") := by
  have hmarked : ∀ k : String, '_' ∈ (k ++ "_").toList := by
    intro k
    rw [String.toList_append]
    exact List.mem_append_right _ (by decide)
  by_cases hs : s ∈ keywords
  · by_cases ht : t ∈ keywords
    · rw [escape_of_mem hs, escape_of_mem ht, String.append_left_inj]
      constructor
      · exact .inl
      · rintro (rfl | ⟨_, rfl⟩ | ⟨_, rfl⟩)
        · rfl
        · exact absurd (hmarked s) (underscore_notMem_keyword _ ht)
        · exact absurd (hmarked t) (underscore_notMem_keyword _ hs)
    · rw [escape_of_mem hs, escape_of_notMem ht]
      constructor
      · intro h
        exact .inr (.inl ⟨hs, h.symm⟩)
      · rintro (rfl | ⟨_, h⟩ | ⟨h, _⟩)
        · exact absurd hs ht
        · exact h.symm
        · exact absurd h ht
  · by_cases ht : t ∈ keywords
    · rw [escape_of_notMem hs, escape_of_mem ht]
      constructor
      · intro h
        exact .inr (.inr ⟨ht, h⟩)
      · rintro (rfl | ⟨h, _⟩ | ⟨_, h⟩)
        · exact absurd ht hs
        · exact absurd h hs
        · exact h
    · rw [escape_of_notMem hs, escape_of_notMem ht]
      constructor
      · exact .inl
      · rintro (h | ⟨h, _⟩ | ⟨h, _⟩)
        · exact h
        · exact absurd h hs
        · exact absurd h ht

end Name

/-- What gets a module of its own, by its name in the schema. -/
inductive Declaration
  /-- An enumeration or a bit set. -/
  | plain (name : String)
  /-- A composite or a message. -/
  | codec (name : String)
  deriving DecidableEq, Repr

namespace Declaration

def module : Declaration → String
  | plain name => Name.typeModule name
  | codec name => Name.codecModule name

/-- Do the names of two declarations become one module? -/
def Clash : Declaration → Declaration → Prop
  | plain a, plain b =>
    Name.toSnake a = Name.toSnake b
      ∨ (Name.toSnake a ∈ Name.keywords ∧ Name.toSnake b = Name.toSnake a ++ "_")
      ∨ (Name.toSnake b ∈ Name.keywords ∧ Name.toSnake a = Name.toSnake b ++ "_")
  | plain a, codec b => Name.toSnake a = Name.toSnake b ++ "_codec"
  | codec a, plain b => Name.toSnake b = Name.toSnake a ++ "_codec"
  | codec a, codec b => Name.toSnake a = Name.toSnake b

/-- Does the name become the module of the root? -/
def IsRoot : Declaration → Prop
  | plain a => Name.toSnake a = "lib"
  | codec _ => False

theorem module_plain_eq_codec {a b : String} :
    (plain a).module = (codec b).module ↔ Name.toSnake a = Name.toSnake b ++ "_codec" := by
  have hlist : (Name.toSnake b ++ "_codec").toList = (Name.toSnake b).toList ++ "_codec".toList :=
    String.toList_append
  apply Name.escape_eq_iff
  · show (Name.toSnake b ++ "_codec").toList.getLast? ≠ some '_'
    rw [hlist, List.getLast?_append_of_ne_nil _ (by decide)]
    decide
  · intro hk
    have hmem : '_' ∈ (Name.toSnake b ++ "_codec").toList := by
      rw [hlist]
      exact List.mem_append_right _ (by decide)
    exact Name.underscore_notMem_keyword _ hk hmem

theorem module_eq_iff {x y : Declaration} : x.module = y.module ↔ x.Clash y := by
  cases x with
  | plain a =>
      cases y with
      | plain b => exact Name.escape_eq_escape_iff
      | codec b => exact module_plain_eq_codec
  | codec a =>
      cases y with
      | plain b => exact eq_comm.trans module_plain_eq_codec
      | codec b => exact String.append_left_inj "_codec"

theorem module_eq_root_iff {x : Declaration} : x.module = "lib" ↔ x.IsRoot := by
  cases x with
  | plain a => exact Name.escape_eq_iff (by decide) (by decide)
  | codec a =>
      constructor
      · intro h
        have hmem : '_' ∈ (Name.toSnake a ++ "_codec").toList := by
          rw [String.toList_append]
          exact List.mem_append_right _ (by decide)
        rw [show Name.toSnake a ++ "_codec" = "lib" from h] at hmem
        exact absurd hmem (by decide)
      · exact False.elim

end Declaration

/-! ### The modules of a schema -/

def NamedType.declaration (t : NamedType) : Declaration :=
  match t.kind with
  | .composite => .codec t.name
  | .enumeration | .bitSet => .plain t.name

namespace Generator

/-- What gets a module, in the order of the units. -/
def declarations (g : Generator) : List Declaration :=
  g.registry.types.map NamedType.declaration ++ g.messages.map fun m => .codec m.token.name

theorem module_of_typeUnit {t : NamedType} {u : CodeUnit} (h : typeUnit t = .ok u) :
    u.entry.module = t.declaration.module := by
  unfold NamedType.declaration
  cases hk : t.kind <;> simp only [typeUnit, hk, bind_eq_ok, pure_eq_ok] at h
  · obtain ⟨_, _, rfl⟩ := h
    rfl
  · obtain ⟨_, _, rfl⟩ := h
    rfl
  · obtain ⟨_, _, _, _, rfl⟩ := h
    rfl

theorem module_of_messageUnit {g : Generator} {m : Codec.Message} {u : CodeUnit}
    (h : g.messageUnit m = .ok u) : u.entry.module = (Declaration.codec m.token.name).module := by
  simp only [messageUnit, bind_eq_ok, pure_eq_ok] at h
  obtain ⟨_, _, rfl⟩ := h
  rfl

theorem modules_of_units {g : Generator} {c : Configuration} {us : List SourceUnit}
    (h : g.units c = .ok us) :
    us.map (·.module) = match c.arrangement with
      | .moduleFiles => g.declarations.map Declaration.module ++ ["lib"]
      | .singleFile => [g.schema.qualifiedName] := by
  obtain ⟨types, messages, htypes, hmessages, rfl⟩ := units_eq_ok.mp h
  unfold arrange
  cases c.arrangement with
  | singleFile => rfl
  | moduleFiles =>
      have ht := map_eq_map_of_mapM (fun x y => module_of_typeUnit) htypes
      have hm := map_eq_map_of_mapM (fun x y => module_of_messageUnit) hmessages
      simp only [List.map_append, List.map_map, declarations, List.map_cons, List.map_nil]
      exact congrArg₂ (· ++ · ++ ["lib"]) ht hm

/-- The modules of the units are distinct exactly if no two declarations clash and none takes the name
of the root. -/
theorem nodup_modules_iff {g : Generator} {c : Configuration} {us : List SourceUnit}
    (h : g.units c = .ok us) :
    (us.map (·.module)).Nodup ↔ c.arrangement = .singleFile ∨
      (g.declarations.Pairwise fun x y => ¬ x.Clash y) ∧ ∀ x ∈ g.declarations, ¬ x.IsRoot := by
  rw [modules_of_units h]
  cases c.arrangement with
  | singleFile => simp
  | moduleFiles =>
      have hroot : "lib" ∉ g.declarations.map Declaration.module ↔
          ∀ x ∈ g.declarations, ¬ x.IsRoot := by
        rw [List.mem_map, not_exists]
        constructor
        · intro hne x hx hr
          exact hne x ⟨hx, Declaration.module_eq_root_iff.mpr hr⟩
        · rintro hne x ⟨hx, hr⟩
          exact hne x hx (Declaration.module_eq_root_iff.mp hr)
      have hpairs : (g.declarations.map Declaration.module).Nodup ↔
          g.declarations.Pairwise fun x y => ¬ x.Clash y := by
        unfold List.Nodup
        rw [List.pairwise_map]
        simp only [ne_eq, Declaration.module_eq_iff]
      have hsplit : (g.declarations.map Declaration.module ++ ["lib"]).Nodup ↔
          (g.declarations.map Declaration.module).Nodup ∧
            "lib" ∉ g.declarations.map Declaration.module := by
        rw [← List.concat_eq_append, List.nodup_concat, and_comm]
      rw [hsplit, hpairs, hroot]
      simp

/-! ### Units in sinks -/

open SourceUnit (latest?)

theorem generate_of_units {m : Type → Type} [Monad m] {σ : Type} [Sink m σ] {g : Generator}
    {c : Configuration} {us : List SourceUnit} (h : g.units c = .ok us) (s : σ) :
    (g.generate c s : m (σ × Except Fault Unit)) = Sink.writeAll us s := by
  unfold generate
  rw [h]

/-- **Units and their modules.**  The modules of a schema's units are distinct exactly if no two
declarations clash and none takes the name of the root; then each unit is the latest of its module.  A
shelf holds the latest source of each module, and so do the files of a directory that accepts all units:
there are as many as units exactly if the modules are distinct. -/
theorem units_held_iff {g : Generator} {c : Configuration} {us : List SourceUnit}
    (h : g.units c = .ok us) :
    ((us.map (·.module)).Nodup ↔ c.arrangement = .singleFile ∨
      (g.declarations.Pairwise fun x y => ¬ x.Clash y) ∧ ∀ x ∈ g.declarations, ¬ x.IsRoot) ∧
    ((us.map (·.module)).Nodup → ∀ u ∈ us, latest? us u.module = some u.source) ∧
    (∃ shelf : Shelf, (g.generate c ({} : Shelf) : Id _) = (shelf, .ok ()) ∧
      (∀ module, shelf.get? module = latest? us module) ∧
      (shelf.sources.length = us.length ↔ (us.map (·.module)).Nodup)) ∧
    ∀ (path : String) (force : Bool) (d : OutputDirectory) (t t' : FileTree),
      (g.generate c { path, force : OutputDirectory } : StateM FileTree _) t
        = ((d, .ok ()), t') →
      d.written = us.map (fun u => Path.join path u.fileName) ∧
      (d.written.Nodup ↔ (us.map (·.module)).Nodup) ∧
      ∀ u ∈ us, t'.file? (Path.resolve t.here (Path.join path u.fileName))
        = (latest? us u.module).map String.toUTF8 := by
  refine ⟨nodup_modules_iff h, SourceUnit.latest?_of_nodup, ?_, ?_⟩
  · refine ⟨us.foldl Shelf.add {}, ?_, ?_, ?_⟩
    · rw [generate_of_units h]
      exact Shelf.writeAll_eq us {}
    · intro module
      rw [Shelf.get?_foldl_add]
      exact Option.or_none
    · have hlength : us.length = (us.map (·.module)).length := (List.length_map _).symm
      rw [Shelf.length_foldl_add, hlength, (List.dedup_sublist _).length_eq]
      exact List.dedup_eq_self
  · intro path force d t t' hrun
    rw [generate_of_units h] at hrun
    obtain ⟨hmodules, rfl, hheld⟩ := OutputDirectory.writeAll_eq_ok hrun
    refine ⟨List.nil_append _, ?_, ?_⟩
    · rw [List.nil_append]
      exact OutputDirectory.nodup_pathOf_iff hmodules
    · intro u hu
      have hmodule := hmodules u hu
      have hsome : (latest? us u.module).isSome :=
        SourceUnit.isSome_latest?_iff.mpr (List.mem_map_of_mem hu)
      obtain ⟨source, hsource⟩ := Option.isSome_iff_exists.mp hsome
      have hplace := OutputDirectory.resolve_pathOf hmodule t.here { path, force }
      have hfile := hheld u.module hmodule
      rw [hsource] at hfile ⊢
      exact (congrArg t'.file? hplace).trans hfile

end Generator

/-! ### Two types with one module -/

namespace Twins

/-- An enumeration with one value. -/
def side (name : String) : List Token :=
  [{ signal := .beginEnum, name, span := 3, encodedLength := 1
     encoding := { primitive := some .uint8 } },
   { signal := .validValue, name := "BUY"
     encoding := { primitive := some .uint8, constant := some "1" } },
   { signal := .endEnum, name }]

/-- A schema with two enumerations. -/
def schema (a b : String) : Schema := { packageName := "demo", types := [side a, side b] }

def generator (a b : String) : Generator where
  schema := schema a b
  registry := ⟨[⟨a, .enumeration, side a, []⟩, ⟨b, .enumeration, side b, []⟩]⟩
  messages := []

theorem ofSchema_distinct :
    Generator.ofSchema (schema "Side" "Way") = .ok (generator "Side" "Way") := by cbv

theorem ofSchema_alike :
    Generator.ofSchema (schema "Side" "side") = .ok (generator "Side" "side") := by cbv

theorem exists_units {a b : String} {modules : List String}
    (h : ((generator a b).units {}).toOption.map (·.map (·.module)) = some modules) :
    ∃ us, (generator a b).units {} = .ok us ∧ us.map (·.module) = modules := by
  obtain ⟨us, hus, hmodules⟩ := Option.map_eq_some_iff.mp h
  exact ⟨us, toOption_eq_some.mp hus, hmodules⟩

/-- A directory where nothing stands yet. -/
def tree : FileTree where
  entries := [(["work"], .directory)]
  here := ["work"]

/-- The units of the schema are written below the directory. -/
def run (a b : String) : (OutputDirectory × Except Fault Unit) × FileTree :=
  ((generator a b).generate {} { path := "out", force := true : OutputDirectory }
    : StateM FileTree _) tree

theorem eq_of_accepted {r : (OutputDirectory × Except Fault Unit) × FileTree}
    (h : r.1.2.toOption = some ()) : r = ((r.1.1, .ok ()), r.2) :=
  Prod.ext (Prod.ext rfl (toOption_eq_some.mp h)) rfl

theorem run_eq {a b : String} (h : (run a b).1.2.toOption = some ()) :
    ((generator a b).generate {} { path := "out", force := true : OutputDirectory }
      : StateM FileTree _) tree = (((run a b).1.1, .ok ()), (run a b).2) := by
  unfold run at h ⊢
  exact eq_of_accepted h

end Twins

/-- Names of different modules: all units are held. -/
theorem Generator.units_held_iff_twins :
    ∃ us, Generator.ofSchema (Twins.schema "Side" "Way") = .ok (Twins.generator "Side" "Way") ∧
      (Twins.generator "Side" "Way").units {} = .ok us ∧ (us.map (·.module)).Nodup ∧
      (∃ shelf : Shelf, ((Twins.generator "Side" "Way").generate {} ({} : Shelf) : Id _)
          = (shelf, .ok ()) ∧ shelf.sources.length = us.length) ∧
      (Twins.run "Side" "Way").1.2 = .ok () ∧
      ∀ u ∈ us, (Twins.run "Side" "Way").2.file? (Path.resolve ["work"] (Path.join "out" u.fileName))
        = some u.source.toUTF8 := by
  have hmodules : (((Twins.generator "Side" "Way").units {}).toOption.map (·.map (·.module)))
      = some ["side", "way", "lib"] := by decide +kernel
  obtain ⟨us, hus, hmodules⟩ := Twins.exists_units hmodules
  have hnodup : (us.map (·.module)).Nodup := by
    rw [hmodules]
    decide
  have haccepted : (Twins.run "Side" "Way").1.2.toOption = some () := by decide +kernel
  have hrun := Twins.run_eq haccepted
  obtain ⟨_, hlatest, ⟨shelf, hshelf, _, hlength⟩, hfiles⟩ := units_held_iff hus
  refine ⟨us, Twins.ofSchema_distinct, hus, hnodup, ⟨shelf, hshelf, hlength.mpr hnodup⟩,
    toOption_eq_some.mp haccepted, ?_⟩
  intro u hu
  have hfile := (hfiles "out" true _ _ _ hrun).2.2 u hu
  rw [hlatest hnodup u hu] at hfile
  exact hfile

/-- Two names become one module.  The schema is accepted, and of its three units a shelf and a forced
directory hold two. -/
theorem Generator.twins_share_a_module :
    ∃ us, Generator.ofSchema (Twins.schema "Side" "side") = .ok (Twins.generator "Side" "side") ∧
      (Twins.generator "Side" "side").units {} = .ok us ∧
      us.map (·.module) = ["side", "side", "lib"] ∧ ¬ (us.map (·.module)).Nodup ∧
      ((Twins.generator "Side" "side").generate {} ({} : Shelf) : Id _)
        = (us.foldl Shelf.add {}, .ok ()) ∧
      (us.foldl Shelf.add {}).sources.length = 2 ∧
      (Twins.run "Side" "side").1.2 = .ok () ∧
      (Twins.run "Side" "side").1.1.written = ["out/side.rs", "out/side.rs", "out/lib.rs"] := by
  have hmodules : (((Twins.generator "Side" "side").units {}).toOption.map (·.map (·.module)))
      = some ["side", "side", "lib"] := by decide +kernel
  obtain ⟨us, hus, hmodules⟩ := Twins.exists_units hmodules
  refine ⟨us, Twins.ofSchema_alike, hus, hmodules, ?_, ?_, ?_, ?_, ?_⟩
  · rw [hmodules]
    decide
  · rw [generate_of_units hus]
    exact Shelf.writeAll_eq us {}
  · rw [Shelf.length_foldl_add, hmodules]
    decide
  · exact toOption_eq_some.mp (by decide +kernel)
  · decide +kernel

end WireCodec
