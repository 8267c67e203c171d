import Mathlib
import WireCodec.Proofs.Modules
/-! # Delivery to sinks

A directory whose files may not be replaced is the strictest of the sinks: it refuses a module without a
plain name, a file that is there, and so a module that comes twice.  Where it accepts all units of a
schema, the sinks agree (`Generator.generate_agree`): the directory has a file for every entry of a shelf,
with the same text, and a tally counts as many units and bytes.

A schema without code reaches no sink. -/

namespace WireCodec

open SourceUnit (latest?)

/-! ### Tallies -/

namespace Tally

/-- How many units were received. -/
def total (t : Tally) : Nat := t.root + t.enumeration + t.bitSet + t.composite + t.message

theorem total_add (t : Tally) (u : SourceUnit) : (t.add u).total = t.total + 1 := by
  unfold add count total
  cases u.kind <;> dsimp only <;> omega

theorem bytes_add (t : Tally) (u : SourceUnit) :
    (t.add u).bytes = t.bytes + u.source.utf8ByteSize := by
  unfold add count
  cases u.kind <;> rfl

theorem total_foldl_add (us : List SourceUnit) (t : Tally) :
    (us.foldl add t).total = t.total + us.length := by
  induction us generalizing t with
  | nil => rfl
  | cons u us ih =>
      have hrest := ih (t.add u)
      have hfirst := total_add t u
      rw [List.foldl_cons, List.length_cons]
      omega

theorem bytes_foldl_add (us : List SourceUnit) (t : Tally) :
    (us.foldl add t).bytes = t.bytes + (us.map (·.source.utf8ByteSize)).sum := by
  induction us generalizing t with
  | nil => rfl
  | cons u us ih =>
      have hrest := ih (t.add u)
      have hfirst := bytes_add t u
      rw [List.foldl_cons, List.map_cons, List.sum_cons]
      omega

theorem writeAll_eq (us : List SourceUnit) (t : Tally) :
    (Sink.writeAll us t : Id (Tally × Except Fault Unit)) = (us.foldl add t, .ok ()) := by
  induction us generalizing t with
  | nil => rfl
  | cons u us ih => exact ih (t.add u)

end Tally

/-! ### Entries of a shelf -/

namespace Shelf

theorem mem_sources_iff {sources : List (String × String)} {module source : String}
    (h : (sources.map (·.1)).Nodup) :
    (module, source) ∈ sources ↔ sources.lookup module = some source := by
  induction sources with
  | nil => simp
  | cons x sources ih =>
      obtain ⟨name, old⟩ := x
      rw [List.map_cons, List.nodup_cons] at h
      rw [List.mem_cons, ih h.2, Prod.mk.injEq]
      by_cases hname : module = name
      · subst hname
        have hnone : sources.lookup module ≠ some source := by
          rw [ne_eq, ← ih h.2]
          intro hmem
          exact h.1 (List.mem_map_of_mem (f := (·.1)) hmem)
        simp [hnone, eq_comm]
      · have hne : (module == name) = false := beq_eq_false_iff_ne.mpr hname
        simp [List.lookup_cons, hname, hne]

/-- The entries of a shelf are the latest sources of the modules. -/
theorem mem_foldl_add_iff (us : List SourceUnit) {module source : String} :
    (module, source) ∈ (us.foldl add {}).sources ↔ latest? us module = some source := by
  have hget := get?_foldl_add us {} module
  rw [mem_sources_iff (nodup_modules_foldl_add us)]
  show (us.foldl add {}).get? module = some source ↔ _
  rw [hget]
  simp [get?]

end Shelf

/-! ### Directories without force -/

/-- The number of bytes of the file at a path. -/
def FileTree.sizeAt (t : FileTree) (here : Place) (path : String) : Nat :=
  ((t.file? (Path.resolve here path)).map ByteArray.size).getD 0

namespace OutputDirectory

variable {d d' : OutputDirectory} {us : List SourceUnit} {t t' : FileTree}

theorem nodup_of_writeAll (hforce : d.force = false)
    (h : (Sink.writeAll us d : StateM FileTree _) t = ((d', .ok ()), t')) :
    (us.map (·.module)).Nodup := by
  have hnodup := (run_of_writeAll h).nodup hforce
  rwa [Sink.accepted_map_ok] at hnodup

theorem file?_of_writeAll (hforce : d.force = false)
    (h : (Sink.writeAll us d : StateM FileTree _) t = ((d', .ok ()), t')) {u : SourceUnit}
    (hu : u ∈ us) :
    t.file? (Path.resolve t.here d.path ++ [u.fileName]) = none ∧
      t'.file? (Path.resolve t.here d.path ++ [u.fileName]) = some u.source.toUTF8 := by
  have hrun := run_of_writeAll h
  have hmodule := hrun.module u
  have hfree := hrun.free hforce u
  have hheld := hrun.held u.module
  simp only [Sink.accepted_map_ok] at hmodule hfree hheld
  have hlatest := SourceUnit.latest?_of_nodup (nodup_of_writeAll hforce h) u hu
  have hplace := resolve_pathOf (hmodule hu) t.here d
  rw [hplace] at hfree
  have hfile := hheld (hmodule hu)
  rw [hlatest] at hfile
  exact ⟨hfree hu, hfile⟩

theorem file?_eq_some_iff (hforce : d.force = false)
    (h : (Sink.writeAll us d : StateM FileTree _) t = ((d', .ok ()), t')) (p : Place)
    (bytes : ByteArray) :
    t'.file? p = some bytes ↔
      (∃ module source, (module, source) ∈ (us.foldl Shelf.add {}).sources ∧
        p = Path.resolve t.here d.path ++ [module ++ ".rs"] ∧ bytes = source.toUTF8) ∨
      t.file? p = some bytes := by
  have hnodup := nodup_of_writeAll hforce h
  have hlatest := SourceUnit.latest?_of_nodup hnodup
  by_cases hunit : ∃ u ∈ us, p = Path.resolve t.here d.path ++ [u.fileName]
  · -- The file of a unit was not there before.
    obtain ⟨u, hu, rfl⟩ := hunit
    obtain ⟨hbefore, hafter⟩ := file?_of_writeAll hforce h hu
    rw [hbefore, hafter]
    constructor
    · intro hbytes
      refine .inl ⟨u.module, u.source, ?_, rfl, (Option.some.inj hbytes).symm⟩
      rw [Shelf.mem_foldl_add_iff]
      exact hlatest u hu
    · rintro (⟨module, source, hmem, hplace, rfl⟩ | hnone)
      · have hname : [u.module ++ ".rs"] = [module ++ ".rs"] := List.append_cancel_left hplace
        rw [List.singleton_inj, String.append_left_inj] at hname
        rw [Shelf.mem_foldl_add_iff, ← hname, hlatest u hu] at hmem
        rw [Option.some.inj hmem]
      · cases hnone
  · -- Elsewhere nothing changes, and no entry has its file there.
    have hkept : t'.file? p = t.file? p := by
      apply (run_of_writeAll h).kept
      rw [Sink.accepted_map_ok]
      intro u hu heq
      have hrun := run_of_writeAll h
      have hmodule := hrun.module u
      rw [Sink.accepted_map_ok] at hmodule
      rw [resolve_pathOf (hmodule hu)] at heq
      exact hunit ⟨u, hu, heq⟩
    rw [hkept]
    constructor
    · exact .inr
    · rintro (⟨module, source, hmem, hplace, -⟩ | hsame)
      · rw [Shelf.mem_foldl_add_iff] at hmem
        have hmodule : module ∈ us.map (·.module) := by
          rw [← SourceUnit.isSome_latest?_iff, hmem]
          rfl
        obtain ⟨u, hu, rfl⟩ := List.mem_map.mp hmodule
        exact absurd ⟨u, hu, hplace⟩ hunit
      · exact hsame

theorem map_sizeAt (hforce : d.force = false) (hempty : d.written = [])
    (h : (Sink.writeAll us d : StateM FileTree _) t = ((d', .ok ()), t')) :
    d'.written.map (t'.sizeAt t.here) = us.map (·.source.utf8ByteSize) := by
  obtain ⟨hmodule, hd', -⟩ := writeAll_eq_ok h
  rw [hd', hempty, List.nil_append, List.map_map]
  apply List.map_congr_left
  intro u hu
  have hfile := (file?_of_writeAll hforce h hu).2
  show ((t'.file? (Path.resolve t.here (d.pathOf u))).map ByteArray.size).getD 0 = _
  rw [resolve_pathOf (hmodule u hu), hfile]
  rfl

end OutputDirectory

/-! ### Schemas in sinks -/

namespace Generator

/-- **Sinks agree.**  Where a directory without force accepts all units of a schema, so do a shelf and a
tally, and they have the same files, equally many and of as many bytes.  A schema without code is refused,
and every sink stays as it was. -/
theorem generate_agree (g : Generator) (c : Configuration) :
    (∀ (path : String) (t t' : FileTree) (d : OutputDirectory),
      (g.generate c { path : OutputDirectory } : StateM FileTree _) t = ((d, .ok ()), t') →
      ∃ us shelf tally, g.units c = .ok us ∧
        (g.generate c ({} : Shelf) : Id _) = (shelf, .ok ()) ∧
        (g.generate c ({} : Tally) : Id _) = (tally, .ok ()) ∧
        shelf.modules.Nodup ∧
        (∀ p bytes, t'.file? p = some bytes ↔
          (∃ module source, (module, source) ∈ shelf.sources ∧
            p = Path.resolve t.here path ++ [module ++ ".rs"] ∧ bytes = source.toUTF8) ∨
          t.file? p = some bytes) ∧
        ((∀ p, Path.Below (Path.resolve t.here path) p → t.file? p = none) →
          ∀ p, Path.Below (Path.resolve t.here path) p → ∀ bytes, t'.file? p = some bytes ↔
            ∃ module source, (module, source) ∈ shelf.sources ∧
              p = Path.resolve t.here path ++ [module ++ ".rs"] ∧ bytes = source.toUTF8) ∧
        d.written.length = us.length ∧ shelf.sources.length = us.length ∧
        tally.root + tally.enumeration + tally.bitSet + tally.composite + tally.message
          = us.length ∧
        tally.bytes = (d.written.map (t'.sizeAt t.here)).sum) ∧
    ∀ f, g.units c = .error f → ∀ {m : Type → Type} [Monad m] {σ : Type} [Sink m σ] (s : σ),
      (g.generate c s : m (σ × Except Fault Unit)) = pure (s, .error f) := by
  refine ⟨?_, ?_⟩
  · intro path t t' d hrun
    cases hunits : g.units c with
    | error f =>
        rw [generate, hunits] at hrun
        cases hrun
    | ok us =>
        rw [generate_of_units hunits] at hrun
        have hfiles := OutputDirectory.file?_eq_some_iff rfl hrun
        have hnodup := OutputDirectory.nodup_of_writeAll rfl hrun
        have hwritten := (OutputDirectory.writeAll_eq_ok hrun).2.1
        have hsizes := OutputDirectory.map_sizeAt rfl rfl hrun
        have htotal := Tally.total_foldl_add us {}
        have hbytes := Tally.bytes_foldl_add us {}
        refine ⟨us, us.foldl Shelf.add {}, us.foldl Tally.add {}, rfl, ?_, ?_,
          Shelf.nodup_modules_foldl_add us, hfiles, ?_, ?_, ?_, ?_, ?_⟩
        · rw [generate_of_units hunits]
          exact Shelf.writeAll_eq us {}
        · rw [generate_of_units hunits]
          exact Tally.writeAll_eq us {}
        · intro hnew p hp bytes
          rw [hfiles, hnew p hp]
          simp
        · rw [hwritten]
          simp
        · rw [Shelf.length_foldl_add, List.dedup_eq_self.mpr hnodup, List.length_map]
        · unfold Tally.total at htotal
          simpa using htotal
        · rw [hsizes, hbytes]
          simp
  · intro f hf m _ σ _ s
    rw [generate, hf]

end Generator

/-! ### A new directory, and a schema without code -/

namespace Twins

/-- The units of the schema are written to a new directory. -/
def fresh : (OutputDirectory × Except Fault Unit) × FileTree :=
  ((generator "Side" "Way").generate {} { path := "out" : OutputDirectory } : StateM FileTree _) tree

theorem fresh_eq (h : fresh.1.2.toOption = some ()) :
    ((generator "Side" "Way").generate {} { path := "out" : OutputDirectory }
      : StateM FileTree _) tree = ((fresh.1.1, .ok ()), fresh.2) := by
  unfold fresh at h ⊢
  exact eq_of_accepted h

theorem file?_tree {p : Place} (h : Path.Below (Path.resolve tree.here "out") p) :
    tree.file? p = none := by
  have hplace : Path.resolve tree.here "out" = ["work", "out"] := by decide +kernel
  rw [hplace] at h
  obtain ⟨down, -, rfl⟩ := h
  rfl

/-- A message whose block has no length. -/
def unmeasured : Generator where
  schema := { packageName := "demo" }
  registry := ⟨[]⟩
  messages := [⟨{ signal := .beginMessage, name := "Order" }, []⟩]

end Twins

theorem Generator.generate_agree_twins :
    Twins.fresh.1.2 = .ok () ∧
      (∃ shelf : Shelf, ((Twins.generator "Side" "Way").generate {} ({} : Shelf) : Id _)
          = (shelf, .ok ()) ∧ shelf.sources.length = Twins.fresh.1.1.written.length ∧
        ∀ p, Path.Below (Path.resolve ["work"] "out") p → ∀ bytes,
          Twins.fresh.2.file? p = some bytes ↔ ∃ module source, (module, source) ∈ shelf.sources ∧
            p = Path.resolve ["work"] "out" ++ [module ++ ".rs"] ∧ bytes = source.toUTF8) ∧
      (Twins.unmeasured.generate {} ({} : Shelf) : Id _)
        = ({}, .error (.malformedRange "Order" .messageWithoutLength)) := by
  have haccepted : Twins.fresh.1.2.toOption = some () := by decide +kernel
  obtain ⟨us, shelf, tally, -, hshelf, -, -, -, hfiles, hwritten, hentries, -⟩ :=
    (generate_agree (Twins.generator "Side" "Way") {}).1 "out" Twins.tree _ _
      (Twins.fresh_eq haccepted)
  have hfault : Twins.unmeasured.units {}
      = .error (.malformedRange "Order" .messageWithoutLength) := by rfl
  refine ⟨toOption_eq_some.mp haccepted, ⟨shelf, hshelf, hentries.trans hwritten.symm, ?_⟩, ?_⟩
  · exact hfiles fun p => Twins.file?_tree
  · exact (generate_agree Twins.unmeasured {}).2 _ hfault (m := Id) ({} : Shelf)

end WireCodec
