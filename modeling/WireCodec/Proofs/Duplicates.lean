import WireCodec.Proofs.Bundles
/-! # Telling schemas apart

The units of a schema are told apart from those of another one by the digest of one list of bytes
(`SourceUnit.contents`), in which a zero closes every module name and every source.  Where names and
sources hold no zero themselves, this list can be cut in one way only: it is the same for two lists of
units exactly if these agree unit by unit (`SourceUnit.contents_eq_iff`).

So a schema that is passed over as a duplicate says the same as an earlier schema of its name, or the two
lists of bytes are different and have one digest (`Command.Tenancy.contents_tell_apart`). -/

namespace WireCodec

namespace SourceUnit

/-! ### The bytes of units -/

/-- The bytes of a text. -/
def bytes (s : String) : List UInt8 := s.toUTF8.data.toList

/-- What some units say, as the digest is given it. -/
def contents (units : List SourceUnit) : List UInt8 := units.flatMap content

/-- The name and the source of the unit hold no zero. -/
structure IsZeroFree (u : SourceUnit) : Prop where
  module : 0 ∉ bytes u.module
  source : 0 ∉ bytes u.source

/-- The units have the same name and the same source. -/
structure Agrees (u v : SourceUnit) : Prop where
  module : u.module = v.module
  source : u.source = v.source

theorem digest_eq (units : List SourceUnit) : digest units = Digest.short (contents units) := rfl

theorem bytes_inj {s t : String} (h : bytes s = bytes t) : s = t := by
  unfold bytes at h
  rw [Array.toList_inj] at h
  exact String.toByteArray_inj.mp (ByteArray.ext h)

theorem content_append (u : SourceUnit) (rest : List UInt8) :
    content u ++ rest = bytes u.module ++ 0 :: (bytes u.source ++ 0 :: rest) := by
  simp [content, bytes]

theorem contents_cons (u : SourceUnit) (us : List SourceUnit) :
    contents (u :: us) = bytes u.module ++ 0 :: (bytes u.source ++ 0 :: contents us) := by
  rw [contents, List.flatMap_cons, content_append]
  rfl

theorem contents_cons_ne_nil (u : SourceUnit) (us : List SourceUnit) : contents (u :: us) ≠ [] := by
  rw [contents_cons]
  exact List.append_ne_nil_of_right_ne_nil _ (List.cons_ne_nil _ _)

/-! ### Cutting them again -/

/-- What stands in front of the first mark, and what stands behind it. -/
theorem eq_of_append_mark {α : Type} {mark : α} : ∀ {xs ys as bs : List α}, mark ∉ xs → mark ∉ ys →
    xs ++ mark :: as = ys ++ mark :: bs → xs = ys ∧ as = bs
  | [], [], _, _, _, _, h => ⟨rfl, List.tail_eq_of_cons_eq h⟩
  | [], y :: ys, _, _, _, hys, h => absurd (List.head_eq_of_cons_eq h ▸ List.mem_cons_self) hys
  | x :: xs, [], _, _, hxs, _, h => absurd (List.head_eq_of_cons_eq h ▸ List.mem_cons_self) hxs
  | x :: xs, y :: ys, _, _, hxs, hys, h => by
      obtain ⟨hfirst, htail⟩ := List.cons.inj h
      obtain ⟨hsame, hbehind⟩ := eq_of_append_mark (List.not_mem_of_not_mem_cons hxs)
        (List.not_mem_of_not_mem_cons hys) htail
      exact ⟨by rw [hfirst, hsame], hbehind⟩

/-- The first unit ends where its second zero stands. -/
theorem agrees_of_contents_cons {u v : SourceUnit} {us vs : List SourceUnit} (hu : u.IsZeroFree)
    (hv : v.IsZeroFree) (h : contents (u :: us) = contents (v :: vs)) :
    u.Agrees v ∧ contents us = contents vs := by
  rw [contents_cons, contents_cons] at h
  obtain ⟨hmodule, hbehind⟩ := eq_of_append_mark hu.module hv.module h
  obtain ⟨hsource, hrest⟩ := eq_of_append_mark hu.source hv.source hbehind
  exact ⟨⟨bytes_inj hmodule, bytes_inj hsource⟩, hrest⟩

theorem agree_of_contents_eq : ∀ {us vs : List SourceUnit}, (∀ u ∈ us, u.IsZeroFree) →
    (∀ v ∈ vs, v.IsZeroFree) → contents us = contents vs → List.Forall₂ Agrees us vs
  | [], [], _, _, _ => .nil
  | [], v :: vs, _, _, h => absurd h.symm (contents_cons_ne_nil v vs)
  | u :: us, [], _, _, h => absurd h (contents_cons_ne_nil u us)
  | u :: us, v :: vs, hus, hvs, h => by
      obtain ⟨hu, hus⟩ := List.forall_mem_cons.mp hus
      obtain ⟨hv, hvs⟩ := List.forall_mem_cons.mp hvs
      obtain ⟨hfirst, hrest⟩ := agrees_of_contents_cons hu hv h
      exact .cons hfirst (agree_of_contents_eq hus hvs hrest)

theorem contents_eq_of_agree {us vs : List SourceUnit} (h : List.Forall₂ Agrees us vs) :
    contents us = contents vs := by
  induction h with
  | nil => rfl
  | cons hfirst _ ih => rw [contents_cons, contents_cons, hfirst.module, hfirst.source, ih]

/-- **Units are told apart.**  The bytes of two lists of units are the same exactly if the lists agree
unit by unit. -/
theorem contents_eq_iff {us vs : List SourceUnit} (hus : ∀ u ∈ us, u.IsZeroFree)
    (hvs : ∀ v ∈ vs, v.IsZeroFree) : contents us = contents vs ↔ List.Forall₂ Agrees us vs :=
  ⟨agree_of_contents_eq hus hvs, contents_eq_of_agree⟩

end SourceUnit

/-! ### Collisions -/

/-- Two different lists of bytes with one digest. -/
structure Digest.Collide (as bs : List UInt8) : Prop where
  ne : as ≠ bs
  short : Digest.short as = Digest.short bs

theorem SourceUnit.agree_or_collide {us vs : List SourceUnit} (hus : ∀ u ∈ us, u.IsZeroFree)
    (hvs : ∀ v ∈ vs, v.IsZeroFree) (h : digest us = digest vs) :
    List.Forall₂ Agrees us vs ∨ Digest.Collide (contents us) (contents vs) := by
  rw [digest_eq, digest_eq] at h
  by_cases heq : contents us = contents vs
  · exact .inl (agree_of_contents_eq hus hvs heq)
  · exact .inr ⟨heq, h⟩

namespace Command.Tenancy

open SourceUnit (contents Agrees)

variable {strategy : Strategy} {before : List (String × String)} {t : Tenancy}

/-! ### Duplicates -/

/-- A schema of this name and digest has a directory already. -/
def IsDuplicate (t : Tenancy) (name digest : String) : Prop :=
  ∃ x ∈ t.tenants, x.namespaceName = name ∧ x.digest = digest

/-- Under hash suffixes it is the duplicates that are passed over. -/
theorem register_eq_skipped_iff (t : Tenancy) (output name digest : String) :
    (t.register .hashSuffix output name digest).2 = .skipped ↔ t.IsDuplicate name digest := by
  have hany : (t.tenants.filter (·.namespaceName == name)).any (·.digest == digest)
      ↔ t.IsDuplicate name digest := by
    simp [IsDuplicate]
  rw [← hany]
  show decide (t.tenants.filter (·.namespaceName == name)) .hashSuffix output name digest = _ ↔ _
  unfold decide
  split_ifs with hduplicate hfirst
  · exact iff_of_true rfl hduplicate
  · exact iff_of_false nofun hduplicate
  · exact iff_of_false nofun hduplicate

/-- **One run.**  What is known behind a run are the schemas of the run. -/
theorem Remembers.registerAll (h : Remembers strategy before t) (output : String)
    (calls : List (String × String)) :
    Remembers strategy (before ++ calls) (registerAll strategy output t calls).1 := by
  induction calls generalizing before t with
  | nil => rwa [List.append_nil]
  | cons c calls ih =>
      have hnext := ih (h.register output c.1 c.2)
      rwa [List.append_assoc] at hnext

theorem exists_of_isDuplicate (strategy : Strategy) (output : String) {bundles : List Bundle}
    {name digest : String}
    (h : (registerAll strategy output {} (bundles.map Bundle.call)).1.IsDuplicate name digest) :
    ∃ x ∈ bundles, x.name = name ∧ SourceUnit.digest x.units = digest := by
  obtain ⟨x, hx, hname, hdigest⟩ := h
  have hseen := ((Remembers.empty strategy).registerAll output (bundles.map Bundle.call)).seen x hx
  obtain ⟨b, hb, hcall⟩ := List.mem_map.mp hseen
  rw [Bundle.call, Prod.mk.injEq, hname, hdigest] at hcall
  exact ⟨b, hb, hcall⟩

/-- **Duplicates are found by what they say.**  The bytes from which the digest of some units is made are
those of other units exactly if the two lists have one length and agree in every module name and every
source, as long as none of these holds a zero.  So behind any run, under either strategy, a schema counts
as a duplicate only of an earlier schema of its name, and says the same as that one unless their digests
collide; under hash suffixes it is the duplicates that are passed over. -/
theorem contents_tell_apart {us vs : List SourceUnit} (hus : ∀ u ∈ us, u.IsZeroFree)
    (hvs : ∀ v ∈ vs, v.IsZeroFree) :
    (contents us = contents vs ↔ List.Forall₂ Agrees us vs) ∧
      ∀ (strategy : Strategy) (output : String) (bundles : List Bundle) (name : String),
        (∀ x ∈ bundles, ∀ u ∈ x.units, u.IsZeroFree) →
        (((registerAll strategy output {} (bundles.map Bundle.call)).1.register .hashSuffix output name
            (SourceUnit.digest us)).2 = .skipped ↔
          (registerAll strategy output {} (bundles.map Bundle.call)).1.IsDuplicate name
            (SourceUnit.digest us)) ∧
        ((registerAll strategy output {} (bundles.map Bundle.call)).1.IsDuplicate name
            (SourceUnit.digest us) →
          ∃ x ∈ bundles, x.name = name ∧
            (List.Forall₂ Agrees x.units us ∨ Digest.Collide (contents x.units) (contents us))) := by
  refine ⟨SourceUnit.contents_eq_iff hus hvs, fun strategy output bundles name hclean => ?_⟩
  refine ⟨register_eq_skipped_iff _ output name _, fun hduplicate => ?_⟩
  obtain ⟨x, hx, hname, hdigest⟩ := exists_of_isDuplicate strategy output hduplicate
  exact ⟨x, hx, hname, SourceUnit.agree_or_collide (hclean x hx) hus hdigest⟩

/-- The code of a schema in two files. -/
def twoFiles : List SourceUnit :=
  [⟨"lib", .root, "pub mod a;\n"⟩, ⟨"a", .enumeration, "pub enum A \x7b\x7d\n"⟩]

/-- The same letters in one file. -/
def oneFile : List SourceUnit := [⟨"lib", .root, "pub mod a;\napub enum A \x7b\x7d\n"⟩]

theorem isZeroFree_twoFiles : ∀ u ∈ twoFiles, u.IsZeroFree := by
  intro u hu
  rcases List.mem_pair.mp hu with rfl | rfl <;> exact ⟨by decide +kernel, by decide +kernel⟩

theorem isZeroFree_oneFile : ∀ u ∈ oneFile, u.IsZeroFree := by
  intro u hu
  obtain rfl := List.mem_singleton.mp hu
  exact ⟨by decide +kernel, by decide +kernel⟩

/-- Two files are told apart from one with the same letters, and a schema that comes twice is passed
over. -/
theorem contents_tell_apart_files :
    (∀ u ∈ twoFiles, u.IsZeroFree) ∧ (∀ u ∈ oneFile, u.IsZeroFree) ∧
      contents twoFiles ≠ contents oneFile ∧
      ((registerAll .hashSuffix "out" {} [("a", SourceUnit.digest twoFiles)]).1.register .hashSuffix
        "out" "a" (SourceUnit.digest twoFiles)).2 = .skipped := by
  obtain ⟨hcontents, hrun⟩ := contents_tell_apart isZeroFree_twoFiles isZeroFree_oneFile
  have hclean : ∀ x ∈ [Bundle.mk "a" twoFiles], ∀ u ∈ x.units, u.IsZeroFree := by
    simpa using isZeroFree_twoFiles
  obtain ⟨hskipped, -⟩ := hrun .hashSuffix "out" [⟨"a", twoFiles⟩] "a" hclean
  refine ⟨isZeroFree_twoFiles, isZeroFree_oneFile, fun heq => ?_, ?_⟩
  · exact absurd (hcontents.mp heq).length_eq (by decide)
  · exact hskipped.mpr ⟨_, List.mem_singleton_self _, rfl, rfl⟩

end Command.Tenancy
end WireCodec
