import WireCodec.Command.Run
import WireCodec.Proofs.Generator
import WireCodec.Proofs.Places
/-! # Containment

What a run writes for a schema goes to one directory, the output directory joined with the schema's
name.  `FileTree.Keeps` says of an operation on files which places it leaves alone: it is followed from
the single operations up to the processing of a document.

The directory lies below the output directory for every output directory, and with it all that is
written, exactly if the name leads down (`Command.contained_iff`).  The names of modules are checked
before they become names of files, so in a single file, which is named for the schema, nothing is ever
written elsewhere. -/

namespace WireCodec

/-! ### What operations leave alone -/

namespace FileTree

variable {α β : Type} {here : Place} {P : Place → Prop} {Q : α → Prop} {R : β → Prop}

/-- Paths start from where they did, and outside some places every file is as it was. -/
structure Kept (P : Place → Prop) (t t' : FileTree) : Prop where
  here : t'.here = t.here
  file : ∀ q, ¬ P q → t'.file? q = t.file? q

theorem Kept.refl (P : Place → Prop) (t : FileTree) : Kept P t t := ⟨rfl, fun _ _ => rfl⟩

theorem Kept.trans {t u v : FileTree} (h : Kept P t u) (h' : Kept P u v) : Kept P t v where
  here := h'.here.trans h.here
  file q hq := (h'.file q hq).trans (h.file q hq)

/-- With paths starting from `here`, an operation keeps all files outside some places, and returns a
result of some kind. -/
def Keeps (here : Place) (P : Place → Prop) (x : StateM FileTree α) (Q : α → Prop) : Prop :=
  ∀ t : FileTree, t.here = here → Q (x t).1 ∧ Kept P t (x t).2

theorem Keeps.pure {a : α} (h : Q a) : Keeps here P (pure a : StateM FileTree α) Q :=
  fun t _ => ⟨h, Kept.refl P t⟩

theorem Keeps.bind {x : StateM FileTree α} {f : α → StateM FileTree β} (hx : Keeps here P x Q)
    (hf : ∀ a, Q a → Keeps here P (f a) R) : Keeps here P (x >>= f) R := by
  intro t ht
  obtain ⟨hq, hkept⟩ := hx t ht
  obtain ⟨hr, hkept'⟩ := hf (x t).1 hq (x t).2 (hkept.here.trans ht)
  exact ⟨hr, hkept.trans hkept'⟩

theorem bind_apply (x : StateM FileTree α) (f : α → StateM FileTree β) (t : FileTree) :
    (x >>= f) t = f (x t).1 (x t).2 := rfl

theorem keeps_kind? (path : String) :
    Keeps here P (Files.kind? path : StateM FileTree (Option FileKind)) fun _ => True :=
  fun t _ => ⟨trivial, Kept.refl P t⟩

theorem keeps_change {operation : FileTree → Except Denial FileTree}
    (h : ∀ t t', t.here = here → operation t = .ok t' → Kept P t t') :
    Keeps here P (change operation) fun _ => True := by
  intro t ht
  refine ⟨trivial, ?_⟩
  unfold change
  cases hrun : operation t with
  | ok t' => exact h t t' ht hrun
  | error reason => exact Kept.refl P t

theorem keeps_makeDirectory (path : String) :
    Keeps here P (Files.makeDirectory path : StateM FileTree (Except Denial Unit)) fun _ => True := by
  apply keeps_change
  intro t t' _ h
  obtain ⟨p, _, _, rfl⟩ := makeDirectory_eq_ok h
  exact ⟨here_put p _, fun q _ => file?_makeDirectory h q⟩

theorem keeps_write {path : String} (text : String) (hplace : P (Path.resolve here path)) :
    Keeps here P (Files.write path text : StateM FileTree (Except Denial Unit)) fun _ => True := by
  apply keeps_change
  intro t t' ht h
  have hhere : t'.here = t.here := by
    obtain ⟨_, rfl⟩ := write_eq_ok h
    exact here_put _ _
  refine ⟨hhere, ?_⟩
  intro q hq
  rw [file?_write h, if_neg]
  rintro rfl
  rw [ht] at hq
  exact hq hplace

theorem keeps_unlessThere (path : String) (reason : Denial) :
    Keeps here P (Files.unlessThere path reason : StateM FileTree (Except Denial Unit))
      fun _ => True := by
  apply (keeps_kind? path).bind
  intro kind _
  split <;> exact Keeps.pure trivial

theorem keeps_makeFirst : ∀ paths : List String,
    Keeps here P (Files.makeFirst paths : StateM FileTree (Except Denial Unit)) fun _ => True
  | [] => Keeps.pure trivial
  | path :: above => by
      apply (keeps_makeDirectory path).bind
      intro made _
      split
      · exact Keeps.pure trivial
      · -- The directories above are made, and then this one is tried again.
        apply (keeps_makeFirst above).bind
        intro madeAbove _
        split
        · exact Keeps.pure trivial
        · apply (keeps_makeDirectory path).bind
          intro madeAgain _
          split
          · exact Keeps.pure trivial
          · exact keeps_unlessThere path _
      · exact keeps_unlessThere path _

theorem keeps_makeDirectories (path : String) :
    Keeps here P (Files.makeDirectories path : StateM FileTree (Except Denial Unit))
      fun _ => True := by
  unfold Files.makeDirectories
  split
  · exact Keeps.pure trivial
  · exact keeps_makeFirst _

end FileTree

/-! ### Output directories -/

namespace OutputDirectory

open FileTree (Keeps)

variable {here : Place} {P : Place → Prop}

/-- The result, if there is one, is the same directory. -/
def IsSame (d : OutputDirectory) (r : Except Fault OutputDirectory) : Prop :=
  ∀ d', r = .ok d' → d'.path = d.path

theorem isSame_error (d : OutputDirectory) (f : Fault) : d.IsSame (.error f) := by
  intro d' h
  cases h

theorem keeps_prepare (d : OutputDirectory) :
    Keeps here P (d.prepare : StateM FileTree (Except Fault Unit)) fun _ => True := by
  apply (FileTree.keeps_kind? d.path).bind
  intro kind _
  split
  · exact Keeps.pure trivial
  · exact (FileTree.keeps_makeDirectories d.path).bind fun _ _ => Keeps.pure trivial

theorem keeps_place {d : OutputDirectory} {u : SourceUnit}
    (hplace : P (Path.resolve here (d.pathOf u))) :
    Keeps here P (d.place u : StateM FileTree (Except Fault OutputDirectory)) d.IsSame := by
  apply (FileTree.keeps_kind? (d.pathOf u)).bind
  intro taken _
  split
  · exact Keeps.pure (isSame_error d _)
  · apply (FileTree.keeps_write u.source hplace).bind
    intro written _
    split
    · exact Keeps.pure (isSame_error d _)
    · apply Keeps.pure
      intro d' h
      cases h
      rfl

/-- A unit whose module has no plain name is refused, and nothing is done for it. -/
theorem write_of_not_isModule {m : Type → Type} [Monad m] [Files m] {u : SourceUnit}
    (h : Name.isModule u.module = false) (d : OutputDirectory) :
    (d.write u : m (Except Fault OutputDirectory)) = pure (.error (.pathTraversal u.module)) := by
  unfold write
  rw [h]
  rfl

theorem write_of_isModule {m : Type → Type} [Monad m] [Files m] {u : SourceUnit}
    (h : Name.isModule u.module = true) (d : OutputDirectory) :
    (d.write u : m (Except Fault OutputDirectory)) = (do
      match ← d.prepare with
      | .error f => return .error f
      | .ok _ => d.place u) := by
  unfold write
  rw [h]
  rfl

/-- Writing a unit changes at most the file of the unit. -/
theorem keeps_write {d : OutputDirectory} {u : SourceUnit}
    (hplace : Name.isModule u.module → P (Path.resolve here (d.pathOf u))) :
    Keeps here P (d.write u : StateM FileTree (Except Fault OutputDirectory)) d.IsSame := by
  cases hmodule : Name.isModule u.module with
  | false =>
      rw [write_of_not_isModule hmodule]
      exact Keeps.pure (isSame_error d _)
  | true =>
      rw [write_of_isModule hmodule]
      apply (keeps_prepare d).bind
      intro prepared _
      split
      · exact Keeps.pure (isSame_error d _)
      · exact keeps_place (hplace hmodule)

end OutputDirectory

/-! ### Names -/

namespace Name

theorem ne_slash_of_isModuleRest {c : Char} (h : isModuleRest c) : c ≠ '/' := by
  rintro rfl
  exact absurd h (by decide)

theorem ne_dot_of_isModuleRest {c : Char} (h : isModuleRest c) : c ≠ '.' := by
  rintro rfl
  exact absurd h (by decide)

theorem of_isModule {name : String} (h : isModule name) :
    name ≠ "" ∧ ∀ c ∈ name.toList, isModuleRest c := by
  unfold isModule at h
  split at h
  next c cs hname =>
    rw [Bool.and_eq_true, List.all_eq_true] at h
    have hfirst : isModuleRest c := by
      have hstart := h.1
      unfold isModuleStart at hstart
      unfold isModuleRest
      rw [Bool.or_eq_true] at hstart ⊢
      rw [Bool.or_eq_true]
      rcases hstart with hstart | hstart
      · exact .inl (.inl hstart)
      · exact .inr hstart
    refine ⟨?_, ?_⟩
    · rintro rfl
      cases hname
    · rw [hname]
      intro x hx
      rcases List.mem_cons.mp hx with rfl | hx
      · exact hfirst
      · exact h.2 x hx
  next => cases h

theorem slash_notMem_of_isModule {name : String} (h : isModule name) : '/' ∉ name.toList :=
  fun hmem => ne_slash_of_isModuleRest ((of_isModule h).2 _ hmem) rfl

theorem dot_notMem_of_isModule {name : String} (h : isModule name) : '.' ∉ name.toList :=
  fun hmem => ne_dot_of_isModuleRest ((of_isModule h).2 _ hmem) rfl

theorem isPlain_of_isModule {name : String} (h : isModule name) : Path.IsPlain name := by
  have hdot := dot_notMem_of_isModule h
  refine ⟨slash_notMem_of_isModule h, ?_, ?_⟩
  · rintro (rfl | rfl)
    · exact (of_isModule h).1 rfl
    · exact hdot (by decide)
  · rintro rfl
    exact hdot (by decide)

end Name

theorem SourceUnit.isPlain_fileName {u : SourceUnit} (h : Name.isModule u.module) :
    Path.IsPlain u.fileName := by
  have hlast : ∀ dots : String, 's' ∉ dots.toList → u.fileName ≠ dots := by
    intro dots hdots heq
    apply hdots
    rw [← heq, fileName, String.toList_append]
    exact List.mem_append_right _ (by decide)
  refine ⟨?_, ?_, ?_⟩
  · rw [fileName, String.toList_append, List.mem_append, not_or]
    exact ⟨Name.slash_notMem_of_isModule h, by decide⟩
  · rw [not_or]
    exact ⟨hlast "" (by decide), hlast "." (by decide)⟩
  · exact hlast ".." (by decide)

theorem Quoted.hexDigit_ne_slash : ∀ n < 16, hexDigit n ≠ '/' := by decide

/-- A digest is written in digits and letters. -/
theorem SourceUnit.slash_notMem_digest (units : List SourceUnit) :
    '/' ∉ (SourceUnit.digest units).toList := by
  unfold digest Digest.short Digest.hexWord
  rw [String.toList_ofList, List.mem_flatMap]
  rintro ⟨v, _, hmem⟩
  have hlow : v.toNat % 16 < 16 := Nat.mod_lt _ (by decide)
  have hhigh : v.toNat / 16 % 16 < 16 := Nat.mod_lt _ (by decide)
  rcases List.mem_cons.mp hmem with heq | hmem
  · exact Quoted.hexDigit_ne_slash _ hhigh heq.symm
  · exact Quoted.hexDigit_ne_slash _ hlow (List.mem_singleton.mp hmem).symm

namespace Command

open FileTree (Keeps Kept)

variable {here : Place}

/-! ### The directory of a schema -/

/-- A schema goes to the directory of its name, or of its name and the digest of its code. -/
theorem Tenancy.directory_of_register {tenancy : Tenancy} {strategy : Strategy}
    {output name digest directory : String}
    (h : (tenancy.register strategy output name digest).2.directory? = some directory) :
    directory = Path.join output name ∨ directory = Path.join output (name ++ "_" ++ digest) := by
  unfold register decide at h
  dsimp only at h
  split at h
  · cases h
  split at h
  · exact .inl (Option.some.inj h).symm
  split at h
  · cases h
  · exact .inr (Option.some.inj h).symm

theorem Tenancy.directory_of_first (strategy : Strategy) (output name digest : String) :
    (({} : Tenancy).register strategy output name digest).2.directory?
      = some (Path.join output name) := rfl

/-- Where the name leads down, the directory lies below the output directory. -/
theorem Tenancy.inside_of_register {tenancy : Tenancy} {strategy : Strategy}
    {output name directory : String} {units : List SourceUnit} (hname : Path.Descends name)
    (h : (tenancy.register strategy output name (SourceUnit.digest units)).2.directory?
      = some directory) : Path.Inside here output directory := by
  rcases directory_of_register h with rfl | rfl
  · exact Path.descends_iff.mp hname here output
  · have hrenamed : Path.Descends (name ++ "_" ++ SourceUnit.digest units) := by
      rw [String.append_assoc]
      apply hname.append_suffix
      · rw [String.toList_append, List.mem_append, not_or]
        exact ⟨by decide, SourceUnit.slash_notMem_digest units⟩
      · rw [String.toList_append]
        exact List.mem_append_left _ (by decide)
    exact Path.descends_iff.mp hrenamed here output

/-- The only unit of a single file bears the name of the schema. -/
theorem module_of_singleFile {o : Options} {path : String} {s : Schema} {units : List SourceUnit}
    (h : unitsOf o path s = .ok units) (hsingle : o.arrangement = .singleFile) :
    ∀ u ∈ units, u.module = s.qualifiedName := by
  unfold unitsOf at h
  obtain ⟨g, hg, hunits⟩ := bind_eq_ok.mp (mapError_eq_ok.mp h)
  obtain ⟨types, messages, _, _, harrange⟩ := Generator.units_eq_ok.mp hunits
  have hschema : g.schema = s := (Generator.registry_of_ofSchema hg).1
  unfold Generator.arrange at harrange
  rw [show o.configuration.arrangement = .singleFile from hsingle] at harrange
  intro u hu
  rw [← harrange] at hu
  rw [List.mem_singleton.mp hu, hschema]

/-! ### What is written -/

/-- The files of a directory are the only ones that writing its units changes. -/
theorem keeps_writeUnits {P : Place → Prop} {directory : String} :
    ∀ {units : List SourceUnit} (p : Progress) {d : OutputDirectory}, d.path = directory →
      (∀ u ∈ units, Name.isModule u.module →
        P (Path.resolve here (Path.join directory u.fileName))) →
      Keeps here P (writeUnits p d units : StateM FileTree _) fun _ => True
  | [], _, _, _, _ => Keeps.pure trivial
  | u :: units, p, d, hd, h => by
      have hplace : Name.isModule u.module → P (Path.resolve here (d.pathOf u)) := by
        unfold OutputDirectory.pathOf
        rw [hd]
        exact h u List.mem_cons_self
      apply (OutputDirectory.keeps_write hplace).bind
      intro r hsame
      split
      next d' =>
        exact keeps_writeUnits _ ((hsame d' rfl).trans hd) fun v hv =>
          h v (List.mem_cons_of_mem u hv)
      next => exact Keeps.pure trivial

/-- All files that are written lie below the output directory, if the schema's name leads down or all
files are refused. -/
theorem keeps_emit {o : Options} {name : String} {units : List SourceUnit} (p : Progress)
    (h : ∀ u ∈ units, Name.isModule u.module → Path.Descends name) :
    Keeps here (Path.Below (Path.resolve here o.output))
      (emit o p name units : StateM FileTree _) fun _ => True := by
  have hproceed : ∀ (q : Progress) {directory : String},
      (p.tenancy.register o.strategy o.output name (SourceUnit.digest units)).2.directory?
        = some directory →
      Keeps here (Path.Below (Path.resolve here o.output))
        (emit.proceed o units q directory : StateM FileTree _) fun _ => True := by
    intro q directory hdirectory
    unfold emit.proceed
    split
    · exact Keeps.pure trivial
    · apply keeps_writeUnits q rfl
      intro u hu hmodule
      have hinside : Path.Inside here o.output directory :=
        Tenancy.inside_of_register (h u hu hmodule) hdirectory
      exact hinside.join ((SourceUnit.isPlain_fileName hmodule).descends)
  unfold emit
  dsimp only
  split
  · exact Keeps.pure trivial
  next directory heq =>
    apply hproceed
    rw [heq]
    rfl
  next renamed directory heq =>
    apply hproceed
    rw [heq]
    rfl

theorem snd_ofFile (path : String) (t : FileTree) :
    ((Schema.ofFile path : StateM FileTree _) t).2 = t := by
  have hread : (Files.read path : StateM FileTree _) t = (t.read path, t) := rfl
  have htext : ((Files.readText path : StateM FileTree _) t).2 = t := by
    unfold Files.readText
    rw [FileTree.bind_apply, hread]
    cases t.read path with
    | error reason => rfl
    | ok bytes =>
        dsimp only
        cases String.fromUTF8? bytes <;> rfl
  unfold Schema.ofFile
  rw [FileTree.bind_apply, htext]
  cases ((Files.readText path : StateM FileTree _) t).1 <;> rfl

/-- Whatever is written for a document lies below the output directory, if the name of its schema leads
down or all goes to a single file. -/
theorem kept_of_processDocument {o : Options} {p : Progress} {path : String} {s : Schema}
    {t : FileTree} (hload : ((Schema.ofFile path : StateM FileTree _) t).1 = .ok s)
    (h : Path.Descends s.qualifiedName ∨ o.arrangement = .singleFile) :
    Kept (Path.Below (Path.resolve t.here o.output)) t
      ((processDocument o p path : StateM FileTree _) t).2 := by
  unfold processDocument
  rw [FileTree.bind_apply, hload, snd_ofFile]
  dsimp only
  cases hunits : unitsOf o path s with
  | error trouble => exact Kept.refl _ t
  | ok units =>
    dsimp only
    by_cases hlist : o.listOnly = true
    · rw [if_pos hlist]
      exact Kept.refl _ t
    · rw [if_neg hlist]
      refine (keeps_emit p ?_ t rfl).2
      intro u hu hmodule
      rcases h with hname | hsingle
      · exact hname
      · rw [module_of_singleFile hunits hsingle u hu] at hmodule
        exact (Name.isPlain_of_isModule hmodule).descends

/-- **Containment.**  The directories that a schema is given lie below every output directory exactly
if its name leads down, and then no file is changed but those below the output directory.  Where all goes
to a single file none is changed elsewhere, whatever the name. -/
theorem contained_iff (s : Schema) :
    ((∀ (here : Place) (tenancy : Tenancy) (strategy : Strategy) (output : String)
        (units : List SourceUnit) (directory : String),
        (tenancy.register strategy output s.qualifiedName (SourceUnit.digest units)).2.directory?
          = some directory →
        Path.Inside here output directory) ↔
      Path.Descends s.qualifiedName) ∧
    ∀ (o : Options) (p : Progress) (path : String) (t : FileTree),
      ((Schema.ofFile path : StateM FileTree _) t).1 = .ok s →
      Path.Descends s.qualifiedName ∨ o.arrangement = .singleFile →
      Kept (Path.Below (Path.resolve t.here o.output)) t
        ((processDocument o p path : StateM FileTree _) t).2 := by
  refine ⟨⟨?_, ?_⟩, ?_⟩
  · intro h
    rw [Path.descends_iff]
    intro here output
    apply h here {} .hashSuffix output [] (Path.join output s.qualifiedName)
    exact Tenancy.directory_of_first .hashSuffix output s.qualifiedName _
  · intro hname here tenancy strategy output units directory hdirectory
    exact Tenancy.inside_of_register hname hdirectory
  · intro o p path t hload h
    exact kept_of_processDocument hload h

/-! ### A namespace that leads up -/

namespace Escape

/-- A schema without types and messages. -/
def schema (namespaceName : String) : Schema :=
  { packageName := "car", namespaceName := some namespaceName }

def document (namespaceName : String) : String :=
  "\x7b\"packageName\":\"car\",\"namespaceName\":\"" ++ namespaceName ++ "\"\x7d"

/-- A directory with the document and nothing else. -/
def tree (namespaceName : String) : FileTree where
  entries := [(["work"], .directory), (["work", "car.json"], .file (document namespaceName).toUTF8)]
  here := ["work"]

def options : Options := { origin := .document "car.json", output := "out" }

theorem ofFile_plain :
    ((Schema.ofFile "car.json" : StateM FileTree _) (tree "fix")).1 = .ok (schema "fix") :=
  toOption_eq_some.mp (by decide +kernel)

theorem ofFile_up :
    ((Schema.ofFile "car.json" : StateM FileTree _) (tree "../escape")).1
      = .ok (schema "../escape") :=
  toOption_eq_some.mp (by decide +kernel)

theorem descends_plain : Path.Descends (schema "fix").qualifiedName :=
  (Name.isPlain_of_isModule (by decide +kernel)).descends

end Escape

theorem contained_iff_plain :
    Path.Descends (Escape.schema "fix").qualifiedName ∧
      ((Schema.ofFile "car.json" : StateM FileTree _) (Escape.tree "fix")).1
        = .ok (Escape.schema "fix") ∧
      Path.Inside ["work"] "out" "out/fix_car" ∧
      Kept (Path.Below ["work", "out"]) (Escape.tree "fix")
        ((processDocument Escape.options {} "car.json" : StateM FileTree _) (Escape.tree "fix")).2 := by
  have h := contained_iff (Escape.schema "fix")
  have hdirectory : (({} : Tenancy).register .hashSuffix "out" (Escape.schema "fix").qualifiedName
      (SourceUnit.digest [])).2.directory? = some "out/fix_car" := by decide +kernel
  refine ⟨Escape.descends_plain, Escape.ofFile_plain, ?_, ?_⟩
  · exact h.1.mpr Escape.descends_plain ["work"] {} .hashSuffix "out" [] _ hdirectory
  · exact h.2 Escape.options {} "car.json" (Escape.tree "fix") Escape.ofFile_plain
      (.inl Escape.descends_plain)

/-- A schema is loaded and its code made, and it is given a directory beside the output directory and
written there: its namespace leads up. -/
theorem escape_is_not_contained :
    ((Schema.ofFile "car.json" : StateM FileTree _) (Escape.tree "../escape")).1
        = .ok (Escape.schema "../escape") ∧
      ∃ units, unitsOf Escape.options "car.json" (Escape.schema "../escape") = .ok units ∧
        (({} : Tenancy).register .hashSuffix "out" (Escape.schema "../escape").qualifiedName
          (SourceUnit.digest units)).2.directory? = some "out/../escape_car" ∧
        ¬ Path.Inside ["work"] "out" "out/../escape_car" ∧
        ¬ Path.Below ["work", "out"] ["work", "escape_car", "lib.rs"] ∧
        (Escape.tree "../escape").file? ["work", "escape_car", "lib.rs"] = none ∧
        (((processDocument Escape.options {} "car.json" : StateM FileTree _)
          (Escape.tree "../escape")).2.file? ["work", "escape_car", "lib.rs"]).isSome := by
  have hunits : (unitsOf Escape.options "car.json" (Escape.schema "../escape")).toOption.isSome := by
    decide +kernel
  obtain ⟨units, hunits⟩ := Option.isSome_iff_exists.mp hunits
  have hname : (Escape.schema "../escape").qualifiedName = "../escape_car" := by decide +kernel
  refine ⟨Escape.ofFile_up, units, toOption_eq_some.mp hunits, ?_, ?_, ?_, ?_, ?_⟩
  · rw [Tenancy.directory_of_first, hname]
    decide +kernel
  · intro hinside
    exact absurd (Path.Below.isPrefix hinside) (by decide +kernel)
  · intro hbelow
    exact absurd hbelow.isPrefix (by decide)
  · rfl
  · decide +kernel

end Command
end WireCodec
