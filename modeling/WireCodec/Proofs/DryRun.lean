import WireCodec.Proofs.Listed
import WireCodec.Proofs.Requests
/-! # Dry runs

A dry run goes the way of the run that writes.  Both find the same places for schemas, since these
depend on the schemas before and not on what has been written, and they read the same documents, since
no document is written (`InStep.processDocument`).  So the dry run announces, line for line, the files
that the other run writes (`dryRun_announces`). -/

namespace WireCodec.Command

open FileTree (Kept)

/-- The same run, without writing. -/
def Options.dry (o : Options) : Options := { o with dryRun := true }

/-- The options ask for code to be written, and for no more messages than those of the files written. -/
structure Options.Writes (o : Options) : Prop where
  quiet : o.verbosity = 0
  all : o.listOnly = false
  real : o.dryRun = false

/-- What is shown of lines when no more messages are asked for. -/
def shown (lines : List Line) : List String := (lines.filter (Line.isShown 0)).map Line.text

theorem shown_append (a b : List Line) : shown (a ++ b) = shown a ++ shown b := by
  unfold shown
  rw [List.filter_append, List.map_append]

theorem shown_information (text : String) : shown [.information text] = [] := rfl

theorem shown_plain {α : Type} (xs : List α) (text : α → String) :
    shown (xs.map fun x => .plain (text x)) = xs.map text := by
  induction xs with
  | nil => rfl
  | cons x xs ih =>
      rw [List.map_cons, ← List.singleton_append, shown_append, ih]
      rfl

/-- A run that writes and a dry run have come equally far: one has told that it wrote the files that
the other has announced. -/
structure InStep (paths : List String) (p q : Progress) : Prop where
  tenants : p.tenancy.tenants = q.tenancy.tenants
  wrote : shown p.lines = paths.map ("Wrote " ++ ·)
  announced : shown q.lines = paths.map ("Would write: " ++ ·)

section

variable {o : Options} {paths : List String} {p p' q : Progress} {t t' u : FileTree}
  {units : List SourceUnit}

theorem InStep.tell (h : InStep paths p q) {ls ms : List Line} (hls : shown ls = [])
    (hms : shown ms = []) : InStep paths (p.tell ls) (q.tell ms) := by
  refine ⟨h.tenants, ?_, ?_⟩
  · rw [Progress.tell, shown_append, hls, List.append_nil]
    exact h.wrote
  · rw [Progress.tell, shown_append, hms, List.append_nil]
    exact h.announced

/-! ### Units -/

/-- A run of units that are all written tells so of each, and changes only files of code. -/
theorem writeUnits_eq_none {directory : String} : ∀ {units : List SourceUnit} {p p' : Progress}
    {d : OutputDirectory} {t t' : FileTree}, d.path = directory →
      (writeUnits p d units : StateM FileTree _) t = ((p', none), t') →
      p'.lines = p.lines ++ units.map (fun u => .plain ("Wrote " ++ Path.join directory u.fileName)) ∧
        p'.tenancy.tenants = p.tenancy.tenants
  | [], p, p', d, t, t', _, h => by
      cases h
      exact ⟨by simp, rfl⟩
  | v :: units, p, p', d, t, t', hd, h => by
      rw [writeUnits, FileTree.bind_apply] at h
      have hsame := (OutputDirectory.keeps_write (P := fun _ => True) (fun _ => trivial) t rfl :
        d.IsSame ((d.write v : StateM FileTree _) t).1 ∧ _).1
      generalize (d.write v : StateM FileTree _) t = r at h hsame
      obtain ⟨outcome, t₁⟩ := r
      cases outcome with
      | error f => cases h
      | ok d' =>
          have hd' : d'.path = directory := (hsame d' rfl).trans hd
          obtain ⟨hlines, htenants⟩ := writeUnits_eq_none hd' h
          refine ⟨?_, htenants⟩
          have hwrote : (p.wrote (d'.pathOf v)).lines
              = p.lines ++ [.plain ("Wrote " ++ Path.join directory v.fileName)] := by
            rw [OutputDirectory.pathOf, hd']
            rfl
          rw [hlines, hwrote, List.append_assoc, List.map_cons]
          rfl

theorem kept_writeUnits (p : Progress) (d : OutputDirectory) (units : List SourceUnit) (t : FileTree) :
    Kept Path.IsSource t ((writeUnits p d units : StateM FileTree _) t).2 := by
  refine (keeps_writeUnits p rfl (fun v _ hmodule => ?_) t rfl).2
  rw [(SourceUnit.isPlain_fileName hmodule).resolve_join]
  exact Path.isSource_append _ v.module

theorem preview_dry (ho : o.Writes) (directory : String) :
    preview o.dry directory units
      = units.map fun u => .plain ("Would write: " ++ Path.join directory u.fileName) := by
  have hverbosity : o.dry.verbosity = 0 := ho.quiet
  unfold preview
  simp only [hverbosity, if_true]
  rw [List.map_eq_flatMap]

/-- In a directory, one run writes what the other announces. -/
theorem InStep.proceed (h : InStep paths p q) (ho : o.Writes) {directory : String}
    (hrun : (emit.proceed o units p directory : StateM FileTree _) t = ((p', none), t'))
    (u : FileTree) :
    Kept Path.IsSource t t' ∧ ∃ more q', InStep (paths ++ more) p' q' ∧
      (emit.proceed o.dry units q directory : StateM FileTree _) u = ((q', none), u) := by
  unfold emit.proceed at hrun
  rw [ho.real] at hrun
  have hrun : (writeUnits p { path := directory, force := o.force } units : StateM FileTree _) t
      = ((p', none), t') := hrun
  have hkept := kept_writeUnits p { path := directory, force := o.force } units t
  rw [hrun] at hkept
  obtain ⟨hlines, htenants⟩ := writeUnits_eq_none rfl hrun
  refine ⟨hkept, units.map (fun v => Path.join directory v.fileName),
    q.tell (preview o.dry directory units), ⟨?_, ?_, ?_⟩, rfl⟩
  · rw [htenants]
    exact h.tenants
  · rw [hlines, shown_append, h.wrote, shown_plain, List.map_append, List.map_map]
    rfl
  · rw [Progress.tell, shown_append, h.announced, preview_dry ho, shown_plain, List.map_append,
      List.map_map]
    rfl

/-! ### Schemas -/

/-- The place of a schema depends on the schemas before it only. -/
theorem Tenancy.register_congr {a b : Tenancy} (h : a.tenants = b.tenants) (strategy : Strategy)
    (output name digest : String) :
    (a.register strategy output name digest).2 = (b.register strategy output name digest).2 ∧
      (a.register strategy output name digest).1.tenants
        = (b.register strategy output name digest).1.tenants := by
  unfold Tenancy.register
  rw [h]
  exact ⟨rfl, rfl⟩

/-- Both runs do the same with the units of a schema: they pass it over, or take it to one place. -/
theorem InStep.emit (h : InStep paths p q) (ho : o.Writes) {name : String}
    (hrun : (emit o p name units : StateM FileTree _) t = ((p', none), t'))
    (u : FileTree) :
    Kept Path.IsSource t t' ∧ ∃ more q', InStep (paths ++ more) p' q' ∧
      (emit o.dry q name units : StateM FileTree _) u = ((q', none), u) := by
  obtain ⟨hplacement, htenants⟩ :=
    Tenancy.register_congr h.tenants o.strategy o.output name (SourceUnit.digest units)
  have hstep : InStep paths
      { p with tenancy := (p.tenancy.register o.strategy o.output name (SourceUnit.digest units)).1 }
      { q with tenancy := (q.tenancy.register o.strategy o.output name (SourceUnit.digest units)).1 } :=
    ⟨htenants, h.wrote, h.announced⟩
  have hoptions : o.dry.strategy = o.strategy ∧ o.dry.output = o.output := ⟨rfl, rfl⟩
  unfold Command.emit at hrun ⊢
  rw [hoptions.1, hoptions.2]
  generalize p.tenancy.register o.strategy o.output name (SourceUnit.digest units) = a
    at hrun hplacement hstep
  generalize q.tenancy.register o.strategy o.output name (SourceUnit.digest units) = b
    at hplacement hstep ⊢
  obtain ⟨tenancy, placement⟩ := a
  obtain ⟨tenancy', _⟩ := b
  obtain rfl := hplacement
  cases placement with
  | skipped =>
      cases hrun
      refine ⟨Kept.refl _ t, [], _, ?_, rfl⟩
      rw [List.append_nil]
      exact hstep
  | placed directory => exact hstep.proceed ho hrun u
  | renamed renamed directory =>
      exact (hstep.tell (shown_information _) (shown_information _)).proceed ho hrun u

/-! ### Documents -/

/-- The schema of a document, from what is read at its path. -/
def schemaOfRead (path : String) : Except Denial ByteArray → Except Fault Schema
  | .error reason => .error (.fileRead path reason)
  | .ok bytes =>
    match String.fromUTF8? bytes with
    | some text => Schema.ofText text
    | none => .error (.fileRead path .notText)

theorem fst_ofFile (path : String) (t : FileTree) :
    ((Schema.ofFile path : StateM FileTree _) t).1 = schemaOfRead path (t.read path) := by
  have hread : (Files.read path : StateM FileTree _) t = (t.read path, t) := rfl
  unfold Schema.ofFile Files.readText
  rw [FileTree.bind_apply, FileTree.bind_apply, hread]
  cases t.read path with
  | error reason => rfl
  | ok bytes =>
      unfold schemaOfRead
      dsimp only
      cases String.fromUTF8? bytes <;> rfl

theorem schemaOfRead_of_read {path : String} {s : Schema}
    (hread : ∀ bytes, t.read path = .ok bytes → u.read path = .ok bytes)
    (hload : schemaOfRead path (t.read path) = .ok s) : schemaOfRead path (u.read path) = .ok s := by
  cases hbytes : t.read path with
  | error reason =>
      rw [hbytes] at hload
      cases hload
  | ok bytes =>
      rw [hread bytes hbytes, ← hbytes]
      exact hload

/-- A document that has been processed holds a schema, whose units have been dealt with. -/
theorem processDocument_eq_none {path : String} (hall : o.listOnly = false)
    (h : (processDocument o p path : StateM FileTree _) t = ((p', none), t')) :
    ∃ s units, schemaOfRead path (t.read path) = .ok s ∧ unitsOf o path s = .ok units ∧
      (Command.emit o p s.qualifiedName units : StateM FileTree _) t = ((p', none), t') := by
  unfold processDocument at h
  rw [FileTree.bind_apply, snd_ofFile, fst_ofFile] at h
  cases hload : schemaOfRead path (t.read path) with
  | error f =>
      rw [hload] at h
      cases h
  | ok s =>
      rw [hload] at h
      dsimp only at h
      cases hunits : unitsOf o path s with
      | error trouble =>
          rw [hunits] at h
          cases h
      | ok units =>
          rw [hunits] at h
          dsimp only at h
          rw [if_neg (by simp [hall])] at h
          exact ⟨s, units, rfl, hunits, h⟩

theorem processDocument_of_emit {path : String} {s : Schema} (hall : o.listOnly = false)
    (hload : schemaOfRead path (t.read path) = .ok s)
    (hunits : unitsOf o path s = .ok units) :
    (processDocument o p path : StateM FileTree _) t
      = (Command.emit o p s.qualifiedName units : StateM FileTree _) t := by
  unfold processDocument
  rw [FileTree.bind_apply, snd_ofFile, fst_ofFile, hload]
  dsimp only
  rw [hunits]
  dsimp only
  rw [if_neg (by simp [hall])]

/-- A document that can be read as in the tree that has been written to is processed alike. -/
theorem InStep.processDocument (h : InStep paths p q) (ho : o.Writes) {path : String}
    (hread : ∀ bytes, t.read path = .ok bytes → u.read path = .ok bytes)
    (hrun : (processDocument o p path : StateM FileTree _) t = ((p', none), t')) :
    Kept Path.IsSource t t' ∧ ∃ more q', InStep (paths ++ more) p' q' ∧
      (Command.processDocument o.dry q path : StateM FileTree _) u = ((q', none), u) := by
  obtain ⟨s, units, hload, hunits, hemit⟩ := processDocument_eq_none ho.all hrun
  obtain ⟨hkept, more, q', hstep, hdry⟩ := h.emit ho hemit u
  refine ⟨hkept, more, q', hstep, ?_⟩
  have hall' : o.dry.listOnly = false := ho.all
  rw [processDocument_of_emit hall' (schemaOfRead_of_read hread hload) hunits]
  exact hdry

/-! ### Runs -/

/-- Documents that fail are never forgotten. -/
theorem le_failed (o : Options) : ∀ (documents : List String) (p : Progress) (failed : Nat) (t : FileTree),
    failed ≤ ((processAll o p failed documents : StateM FileTree _) t).1.2
  | [], _, _, _ => Nat.le_refl _
  | path :: documents, p, failed, t => by
      rw [processAll, FileTree.bind_apply]
      rcases (Command.processDocument o p path : StateM FileTree _) t with ⟨⟨p₁, trouble⟩, t₁⟩
      cases trouble with
      | none => exact le_failed o documents p₁ failed t₁
      | some trouble =>
          have hrest := le_failed o documents
            (p₁.tell [.warning s!"Error processing {path}: {trouble.inline}"]) (failed + 1) t₁
          exact Nat.le_of_succ_le hrest

theorem processAll_cons_eq_zero {path : String} {documents : List String} :
    (Command.processAll o p 0 (path :: documents) : StateM FileTree _) t = ((p', 0), t') ↔
      ∃ p₁ t₁, (Command.processDocument o p path : StateM FileTree _) t = ((p₁, none), t₁) ∧
        (Command.processAll o p₁ 0 documents : StateM FileTree _) t₁ = ((p', 0), t') := by
  rw [Command.processAll, FileTree.bind_apply]
  rcases (Command.processDocument o p path : StateM FileTree _) t with ⟨⟨p₁, trouble⟩, t₁⟩
  cases trouble with
  | none =>
      constructor
      · exact fun h => ⟨p₁, t₁, rfl, h⟩
      · rintro ⟨_, _, ⟨⟩, h⟩
        exact h
  | some trouble =>
      constructor
      · -- A document that fails would have been counted.
        intro h
        have hrest := le_failed o documents
          (p₁.tell [.warning s!"Error processing {path}: {trouble.inline}"]) (0 + 1) t₁
        dsimp only at h
        rw [h] at hrest
        exact absurd hrest (Nat.not_succ_le_zero 0)
      · rintro ⟨_, _, ⟨⟩, _⟩

/-- Documents none of which fails are processed alike by both runs. -/
theorem InStep.processAll (ho : o.Writes) {documents : List String}
    (hread : ∀ path ∈ documents, ∀ v, Kept Path.IsSource u v → ∀ bytes, v.read path = .ok bytes →
      u.read path = .ok bytes)
    (h : InStep paths p q) (hkept : Kept Path.IsSource u t)
    (hrun : (processAll o p 0 documents : StateM FileTree _) t = ((p', 0), t')) :
    ∃ more q', InStep (paths ++ more) p' q' ∧
      (Command.processAll o.dry q 0 documents : StateM FileTree _) u = ((q', 0), u) := by
  induction documents generalizing paths p q t with
  | nil =>
      cases hrun
      refine ⟨[], q, ?_, rfl⟩
      rw [List.append_nil]
      exact h
  | cons path documents ih =>
      obtain ⟨hpath, hdocuments⟩ := List.forall_mem_cons.mp hread
      obtain ⟨p₁, t₁, hfirst, hrest⟩ := processAll_cons_eq_zero.mp hrun
      obtain ⟨hstepKept, more, q₁, hstep, hdry⟩ := h.processDocument ho (hpath t hkept) hfirst
      obtain ⟨rest, q', hend, hdryRest⟩ := ih hdocuments hstep (hkept.trans hstepKept) hrest
      refine ⟨more ++ rest, q', ?_, processAll_cons_eq_zero.mpr ⟨q₁, u, hdry, hdryRest⟩⟩
      rw [← List.append_assoc]
      exact hend

/-- One run tells of the files that it has written, and another one announces them. -/
def Announced (lines lines' : List Line) : Prop :=
  ∃ paths : List String, shown lines = paths.map ("Wrote " ++ ·) ∧
    shown lines' = paths.map ("Would write: " ++ ·)

theorem shown_summary (o : Options) (a : Accounts) : shown (summary o a) = [] := by
  unfold summary
  split <;> rfl

theorem InStep.announced_conclude (h : InStep paths p q) (o o' : Options) :
    Announced (conclude o p).lines (conclude o' q).lines := by
  have hend := h.tell (shown_summary o p.tenancy.accounts) (shown_summary o' q.tenancy.accounts)
  exact ⟨paths, hend.wrote, hend.announced⟩

theorem inStep_start {ls : List Line} (h : shown ls = []) :
    InStep [] { lines := ls } { lines := ls } := ⟨rfl, h, h⟩

theorem runDocument_eq_none {path : String} {lines : List Line} :
    (runDocument o path : StateM FileTree _) t = ((lines, none), t') ↔
      t.kind? path = some .file ∧ ∃ p, lines = (conclude o p).lines ∧
        (processDocument o {} path : StateM FileTree _) t = ((p, none), t') := by
  have hkind : (Files.kind? path : StateM FileTree _) t = (t.kind? path, t) := rfl
  unfold runDocument
  rw [FileTree.bind_apply, hkind]
  cases t.kind? path with
  | none => exact ⟨fun h => (by cases h), fun h => (by cases h.1)⟩
  | some kind =>
      cases kind with
      | directory => exact ⟨fun h => (by cases h), fun h => (by cases h.1)⟩
      | file =>
          dsimp only
          rw [FileTree.bind_apply]
          rcases (processDocument o {} path : StateM FileTree _) t with ⟨⟨p, trouble⟩, t₁⟩
          cases trouble with
          | some trouble => exact ⟨fun h => (by cases h), fun ⟨_, _, _, h⟩ => (by cases h)⟩
          | none =>
              constructor
              · intro h
                cases h
                exact ⟨rfl, p, rfl, rfl⟩
              · rintro ⟨_, _, rfl, h⟩
                cases h
                rfl

/-- The documents that a run over a directory processes. -/
def documentsBelow (t : FileTree) (path : String) : List String :=
  (t.filesBelow path).filter Path.isDocument

/-- What a run over a directory has told before its first document. -/
def scanning (path : String) : Progress := { lines := [.information ("Scanning directory: " ++ path)] }

/-- What it tells after the last one. -/
def processed (t : FileTree) (path : String) : Line :=
  .information s!"Processed {(documentsBelow t path).length} IR files"

theorem runDirectory_eq_none {path : String} {lines : List Line} :
    (runDirectory o path : StateM FileTree _) t = ((lines, none), t') ↔
      t.kind? path = some .directory ∧
        ∃ p, lines = (conclude o (p.tell [processed t path])).lines ∧
          (processAll o (scanning path) 0 (documentsBelow t path) : StateM FileTree _) t
            = ((p, 0), t') := by
  have hkind : (Files.kind? path : StateM FileTree _) t = (t.kind? path, t) := rfl
  have hbelow : (Files.filesBelow path : StateM FileTree _) t = (t.filesBelow path, t) := rfl
  unfold runDirectory
  rw [FileTree.bind_apply, hkind]
  cases t.kind? path with
  | none => exact ⟨fun h => (by cases h), fun h => (by cases h.1)⟩
  | some kind =>
      cases kind with
      | file => exact ⟨fun h => (by cases h), fun h => (by cases h.1)⟩
      | directory =>
          dsimp only
          rw [FileTree.bind_apply, hbelow]
          dsimp only
          rw [FileTree.bind_apply]
          unfold processed scanning documentsBelow
          rcases (processAll o _ 0 ((t.filesBelow path).filter Path.isDocument) : StateM FileTree _) t
            with ⟨⟨p, failed⟩, t₁⟩
          dsimp only
          constructor
          · intro h
            obtain ⟨htold, rfl⟩ := Prod.mk.inj h
            obtain ⟨rfl, hfailed⟩ := Prod.mk.inj htold
            have hzero : failed = 0 := by
              by_contra hsome
              rw [if_neg hsome] at hfailed
              cases hfailed
            subst hzero
            exact ⟨rfl, p, rfl, rfl⟩
          · rintro ⟨_, _, rfl, h⟩
            cases h
            rfl

theorem runDocument_announces (ho : o.Writes) {path : String} {lines : List Line}
    (hrun : (runDocument o path : StateM FileTree _) t = ((lines, none), t')) :
    ∃ lines', Announced lines lines' ∧
      (runDocument o.dry path : StateM FileTree _) t = ((lines', none), t) := by
  obtain ⟨hkind, p, rfl, hdone⟩ := runDocument_eq_none.mp hrun
  have hstart : InStep [] {} {} := inStep_start rfl
  obtain ⟨_, more, q, hstep, hdry⟩ :=
    hstart.processDocument ho (fun _ hbytes => hbytes) hdone
  exact ⟨_, hstep.announced_conclude o o.dry, runDocument_eq_none.mpr ⟨hkind, q, rfl, hdry⟩⟩

/-- No document below a directory is written to. -/
theorem read_of_mem_documentsBelow (ht : t.IsSound) {path document : String}
    (hmem : document ∈ documentsBelow t path) {v : FileTree} (hkept : Kept Path.IsSource t v)
    {bytes : ByteArray} (h : v.read document = .ok bytes) : t.read document = .ok bytes := by
  obtain ⟨hlisted, hdocument⟩ := List.mem_filter.mp hmem
  have hother := Path.not_isSource_of_isDocument hdocument t.here
  exact ht.read_of_kept hlisted hother hkept h

theorem runDirectory_announces (ht : t.IsSound) (ho : o.Writes) {path : String} {lines : List Line}
    (hrun : (runDirectory o path : StateM FileTree _) t = ((lines, none), t')) :
    ∃ lines', Announced lines lines' ∧
      (runDirectory o.dry path : StateM FileTree _) t = ((lines', none), t) := by
  obtain ⟨hkind, p, rfl, hdone⟩ := runDirectory_eq_none.mp hrun
  have hstart : InStep [] (scanning path) (scanning path) := inStep_start rfl
  have hread : ∀ document ∈ documentsBelow t path, ∀ v, Kept Path.IsSource t v → ∀ bytes,
      v.read document = .ok bytes → t.read document = .ok bytes :=
    fun _ hmem _ hkept _ hbytes => read_of_mem_documentsBelow ht hmem hkept hbytes
  obtain ⟨more, q, hend, hdry⟩ :=
    hstart.processAll ho hread (Kept.refl _ t) hdone
  have hcounted : InStep _ (p.tell [processed t path]) (q.tell [processed t path]) :=
    hend.tell rfl rfl
  exact ⟨_, hcounted.announced_conclude o o.dry, runDirectory_eq_none.mpr ⟨hkind, q, rfl, hdry⟩⟩

/-! ### Reports -/

/-- What a run tells, from where its schemas come. -/
def tellings (o : Options) : StateM FileTree (List Line × Option Trouble) :=
  match o.origin with
  | .document path => runDocument o path
  | .directory path => runDirectory o path

theorem perform_run (o : Options) (t : FileTree) :
    (perform (.run o) : StateM FileTree Report) t
      = (.ofRun o.verbosity (tellings o t).1.1 (tellings o t).1.2, (tellings o t).2) := by
  unfold perform tellings
  dsimp only
  cases o.origin <;> rfl

theorem tellings_announces (ht : t.IsSound) (ho : o.Writes) {lines : List Line}
    (hrun : tellings o t = ((lines, none), t')) :
    ∃ lines', Announced lines lines' ∧ tellings o.dry t = ((lines', none), t) := by
  have horigin : o.dry.origin = o.origin := rfl
  unfold tellings at hrun ⊢
  rw [horigin]
  cases hpath : o.origin with
  | document path =>
      rw [hpath] at hrun
      exact runDocument_announces ho hrun
  | directory path =>
      rw [hpath] at hrun
      exact runDirectory_announces ht ho hrun

/-- **Dry runs.**  Where a run that writes exits without an error, and has not been asked for more
messages or for a list only, it tells of the files that it has written and of nothing else.  The same
arguments with the flag of a dry run, on the same files, then announce just these files in the same
order, and leave all files as they are. -/
theorem dryRun_announces {arguments : List String} {r : Report}
    (hrequest : Request.ofArguments arguments = .run o) (hquiet : o.verbosity = 0)
    (hall : o.listOnly = false) (hreal : o.dryRun = false) (ht : t.IsSound)
    (hrun : (run arguments : StateM FileTree Report) t = (r, t')) (hcode : r.code = 0) :
    Request.ofArguments ("--dry-run" :: arguments) = .run o.dry ∧
      ∃ paths : List String, r = { output := paths.map ("Wrote " ++ ·) } ∧
        ∀ dry, Request.ofArguments dry = .run o.dry →
          (run dry : StateM FileTree Report) t
            = ({ output := paths.map ("Would write: " ++ ·) }, t) := by
  refine ⟨ofArguments_dryRun hrequest hreal, ?_⟩
  have hquiet' : o.dry.verbosity = 0 := hquiet
  unfold run at hrun ⊢
  rw [hrequest, perform_run, hquiet] at hrun
  rcases htold : tellings o t with ⟨⟨lines, trouble⟩, t₁⟩
  rw [htold] at hrun
  obtain ⟨rfl, rfl⟩ := Prod.mk.inj hrun
  cases trouble with
  | some trouble => cases hcode
  | none =>
      obtain ⟨lines', ⟨paths, hwrote, hannounced⟩, hdry⟩ :=
        tellings_announces ht ⟨hquiet, hall, hreal⟩ htold
      refine ⟨paths, ?_, fun dry hrequest' => ?_⟩
      · change ({ output := shown lines } : Report) = _
        rw [hwrote]
      · rw [hrequest', perform_run, hquiet', hdry]
        change (({ output := shown lines' } : Report), t) = _
        rw [hannounced]

end

/-! ### A directory with two documents -/

namespace Garage

def document (package : String) : String := "\x7b\"packageName\":\"" ++ package ++ "\"\x7d"

/-- Two documents, one of them further below. -/
def tree : FileTree where
  entries := [(["work"], .directory), (["work", "irs"], .directory),
    (["work", "irs", "more"], .directory),
    (["work", "irs", "more", "truck.json"], .file (document "truck").toUTF8),
    (["work", "irs", "van.json"], .file (document "van").toUTF8)]
  here := ["work"]

def arguments : List String := ["--directory", "irs", "-o", "out"]

def options : Options := { origin := .directory "irs", output := "out" }

theorem isSound_tree : tree.IsSound := by
  refine ⟨fun x hx => ?_⟩
  have hplain : ∀ name ∈ ["work", "irs", "more", "truck.json", "van.json"],
      Path.IsPlain name ∧ name.utf8ByteSize ≤ FileTree.longestName := by
    intro name hname
    simp only [List.mem_cons, List.not_mem_nil, or_false] at hname
    rcases hname with rfl | rfl | rfl | rfl | rfl <;>
      exact ⟨⟨by decide, by decide, by decide⟩, by decide⟩
  simp only [tree, List.mem_cons, List.not_mem_nil, or_false] at hx
  rcases hx with rfl | rfl | rfl | rfl | rfl
  · exact ⟨[], "work", rfl, by decide, hplain _ (by decide)⟩
  · exact ⟨["work"], "irs", rfl, by decide, hplain _ (by decide)⟩
  · exact ⟨["work", "irs"], "more", rfl, by decide, hplain _ (by decide)⟩
  · exact ⟨["work", "irs", "more"], "truck.json", rfl, by decide, hplain _ (by decide)⟩
  · exact ⟨["work", "irs"], "van.json", rfl, by decide, hplain _ (by decide)⟩

theorem documentsBelow_tree :
    documentsBelow tree "irs" = ["irs/more/truck.json", "irs/van.json"] := by
  have hlocate : tree.locate "irs" = .ok ["work", "irs"] := by rfl
  unfold documentsBelow FileTree.filesBelow FileTree.below
  rw [hlocate]
  dsimp only
  rw [List.mergeSort_of_pairwise (by decide)]
  decide

theorem failed_eq : ((processAll options (scanning "irs") 0
    ["irs/more/truck.json", "irs/van.json"] : StateM FileTree _) tree).1.2 = 0 := by
  decide +kernel

theorem request_eq : Request.ofArguments arguments = .run options := by decide

theorem code_eq : ((run arguments : StateM FileTree Report) tree).1.code = 0 := by
  have hfailed := failed_eq
  rw [← documentsBelow_tree] at hfailed
  rcases hdone : (processAll options (scanning "irs") 0 (documentsBelow tree "irs") :
    StateM FileTree _) tree with ⟨⟨p, failed⟩, t'⟩
  rw [hdone] at hfailed
  obtain rfl : failed = 0 := hfailed
  have hkind : tree.kind? "irs" = some .directory := by decide
  have htold : tellings options tree = ((_, none), t') :=
    runDirectory_eq_none.mpr ⟨hkind, p, rfl, hdone⟩
  unfold run
  rw [request_eq, perform_run, htold]
  rfl

end Garage

/-- The code of two documents is announced as it is written. -/
theorem dryRun_announces_garage :
    ∃ r t', (run Garage.arguments : StateM FileTree Report) Garage.tree = (r, t') ∧ r.code = 0 ∧
      ∃ paths : List String, r = { output := paths.map ("Wrote " ++ ·) } ∧
        (run ("--dry-run" :: Garage.arguments) : StateM FileTree Report) Garage.tree
          = ({ output := paths.map ("Would write: " ++ ·) }, Garage.tree) := by
  obtain ⟨hrequest, paths, hwrote, hdry⟩ := dryRun_announces Garage.request_eq rfl rfl rfl
    Garage.isSound_tree rfl Garage.code_eq
  exact ⟨_, _, rfl, Garage.code_eq, paths, hwrote, hdry _ hrequest⟩

end WireCodec.Command
