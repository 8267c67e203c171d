import WireCodec.Proofs.Bundles
import WireCodec.Proofs.DryRun
import WireCodec.Proofs.Modules
/-! # Lists of files

A run that only lists goes the way of the run that writes as far as the code of each schema, and shows its
lines (`processAll_list`).  It finds no places for schemas, while the run that writes delivers each bundle to
its place (`processAll_delivers`).  So the lines are the paths of the files that are written exactly if the
schemas have names of their own (`listOnly_lists`). -/

namespace WireCodec

/-! ### Files that have been written -/

namespace FileTree

theorem Kept.mono {P Q : Place → Prop} {t t' : FileTree} (h : Kept P t t') (hPQ : ∀ q, P q → Q q) :
    Kept Q t t' where
  here := h.here
  file q hq := h.file q fun hP => hq (hPQ q hP)

/-- The paths lead to files, and all other files are as they were. -/
structure Wrote (paths : List String) (t t' : FileTree) : Prop where
  kept : Kept (fun q => ∃ path ∈ paths, q = Path.resolve t.here path) t t'
  there : ∀ path ∈ paths, (t'.file? (Path.resolve t.here path)).isSome

theorem Wrote.refl (t : FileTree) : Wrote [] t t := ⟨Kept.refl _ t, List.forall_mem_nil _⟩

theorem Wrote.append {paths more : List String} {t u v : FileTree} (h : Wrote paths t u)
    (h' : Wrote more u v) : Wrote (paths ++ more) t v := by
  obtain ⟨hkept, hthere⟩ := h
  obtain ⟨hkept', hthere'⟩ := h'
  rw [hkept.here] at hkept' hthere'
  refine ⟨(hkept.mono ?_).trans (hkept'.mono ?_), ?_⟩
  · rintro q ⟨path, hmem, rfl⟩
    exact ⟨path, List.mem_append_left _ hmem, rfl⟩
  · rintro q ⟨path, hmem, rfl⟩
    exact ⟨path, List.mem_append_right _ hmem, rfl⟩
  · rw [List.forall_mem_append]
    refine ⟨fun path hmem => ?_, hthere'⟩
    by_cases hmore : ∃ other ∈ more, Path.resolve t.here path = Path.resolve t.here other
    · obtain ⟨other, hother, heq⟩ := hmore
      rw [heq]
      exact hthere' other hother
    · rw [hkept'.file _ hmore]
      exact hthere path hmem

end FileTree

open FileTree (Kept Wrote)

/-- A directory that accepts a unit writes its file. -/
theorem OutputDirectory.wrote_of_write {d d' : OutputDirectory} {u : SourceUnit} {t t' : FileTree}
    (h : (d.write u : StateM FileTree _) t = (.ok d', t')) :
    Name.isModule u.module ∧ d'.path = d.path ∧ Wrote [d.pathOf u] t t' := by
  have hstep := step_call d u t
  rw [Sink.call_of_write_eq_ok h] at hstep
  cases hstep with
  | accepted _ hmodule hfile hkept _ =>
      refine ⟨hmodule, rfl, hkept.mono ?_, ?_⟩
      · rintro q rfl
        exact ⟨_, List.mem_singleton_self _, rfl⟩
      · rw [List.forall_mem_singleton, hfile]
        rfl

namespace Command

open Tenancy (Remembers placementAfter)

/-- What is known of the schemas so far is in the tenants. -/
theorem Tenancy.Remembers.congr {strategy : Strategy} {before : List (String × String)}
    {a b : Tenancy} (h : Remembers strategy before a) (htenants : b.tenants = a.tenants) :
    Remembers strategy before b := by
  obtain ⟨htenant, hseen, hall⟩ := h
  rw [← htenants] at htenant hseen hall
  exact ⟨htenant, hseen, hall⟩

namespace Bundle

/-- The bundle is made of what a document holds. -/
def IsOf (o : Options) (t : FileTree) (document : String) (b : Bundle) : Prop :=
  ∃ s, schemaOfRead document (t.read document) = .ok s ∧ s.qualifiedName = b.name ∧
    unitsOf o document s = .ok b.units

theorem IsOf.units_ne_nil {o : Options} {t : FileTree} {document : String} {b : Bundle}
    (h : IsOf o t document b) : b.units ≠ [] := by
  obtain ⟨s, _, _, hunits⟩ := h
  obtain ⟨g, _, hunits⟩ := bind_eq_ok.mp (mapError_eq_ok.mp hunits)
  have hmodules := Generator.modules_of_units hunits
  intro hnil
  rw [hnil] at hmodules
  cases harrangement : o.configuration.arrangement <;> rw [harrangement] at hmodules <;>
    simp at hmodules

end Bundle

section

variable {o : Options} {before : List (String × String)} {b : Bundle} {bs : List Bundle}
  {p p' q : Progress} {t t' u : FileTree} {documents : List String}

/-! ### The run that writes -/

/-- A run that writes has taken bundles to the places that the schemas before them left, and has told of
their files. -/
structure Delivers (o : Options) (before : List (String × String)) (bs : List Bundle)
    (p p' : Progress) (t t' : FileTree) : Prop where
  remembers : Remembers o.strategy (before ++ bs.map Bundle.call) p'.tenancy
  told : shown p'.lines
    = shown p.lines ++ (delivered o.strategy o.output before bs).map ("Wrote " ++ ·)
  wrote : Wrote (delivered o.strategy o.output before bs) t t'
  plain : ∀ x ∈ deliveries o.strategy o.output before bs, ∀ u ∈ x.2.units, Name.isModule u.module

theorem Delivers.nil (h : Remembers o.strategy before p.tenancy) (t : FileTree) :
    Delivers o before [] p p t t := by
  refine ⟨?_, ?_, Wrote.refl t, List.forall_mem_nil _⟩
  · rwa [List.map_nil, List.append_nil]
  · exact (List.append_nil _).symm

theorem Delivers.cons {p₁ : Progress} {t₁ : FileTree} (h : Delivers o before [b] p p₁ t t₁)
    (h' : Delivers o (before ++ [b.call]) bs p₁ p' t₁ t') :
    Delivers o before (b :: bs) p p' t t' := by
  refine ⟨?_, ?_, ?_, ?_⟩
  · have hall := h'.remembers
    rwa [List.append_assoc] at hall
  · rw [h'.told, h.told, delivered_cons b bs, List.map_append, List.append_assoc]
  · rw [delivered_cons]
    exact h.wrote.append h'.wrote
  · rw [deliveries_cons, List.forall_mem_append]
    exact ⟨h.plain, h'.plain⟩

theorem Delivers.kept (h : Delivers o before bs p p' t t') : Kept Path.IsSource t t' := by
  refine h.wrote.kept.mono ?_
  rintro q ⟨path, hmem, rfl⟩
  obtain ⟨x, hx, hpath⟩ := List.mem_flatMap.mp hmem
  obtain ⟨v, hv, rfl⟩ := List.mem_map.mp hpath
  rw [(SourceUnit.isPlain_fileName (h.plain x hx v hv)).resolve_join]
  exact Path.isSource_append _ v.module

theorem wrote_writeUnits {directory : String} : ∀ {units : List SourceUnit} {p p' : Progress}
    {d : OutputDirectory} {t t' : FileTree}, d.path = directory →
      (writeUnits p d units : StateM FileTree _) t = ((p', none), t') →
      (∀ u ∈ units, Name.isModule u.module) ∧
        Wrote (units.map fun u => Path.join directory u.fileName) t t'
  | [], p, p', d, t, t', _, h => by
      cases h
      exact ⟨List.forall_mem_nil _, Wrote.refl t⟩
  | v :: units, p, p', d, t, t', hd, h => by
      rw [writeUnits, FileTree.bind_apply] at h
      rcases hwrite : (d.write v : StateM FileTree _) t with ⟨outcome, t₁⟩
      rw [hwrite] at h
      cases outcome with
      | error f => cases h
      | ok d' =>
          obtain ⟨hmodule, hpath, hwrote⟩ := OutputDirectory.wrote_of_write hwrite
          obtain ⟨hmodules, hrest⟩ := wrote_writeUnits (hpath.trans hd) h
          rw [OutputDirectory.pathOf, hd] at hwrote
          exact ⟨List.forall_mem_cons.mpr ⟨hmodule, hmodules⟩, hwrote.append hrest⟩

/-- The units of a bundle are written to the place that the schemas before it leave. -/
theorem Delivers.proceed (ho : o.Writes) {directory : String}
    (hplace : (placementAfter o.strategy o.output before b.name
      (SourceUnit.digest b.units)).directory? = some directory)
    (hp : Remembers o.strategy (before ++ [b.call]) p.tenancy)
    (hrun : (emit.proceed o b.units p directory : StateM FileTree _) t = ((p', none), t')) :
    Delivers o before [b] p p' t t' := by
  unfold emit.proceed at hrun
  rw [ho.real] at hrun
  have hrun : (writeUnits p { path := directory, force := o.force } b.units : StateM FileTree _) t
      = ((p', none), t') := hrun
  obtain ⟨hlines, htenants⟩ := writeUnits_eq_none rfl hrun
  obtain ⟨hmodules, hwrote⟩ := wrote_writeUnits rfl hrun
  have hone : deliveries o.strategy o.output before [b] = [(directory, b)] := by
    rw [deliveries_singleton, hplace]
    rfl
  have hpaths : delivered o.strategy o.output before [b] = b.paths directory := by
    rw [delivered, hone, List.flatMap_singleton]
  refine ⟨hp.congr htenants, ?_, ?_, ?_⟩
  · rw [hlines, shown_append, shown_plain, hpaths, Bundle.paths, List.map_map]
    rfl
  · rw [hpaths]
    exact hwrote
  · rw [hone, List.forall_mem_singleton]
    exact hmodules

theorem delivers_emit (ho : o.Writes) (hp : Remembers o.strategy before p.tenancy)
    (hrun : (emit o p b.name b.units : StateM FileTree _) t = ((p', none), t')) :
    Delivers o before [b] p p' t t' := by
  have hplacement := Tenancy.register_placement hp o.output b.name (SourceUnit.digest b.units)
  have hnext := hp.register o.output b.name (SourceUnit.digest b.units)
  unfold emit at hrun
  generalize p.tenancy.register o.strategy o.output b.name (SourceUnit.digest b.units) = r
    at hrun hplacement hnext
  obtain ⟨tenancy, placement⟩ := r
  dsimp only at hplacement hnext
  cases placement with
  | skipped =>
      cases hrun
      have hnone : deliveries o.strategy o.output before [b] = [] := by
        rw [deliveries_singleton, ← hplacement]
        rfl
      refine ⟨hnext, ?_, ?_, ?_⟩
      · rw [delivered, hnone]
        exact (List.append_nil _).symm
      · rw [delivered, hnone]
        exact Wrote.refl t
      · rw [hnone]
        exact List.forall_mem_nil _
  | placed directory =>
      have hall := Delivers.proceed ho (by rw [← hplacement]; rfl) hnext hrun
      exact ⟨hall.remembers, hall.told, hall.wrote, hall.plain⟩
  | renamed renamed directory =>
      have hall := Delivers.proceed ho (by rw [← hplacement]; rfl) hnext hrun
      refine ⟨hall.remembers, ?_, hall.wrote, hall.plain⟩
      rw [hall.told, Progress.tell, shown_append, shown_information, List.append_nil]

/-- A bundle that came before is passed over. -/
theorem emit_of_mem (hp : Remembers o.strategy before p.tenancy) (hseen : b.call ∈ before)
    (t : FileTree) : ∃ tenancy,
      (emit o p b.name b.units : StateM FileTree _) t = (({ p with tenancy }, none), t) := by
  have hplacement := Tenancy.register_placement hp o.output b.name (SourceUnit.digest b.units)
  have hskipped : placementAfter o.strategy o.output before b.name (SourceUnit.digest b.units)
      = .skipped := if_pos hseen
  rw [hskipped] at hplacement
  unfold emit
  generalize p.tenancy.register o.strategy o.output b.name (SourceUnit.digest b.units) = r
    at hplacement ⊢
  obtain ⟨tenancy, placement⟩ := r
  obtain rfl := hplacement
  exact ⟨tenancy, rfl⟩

/-- The run that writes makes a bundle of each document, and delivers the bundles. -/
theorem processAll_delivers (ho : o.Writes)
    (hread : ∀ document ∈ documents, ∀ v, Kept Path.IsSource u v → ∀ bytes,
      v.read document = .ok bytes → u.read document = .ok bytes)
    (hkept : Kept Path.IsSource u t) (hp : Remembers o.strategy before p.tenancy)
    (hrun : (processAll o p 0 documents : StateM FileTree _) t = ((p', 0), t')) :
    ∃ bs, List.Forall₂ (Bundle.IsOf o u) documents bs ∧ Delivers o before bs p p' t t' := by
  induction documents generalizing before p t with
  | nil =>
      cases hrun
      exact ⟨[], .nil, Delivers.nil hp _⟩
  | cons document documents ih =>
      obtain ⟨hdocument, hdocuments⟩ := List.forall_mem_cons.mp hread
      obtain ⟨p₁, t₁, hfirst, hrest⟩ := processAll_cons_eq_zero.mp hrun
      obtain ⟨s, units, hload, hunits, hemit⟩ := processDocument_eq_none ho.all hfirst
      have hload' := schemaOfRead_of_read (hdocument t hkept) hload
      have hone : Delivers o before [⟨s.qualifiedName, units⟩] p p₁ t t₁ := delivers_emit ho hp hemit
      obtain ⟨bs, hbs, hall⟩ := ih hdocuments (hkept.trans hone.kept) hone.remembers hrest
      exact ⟨_ :: bs, .cons ⟨s, hload', rfl, hunits⟩ hbs, hone.cons hall⟩

/-! ### The run that lists -/

theorem shown_listing (bs : List Bundle) :
    shown (bs.flatMap fun b => listing b.name b.units) = bs.flatMap Bundle.lines := by
  induction bs with
  | nil => rfl
  | cons b bs ih =>
      rw [List.flatMap_cons, List.flatMap_cons, shown_append, ih]
      exact congrArg (· ++ _) (shown_plain b.units fun u => b.name ++ "/" ++ u.fileName)

theorem processDocument_list (hall : o.listOnly = true) {document : String}
    (h : b.IsOf o t document) :
    (processDocument o q document : StateM FileTree _) t
      = ((q.tell (listing b.name b.units), none), t) := by
  obtain ⟨s, hload, hname, hunits⟩ := h
  unfold processDocument
  rw [FileTree.bind_apply, snd_ofFile, fst_ofFile, hload]
  dsimp only
  rw [hunits]
  dsimp only
  rw [if_pos hall, hname]
  rfl

theorem processAll_list (hall : o.listOnly = true) (h : List.Forall₂ (Bundle.IsOf o t) documents bs) :
    (processAll o q 0 documents : StateM FileTree _) t
      = ((q.tell (bs.flatMap fun b => listing b.name b.units), 0), t) := by
  induction h generalizing q with
  | nil =>
      rw [List.flatMap_nil, Progress.tell, List.append_nil]
      rfl
  | cons hfirst _ ih =>
      rw [processAll_cons_eq_zero]
      refine ⟨_, _, processDocument_list hall hfirst, ?_⟩
      rw [ih, List.flatMap_cons, Progress.tell, Progress.tell, Progress.tell, List.append_assoc]

/-! ### Directories -/

/-- A run over a directory in which no document fails shows what it has told of the documents. -/
theorem run_directory_iff {arguments : List String} {path : String} {r : Report}
    (hrequest : Request.ofArguments arguments = .run o) (horigin : o.origin = .directory path)
    (hquiet : o.verbosity = 0) :
    ((run arguments : StateM FileTree Report) t = (r, t') ∧ r.code = 0) ↔
      t.kind? path = some .directory ∧ ∃ p, r = { output := shown p.lines } ∧
        (processAll o (scanning path) 0 (documentsBelow t path) : StateM FileTree _) t
          = ((p, 0), t') := by
  have htellings : tellings o t = (runDirectory o path : StateM FileTree _) t := by
    rw [tellings, horigin]
  have hshown : ∀ p : Progress,
      shown (conclude o (p.tell [processed t path])).lines = shown p.lines := by
    intro p
    rw [conclude, Progress.tell, shown_append, shown_summary, List.append_nil, Progress.tell,
      shown_append]
    exact List.append_nil _
  unfold run
  rw [hrequest, perform_run, hquiet, htellings]
  constructor
  · rintro ⟨hrun, hcode⟩
    rcases htold : (runDirectory o path : StateM FileTree _) t with ⟨⟨lines, trouble⟩, t₁⟩
    rw [htold] at hrun
    obtain ⟨rfl, rfl⟩ := Prod.mk.inj hrun
    cases trouble with
    | some trouble => cases hcode
    | none =>
        obtain ⟨hkind, p, rfl, hdone⟩ := runDirectory_eq_none.mp htold
        refine ⟨hkind, p, ?_, hdone⟩
        rw [← hshown p]
        rfl
  · rintro ⟨hkind, p, rfl, hdone⟩
    rw [runDirectory_eq_none.mpr ⟨hkind, p, rfl, hdone⟩, ← hshown p]
    exact ⟨rfl, rfl⟩

/-- **Lists of files.**  Where a run over a directory writes, has not been asked for more messages and exits
without an error, each document below the directory holds a schema with some code.  The run tells of the files
of these bundles, each at the place that those before it leave, and it has written these files and no others.
The same arguments with the flag of a list, on the same files, list the units of all bundles under the names of
their schemas, and leave all files as they are.  The lines are the paths of the files written in the output
directory exactly if no two schemas have one name, and each name can be that of a directory. -/
theorem listOnly_lists {arguments : List String} {path : String} {r : Report}
    (hrequest : Request.ofArguments arguments = .run o) (horigin : o.origin = .directory path)
    (hquiet : o.verbosity = 0) (hall : o.listOnly = false) (hreal : o.dryRun = false)
    (ht : t.IsSound) (hrun : (run arguments : StateM FileTree Report) t = (r, t'))
    (hcode : r.code = 0) :
    Request.ofArguments ("--list-only" :: arguments) = .run (o.set .listOnly) ∧
      ∃ bs : List Bundle, List.Forall₂ (Bundle.IsOf o t) (documentsBelow t path) bs ∧
        r = { output := (delivered o.strategy o.output [] bs).map ("Wrote " ++ ·) } ∧
        Wrote (delivered o.strategy o.output [] bs) t t' ∧
        (∀ list, Request.ofArguments list = .run (o.set .listOnly) →
          (run list : StateM FileTree Report) t = ({ output := bs.flatMap Bundle.lines }, t)) ∧
        (delivered o.strategy o.output [] bs = (bs.flatMap Bundle.lines).map (Path.join o.output) ∧
            (∀ line ∈ bs.flatMap Bundle.lines, Path.isAbsolute line = false) ↔
          (bs.map Bundle.name).Nodup ∧ ∀ b ∈ bs, Path.IsFolder b.name) := by
  refine ⟨ofArguments_flag .listOnly hrequest hall, ?_⟩
  obtain ⟨hkind, p, rfl, hdone⟩ := (run_directory_iff hrequest horigin hquiet).mp ⟨hrun, hcode⟩
  have hread : ∀ document ∈ documentsBelow t path, ∀ v, Kept Path.IsSource t v → ∀ bytes,
      v.read document = .ok bytes → t.read document = .ok bytes :=
    fun _ hmem _ hkept _ hbytes => read_of_mem_documentsBelow ht hmem hkept hbytes
  obtain ⟨bs, hbs, hdelivers⟩ := processAll_delivers ⟨hquiet, hall, hreal⟩ hread (Kept.refl _ t)
    (Remembers.empty o.strategy) hdone
  have hunits : ∀ b ∈ bs, b.units ≠ [] :=
    forall_of_forall₂ (hbs.imp fun _ _ h => h.units_ne_nil)
  refine ⟨bs, hbs, ?_, hdelivers.wrote, fun list hlist => ?_, ?_⟩
  · rw [hdelivers.told]
    rfl
  · have hlisted := processAll_list (o := o.set .listOnly) (q := scanning path) rfl hbs
    obtain ⟨hrun', -⟩ := (run_directory_iff hlist horigin hquiet).mpr ⟨hkind, _, rfl, hlisted⟩
    rw [hrun', Progress.tell, shown_append, shown_listing]
    rfl
  · have hiff := tell_delivered_iff hunits hdelivers.plain
    rw [and_comm] at hiff
    simpa [Tell] using hiff

end

/-! ### Two names, and one that comes twice -/

namespace Garage

theorem name_of_isOf {document name : String} {b : Bundle} (h : b.IsOf options tree document)
    (hname : (schemaOfRead document (tree.read document)).toOption.map Schema.qualifiedName
      = some name) : b.name = name := by
  obtain ⟨s, hload, hs, _⟩ := h
  rw [hload] at hname
  rw [← hs]
  exact Option.some.inj hname

theorem names_eq {bs : List Bundle}
    (h : List.Forall₂ (Bundle.IsOf options tree) (documentsBelow tree "irs") bs) :
    bs.map Bundle.name = ["truck", "van"] := by
  rw [documentsBelow_tree] at h
  cases h with
  | cons htruck h =>
      cases h with
      | cons hvan h =>
          cases h
          have hfirst : _ = "truck" := name_of_isOf htruck (by decide +kernel)
          have hsecond : _ = "van" := name_of_isOf hvan (by decide +kernel)
          rw [List.map_cons, List.map_singleton, hfirst, hsecond]

end Garage

/-- Two documents with names of their own: the lines are the paths of the files. -/
theorem listOnly_lists_garage :
    ∃ r t' lines, (run Garage.arguments : StateM FileTree Report) Garage.tree = (r, t') ∧
      r.code = 0 ∧
      (run ("--list-only" :: Garage.arguments) : StateM FileTree Report) Garage.tree
        = ({ output := lines }, Garage.tree) ∧
      r = { output := (lines.map (Path.join "out")).map ("Wrote " ++ ·) } ∧
      ∀ line ∈ lines, Path.isAbsolute line = false := by
  obtain ⟨hrequest, bs, hbs, hr, -, hlist, hiff⟩ := listOnly_lists Garage.request_eq rfl rfl rfl rfl
    Garage.isSound_tree rfl Garage.code_eq
  have hnames := Garage.names_eq hbs
  have hfolder : ∀ b ∈ bs, Path.IsFolder b.name := by
    have hall : ∀ name ∈ ["truck", "van"], Path.IsFolder name := by
      simp only [List.forall_mem_cons, List.not_mem_nil, false_imp_iff, implies_true, and_true]
      exact ⟨⟨by decide, by decide, by decide⟩, ⟨by decide, by decide, by decide⟩⟩
    exact fun b hb => hall _ (hnames ▸ List.mem_map_of_mem hb)
  obtain ⟨hpaths, hlines⟩ := hiff.mpr ⟨hnames ▸ by decide, hfolder⟩
  refine ⟨_, _, _, rfl, Garage.code_eq, hlist _ hrequest, ?_, hlines⟩
  rw [hr, hpaths]
  rfl

namespace Depot

/-- Two documents that are alike. -/
def tree : FileTree where
  entries := [(["work"], .directory), (["work", "irs"], .directory),
    (["work", "irs", "a.json"], .file (Garage.document "van").toUTF8),
    (["work", "irs", "b.json"], .file (Garage.document "van").toUTF8)]
  here := ["work"]

def schema : Schema := { packageName := "van" }

theorem documentsBelow_tree : documentsBelow tree "irs" = ["irs/a.json", "irs/b.json"] := by
  have hlocate : tree.locate "irs" = .ok ["work", "irs"] := by rfl
  unfold documentsBelow FileTree.filesBelow FileTree.below
  rw [hlocate]
  dsimp only
  rw [List.mergeSort_of_pairwise (by decide)]
  decide

/-- The run that writes, after its first document. -/
def first : (Progress × Option Trouble) × FileTree :=
  (processDocument Garage.options (scanning "irs") "irs/a.json" : StateM FileTree _) tree

theorem holds_schema : ∀ document ∈ ["irs/a.json", "irs/b.json"],
    (schemaOfRead document (tree.read document)).toOption = some schema := by decide +kernel

theorem first_succeeds : first.1.2 = none ∧
    (schemaOfRead "irs/b.json" (first.2.read "irs/b.json")).toOption = some schema := by decide +kernel

/-- The code of the schema is a root. -/
theorem exists_bundle : ∃ b : Bundle, b.name = schema.qualifiedName ∧
    (∀ document, unitsOf Garage.options document schema = .ok b.units) ∧
    b.lines = ["van/lib.rs"] ∧ b.paths (Path.join "out" b.name) = ["out/van/lib.rs"] := by
  have hmodules : (unitsOf Garage.options "" schema).toOption.map (·.map (·.module))
      = some ["lib"] := by decide +kernel
  obtain ⟨units, hunits, hmodules⟩ := Option.map_eq_some_iff.mp hmodules
  match units, hmodules with
  | [u], hmodule =>
      have hmodule : u.module = "lib" := List.singleton_inj.mp hmodule
      have hname : schema.qualifiedName = "van" := by decide
      refine ⟨⟨schema.qualifiedName, [u]⟩, rfl, fun document => ?_, ?_, ?_⟩
      · exact mapError_eq_ok.mpr (mapError_eq_ok.mp (toOption_eq_some.mp hunits))
      · have hline : "van" ++ "/" ++ ("lib" ++ ".rs") = "van/lib.rs" := by decide
        rw [Bundle.lines, List.map_singleton, SourceUnit.fileName, hmodule, hname, hline]
      · have hpath : Path.join (Path.join "out" "van") ("lib" ++ ".rs") = "out/van/lib.rs" := by decide
        rw [Bundle.paths, List.map_singleton, SourceUnit.fileName, hmodule, hname, hpath]

theorem isOf_tree {b : Bundle} (hname : b.name = schema.qualifiedName)
    (hunits : ∀ document, unitsOf Garage.options document schema = .ok b.units) {document : String}
    (h : document ∈ ["irs/a.json", "irs/b.json"]) : b.IsOf Garage.options tree document :=
  ⟨schema, toOption_eq_some.mp (holds_schema document h), hname.symm, hunits document⟩

/-- The second document is passed over. -/
theorem processAll_eq : ∃ p t', (processAll Garage.options (scanning "irs") 0 ["irs/a.json", "irs/b.json"]
      : StateM FileTree _) tree = ((p, 0), t') ∧ shown p.lines = ["Wrote out/van/lib.rs"] := by
  obtain ⟨b, hname, hunits, -, hpaths⟩ := exists_bundle
  have hwrites : Garage.options.Writes := ⟨rfl, rfl, rfl⟩
  obtain ⟨htrouble, hsecond⟩ := first_succeeds
  rw [toOption_eq_some] at hsecond
  rcases hfirst : first with ⟨⟨p, trouble⟩, t'⟩
  rw [hfirst] at hsecond htrouble
  obtain rfl : trouble = none := htrouble
  obtain ⟨s, units, hload, hunits', hemit⟩ := processDocument_eq_none rfl hfirst
  obtain rfl : schema = s := by
    have hschema := holds_schema "irs/a.json" (by decide)
    rw [hload] at hschema
    exact (Option.some.inj hschema).symm
  obtain rfl : b.units = units := by
    have hsame := hunits "irs/a.json"
    rw [hunits'] at hsame
    exact (Except.ok.inj hsame).symm
  rw [← hname] at hemit
  have hdelivers := delivers_emit hwrites (Remembers.empty _) hemit
  obtain ⟨tenancy, hskipped⟩ := emit_of_mem hdelivers.remembers (List.mem_singleton_self _) t'
  refine ⟨{ p with tenancy }, t', ?_, ?_⟩
  · rw [processAll_cons_eq_zero]
    refine ⟨p, t', hfirst, ?_⟩
    rw [processAll_cons_eq_zero]
    refine ⟨_, t', ?_, rfl⟩
    rw [processDocument_of_emit rfl hsecond (hunits _), ← hname]
    exact hskipped
  · show shown p.lines = _
    rw [hdelivers.told, delivered, deliveries_singleton]
    show [] ++ ((b.paths (Path.join "out" b.name)) ++ []).map ("Wrote " ++ ·) = _
    rw [hpaths]
    rfl

end Depot

/-- A schema that comes twice is written once and listed twice. -/
theorem duplicate_is_listed :
    Depot.tree.kind? "out" = none ∧
      ((run Garage.arguments : StateM FileTree Report) Depot.tree).1
        = { output := ["Wrote out/van/lib.rs"] } ∧
      (run ("--list-only" :: Garage.arguments) : StateM FileTree Report) Depot.tree
        = ({ output := ["van/lib.rs", "van/lib.rs"] }, Depot.tree) := by
  have hkind : Depot.tree.kind? "irs" = some .directory := by decide
  refine ⟨by decide, ?_, ?_⟩
  · obtain ⟨p, t', hdone, hshown⟩ := Depot.processAll_eq
    rw [← Depot.documentsBelow_tree] at hdone
    obtain ⟨hrun, -⟩ := (run_directory_iff Garage.request_eq rfl rfl).mpr ⟨hkind, p, rfl, hdone⟩
    rw [hrun, hshown]
  · obtain ⟨b, hname, hunits, hlines, -⟩ := Depot.exists_bundle
    have hbs : List.Forall₂ (Bundle.IsOf (Garage.options.set .listOnly) Depot.tree)
        (documentsBelow Depot.tree "irs") [b, b] := by
      rw [Depot.documentsBelow_tree]
      exact .cons (Depot.isOf_tree hname hunits (by decide))
        (.cons (Depot.isOf_tree hname hunits (by decide)) .nil)
    have hrequest := ofArguments_flag .listOnly Garage.request_eq rfl
    obtain ⟨hrun, -⟩ := (run_directory_iff hrequest rfl rfl).mpr
      ⟨hkind, _, rfl, processAll_list (q := scanning "irs") rfl hbs⟩
    rw [show "--list-only" = Flag.listOnly.argument from rfl, hrun, Progress.tell, shown_append,
      shown_listing, List.flatMap_cons, List.flatMap_singleton, hlines]
    rfl

end Command
end WireCodec
