import WireCodec.Proofs.Sinks
/-! # Calls of an output directory

A sink is called for one unit after another, whatever becomes of each call (`Sink.callAll`).  Called so,
an output directory changes the files that it lists and no others, and each of these holds the source of
the last accepted unit of its module (`OutputDirectory.callAll_files`).  A call that fails changes no file.

Without force no file is ever changed that was there before: what stands at a path is found before it is
written, since a path that can be written leads to whatever stands at its place
(`FileTree.at?_eq_none_of_write`). -/

namespace WireCodec

/-! ### What stands where a file is written -/

namespace Path

theorem exists_pieces_of_getLast? {path : String} (hempty : path ≠ "")
    (hslash : path.toList.getLast? ≠ some '/') :
    ∃ front last, pieces path = front ++ [last] ∧ last ≠ "" := by
  obtain ⟨cs, c, hcs⟩ : ∃ cs c, path.toList = cs ++ [c] :=
    (List.eq_nil_or_concat' path.toList).resolve_left (by simpa using hempty)
  have hc : c ≠ '/' := by simpa [hcs] using hslash
  have hpath : path = String.ofList cs ++ String.ofList [c] := by
    simp [← String.toList_inj, hcs]
  have hlast : '/' ∉ (String.ofList [c]).toList := by simpa using hc.symm
  refine ⟨(pieces (String.ofList cs)).dropLast, name (String.ofList cs) ++ String.ofList [c], ?_, ?_⟩
  · rw [hpath]
    exact pieces_append hlast (String.ofList cs)
  · intro hnone
    have hlist := congrArg String.toList hnone
    simp at hlist

end Path

namespace FileTree

variable {t t' : FileTree} {path text : String}

theorem isDirectory_of_walk : ∀ {ps : List String} {p q : Place}, t.walk p ps = .ok q →
    t.isDirectory q → t.isDirectory p
  | [], p, q, h, hq => by
      cases h
      exact hq
  | piece :: ps, p, q, h, _ => by
      rw [walk] at h
      by_contra hp
      rw [if_pos (by simpa using hp)] at h
      cases h

theorem walk_append (ps qs : List String) (p : Place) :
    t.walk p (ps ++ qs) = (t.walk p ps >>= fun q => t.walk q qs) := by
  induction ps generalizing p with
  | nil => rfl
  | cons piece ps ih =>
      rw [List.cons_append, walk, walk]
      split_ifs
      · rfl
      · exact ih p
      · exact ih p.dropLast
      · rfl
      · rfl
      · exact ih (p ++ [piece])

theorem walk_of_filter {ps : List String} {p q : Place}
    (h : t.walk p (ps.filter (· ≠ "")) = .ok q) (hq : t.isDirectory q) : t.walk p ps = .ok q := by
  induction ps generalizing p with
  | nil => exact h
  | cons piece ps ih =>
      by_cases hpiece : piece = ""
      · subst hpiece
        have hp := isDirectory_of_walk h hq
        rw [List.filter_cons_of_neg (by decide)] at h
        rw [walk, if_neg (by simpa using hp), if_pos (.inl rfl)]
        exact ih h
      · rw [List.filter_cons_of_pos (by simpa using hpiece), walk] at h
        rw [walk]
        split_ifs at h ⊢
        · exact ih h
        · exact ih h
        · exact ih h

/-- What a path's slot says of the path. -/
structure IsSlot (t : FileTree) (path : String) (directory : Place) (last : String) : Prop where
  check : checkPath path = .ok ()
  walk : t.walk (t.origin path) ((Path.pieces path).filter (· ≠ "")).dropLast = .ok directory
  final : ((Path.pieces path).filter (· ≠ "")).getLast? = some last
  isDirectory : t.isDirectory directory
  name : ¬ (last = "." ∨ last = "..")
  short : ¬ longestName < last.utf8ByteSize

theorem isSlot_of_slot {directory : Place} {last : String}
    (h : t.slot path = .ok (directory, some last)) : IsSlot t path directory last := by
  unfold slot at h
  simp only [bind_eq_ok] at h
  obtain ⟨_, hcheck, q, hwalk, h⟩ := h
  cases hlast : ((Path.pieces path).filter (· ≠ "")).getLast? with
  | none =>
      rw [hlast] at h
      cases h
  | some name =>
      rw [hlast] at h
      dsimp only at h
      split_ifs at h with hdirectory hdots hshort
      all_goals cases h
      exact ⟨hcheck, hwalk, hlast, by simpa using hdirectory, hdots, hshort⟩

theorem ne_empty_of_checkPath (h : checkPath path = .ok ()) : path ≠ "" := by
  rintro rfl
  exact absurd h (by decide)

theorem IsSlot.locate {directory : Place} {last : String} (h : IsSlot t path directory last)
    (hslash : path.toList.getLast? ≠ some '/') (hthere : (t.at? (directory ++ [last])).isSome) :
    t.locate path = .ok (directory ++ [last]) := by
  obtain ⟨front, name, hpieces, hname⟩ :=
    Path.exists_pieces_of_getLast? (ne_empty_of_checkPath h.check) hslash
  have hnamed : (Path.pieces path).filter (· ≠ "") = front.filter (· ≠ "") ++ [name] := by
    simp [hpieces, hname]
  have hwalk := h.walk
  have hlast := h.final
  rw [hnamed, List.dropLast_concat] at hwalk
  rw [hnamed, List.getLast?_concat] at hlast
  obtain rfl := Option.some.inj hlast
  have hdots : name ≠ "." ∧ name ≠ ".." := not_or.mp h.name
  unfold FileTree.locate
  rw [h.check, hpieces]
  show t.walk (t.origin path) (front ++ [name]) = _
  rw [walk_append, walk_of_filter hwalk h.isDirectory]
  show t.walk directory [name] = _
  have hskip : ¬ (name = "" ∨ name = ".") := not_or.mpr ⟨hname, hdots.1⟩
  have hshort := h.short
  have hdirectory := h.isDirectory
  simp [FileTree.walk, hdirectory, hskip, hdots.2, hshort, Option.isSome_iff_ne_none.mp hthere]

theorem at?_eq_none_of_write (h : t.write path text = .ok t') (hfree : t.kind? path = none) :
    t.at? (Path.resolve t.here path) = none := by
  by_contra hthere
  rw [← ne_eq, Option.ne_none_iff_isSome] at hthere
  unfold write at h
  simp only [bind_eq_ok] at h
  obtain ⟨⟨directory, last⟩, hslot, h⟩ := h
  cases last with
  | none => cases h
  | some last =>
      rw [slot_eq_ok hslot] at hthere
      dsimp only at h
      have hslash : path.toList.getLast? ≠ some '/' := by
        intro hend
        rw [if_pos (.inl hend)] at h
        cases h
      obtain ⟨entry, hentry⟩ := Option.isSome_iff_exists.mp hthere
      have hlocate := (isSlot_of_slot hslot).locate hslash hthere
      have hreach : t.reach path = .ok entry := by
        simp [reach, hlocate, hentry, bind, Except.bind, pure, Except.pure]
      have hkind : t.kind? path = some entry.kind := by
        rw [kind?, hreach]
        rfl
      rw [hfree] at hkind
      cases hkind

end FileTree

/-! ### Calls of a sink -/

namespace Sink

section

variable {m : Type → Type} [Monad m] {σ : Type} [Sink m σ]

/-- Offers a unit to a sink, which is there afterwards in any case. -/
def call (s : σ) (u : SourceUnit) : m (σ × Except Fault Unit) := do
  match ← Sink.write u s with
  | .ok next => return (next, .ok ())
  | .error f => return (s, .error f)

/-- Offers units to a sink one after another, whatever becomes of each. -/
def callAll (s : σ) : List SourceUnit → m (σ × List (Except Fault Unit))
  | [] => return (s, [])
  | u :: us => do
    let (next, outcome) ← call s u
    let (last, outcomes) ← callAll next us
    return (last, outcome :: outcomes)

end

/-- The units that were accepted. -/
def accepted (us : List SourceUnit) (outcomes : List (Except Fault Unit)) : List SourceUnit :=
  ((us.zip outcomes).filter (·.2.isOk)).map (·.1)

theorem accepted_cons_ok (u : SourceUnit) (us : List SourceUnit)
    (outcomes : List (Except Fault Unit)) :
    accepted (u :: us) (.ok () :: outcomes) = u :: accepted us outcomes := rfl

theorem accepted_map_ok (us : List SourceUnit) : accepted us (us.map fun _ => .ok ()) = us := by
  induction us with
  | nil => rfl
  | cons u us ih => rw [List.map_cons, accepted_cons_ok, ih]

variable {σ : Type} [Sink (StateM FileTree) σ]

theorem call_of_write_eq_ok {s s' : σ} {u : SourceUnit} {t t' : FileTree}
    (h : (Sink.write u s : StateM FileTree _) t = (.ok s', t')) :
    (call s u : StateM FileTree _) t = ((s', .ok ()), t') := by
  rw [call, FileTree.bind_apply, h]
  rfl

theorem call_of_write_eq_error {s : σ} {u : SourceUnit} {f : Fault} {t t' : FileTree}
    (h : (Sink.write u s : StateM FileTree _) t = (.error f, t')) :
    (call s u : StateM FileTree _) t = ((s, .error f), t') := by
  rw [call, FileTree.bind_apply, h]
  rfl

theorem callAll_cons_apply (s : σ) (u : SourceUnit) (us : List SourceUnit) (t : FileTree) :
    (callAll s (u :: us) : StateM FileTree _) t =
      let first := (call s u : StateM FileTree _) t
      let rest := (callAll first.1.1 us : StateM FileTree _) first.2
      ((rest.1.1, first.1.2 :: rest.1.2), rest.2) := rfl

/-- A run up to the first refusal that refuses nothing is a sequence of calls that are accepted. -/
theorem callAll_of_writeAll {us : List SourceUnit} {s s' : σ} {t t' : FileTree}
    (h : (writeAll us s : StateM FileTree _) t = ((s', .ok ()), t')) :
    (callAll s us : StateM FileTree _) t = ((s', us.map fun _ => .ok ()), t') := by
  induction us generalizing s t with
  | nil =>
      cases h
      rfl
  | cons u us ih =>
      rw [writeAll, FileTree.bind_apply] at h
      cases hfirst : (Sink.write u s : StateM FileTree _) t with
      | mk r t₁ =>
        rw [hfirst] at h
        cases r with
        | error f => cases h
        | ok s₁ =>
            rw [callAll_cons_apply, call_of_write_eq_ok hfirst]
            dsimp only
            rw [ih h]
            rfl

end Sink

/-! ### One call of an output directory -/

namespace OutputDirectory

open FileTree (Kept)

variable {d : OutputDirectory} {u : SourceUnit} {t : FileTree}

/-- The directory after it accepted a unit. -/
def record (d : OutputDirectory) (u : SourceUnit) : OutputDirectory :=
  { d with written := d.written ++ [d.pathOf u] }

/-- What placing a unit does: it is refused, and nothing is done, or its file is written. -/
theorem place_cases (d : OutputDirectory) (u : SourceUnit) (t : FileTree) :
    (∃ f, (d.place u : StateM FileTree _) t = (.error f, t)) ∨
      ∃ t', (d.place u : StateM FileTree _) t = (.ok (d.record u), t') ∧
        t.write (d.pathOf u) u.source = .ok t' ∧
        (d.force = false → t.kind? (d.pathOf u) = none) := by
  have hkind : (Files.kind? (d.pathOf u) : StateM FileTree _) t = (t.kind? (d.pathOf u), t) := rfl
  have hwrite : (Files.write (d.pathOf u) u.source : StateM FileTree _) t
      = FileTree.change (fun t => t.write (d.pathOf u) u.source) t := rfl
  unfold place
  rw [FileTree.bind_apply, hkind]
  by_cases htaken : ((t.kind? (d.pathOf u)).isSome && !d.force) = true
  · rw [if_pos htaken]
    exact .inl ⟨_, rfl⟩
  · rw [if_neg htaken, FileTree.bind_apply, hwrite, FileTree.change]
    cases hw : t.write (d.pathOf u) u.source with
    | error reason => exact .inl ⟨_, rfl⟩
    | ok t' =>
        refine .inr ⟨t', rfl, rfl, ?_⟩
        intro hforce
        simpa [hforce] using htaken

/-- What a call can do. -/
inductive Step (d : OutputDirectory) (u : SourceUnit) (t : FileTree) :
    (OutputDirectory × Except Fault Unit) × FileTree → Prop
  /-- It is refused, and no file changes. -/
  | refused (f : Fault) (t' : FileTree) (kept : Kept (fun _ => False) t t') :
    Step d u t ((d, .error f), t')
  /-- The file of the unit is written, and no other changes. -/
  | accepted (t' : FileTree) (module : Name.isModule u.module)
    (file : t'.file? (Path.resolve t.here (d.pathOf u)) = some u.source.toUTF8)
    (kept : Kept (· = Path.resolve t.here (d.pathOf u)) t t')
    (free : d.force = false → t.file? (Path.resolve t.here (d.pathOf u)) = none) :
    Step d u t ((d.record u, .ok ()), t')

theorem step_call (d : OutputDirectory) (u : SourceUnit) (t : FileTree) :
    Step d u t ((Sink.call d u : StateM FileTree _) t) := by
  cases hmodule : Name.isModule u.module with
  | false =>
      have hwrite : (Sink.write u d : StateM FileTree _) t
          = (.error (.pathTraversal u.module), t) :=
        congrFun (write_of_not_isModule hmodule d) t
      rw [Sink.call_of_write_eq_error hwrite]
      exact .refused _ _ (Kept.refl _ t)
  | true =>
      -- The directory is made before the unit is placed, which changes no file.
      have hprepared : Kept (fun _ => False) t ((d.prepare : StateM FileTree _) t).2 :=
        (keeps_prepare d t rfl).2
      have hwrite : (Sink.write u d : StateM FileTree _) t
          = match (d.prepare : StateM FileTree _) t with
            | (.error f, t₁) => (.error f, t₁)
            | (.ok _, t₁) => (d.place u : StateM FileTree _) t₁ := by
        have hopen := congrFun (write_of_isModule (m := StateM FileTree) hmodule d) t
        rw [FileTree.bind_apply] at hopen
        refine hopen.trans ?_
        rcases (d.prepare : StateM FileTree _) t with ⟨_ | _, t₁⟩ <;> rfl
      rcases hprepare : (d.prepare : StateM FileTree _) t with ⟨f | made, t₁⟩
      · rw [hprepare] at hwrite hprepared
        rw [Sink.call_of_write_eq_error hwrite]
        exact .refused f t₁ hprepared
      · rw [hprepare] at hwrite hprepared
        dsimp only at hwrite hprepared
        obtain ⟨f, hplace⟩ | ⟨t', hplace, hw, hfree⟩ := place_cases d u t₁
        · rw [hplace] at hwrite
          rw [Sink.call_of_write_eq_error hwrite]
          exact .refused f t₁ hprepared
        · rw [hplace] at hwrite
          rw [Sink.call_of_write_eq_ok hwrite]
          have hfile := FileTree.file?_write hw
          have hhere : t'.here = t₁.here := by
            obtain ⟨_, rfl⟩ := FileTree.write_eq_ok hw
            exact FileTree.here_put _ _
          rw [hprepared.here] at hfile
          refine .accepted t' hmodule ?_ ⟨hhere.trans hprepared.here, ?_⟩ ?_
          · rw [hfile, if_pos rfl]
          · intro q hq
            rw [hfile, if_neg hq]
            exact hprepared.file q id
          · intro hforce
            have hnone := FileTree.at?_eq_none_of_write hw (hfree hforce)
            rw [hprepared.here] at hnone
            rw [← hprepared.file _ id, FileTree.file?, hnone]

/-! ### Runs of an output directory -/

/-- What a run of calls does, whatever becomes of each call. -/
structure Run (d : OutputDirectory) (us : List SourceUnit) (t : FileTree)
    (r : (OutputDirectory × List (Except Fault Unit)) × FileTree) : Prop where
  outcomes : r.1.2.length = us.length
  sink : r.1.1 = { d with written := d.written ++ (Sink.accepted us r.1.2).map d.pathOf }
  here : r.2.here = t.here
  module : ∀ u ∈ Sink.accepted us r.1.2, Name.isModule u.module
  /-- The files of the directory hold the latest accepted sources of their modules, and what they held
  before. -/
  held : ∀ module, Name.isModule module →
    r.2.file? (Path.resolve t.here d.path ++ [module ++ ".rs"])
      = ((SourceUnit.latest? (Sink.accepted us r.1.2) module).map String.toUTF8).or
          (t.file? (Path.resolve t.here d.path ++ [module ++ ".rs"]))
  /-- All other files are as they were. -/
  kept : ∀ p, (∀ u ∈ Sink.accepted us r.1.2, p ≠ Path.resolve t.here (d.pathOf u)) →
    r.2.file? p = t.file? p
  /-- Without force, nothing stood where a file is written. -/
  free : d.force = false → ∀ u ∈ Sink.accepted us r.1.2,
    t.file? (Path.resolve t.here (d.pathOf u)) = none
  /-- Without force, no module is accepted twice. -/
  nodup : d.force = false → ((Sink.accepted us r.1.2).map (·.module)).Nodup

theorem file?_of_accepted {t₁ : FileTree} (hmodule : Name.isModule u.module)
    (hfile : t₁.file? (Path.resolve t.here (d.pathOf u)) = some u.source.toUTF8)
    (hkept : Kept (· = Path.resolve t.here (d.pathOf u)) t t₁) (module : String) :
    t₁.file? (Path.resolve t.here d.path ++ [module ++ ".rs"])
      = if u.module = module then some u.source.toUTF8
        else t.file? (Path.resolve t.here d.path ++ [module ++ ".rs"]) := by
  have hplace := resolve_pathOf hmodule t.here d
  rw [hplace] at hfile hkept
  split_ifs with heq
  · subst heq
    exact hfile
  · apply hkept.file
    intro hsame
    have hname : [module ++ ".rs"] = [u.module ++ ".rs"] := List.append_cancel_left hsame
    rw [List.singleton_inj, String.append_left_inj] at hname
    exact heq hname.symm

namespace Run

variable {us : List SourceUnit} {t₁ : FileTree}
  {r : (OutputDirectory × List (Except Fault Unit)) × FileTree}

theorem nil (d : OutputDirectory) (t : FileTree) : Run d [] t ((d, []), t) where
  outcomes := rfl
  sink := by
    show d = { d with written := d.written ++ [] }
    rw [List.append_nil]
  here := rfl
  module := List.forall_mem_nil _
  held _ _ := rfl
  kept _ _ := rfl
  free _ _ hu := by cases hu
  nodup _ := List.nodup_nil

theorem refuse (h : Run d us t₁ r) (hkept : Kept (fun _ => False) t t₁) (f : Fault) :
    Run d (u :: us) t ((r.1.1, .error f :: r.1.2), r.2) := by
  have hfile : ∀ p, t₁.file? p = t.file? p := fun p => hkept.file p id
  obtain ⟨houtcomes, hsink, hhere, hmodule, hheld, hother, hfree, hnodup⟩ := h
  simp only [hkept.here, hfile] at hheld hother hfree hhere
  exact ⟨by simp [houtcomes], hsink, hhere, hmodule, hheld, hother, hfree, hnodup⟩

/-- Without force, no unit is written to the file of one that was accepted before. -/
theorem resolve_pathOf_ne (h : Run (d.record u) us t₁ r) (hhere : t₁.here = t.here)
    (hfile : t₁.file? (Path.resolve t.here (d.pathOf u)) = some u.source.toUTF8)
    (hforce : d.force = false) {v : SourceUnit} (hv : v ∈ Sink.accepted us r.1.2) :
    Path.resolve t.here (d.pathOf v) ≠ Path.resolve t.here (d.pathOf u) := by
  intro hsame
  have hnone : t₁.file? (Path.resolve t₁.here (d.pathOf v)) = none := h.free hforce v hv
  rw [hhere, hsame, hfile] at hnone
  cases hnone

theorem accept (h : Run (d.record u) us t₁ r) (hmodule : Name.isModule u.module)
    (hfile : t₁.file? (Path.resolve t.here (d.pathOf u)) = some u.source.toUTF8)
    (hkept : Kept (· = Path.resolve t.here (d.pathOf u)) t t₁)
    (hfree : d.force = false → t.file? (Path.resolve t.here (d.pathOf u)) = none) :
    Run d (u :: us) t ((r.1.1, .ok () :: r.1.2), r.2) := by
  have hnew := fun hforce v hv =>
    h.resolve_pathOf_ne hkept.here hfile (v := v) hforce hv
  obtain ⟨houtcomes, hsink, hhere, hmodules, hheld, hother, hfrees, hnodup⟩ := h
  have hpath : ∀ v, (d.record u).pathOf v = d.pathOf v := fun _ => rfl
  simp only [hkept.here, hpath] at hheld hother hfrees hhere
  refine ⟨by simp [houtcomes], ?_, hhere, ?_, ?_, ?_, ?_, ?_⟩
  · rw [hsink, Sink.accepted_cons_ok]
    simp [record, pathOf]
  · rw [Sink.accepted_cons_ok]
    exact List.forall_mem_cons.mpr ⟨hmodule, hmodules⟩
  · intro module hplain
    have hlast : r.2.file? (Path.resolve t.here d.path ++ [module ++ ".rs"])
        = ((SourceUnit.latest? (Sink.accepted us r.1.2) module).map String.toUTF8).or
            (t₁.file? (Path.resolve t.here d.path ++ [module ++ ".rs"])) :=
      hheld module hplain
    rw [Sink.accepted_cons_ok, SourceUnit.latest?, hlast, file?_of_accepted hmodule hfile hkept]
    cases SourceUnit.latest? (Sink.accepted us r.1.2) module <;>
      by_cases hu : u.module = module <;> simp [hu]
  · intro p hp
    rw [Sink.accepted_cons_ok, List.forall_mem_cons] at hp
    rw [hother p hp.2]
    exact hkept.file p hp.1
  · intro hforce
    rw [Sink.accepted_cons_ok, List.forall_mem_cons]
    refine ⟨hfree hforce, fun v hv => ?_⟩
    rw [← hkept.file _ (hnew hforce v hv)]
    exact hfrees hforce v hv
  · intro hforce
    rw [Sink.accepted_cons_ok, List.map_cons, List.nodup_cons]
    refine ⟨fun hmem => ?_, hnodup hforce⟩
    obtain ⟨v, hv, hsame⟩ := List.mem_map.mp hmem
    apply hnew hforce v hv
    rw [pathOf, pathOf, SourceUnit.fileName, SourceUnit.fileName, hsame]

end Run

theorem run_callAll (d : OutputDirectory) (us : List SourceUnit) (t : FileTree) :
    Run d us t ((Sink.callAll d us : StateM FileTree _) t) := by
  induction us generalizing d t with
  | nil => exact .nil d t
  | cons u us ih =>
      have hstep := step_call d u t
      rw [Sink.callAll_cons_apply]
      generalize (Sink.call d u : StateM FileTree _) t = first at hstep ⊢
      cases hstep with
      | refused f t₁ hkept => exact (ih d t₁).refuse hkept f
      | accepted t₁ hmodule hfile hkept hfree =>
          exact (ih (d.record u) t₁).accept hmodule hfile hkept hfree

theorem run_of_writeAll {d' : OutputDirectory} {us : List SourceUnit} {t' : FileTree}
    (h : (Sink.writeAll us d : StateM FileTree _) t = ((d', .ok ()), t')) :
    Run d us t ((d', us.map fun _ => .ok ()), t') := by
  have hrun := run_callAll d us t
  rwa [Sink.callAll_of_writeAll h] at hrun

/-- **What a directory holds.**  After units are all accepted, the files of the directory hold the latest
sources of their modules, and what they held before. -/
theorem writeAll_eq_ok {d' : OutputDirectory} {us : List SourceUnit} {t' : FileTree}
    (h : (Sink.writeAll us d : StateM FileTree _) t = ((d', .ok ()), t')) :
    (∀ u ∈ us, Name.isModule u.module) ∧
      d' = { d with written := d.written ++ us.map d.pathOf } ∧
      ∀ module, Name.isModule module →
        t'.file? (Path.resolve t.here d.path ++ [module ++ ".rs"])
          = ((SourceUnit.latest? us module).map String.toUTF8).or
              (t.file? (Path.resolve t.here d.path ++ [module ++ ".rs"])) := by
  have hrun := run_of_writeAll h
  have hmodule := hrun.module
  have hsink := hrun.sink
  have hheld := hrun.held
  simp only [Sink.accepted_map_ok] at hmodule hsink hheld
  exact ⟨hmodule, hsink, hheld⟩

/-! ### The files of a run -/

theorem kept_of_call_error {f : Fault}
    (h : ((Sink.call d u : StateM FileTree _) t).1.2 = .error f) :
    ((Sink.call d u : StateM FileTree _) t).1.1 = d ∧
      ∀ p, ((Sink.call d u : StateM FileTree _) t).2.file? p = t.file? p := by
  have hstep := step_call d u t
  generalize (Sink.call d u : StateM FileTree _) t = r at hstep h ⊢
  cases hstep with
  | refused f t' hkept => exact ⟨rfl, fun p => hkept.file p id⟩
  | accepted t' _ _ _ _ => cases h

/-- Without force, a call changes no file that is there. -/
theorem kept_of_call (hforce : d.force = false) {p : Place} {bytes : ByteArray}
    (h : t.file? p = some bytes) :
    ((Sink.call d u : StateM FileTree _) t).2.file? p = some bytes := by
  have hstep := step_call d u t
  generalize (Sink.call d u : StateM FileTree _) t = r at hstep ⊢
  cases hstep with
  | refused f t' hkept =>
      rw [← h]
      exact hkept.file p id
  | accepted t' _ _ hkept hfree =>
      rw [← h]
      apply hkept.file
      rintro rfl
      rw [hfree hforce] at h
      cases h

/-- **Calls of an output directory.**  After a run of calls, no file has changed but those that are
listed.  Each of these lies right in the directory, is named for a module of a plain name, and holds the
source of the last unit accepted for that module.  A call that fails changes neither the files nor the
list.  Without force a call changes no file that was there before, and no path is listed twice. -/
theorem callAll_files {path : String} {force : Bool} {us : List SourceUnit} {t : FileTree}
    {r : (OutputDirectory × List (Except Fault Unit)) × FileTree}
    (h : (Sink.callAll { path, force : OutputDirectory } us : StateM FileTree _) t = r) :
    r.1.2.length = us.length ∧
    (∀ p, (∀ listed ∈ r.1.1.written, p ≠ Path.resolve t.here listed) → r.2.file? p = t.file? p) ∧
    r.1.1.written = (Sink.accepted us r.1.2).map (fun u => Path.join path u.fileName) ∧
    (∀ listed ∈ r.1.1.written, ∃ module source, Name.isModule module ∧
      listed = Path.join path (module ++ ".rs") ∧
      Path.resolve t.here listed = Path.resolve t.here path ++ [module ++ ".rs"] ∧
      SourceUnit.latest? (Sink.accepted us r.1.2) module = some source ∧
      r.2.file? (Path.resolve t.here listed) = some source.toUTF8) ∧
    (∀ (d : OutputDirectory) (u : SourceUnit) (t : FileTree) (f : Fault),
      ((Sink.call d u : StateM FileTree _) t).1.2 = .error f →
      ((Sink.call d u : StateM FileTree _) t).1.1 = d ∧
        ∀ p, ((Sink.call d u : StateM FileTree _) t).2.file? p = t.file? p) ∧
    (∀ (d : OutputDirectory) (u : SourceUnit) (t : FileTree), d.force = false →
      ∀ p bytes, t.file? p = some bytes →
        ((Sink.call d u : StateM FileTree _) t).2.file? p = some bytes) ∧
    (force = false → r.1.1.written.Nodup) := by
  have hrun : Run { path, force } us t r := h ▸ run_callAll _ us t
  have hwritten : r.1.1.written
      = (Sink.accepted us r.1.2).map ({ path, force : OutputDirectory }.pathOf) := by
    rw [hrun.sink]
    exact List.nil_append _
  refine ⟨hrun.outcomes, ?_, hwritten, ?_, ?_, ?_, ?_⟩
  · intro p hp
    apply hrun.kept
    intro u hu
    apply hp
    rw [hwritten]
    exact List.mem_map_of_mem hu
  · intro listed hlisted
    rw [hwritten, List.mem_map] at hlisted
    obtain ⟨u, hu, rfl⟩ := hlisted
    have hmodule := hrun.module u hu
    have hplace := resolve_pathOf hmodule t.here { path, force }
    have hsome : (SourceUnit.latest? (Sink.accepted us r.1.2) u.module).isSome :=
      SourceUnit.isSome_latest?_iff.mpr (List.mem_map_of_mem hu)
    obtain ⟨source, hsource⟩ := Option.isSome_iff_exists.mp hsome
    have hheld := hrun.held u.module hmodule
    rw [hsource] at hheld
    refine ⟨u.module, source, hmodule, rfl, hplace, hsource, ?_⟩
    rw [hplace]
    exact hheld
  · intro d u t f h
    exact kept_of_call_error h
  · intro d u t hforce p bytes h
    exact kept_of_call hforce h
  · intro hforce
    rw [hwritten]
    exact (nodup_pathOf_iff hrun.module).mpr (hrun.nodup hforce)

/-! ### A directory with a file in it -/

namespace Occupied

def tree : FileTree where
  entries := [(["work"], .directory), (["work", "out"], .directory),
    (["work", "out", "side.rs"], .file "old".toUTF8)]
  here := ["work"]

def unit (module source : String) : SourceUnit := { module, kind := .enumeration, source }

/-- A module whose file is there, one without a plain name, and one that comes twice. -/
def units : List SourceUnit :=
  [unit "side" "new", unit "Upper" "new", unit "way" "first", unit "way" "second"]

def run : (OutputDirectory × List (Except Fault Unit)) × FileTree :=
  (Sink.callAll { path := "out", force := false : OutputDirectory } units : StateM FileTree _) tree

theorem run_eq :
    (Sink.callAll { path := "out", force := false : OutputDirectory } units : StateM FileTree _) tree
      = run := rfl

end Occupied

theorem callAll_files_occupied :
    Occupied.run.1.1.written = ["out/way.rs"] ∧ Occupied.run.1.1.written.Nodup ∧
      Occupied.run.2.file? ["work", "out", "side.rs"] = some "old".toUTF8 ∧
      Occupied.run.2.file? ["work", "out", "way.rs"] = some "first".toUTF8 := by
  obtain ⟨_, hkept, _, hlisted, _, _, hnodup⟩ := callAll_files Occupied.run_eq
  have hwritten : Occupied.run.1.1.written = ["out/way.rs"] := by decide +kernel
  have haccepted : Sink.accepted Occupied.units Occupied.run.1.2 = [Occupied.unit "way" "first"] := by
    decide +kernel
  have hplace : Path.resolve Occupied.tree.here "out/way.rs" = ["work", "out", "way.rs"] := by
    decide +kernel
  have hside := hkept ["work", "out", "side.rs"] (by
    intro listed hmem
    have hmem : listed ∈ ["out/way.rs"] := hwritten ▸ hmem
    rw [List.mem_singleton.mp hmem, hplace]
    decide)
  have hway : "out/way.rs" ∈ Occupied.run.1.1.written := by
    rw [hwritten]
    exact List.mem_singleton_self _
  obtain ⟨module, source, -, -, -, hlatest, hfile⟩ := hlisted _ hway
  have hsource : some "first" = some source := by
    have hlast : SourceUnit.latest? [Occupied.unit "way" "first"] module = some source :=
      haccepted ▸ hlatest
    simp only [SourceUnit.latest?, Option.none_or] at hlast
    split_ifs at hlast
    exact hlast
  rw [hplace, ← Option.some.inj hsource] at hfile
  exact ⟨hwritten, hnodup rfl, hside, hfile⟩

end OutputDirectory
end WireCodec
