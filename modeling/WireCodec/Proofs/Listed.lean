import Mathlib.Data.List.Induction
import WireCodec.Proofs.Calls
import WireCodec.Proofs.Tenancy
/-! # Documents that are listed

In a sound tree each thing lies in a directory and bears a name that a path can hold.  Whatever lies
below a directory is then reached by the path under which it is listed (`FileTree.IsSound.leads_foldl`).

Code is written to files whose names end like those of no document.  So while a run writes code, the
documents that it has listed hold what they held (`FileTree.IsSound.read_of_kept`). -/

namespace WireCodec

/-! ### Joined paths -/

namespace Path

variable {name parent : String}

theorem IsPlain.pieces_eq (h : IsPlain name) : pieces name = [name] := by
  unfold pieces
  rw [Text.split_of_not_mem h.slash, List.map_singleton, String.ofList_toList]

theorem IsPlain.pieces_join (h : IsPlain name) (hparent : parent ≠ "") :
    ∃ front, pieces (join parent name) = front ++ [name] ∧
      front.filter (· ≠ "") = (pieces parent).filter (· ≠ "") := by
  have hrelative : isAbsolute name = false := h.descends.relative
  have hbeq : (parent == "") = false := beq_eq_false_iff_ne.mpr hparent
  unfold join
  rw [hrelative, hbeq, Bool.false_or, Bool.false_or]
  by_cases hslash : parent.toList.getLast? = some '/'
  · -- The path ends in a slash, and its last piece is empty.
    obtain ⟨cs, hcs⟩ := List.getLast?_eq_some_iff.mp hslash
    have hsplit : parent = String.ofList cs ++ "/" := by
      rw [← String.toList_inj, String.toList_append, String.toList_ofList, hcs]
      rfl
    refine ⟨pieces (String.ofList cs), ?_, ?_⟩
    · rw [hslash, if_pos (by decide), if_neg (by decide)]
      rw [hsplit, pieces_append_slash, h.pieces_eq]
    · have hend : parent = String.ofList cs ++ "/" ++ "" := by rw [hsplit, String.append_empty]
      rw [hend, pieces_append_slash, List.filter_append]
      have hempty : pieces "" = [""] := by decide
      simp [hempty]
  · refine ⟨pieces parent, ?_, rfl⟩
    rw [if_neg (by simpa using hslash), pieces_append_slash, h.pieces_eq]

theorem IsPlain.ne_empty (h : IsPlain name) : name ≠ "" := (not_or.mp h.named).1

theorem IsPlain.join_eq_append (h : IsPlain name) (parent : String) :
    ∃ rest, join parent name = parent ++ rest ∧ rest ≠ "" := by
  have hrelative : isAbsolute name = false := h.descends.relative
  unfold join
  rw [hrelative, Bool.false_or]
  split
  · exact ⟨name, if_neg (by decide), h.ne_empty⟩
  · refine ⟨"/" ++ name, by rw [String.append_assoc], fun hempty => ?_⟩
    have hlist := congrArg String.toList hempty
    rw [String.toList_append] at hlist
    cases hlist

theorem IsPlain.join_ne_empty (h : IsPlain name) (parent : String) : join parent name ≠ "" := by
  obtain ⟨rest, heq, hrest⟩ := h.join_eq_append parent
  rw [heq]
  intro hempty
  have hlist := congrArg String.toList hempty
  rw [String.toList_append, String.toList_empty, List.append_eq_nil_iff] at hlist
  exact hrest (String.toList_eq_nil_iff.mp hlist.2)

theorem IsPlain.isAbsolute_join (h : IsPlain name) (hparent : parent ≠ "") :
    isAbsolute (join parent name) = isAbsolute parent := by
  obtain ⟨rest, heq, _⟩ := h.join_eq_append parent
  rw [heq]
  exact isAbsolute_append hparent rest

/-! ### Documents and code -/

/-- The places of the files that code is written to. -/
def IsSource (p : Place) : Prop := ∃ module : String, p.getLast? = some (module ++ ".rs")

theorem isSource_append (p : Place) (module : String) : IsSource (p ++ [module ++ ".rs"]) :=
  ⟨module, List.getLast?_concat⟩

/-- No document is named like code. -/
theorem not_isSource_of_isDocument {path : String} (h : isDocument path) (here : Place) :
    ¬ IsSource (resolve here path) := by
  unfold isDocument at h
  rw [Bool.and_eq_true, beq_iff_eq] at h
  obtain ⟨_, hend⟩ := h
  have hother : ∀ word : String,
      (word.toList.map Char.toLower).reverse.take 5 ≠ "nosj.".toList → name path ≠ word := by
    rintro word hword rfl
    exact hword hend
  have hskip : ¬ (name path = "" ∨ name path = ".") :=
    not_or.mpr ⟨hother "" (by decide), hother "." (by decide)⟩
  rintro ⟨module, hlast⟩
  unfold resolve at hlast
  rw [follow_eq_advance, advance_down hskip (hother ".." (by decide)), List.getLast?_concat] at hlast
  refine hother (module ++ ".rs") ?_ (Option.some.inj hlast)
  have hsource : (module ++ ".rs").toList = module.toList ++ ['.', 'r', 's'] :=
    String.toList_append
  rw [hsource, List.map_append, List.reverse_append]
  intro heq
  have hfirst : 's' = 'n' := (List.cons.inj heq).1
  exact absurd hfirst (by decide)

end Path

namespace FileTree

variable {t t' : FileTree} {path root : String}

theorem walk_filter {ps : List String} {p q : Place} (h : t.walk p ps = .ok q) :
    t.walk p (ps.filter (· ≠ "")) = .ok q := by
  induction ps generalizing p with
  | nil => exact h
  | cons piece ps ih =>
      rw [walk] at h
      by_cases hpiece : piece = ""
      · subst hpiece
        rw [List.filter_cons_of_neg (by decide)]
        rw [if_pos (.inl rfl : "" = "" ∨ "" = ".")] at h
        split_ifs at h
        exact ih h
      · rw [List.filter_cons_of_pos (by simpa using hpiece), walk]
        split_ifs at h ⊢
        · exact ih h
        · exact ih h
        · exact ih h

/-! ### Sound trees -/

/-- The place that a path leads to. -/
def Leads (t : FileTree) (path : String) (p : Place) : Prop :=
  t.walk (t.origin path) (Path.pieces path) = .ok p

/-- A path leads further by a name. -/
theorem Leads.join {p : Place} {name : String} (h : t.Leads path p) (hempty : path ≠ "")
    (hp : t.isDirectory p) (hname : Path.IsPlain name) (hshort : name.utf8ByteSize ≤ longestName)
    (hthere : (t.at? (p ++ [name])).isSome) : t.Leads (Path.join path name) (p ++ [name]) := by
  obtain ⟨front, hpieces, hfront⟩ := hname.pieces_join hempty
  have horigin : t.origin (Path.join path name) = t.origin path := by
    unfold origin
    rw [hname.isAbsolute_join hempty]
  have hwalk : t.walk (t.origin path) front = .ok p := by
    have hfilter := walk_filter h
    rw [← hfront] at hfilter
    exact walk_of_filter hfilter hp
  unfold Leads
  rw [horigin, hpieces, walk_append, hwalk]
  have hskip := hname.named
  have hlong : ¬ longestName < name.utf8ByteSize := by omega
  show t.walk p [name] = _
  simp [walk, hp, hskip, hname.down, hlong, Option.isSome_iff_ne_none.mp hthere]

/-- Everything lies in a directory, under a name that a path can hold. -/
structure IsSound (t : FileTree) : Prop where
  placed : ∀ x ∈ t.entries, ∃ parent name, x.1 = parent ++ [name] ∧ t.isDirectory parent ∧
    Path.IsPlain name ∧ name.utf8ByteSize ≤ longestName

theorem exists_entry_of_at? {p : Place} (hp : p ≠ []) (h : (t.at? p).isSome) :
    ∃ e, (p, e) ∈ t.entries := by
  unfold at? at h
  rw [if_neg hp] at h
  obtain ⟨e, he⟩ := Option.isSome_iff_exists.mp h
  obtain ⟨before, behind, hsplit, _⟩ := List.lookup_eq_some_iff.mp he
  rw [hsplit]
  exact ⟨e, List.mem_append_right before List.mem_cons_self⟩

theorem isSome_at?_of_mem {p : Place} {e : Entry} (h : (p, e) ∈ t.entries) : (t.at? p).isSome := by
  unfold at?
  split
  · rfl
  · exact List.lookup_isSome_iff.mpr ⟨(p, e), h, beq_self_eq_true p⟩

theorem isSome_at?_of_isDirectory {p : Place} (h : t.isDirectory p) : (t.at? p).isSome := by
  unfold isDirectory at h
  cases hat : t.at? p with
  | none =>
      rw [hat] at h
      cases h
  | some e => rfl

namespace IsSound

theorem of_at? (ht : t.IsSound) {parent : Place} {name : String}
    (h : (t.at? (parent ++ [name])).isSome) :
    t.isDirectory parent ∧ Path.IsPlain name ∧ name.utf8ByteSize ≤ longestName := by
  obtain ⟨e, he⟩ := exists_entry_of_at? (by simp) h
  obtain ⟨parent', name', heq, hparent, hname, hshort⟩ := ht.placed _ he
  obtain ⟨rfl, hlast⟩ := List.append_inj' heq rfl
  obtain rfl := List.singleton_inj.mp hlast
  exact ⟨hparent, hname, hshort⟩

/-- What lies below a directory is reached by the names on the way to it. -/
theorem leads_foldl (ht : t.IsSound) {p : Place} (hroot : root ≠ "") (hleads : t.Leads root p)
    (q : Place) (h : (t.at? (p ++ q)).isSome) :
    q.foldl Path.join root ≠ "" ∧ t.Leads (q.foldl Path.join root) (p ++ q) := by
  induction q using List.reverseRecOn with
  | nil =>
      rw [List.append_nil]
      exact ⟨hroot, hleads⟩
  | append_singleton front last ih =>
      rw [← List.append_assoc] at h
      obtain ⟨hfront, hname, hshort⟩ := ht.of_at? h
      obtain ⟨hempty, hpath⟩ := ih (isSome_at?_of_isDirectory hfront)
      rw [List.foldl_append, List.foldl_cons, List.foldl_nil, ← List.append_assoc]
      exact ⟨hname.join_ne_empty _, hpath.join hempty hfront hname hshort h⟩

end IsSound

/-! ### Files that are listed -/

theorem locate_eq_ok {p : Place} :
    t.locate path = .ok p ↔ checkPath path = .ok () ∧ t.Leads path p := by
  unfold locate Leads
  rw [bind_eq_ok]
  constructor
  · rintro ⟨⟨⟩, hcheck, h⟩
    exact ⟨hcheck, h⟩
  · rintro ⟨hcheck, h⟩
    exact ⟨(), hcheck, h⟩

theorem read_eq_ok {bytes : ByteArray} :
    t.read path = .ok bytes ↔
      checkPath path = .ok () ∧ ∃ p, t.Leads path p ∧ t.at? p = some (.file bytes) := by
  unfold read reach
  simp only [bind_eq_ok, locate_eq_ok]
  constructor
  · rintro ⟨e, ⟨p, ⟨hcheck, hleads⟩, hat⟩, h⟩
    split at hat
    next found hfound =>
      cases hat
      cases e with
      | file found =>
          cases h
          exact ⟨hcheck, p, hleads, hfound⟩
      | directory => cases h
    next => cases hat
  · rintro ⟨hcheck, p, hleads, hat⟩
    refine ⟨.file bytes, ⟨p, ⟨hcheck, hleads⟩, ?_⟩, rfl⟩
    rw [hat]
    rfl

/-- What is read at a path is the file at the place that the path names. -/
theorem file?_of_read {bytes : ByteArray} (h : t.read path = .ok bytes) :
    t.file? (Path.resolve t.here path) = some bytes := by
  obtain ⟨_, p, hleads, hat⟩ := read_eq_ok.mp h
  have hplace : p = Path.resolve t.here path := walk_eq_ok hleads
  rw [← hplace, file?, hat]

theorem at?_of_file? {p : Place} {bytes : ByteArray} (h : t.file? p = some bytes) :
    t.at? p = some (.file bytes) := by
  unfold file? at h
  split at h
  next found hfound =>
    cases h
    exact hfound
  next => cases h

theorem exists_of_mem_filesBelow (h : path ∈ t.filesBelow root) :
    ∃ p q, t.locate root = .ok p ∧ (t.at? (p ++ q)).isSome ∧ path = q.foldl Path.join root := by
  unfold filesBelow at h
  split at h
  next => cases h
  next p hlocate =>
    obtain ⟨⟨q, e⟩, hmem, rfl⟩ := List.mem_map.mp h
    have hbelow := (List.mem_filter.mp hmem).1
    unfold below at hbelow
    rw [List.mem_mergeSort] at hbelow
    obtain ⟨⟨place, e⟩, hinside, heq⟩ := List.mem_map.mp hbelow
    obtain ⟨hentry, hprefix⟩ := List.mem_filter.mp hinside
    obtain ⟨rfl, rfl⟩ := Prod.mk.inj heq
    obtain ⟨rest, rfl⟩ : p <+: place := by
      rw [Bool.and_eq_true] at hprefix
      exact List.isPrefixOf_iff_prefix.mp hprefix.1
    refine ⟨p, rest, hlocate, isSome_at?_of_mem hentry, ?_⟩
    rw [List.drop_left]

/-- **Listed documents.**  While all files are kept but some others, a file that is listed below a
directory can still be read only as it could be read before. -/
theorem IsSound.read_of_kept {P : Place → Prop} (ht : t.IsSound) (hpath : path ∈ t.filesBelow root)
    (hother : ¬ P (Path.resolve t.here path)) (kept : Kept P t t') {bytes : ByteArray}
    (h : t'.read path = .ok bytes) : t.read path = .ok bytes := by
  obtain ⟨p, q, hlocate, hthere, rfl⟩ := exists_of_mem_filesBelow hpath
  obtain ⟨hcheck, hleads⟩ := locate_eq_ok.mp hlocate
  obtain ⟨_, hreached⟩ := ht.leads_foldl (ne_empty_of_checkPath hcheck) hleads q hthere
  have hplace : p ++ q = Path.resolve t.here (q.foldl Path.join root) := walk_eq_ok hreached
  have hfile := file?_of_read h
  rw [kept.here, kept.file _ hother, ← hplace] at hfile
  exact read_eq_ok.mpr ⟨(read_eq_ok.mp h).1, p ++ q, hreached, at?_of_file? hfile⟩

end FileTree
end WireCodec
