import WireCodec.Files.Tree
import WireCodec.Proofs.Lines
import WireCodec.Proofs.Outcome
/-! # Where paths lead

`Path.resolve` gives the place that a path names from a directory by its text alone.  Where files form a
tree this is the place that an operation at the path reaches (`FileTree.slot_eq_ok`), so writing changes
no other file (`FileTree.file?_write`), and making directories changes none.

A path that goes no further up than down leads from every directory to something below it
(`Path.Descends`); joined to a directory it names a place inside it, and only such paths do so for every
directory (`Path.descends_iff`). -/

namespace WireCodec

namespace Path

/-! ### The place that a path names -/

/-- The place that one piece of a path leads to. -/
def advance (p : Place) (piece : String) : Place :=
  if piece = "" ∨ piece = "." then p
  else if piece = ".." then p.dropLast
  else p ++ [piece]

/-- The place that a path leads to from a place. -/
def follow (p : Place) (path : String) : Place := (pieces path).foldl advance p

/-- The place that a path names, with paths starting from `here`. -/
def resolve (here : Place) (path : String) : Place :=
  follow (if isAbsolute path then [] else here) path

theorem advance_of_skipped {p : Place} {piece : String} (h : piece = "" ∨ piece = ".") :
    advance p piece = p := if_pos h

theorem advance_up (p : Place) : advance p ".." = p.dropLast := rfl

theorem advance_down {p : Place} {piece : String} (h : ¬ (piece = "" ∨ piece = "."))
    (hup : piece ≠ "..") : advance p piece = p ++ [piece] := by
  unfold advance
  rw [if_neg h, if_neg hup]

theorem follow_empty (p : Place) : follow p "" = p := rfl

theorem pieces_append_slash (a b : String) : pieces (a ++ "/" ++ b) = pieces a ++ pieces b := by
  unfold pieces
  rw [String.toList_append, String.toList_append, List.append_assoc]
  show (Text.split '/' (a.toList ++ '/' :: b.toList)).map String.ofList = _
  rw [Text.split_append, List.map_append]

theorem pieces_eq (path : String) : pieces path = (pieces path).dropLast ++ [name path] := by
  have hne : pieces path ≠ [] := by simp [pieces, Text.split_ne_nil]
  obtain ⟨front, last, hlast⟩ := (List.eq_nil_or_concat' (pieces path)).resolve_left hne
  simp [name, hlast]

theorem pieces_append {suffix : String} (h : '/' ∉ suffix.toList) (path : String) :
    pieces (path ++ suffix) = (pieces path).dropLast ++ [name path ++ suffix] := by
  obtain ⟨front, last, hlast, hall⟩ := @Text.split_append_of_not_mem '/' path.toList _ h
  have hname : name path = String.ofList last := by simp [name, pieces, hlast]
  have hfront : (pieces path).dropLast = front.map String.ofList := by simp [pieces, hlast]
  have hword : String.ofList (last ++ suffix.toList) = name path ++ suffix := by
    rw [String.ofList_append, String.ofList_toList, hname]
  rw [pieces, String.toList_append, hall, List.map_append, List.map_singleton, hword, hfront]

/-- A piece that holds an underscore leads down. -/
theorem leads_down_of_append {suffix : String} (h : '_' ∈ suffix.toList) (s : String) :
    ¬ (s ++ suffix = "" ∨ s ++ suffix = ".") ∧ s ++ suffix ≠ ".." := by
  have hother : ∀ dots : String, '_' ∉ dots.toList → s ++ suffix ≠ dots := by
    rintro dots hdots rfl
    apply hdots
    rw [String.toList_append]
    exact List.mem_append_right _ h
  exact ⟨not_or.mpr ⟨hother "" (by decide), hother "." (by decide)⟩, hother ".." (by decide)⟩

theorem follow_append_slash (p : Place) (a b : String) :
    follow p (a ++ "/" ++ b) = follow (follow p a) b := by
  unfold follow
  rw [pieces_append_slash, List.foldl_append]

theorem isAbsolute_append {a : String} (h : a ≠ "") (b : String) :
    isAbsolute (a ++ b) = isAbsolute a := by
  unfold isAbsolute
  rw [String.toList_append, List.head?_append_of_ne_nil]
  rwa [ne_eq, String.toList_eq_nil_iff]

/-- A slash between a directory and a path, if there is none, leads from the one to the other. -/
theorem resolve_join {here : Place} {parent child : String} (h : isAbsolute child = false) :
    resolve here (join parent child) = follow (resolve here parent) child := by
  unfold join
  rw [h, Bool.false_or]
  by_cases hempty : parent = ""
  · subst hempty
    have hchild : "" ++ child = child := by simp
    show follow (if isAbsolute ("" ++ child) then [] else here) ("" ++ child) = _
    rw [hchild, h]
    rfl
  have hbeq : (parent == "") = false := beq_eq_false_iff_ne.mpr hempty
  rw [hbeq, Bool.false_or]
  by_cases hslash : parent.toList.getLast? = some '/'
  · -- The slash that the parent ends with leads nowhere by itself.
    obtain ⟨front, hfront⟩ := List.getLast?_eq_some_iff.mp hslash
    have hparent : parent = String.ofList front ++ "/" := by
      rw [← String.toList_inj, String.toList_append, String.toList_ofList, hfront]
      rfl
    have hfollow : ∀ p, follow p parent = follow p (String.ofList front) := by
      intro p
      have hend : parent = String.ofList front ++ "/" ++ "" := by rw [hparent, String.append_empty]
      rw [hend, follow_append_slash, follow_empty]
    rw [hslash, if_pos (by decide), if_neg (by decide)]
    unfold resolve
    rw [isAbsolute_append hempty, hfollow]
    conv_lhs => rw [hparent]
    rw [follow_append_slash, ← hparent]
  · rw [if_neg (by simpa using hslash)]
    unfold resolve
    rw [String.append_assoc, isAbsolute_append hempty, ← String.append_assoc, follow_append_slash]

/-- An absolute path is taken from the top, whatever directory it is joined to. -/
theorem resolve_join_of_isAbsolute {here : Place} {parent child : String} (h : isAbsolute child) :
    resolve here (join parent child) = follow [] child := by
  unfold join resolve
  rw [h, Bool.true_or, Bool.true_or, if_pos rfl, if_pos rfl, h, if_pos rfl]

/-! ### Paths that lead below every directory -/

/-- How far up a path leads, and what lies on its way down from there. -/
def turn : Nat × Place → String → Nat × Place
  | (up, down), piece =>
    if piece = "" ∨ piece = "." then (up, down)
    else if piece = ".." then if down = [] then (up + 1, []) else (up, down.dropLast)
    else (up, down ++ [piece])

/-- The way of a path: so far up, and from there down. -/
def way (path : String) : Nat × Place := (pieces path).foldl turn (0, [])

/-- The place that a way leads to. -/
def goFrom (p : Place) (w : Nat × Place) : Place := p.take (p.length - w.1) ++ w.2

theorem advance_goFrom (p : Place) (w : Nat × Place) (piece : String) :
    advance (goFrom p w) piece = goFrom p (turn w piece) := by
  obtain ⟨up, down⟩ := w
  unfold turn
  by_cases hskip : piece = "" ∨ piece = "."
  · rw [advance_of_skipped hskip]
    simp [hskip]
  by_cases hup : piece = ".."
  · subst hup
    rw [advance_up]
    by_cases hdown : down = []
    · subst hdown
      show (p.take (p.length - up) ++ []).dropLast = p.take (p.length - (up + 1)) ++ []
      rw [List.append_nil, List.append_nil, List.dropLast_eq_take, List.take_take, List.length_take]
      congr 1
      omega
    · simp [goFrom, hdown, List.dropLast_append_of_ne_nil]
  · rw [advance_down hskip hup]
    simp [goFrom, hskip, hup]

theorem foldl_advance_goFrom (p : Place) : ∀ (ps : List String) (w : Nat × Place),
    ps.foldl advance (goFrom p w) = goFrom p (ps.foldl turn w)
  | [], _ => rfl
  | piece :: ps, w => by
      rw [List.foldl_cons, List.foldl_cons, advance_goFrom]
      exact foldl_advance_goFrom p ps _

/-- A path leads up and then down. -/
theorem follow_eq (p : Place) (path : String) : follow p path = goFrom p (way path) := by
  have hstart : goFrom p (0, []) = p := by simp [goFrom]
  unfold follow way
  rw [← foldl_advance_goFrom, hstart]

/-- The path leads down from every place, and not only up and down again. -/
structure Descends (path : String) : Prop where
  relative : isAbsolute path = false
  up : (way path).1 = 0
  down : (way path).2 ≠ []

/-- One place lies below another. -/
def Below (p q : Place) : Prop := ∃ down ≠ [], q = p ++ down

/-- One path names a place below another's. -/
def Inside (here : Place) (directory path : String) : Prop :=
  Below (resolve here directory) (resolve here path)

theorem Below.isPrefix {p q : Place} (h : Below p q) : p <+: q := by
  obtain ⟨down, _, rfl⟩ := h
  exact List.prefix_append p down

theorem Descends.follow_eq {path : String} (h : Descends path) (p : Place) :
    follow p path = p ++ (way path).2 := by
  rw [Path.follow_eq]
  unfold goFrom
  rw [h.up, Nat.sub_zero, List.take_length]

theorem Inside.join {here : Place} {output directory path : String} (h : Inside here output directory)
    (hpath : Descends path) : Inside here output (join directory path) := by
  obtain ⟨down, hdown, hresolve⟩ := h
  refine ⟨down ++ (way path).2, ?_, ?_⟩
  · exact fun hnil => hdown (List.append_eq_nil_iff.mp hnil).1
  · rw [resolve_join hpath.relative, hpath.follow_eq, hresolve, List.append_assoc]

/-- **Paths below every directory.**  These are the ones that name a place inside each directory that
they are joined to. -/
theorem descends_iff {path : String} :
    Descends path ↔ ∀ here output, Inside here output (join output path) := by
  constructor
  · intro h here output
    refine ⟨(way path).2, h.down, ?_⟩
    rw [resolve_join h.relative, h.follow_eq]
  · intro h
    -- Two directories without a common place below them.
    obtain ⟨a, ha, hina⟩ := h [] "a"
    obtain ⟨b, hb, hinb⟩ := h [] "b"
    have hnone : ∀ p, p = resolve [] "a" ++ a → p = resolve [] "b" ++ b → False := by
      rintro p rfl hb
      have := List.cons.inj (show "a" :: a = "b" :: b from hb)
      exact absurd this.1 (by decide)
    have hrelative : isAbsolute path = false := by
      by_contra habs
      rw [Bool.not_eq_false] at habs
      rw [resolve_join_of_isAbsolute habs] at hina hinb
      exact hnone _ hina hinb
    have hup : (way path).1 = 0 := by
      by_contra hup
      have hgo : ∀ c : String, goFrom [c] (way path) = (way path).2 := by
        intro c
        unfold goFrom
        rw [show [c].length - (way path).1 = 0 by rw [List.length_singleton]; omega]
        rfl
      rw [resolve_join hrelative, follow_eq] at hina hinb
      exact hnone _ ((hgo "a").symm.trans hina) ((hgo "b").symm.trans hinb)
    refine ⟨hrelative, hup, ?_⟩
    intro hdown
    rw [resolve_join hrelative, follow_eq] at hina
    unfold goFrom at hina
    rw [hup, hdown, Nat.sub_zero, List.take_length] at hina
    exact ha (List.append_cancel_left hina).symm

/-- The name of something that lies in a directory. -/
structure IsPlain (name : String) : Prop where
  slash : '/' ∉ name.toList
  named : ¬ (name = "" ∨ name = ".")
  down : name ≠ ".."

namespace IsPlain

variable {name : String}

theorem way_eq (h : IsPlain name) : way name = (0, [name]) := by
  unfold way pieces
  rw [Text.split_of_not_mem h.slash, List.map_singleton, String.ofList_toList]
  simp [turn, h.named, h.down]

theorem descends (h : IsPlain name) : Descends name := by
  refine ⟨?_, by rw [h.way_eq], by rw [h.way_eq]; exact List.cons_ne_nil _ _⟩
  unfold isAbsolute
  rw [beq_eq_false_iff_ne]
  intro hhead
  exact h.slash (List.mem_of_mem_head? hhead)

theorem resolve_join (h : IsPlain name) (here : Place) (directory : String) :
    resolve here (join directory name) = resolve here directory ++ [name] := by
  rw [Path.resolve_join h.descends.relative, h.descends.follow_eq, h.way_eq]

end IsPlain

/-- A way that has led up does not become one that has not. -/
theorem fst_of_turn {w : Nat × Place} {piece : String} (h : (turn w piece).1 = 0) : w.1 = 0 := by
  obtain ⟨up, down⟩ := w
  simp only [turn] at h
  show up = 0
  by_cases hskip : piece = "" ∨ piece = "."
  · rw [if_pos hskip] at h
    exact h
  rw [if_neg hskip] at h
  by_cases hup : piece = ".."
  · rw [if_pos hup] at h
    by_cases hdown : down = []
    · rw [if_pos hdown] at h
      exact absurd h (Nat.succ_ne_zero up)
    · rw [if_neg hdown] at h
      exact h
  · rw [if_neg hup] at h
    exact h

/-- A suffix makes another name of the last one, even of one that leads up. -/
theorem Descends.append_suffix {path suffix : String} (h : Descends path)
    (hslash : '/' ∉ suffix.toList) (hmark : '_' ∈ suffix.toList) : Descends (path ++ suffix) := by
  have hnonempty : path ≠ "" := by
    rintro rfl
    exact h.down rfl
  obtain ⟨hskip, hdots⟩ := leads_down_of_append hmark (name path)
  obtain ⟨up, down, hfront⟩ : ∃ up down, (pieces path).dropLast.foldl turn (0, []) = (up, down) :=
    ⟨_, _, rfl⟩
  have hway : way path = turn (up, down) (name path) := by
    rw [way, pieces_eq, List.foldl_append, hfront]
    rfl
  have hsuffix : way (path ++ suffix) = (up, down ++ [name path ++ suffix]) := by
    rw [way, pieces_append hslash, List.foldl_append, hfront]
    show turn (up, down) (name path ++ suffix) = _
    rw [turn, if_neg hskip, if_neg hdots]
  refine ⟨?_, ?_, ?_⟩
  · rw [isAbsolute_append hnonempty]
    exact h.relative
  · have hup := h.up
    rw [hway] at hup
    rw [hsuffix]
    show up = 0
    exact fst_of_turn hup
  · rw [hsuffix]
    simp

end Path

/-! ### Trees of files -/

namespace FileTree

open WireCodec.Path (advance resolve)

variable {t t' : FileTree} {path text : String}

/-- What the file at a place holds, if one stands there. -/
def file? (t : FileTree) (p : Place) : Option ByteArray :=
  match t.at? p with
  | some (.file bytes) => some bytes
  | _ => none

theorem lookup_map_replace (entries : List (Place × Entry)) (p q : Place) (e : Entry) :
    (entries.map fun (r, old) => if r = p then (r, e) else (r, old)).lookup q
      = if q = p then (entries.lookup q).map fun _ => e else entries.lookup q := by
  induction entries with
  | nil => simp
  | cons x entries ih =>
      obtain ⟨r, old⟩ := x
      rw [List.map_cons]
      by_cases hq : q = r
      · subst hq
        by_cases hp : q = p <;> simp [hp]
      · have hne : (q == r) = false := beq_eq_false_iff_ne.mpr hq
        by_cases hr : r = p
        · simp only [if_pos hr, List.lookup_cons, hne]
          exact ih
        · simp only [if_neg hr, List.lookup_cons, hne]
          exact ih

theorem at?_put {p : Place} (hp : p ≠ []) (e : Entry) (q : Place) :
    (t.put p e).at? q = if q = p then some e else t.at? q := by
  by_cases hnil : q = []
  · subst hnil
    rw [if_neg (Ne.symm hp)]
    rfl
  unfold at? put
  rw [if_neg hnil, if_neg hnil]
  split
  next hsome =>
    rw [lookup_map_replace]
    split
    next heq =>
      subst heq
      obtain ⟨old, hold⟩ := Option.isSome_iff_exists.mp hsome
      rw [hold]
      rfl
    next => rfl
  next hnone =>
    rw [Bool.not_eq_true, Option.isSome_eq_false_iff, Option.isNone_iff_eq_none] at hnone
    rw [List.lookup_append]
    by_cases heq : q = p
    · subst heq
      simp [hnone]
    · have hne : (q == p) = false := beq_eq_false_iff_ne.mpr heq
      simp [List.lookup_cons, hne, heq]

theorem here_put (p : Place) (e : Entry) : (t.put p e).here = t.here := by
  unfold put
  split <;> rfl

/-- Whatever stands on the way, the pieces of a path lead to the place that they name. -/
theorem walk_eq_ok : ∀ {ps : List String} {p q : Place}, t.walk p ps = .ok q →
    q = ps.foldl advance p
  | [], p, q, h => (Except.ok.inj h).symm
  | piece :: ps, p, q, h => by
      rw [walk] at h
      rw [List.foldl_cons]
      split at h
      · cases h
      split at h
      next hskip =>
        rw [Path.advance_of_skipped hskip]
        exact walk_eq_ok h
      next hskip =>
        split at h
        next hup =>
          subst hup
          exact walk_eq_ok h
        next hup =>
          rw [Path.advance_down hskip hup]
          split at h
          · cases h
          split at h
          · cases h
          · exact walk_eq_ok h

theorem foldl_advance_filter (ps : List String) (p : Place) :
    (ps.filter (· ≠ "")).foldl advance p = ps.foldl advance p := by
  induction ps generalizing p with
  | nil => rfl
  | cons piece ps ih =>
      by_cases hpiece : piece = ""
      · subst hpiece
        rw [List.filter_cons_of_neg (by decide), List.foldl_cons, ih]
        rfl
      · rw [List.filter_cons_of_pos (by simpa using hpiece), List.foldl_cons, List.foldl_cons, ih]

/-- The slot of a path is the place that the path names. -/
theorem slot_eq_ok {directory : Place} {last : String}
    (h : t.slot path = .ok (directory, some last)) :
    resolve t.here path = directory ++ [last] := by
  unfold slot at h
  simp only [bind_eq_ok] at h
  obtain ⟨-, -, p, hwalk, h⟩ := h
  split at h
  · cases h
  next name hname =>
    split at h
    · cases h
    split at h
    · cases h
    next hdots =>
      split at h
      · cases h
      · cases h
        obtain ⟨front, hfront⟩ := List.getLast?_eq_some_iff.mp hname
        have hmem : last ∈ (Path.pieces path).filter (· ≠ "") := by
          rw [hfront]
          simp
        have hnonempty : last ≠ "" := by simpa using List.of_mem_filter hmem
        rw [not_or] at hdots
        have hskip : ¬ (last = "" ∨ last = ".") := not_or.mpr ⟨hnonempty, hdots.1⟩
        have hdirectory := walk_eq_ok hwalk
        rw [hfront, List.dropLast_concat] at hdirectory
        unfold resolve Path.follow
        rw [← foldl_advance_filter, hfront, List.foldl_append, List.foldl_cons, List.foldl_nil]
        unfold origin at hdirectory
        rw [← hdirectory, Path.advance_down hskip hdots.2]

theorem write_eq_ok (h : t.write path text = .ok t') :
    resolve t.here path ≠ [] ∧ t' = t.put (resolve t.here path) (.file text.toUTF8) := by
  unfold write at h
  simp only [bind_eq_ok] at h
  obtain ⟨⟨directory, last⟩, hslot, h⟩ := h
  cases last with
  | none => cases h
  | some last =>
      rw [slot_eq_ok hslot]
      dsimp only at h
      split at h
      · cases h
      · cases h
        exact ⟨by simp, rfl⟩

theorem makeDirectory_eq_ok (h : t.makeDirectory path = .ok t') :
    ∃ p, p ≠ [] ∧ t.at? p = none ∧ t' = t.put p .directory := by
  unfold makeDirectory at h
  simp only [bind_eq_ok] at h
  obtain ⟨⟨directory, last⟩, hslot, h⟩ := h
  cases last with
  | none => cases h
  | some last =>
      dsimp only at h
      split at h
      · cases h
      next hfree =>
        cases h
        refine ⟨directory ++ [last], by simp, ?_, rfl⟩
        simpa using hfree

/-- Writing a file sets the file at its place, and changes no other. -/
theorem file?_write (h : t.write path text = .ok t') (q : Place) :
    t'.file? q = if q = resolve t.here path then some text.toUTF8 else t.file? q := by
  obtain ⟨hne, rfl⟩ := write_eq_ok h
  unfold file?
  rw [at?_put hne]
  by_cases hq : q = resolve t.here path
  · rw [if_pos hq, if_pos hq]
  · rw [if_neg hq, if_neg hq]

theorem file?_makeDirectory (h : t.makeDirectory path = .ok t') (q : Place) :
    t'.file? q = t.file? q := by
  obtain ⟨p, hne, hfree, rfl⟩ := makeDirectory_eq_ok h
  unfold file?
  rw [at?_put hne]
  by_cases hq : q = p
  · subst hq
    rw [if_pos rfl, hfree]
  · rw [if_neg hq]

end FileTree
end WireCodec
