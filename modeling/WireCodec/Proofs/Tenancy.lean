import Mathlib.Data.List.Dedup
import WireCodec.Proofs.Containment
/-! # What becomes of the schemas of a run

A schema's place depends on the schemas before it only through their namespaces and digests
(`Tenancy.placementAfter`).  So the accounts of a run follow from three numbers: how many schemas there
are, how many pairs of a namespace and a digest, and how many namespaces (`Tenancy.registerAll_accounts`).
None of them depends on the order of the schemas.

Two schemas of one namespace never get one directory, wherever paths start: a digest holds no slash, so
it only lengthens the last component of the path (`Path.resolve_join_ne`). -/

namespace WireCodec

/-! ### Paths with a longer last component -/

namespace Path

/-- The place that all components but the last lead to. -/
def followParent (p : Place) (path : String) : Place := (pieces path).dropLast.foldl advance p

theorem follow_eq_advance (p : Place) (path : String) :
    follow p path = advance (followParent p path) (name path) := by
  rw [follow, pieces_eq, List.foldl_append]
  rfl

/-- What is appended makes another last component, which leads down. -/
theorem follow_append {suffix : String} (hslash : '/' ∉ suffix.toList) (hmark : '_' ∈ suffix.toList)
    (p : Place) (path : String) :
    follow p (path ++ suffix) = followParent p path ++ [name path ++ suffix] := by
  obtain ⟨hskip, hdots⟩ := leads_down_of_append hmark (name path)
  rw [follow, pieces_append hslash, List.foldl_append]
  exact advance_down hskip hdots

/-- A path and the same with something appended lead to different places. -/
theorem follow_append_ne {suffix : String} (hslash : '/' ∉ suffix.toList)
    (hmark : '_' ∈ suffix.toList) (p : Place) (path : String) :
    follow p path ≠ follow p (path ++ suffix) := by
  rw [follow_eq_advance, follow_append hslash hmark]
  intro heq
  have hlength := congrArg List.length heq
  unfold advance at heq hlength
  split_ifs at heq hlength with hskip hup
  · simp at hlength
  · simp at hlength
  · have hlast : name path ++ "" = name path ++ suffix := by simpa using heq
    rw [String.append_right_inj] at hlast
    rw [← hlast] at hmark
    exact absurd hmark (by decide)

/-- What is appended tells the places apart. -/
theorem eq_of_follow_append_eq {a b : String} (ha : '/' ∉ a.toList) (hmarka : '_' ∈ a.toList)
    (hb : '/' ∉ b.toList) (hmarkb : '_' ∈ b.toList) {p : Place} {path : String}
    (h : follow p (path ++ a) = follow p (path ++ b)) : a = b := by
  rw [follow_append ha hmarka, follow_append hb hmarkb] at h
  have hlast : name path ++ a = name path ++ b := by simpa using h
  exact (String.append_right_inj _).mp hlast

/-- Where a path starts that is joined to a directory. -/
def base (here : Place) (parent child : String) : Place :=
  if isAbsolute child then [] else resolve here parent

theorem resolve_join_eq (here : Place) (parent child : String) :
    resolve here (join parent child) = follow (base here parent child) child := by
  unfold base
  cases h : isAbsolute child with
  | false => simpa using resolve_join h
  | true => simpa using resolve_join_of_isAbsolute h

theorem base_append {suffix : String} (hrelative : isAbsolute suffix = false) (here : Place)
    (parent child : String) : base here parent (child ++ suffix) = base here parent child := by
  have habs : isAbsolute (child ++ suffix) = isAbsolute child := by
    by_cases hchild : child = ""
    · subst hchild
      rw [String.empty_append, hrelative]
      rfl
    · exact isAbsolute_append hchild suffix
  simp [base, habs]

end Path

namespace Command

/-! ### What is appended to a namespace -/

/-- The end of a directory's name that bears a digest. -/
def mark (digest : String) : String := "_" ++ digest

theorem append_mark (name digest : String) : name ++ "_" ++ digest = name ++ mark digest :=
  String.append_assoc

theorem slash_notMem_mark {digest : String} (h : '/' ∉ digest.toList) :
    '/' ∉ (mark digest).toList := by
  rw [mark, String.toList_append, List.mem_append, not_or]
  exact ⟨by decide, h⟩

theorem underscore_mem_mark (digest : String) : '_' ∈ (mark digest).toList := by
  rw [mark, String.toList_append]
  exact List.mem_append_left _ (by decide)

theorem isAbsolute_mark (digest : String) : Path.isAbsolute (mark digest) = false := by
  simp [Path.isAbsolute, mark]

/-- A namespace's own directory is none of those with a digest. -/
theorem resolve_join_ne {digest : String} (h : '/' ∉ digest.toList) (here : Place)
    (output name : String) :
    Path.resolve here (Path.join output name)
      ≠ Path.resolve here (Path.join output (name ++ "_" ++ digest)) := by
  rw [append_mark, Path.resolve_join_eq, Path.resolve_join_eq, Path.base_append (isAbsolute_mark _)]
  exact Path.follow_append_ne (slash_notMem_mark h) (underscore_mem_mark _) _ name

theorem resolve_join_digest_ne {a b : String} (ha : '/' ∉ a.toList) (hb : '/' ∉ b.toList)
    (hne : a ≠ b) (here : Place) (output name : String) :
    Path.resolve here (Path.join output (name ++ "_" ++ a))
      ≠ Path.resolve here (Path.join output (name ++ "_" ++ b)) := by
  rw [append_mark, append_mark, Path.resolve_join_eq, Path.resolve_join_eq,
    Path.base_append (isAbsolute_mark _), Path.base_append (isAbsolute_mark _)]
  intro heq
  have hmark := Path.eq_of_follow_append_eq (slash_notMem_mark ha) (underscore_mem_mark _)
    (slash_notMem_mark hb) (underscore_mem_mark _) heq
  exact hne ((String.append_right_inj _).mp hmark)

namespace Tenancy

/-! ### Many schemas -/

/-- Finds places for schemas one after another, each given by its namespace and digest. -/
def registerAll (strategy : Strategy) (output : String) (t : Tenancy) :
    List (String × String) → Tenancy × List Placement
  | [] => (t, [])
  | (name, digest) :: calls =>
    let (next, placement) := t.register strategy output name digest
    let (last, placements) := registerAll strategy output next calls
    (last, placement :: placements)

/-- Where a schema goes, from the namespaces and digests of the schemas before it. -/
def placementAfter (strategy : Strategy) (output : String) (before : List (String × String))
    (name digest : String) : Placement :=
  if (name, digest) ∈ before then .skipped
  else if name ∈ before.map (·.1) then
    match strategy with
    | .skipConflicts => .skipped
    | .hashSuffix =>
      .renamed (name ++ "_" ++ digest) (Path.join output (name ++ "_" ++ digest))
  else .placed (Path.join output name)

/-- The tenants are what is known of the schemas so far. -/
structure Remembers (strategy : Strategy) (before : List (String × String)) (t : Tenancy) :
    Prop where
  /-- Each of the namespaces has a tenant. -/
  tenant : ∀ name ∈ before.map (·.1), ∃ x ∈ t.tenants, x.namespaceName = name
  /-- All tenants are among the schemas. -/
  seen : ∀ x ∈ t.tenants, (x.namespaceName, x.digest) ∈ before
  /-- Where none is passed over, each schema has a tenant. -/
  all : strategy = .hashSuffix →
    ∀ c ∈ before, ∃ x ∈ t.tenants, (x.namespaceName, x.digest) = c

theorem Remembers.empty (strategy : Strategy) : Remembers strategy [] {} where
  tenant name h := by simp at h
  seen x h := by simp at h
  all _ c h := by simp at h

variable {strategy : Strategy} {output name digest : String} {before calls : List (String × String)}
  {t : Tenancy}

theorem tenants_eq_nil_iff (h : Remembers strategy before t) (name : String) :
    t.tenants.filter (·.namespaceName == name) = [] ↔ name ∉ before.map (·.1) := by
  rw [List.filter_eq_nil_iff]
  constructor
  · intro hnone hmem
    obtain ⟨x, hx, hname⟩ := h.tenant name hmem
    exact hnone x hx (by simp [hname])
  · intro hnew x hx hname
    apply hnew
    have hseen := List.mem_map_of_mem (f := (·.1)) (h.seen x hx)
    rwa [show x.namespaceName = name by simpa using hname] at hseen

theorem any_digest_iff (h : Remembers strategy before t) (hall : strategy = .hashSuffix) :
    (t.tenants.filter (·.namespaceName == name)).any (·.digest == digest)
      ↔ (name, digest) ∈ before := by
  rw [List.any_eq_true]
  constructor
  · rintro ⟨x, hx, hdigest⟩
    rw [List.mem_filter] at hx
    have hseen := h.seen x hx.1
    rwa [show x.namespaceName = name by simpa using hx.2,
      show x.digest = digest by simpa using hdigest] at hseen
  · intro hmem
    obtain ⟨x, hx, hpair⟩ := h.all hall _ hmem
    rw [Prod.mk.injEq] at hpair
    exact ⟨x, List.mem_filter.mpr ⟨hx, by simp [hpair.1]⟩, by simp [hpair.2]⟩

/-- **One step.**  What came before decides where a schema goes. -/
theorem register_placement (h : Remembers strategy before t) (output name digest : String) :
    (t.register strategy output name digest).2
      = placementAfter strategy output before name digest := by
  have hnone := tenants_eq_nil_iff h name
  show decide (t.tenants.filter (·.namespaceName == name)) strategy output name digest = _
  unfold decide placementAfter
  by_cases hname : name ∈ before.map (·.1)
  · have htaken : ¬ (t.tenants.filter (·.namespaceName == name)).isEmpty := by
      rw [List.isEmpty_iff, hnone]
      exact not_not.mpr hname
    rw [if_neg htaken, if_pos hname]
    cases strategy with
    | skipConflicts => simp
    | hashSuffix => simp only [any_digest_iff h rfl]
  · -- The first of its namespace.
    have hpair : (name, digest) ∉ before := fun hmem => hname (List.mem_map_of_mem (f := (·.1)) hmem)
    rw [hnone.mpr hname, if_neg hpair, if_neg hname]
    rfl

theorem register_tenants (strategy : Strategy) (output name digest : String) (t : Tenancy) :
    (t.register strategy output name digest).1.tenants
      = t.tenants ++ ((t.register strategy output name digest).2.directory?.map
          (⟨name, digest, ·⟩)).toList := by
  unfold register
  dsimp only
  cases (decide (t.tenants.filter (·.namespaceName == name)) strategy output name digest).directory?
  <;> simp

/-- A schema without a directory has one of its namespace before it, and under hash suffixes one with its
digest. -/
theorem seen_of_directory?_eq_none
    (h : (placementAfter strategy output before name digest).directory? = none) :
    name ∈ before.map (·.1) ∧ (strategy = .hashSuffix → (name, digest) ∈ before) := by
  unfold placementAfter at h
  split_ifs at h with hpair hname
  · exact ⟨List.mem_map_of_mem (f := (·.1)) hpair, fun _ => hpair⟩
  · cases strategy with
    | skipConflicts => exact ⟨hname, fun hall => by cases hall⟩
    | hashSuffix => cases h
  · cases h

theorem Remembers.register (h : Remembers strategy before t) (output name digest : String) :
    Remembers strategy (before ++ [(name, digest)])
      (t.register strategy output name digest).1 := by
  have htenants := register_tenants strategy output name digest t
  rw [register_placement h output name digest] at htenants
  cases hdirectory : (placementAfter strategy output before name digest).directory? with
  | none =>
      obtain ⟨hname, hpair⟩ := seen_of_directory?_eq_none hdirectory
      have hsame : (t.register strategy output name digest).1.tenants = t.tenants := by
        simpa [hdirectory] using htenants
      constructor
      · intro n hn
        rw [hsame]
        apply h.tenant
        rcases (by simpa using hn : n ∈ before.map (·.1) ∨ n = name) with hn | rfl
        · exact hn
        · exact hname
      · intro x hx
        rw [hsame] at hx
        exact List.mem_append_left _ (h.seen x hx)
      · intro hall c hc
        rw [hsame]
        apply h.all hall
        rcases List.mem_append.mp hc with hc | hc
        · exact hc
        · rw [List.mem_singleton.mp hc]
          exact hpair hall
  | some directory =>
      have hmore : (t.register strategy output name digest).1.tenants
          = t.tenants ++ [⟨name, digest, directory⟩] := by
        simpa [hdirectory] using htenants
      constructor
      · intro n hn
        rw [hmore]
        rcases (by simpa using hn : n ∈ before.map (·.1) ∨ n = name) with hn | rfl
        · obtain ⟨x, hx, hname⟩ := h.tenant n hn
          exact ⟨x, List.mem_append_left _ hx, hname⟩
        · exact ⟨_, List.mem_append_right _ (List.mem_singleton_self _), rfl⟩
      · intro x hx
        rw [hmore] at hx
        rcases List.mem_append.mp hx with hx | hx
        · exact List.mem_append_left _ (h.seen x hx)
        · rw [List.mem_singleton.mp hx]
          simp
      · intro hall c hc
        rw [hmore]
        rcases List.mem_append.mp hc with hc | hc
        · obtain ⟨x, hx, hpair⟩ := h.all hall c hc
          exact ⟨x, List.mem_append_left _ hx, hpair⟩
        · rw [List.mem_singleton.mp hc]
          exact ⟨_, List.mem_append_right _ (List.mem_singleton_self _), rfl⟩

/-! ### Runs -/

/-- Where schemas go, from the schemas before them. -/
def placements (strategy : Strategy) (output : String) (before : List (String × String)) :
    List (String × String) → List Placement
  | [] => []
  | c :: calls =>
    placementAfter strategy output before c.1 c.2
      :: placements strategy output (before ++ [c]) calls

theorem registerAll_placements (h : Remembers strategy before t) (output : String)
    (calls : List (String × String)) :
    (registerAll strategy output t calls).2 = placements strategy output before calls := by
  induction calls generalizing before t with
  | nil => rfl
  | cons c calls ih =>
      obtain ⟨name, digest⟩ := c
      have hfirst := register_placement h output name digest
      have hrest := ih (h.register output name digest)
      simp only [registerAll, placements]
      rw [hfirst, hrest]

theorem registerAll_settle (strategy : Strategy) (output : String) (t : Tenancy)
    (calls : List (String × String)) :
    (registerAll strategy output t calls).1.accounts
      = (registerAll strategy output t calls).2.foldl settle t.accounts := by
  induction calls generalizing t with
  | nil => rfl
  | cons c calls ih => exact ih (t.register strategy output c.1 c.2).1

/-! ### Counting -/

theorem length_dedup_append_singleton {α : Type} [DecidableEq α] (xs : List α) (x : α) :
    (xs ++ [x]).dedup.length = xs.dedup.length + if x ∈ xs then 0 else 1 := by
  have hperm : (xs ++ [x]).Perm (x :: xs) := List.perm_append_singleton x xs
  rw [hperm.dedup.length_eq]
  by_cases hx : x ∈ xs
  · simp [List.dedup_cons_of_mem hx, hx]
  · simp [List.dedup_cons_of_notMem hx, hx]

/-- How many namespaces there are. -/
def namespaces (calls : List (String × String)) : Nat := (calls.map (·.1)).dedup.length

/-- How many schemas get a directory: one for each namespace and digest, or for each namespace. -/
def distinct : Strategy → List (String × String) → Nat
  | .hashSuffix, calls => calls.dedup.length
  | .skipConflicts, calls => namespaces calls

/-- The accounts of some schemas, none of whose files is written yet. -/
structure Counted (strategy : Strategy) (calls : List (String × String)) (a : Accounts) : Prop where
  schemas : a.schemas = calls.length
  duplicates : a.duplicates + distinct strategy calls = calls.length
  renamed : a.renamed + namespaces calls = distinct strategy calls
  written : a.written = 0

theorem Counted.empty (strategy : Strategy) : Counted strategy [] {} := by
  cases strategy <;> exact ⟨rfl, rfl, rfl, rfl⟩

/-- Only the first schema of a namespace goes to the namespace's own directory. -/
theorem name_mem_iff (strategy : Strategy) (output : String) (before : List (String × String))
    (name digest : String) : name ∈ before.map (·.1) ↔
      ∀ directory, placementAfter strategy output before name digest ≠ .placed directory := by
  have hknown : (name, digest) ∈ before → name ∈ before.map (·.1) :=
    fun hmem => List.mem_map_of_mem (f := (·.1)) hmem
  unfold placementAfter
  split_ifs with hpair hname
  · simpa using hknown hpair
  · cases strategy <;> simpa using hname
  · simpa using hname

theorem namespaces_append (before : List (String × String)) (name digest : String) :
    namespaces (before ++ [(name, digest)])
      = namespaces before + if name ∈ before.map (·.1) then 0 else 1 := by
  unfold namespaces
  rw [List.map_append, List.map_singleton, length_dedup_append_singleton]

theorem distinct_append (strategy : Strategy) (output : String) (before : List (String × String))
    (name digest : String) :
    distinct strategy (before ++ [(name, digest)]) = distinct strategy before
      + if (placementAfter strategy output before name digest).directory?.isSome then 1 else 0 := by
  have hknown : (name, digest) ∈ before → name ∈ before.map (·.1) :=
    fun hmem => List.mem_map_of_mem (f := (·.1)) hmem
  cases strategy with
  | hashSuffix =>
      simp only [distinct, length_dedup_append_singleton, placementAfter]
      split_ifs <;> simp_all [Placement.directory?]
  | skipConflicts =>
      simp only [distinct, namespaces_append, placementAfter]
      split_ifs <;> simp_all [Placement.directory?]

theorem Counted.settle {a : Accounts} (h : Counted strategy before a) (output name digest : String) :
    Counted strategy (before ++ [(name, digest)])
      (settle a (placementAfter strategy output before name digest)) := by
  obtain ⟨hschemas, hduplicates, hrenamed, hwritten⟩ := h
  have hnames := namespaces_append before name digest
  have hdistinct := distinct_append strategy output before name digest
  have hlength : (before ++ [(name, digest)]).length = before.length + 1 := by simp
  have hfirst := name_mem_iff strategy output before name digest
  generalize placementAfter strategy output before name digest = placement at hdistinct hfirst ⊢
  cases placement with
  | skipped =>
      have hknown : name ∈ before.map (·.1) := hfirst.mpr (by simp)
      rw [if_pos hknown] at hnames
      have hsame : distinct strategy (before ++ [(name, digest)]) = distinct strategy before := hdistinct
      constructor <;> simp only [Tenancy.settle] <;> omega
  | placed directory =>
      have hnew : name ∉ before.map (·.1) := fun hmem => hfirst.mp hmem directory rfl
      rw [if_neg hnew] at hnames
      have hmore : distinct strategy (before ++ [(name, digest)]) = distinct strategy before + 1 :=
        hdistinct
      constructor <;> simp only [Tenancy.settle] <;> omega
  | renamed renamed directory =>
      have hknown : name ∈ before.map (·.1) := hfirst.mpr (by simp)
      rw [if_pos hknown] at hnames
      have hmore : distinct strategy (before ++ [(name, digest)]) = distinct strategy before + 1 :=
        hdistinct
      constructor <;> simp only [Tenancy.settle] <;> omega

theorem Counted.foldl {a : Accounts} (h : Counted strategy before a) (output : String)
    (calls : List (String × String)) :
    Counted strategy (before ++ calls)
      ((placements strategy output before calls).foldl Tenancy.settle a) := by
  induction calls generalizing before a with
  | nil => simpa [placements] using h
  | cons c calls ih =>
      have hnext := ih (h.settle output c.1 c.2)
      rwa [List.append_assoc] at hnext

/-! ### Directories -/

/-- The schemas that get a directory. -/
def placed (calls : List (String × String)) (ps : List Placement) : List (String × String) :=
  ((calls.zip ps).filter (·.2.directory?.isSome)).map (·.1)

theorem placed_cons (c : String × String) (calls : List (String × String)) (p : Placement)
    (ps : List Placement) :
    placed (c :: calls) (p :: ps)
      = if p.directory?.isSome then c :: placed calls ps else placed calls ps := by
  unfold placed
  rw [List.zip_cons_cons, List.filter_cons]
  split <;> rfl

theorem length_placed (strategy : Strategy) (output : String) (before calls : List (String × String)) :
    (placed calls (placements strategy output before calls)).length + distinct strategy before
      = distinct strategy (before ++ calls) := by
  induction calls generalizing before with
  | nil => simp [placed]
  | cons c calls ih =>
      obtain ⟨name, digest⟩ := c
      have hrest := ih (before ++ [(name, digest)])
      have hfirst := distinct_append strategy output before name digest
      rw [List.append_assoc, List.singleton_append] at hrest
      rw [placements, placed_cons]
      split_ifs at hfirst ⊢
      · rw [List.length_cons]
        omega
      · omega

/-- Under hash suffixes a schema gets a directory unless it was there before. -/
theorem mem_placed_iff {c : String × String} (output : String)
    (before calls : List (String × String)) :
    c ∈ placed calls (placements .hashSuffix output before calls) ↔ c ∈ calls ∧ c ∉ before := by
  induction calls generalizing before with
  | nil => simp [placed]
  | cons first calls ih =>
      have hrest := ih (before ++ [first])
      have hfirst : (placementAfter .hashSuffix output before first.1 first.2).directory?.isSome
          ↔ first ∉ before := by
        unfold placementAfter
        split_ifs <;> simp_all [Placement.directory?]
      rw [List.mem_append, List.mem_singleton, not_or] at hrest
      rw [placements, placed_cons, List.mem_cons]
      by_cases hold : first ∈ before
      · rw [if_neg (by simpa [hfirst] using hold), hrest]
        constructor
        · rintro ⟨hmem, hnew, -⟩
          exact ⟨.inr hmem, hnew⟩
        · rintro ⟨rfl | hmem, hnew⟩
          · exact absurd hold hnew
          · exact ⟨hmem, hnew, fun heq => hnew (heq ▸ hold)⟩
      · rw [if_pos (hfirst.mpr hold), List.mem_cons, hrest]
        constructor
        · rintro (rfl | ⟨hmem, hnew, -⟩)
          · exact ⟨.inl rfl, hold⟩
          · exact ⟨.inr hmem, hnew⟩
        · rintro ⟨hmem, hnew⟩
          by_cases heq : c = first
          · exact .inl heq
          · exact .inr ⟨hmem.resolve_left heq, hnew, heq⟩

/-- The directory of a schema is its namespace's own or bears its digest. -/
theorem directory_of_placementAfter {directory : String}
    (h : (placementAfter strategy output before name digest).directory? = some directory) :
    (name, digest) ∉ before ∧
      (directory = Path.join output name ∧ name ∉ before.map (·.1) ∨
        directory = Path.join output (name ++ "_" ++ digest) ∧ name ∈ before.map (·.1)) := by
  unfold placementAfter at h
  split_ifs at h with hpair hname
  · cases h
  · cases strategy with
    | skipConflicts => cases h
    | hashSuffix => exact ⟨hpair, .inr ⟨(Option.some.inj h).symm, hname⟩⟩
  · exact ⟨hpair, .inl ⟨(Option.some.inj h).symm, hname⟩⟩

/-- Where a namespace is taken, a schema that gets a directory is new and gets one with its digest. -/
theorem directory_of_mem_placements {x : (String × String) × Placement} {directory : String}
    (hx : x ∈ calls.zip (placements strategy output before calls))
    (htaken : x.1.1 ∈ before.map (·.1)) (h : x.2.directory? = some directory) :
    x.1 ∈ calls ∧ x.1 ∉ before ∧ directory = Path.join output (x.1.1 ++ "_" ++ x.1.2) := by
  induction calls generalizing before with
  | nil => simp at hx
  | cons c calls ih =>
      rw [placements, List.zip_cons_cons, List.mem_cons] at hx
      rcases hx with rfl | hx
      · obtain ⟨hnew, hown | hmarked⟩ := directory_of_placementAfter h
        · exact absurd htaken hown.2
        · exact ⟨List.mem_cons_self, hnew, hmarked.1⟩
      · have hstill : x.1.1 ∈ (before ++ [c]).map (·.1) := by
          rw [List.map_append]
          exact List.mem_append_left _ htaken
        obtain ⟨hmem, hnew, hdirectory⟩ := ih hx hstill
        refine ⟨List.mem_cons_of_mem _ hmem, ?_, hdirectory⟩
        exact fun hold => hnew (List.mem_append_left _ hold)

/-- The directories of two schemas, the first of which comes before the second, name different places
if the schemas have one namespace. -/
def Apart (x y : (String × String) × Placement) : Prop :=
  x.1.1 = y.1.1 → ∀ a, x.2.directory? = some a → ∀ b, y.2.directory? = some b →
    ∀ here, Path.resolve here a ≠ Path.resolve here b

theorem pairwise_apart (hdigest : ∀ c ∈ calls, '/' ∉ c.2.toList) :
    (calls.zip (placements strategy output before calls)).Pairwise Apart := by
  induction calls generalizing before with
  | nil => simp
  | cons c calls ih =>
      obtain ⟨name, digest⟩ := c
      rw [List.forall_mem_cons] at hdigest
      rw [placements, List.zip_cons_cons, List.pairwise_cons]
      refine ⟨?_, ih hdigest.2⟩
      intro y hy hname a ha b hb here
      have htaken : y.1.1 ∈ (before ++ [(name, digest)]).map (·.1) := by
        rw [← hname]
        simp
      obtain ⟨hmem, hnew, rfl⟩ := directory_of_mem_placements hy htaken hb
      obtain ⟨-, ⟨rfl, -⟩ | ⟨rfl, -⟩⟩ := directory_of_placementAfter ha
      · rw [← hname]
        exact resolve_join_ne (hdigest.2 _ hmem) here output name
      · have hother : digest ≠ y.1.2 := by
          rintro rfl
          apply hnew
          rw [← Prod.eta y.1, ← hname]
          exact List.mem_append_right _ (List.mem_singleton_self _)
        rw [← hname]
        exact resolve_join_digest_ne hdigest.1 (hdigest.2 _ hmem) hother here output name

/-! ### Accounts -/

theorem length_placements (strategy : Strategy) (output : String)
    (before calls : List (String × String)) :
    (placements strategy output before calls).length = calls.length := by
  induction calls generalizing before with
  | nil => rfl
  | cons c calls ih => simp [placements, ih]

theorem counted_registerAll (strategy : Strategy) (output : String)
    (calls : List (String × String)) :
    Counted strategy calls (registerAll strategy output {} calls).1.accounts := by
  rw [registerAll_settle, registerAll_placements (Remembers.empty strategy)]
  exact (Counted.empty strategy).foldl output calls

/-- The accounts follow from the number of schemas and from how many of them are distinct. -/
theorem Counted.unique {a b : Accounts} {calls' : List (String × String)}
    (ha : Counted strategy calls a) (hb : Counted strategy calls' b) (hperm : calls.Perm calls') :
    a = b := by
  have hlength : calls.length = calls'.length := hperm.length_eq
  have hnames : namespaces calls = namespaces calls' := (hperm.map _).dedup.length_eq
  have hdistinct : distinct strategy calls = distinct strategy calls' := by
    cases strategy with
    | hashSuffix => exact hperm.dedup.length_eq
    | skipConflicts => exact hnames
  obtain ⟨hschemas, hduplicates, hrenamed, hwritten⟩ := ha
  obtain ⟨hschemas', hduplicates', hrenamed', hwritten'⟩ := hb
  cases a
  cases b
  simp only [Accounts.mk.injEq] at *
  omega

/-- **Accounts of a run.**  Every schema is counted.  Under hash suffixes as many schemas get a directory
as there are pairs of a namespace and a digest, the others are duplicates, and all but one of each
namespace are renamed; where conflicts are passed over, one of each namespace gets a directory and none is
renamed.  In another order the accounts are the same, and under hash suffixes so are the pairs that get a
directory.  Two schemas of one namespace never get the same directory. -/
theorem registerAll_accounts (strategy : Strategy) (output : String)
    (calls : List (String × String)) :
    (registerAll strategy output {} calls).2.length = calls.length ∧
    (registerAll strategy output {} calls).1.accounts.schemas = calls.length ∧
    (strategy = .hashSuffix →
      (registerAll strategy output {} calls).1.accounts.duplicates + calls.dedup.length
          = calls.length ∧
        (registerAll strategy output {} calls).1.accounts.renamed + namespaces calls
          = calls.dedup.length ∧
        (placed calls (registerAll strategy output {} calls).2).length = calls.dedup.length ∧
        ∀ c, c ∈ placed calls (registerAll strategy output {} calls).2 ↔ c ∈ calls) ∧
    (strategy = .skipConflicts →
      (registerAll strategy output {} calls).1.accounts.duplicates + namespaces calls
          = calls.length ∧
        (registerAll strategy output {} calls).1.accounts.renamed = 0 ∧
        (placed calls (registerAll strategy output {} calls).2).length = namespaces calls) ∧
    (∀ calls', calls.Perm calls' →
      (registerAll strategy output {} calls').1.accounts
          = (registerAll strategy output {} calls).1.accounts ∧
        (strategy = .hashSuffix →
          ∀ c, c ∈ placed calls' (registerAll strategy output {} calls').2 ↔
            c ∈ placed calls (registerAll strategy output {} calls).2)) ∧
    ((∀ c ∈ calls, '/' ∉ c.2.toList) →
      (calls.zip (registerAll strategy output {} calls).2).Pairwise Apart) := by
  have hcounted := counted_registerAll strategy output
  have hplacements := registerAll_placements (Remembers.empty strategy) output
  have hlength := length_placed strategy output [] calls
  refine ⟨?_, (hcounted calls).schemas, ?_, ?_, ?_, ?_⟩
  · rw [hplacements]
    exact length_placements strategy output [] calls
  · rintro rfl
    refine ⟨(hcounted calls).duplicates, (hcounted calls).renamed, ?_, ?_⟩
    · rw [hplacements]
      exact hlength
    · intro c
      rw [hplacements, mem_placed_iff]
      simp
  · rintro rfl
    have hrenamed := (hcounted calls).renamed
    have hnames : distinct .skipConflicts calls = namespaces calls := rfl
    refine ⟨(hcounted calls).duplicates, by omega, ?_⟩
    rw [hplacements]
    exact hlength
  · intro calls' hperm
    refine ⟨((hcounted calls).unique (hcounted calls') hperm).symm, ?_⟩
    rintro rfl c
    rw [hplacements, hplacements, mem_placed_iff, mem_placed_iff, hperm.mem_iff]
  · intro hdigest
    rw [hplacements]
    exact pairwise_apart hdigest

/-- Four schemas of two namespaces: one comes twice, and one is renamed. -/
def fleet : List (String × String) :=
  [("car", "0a1b2c3d"), ("car", "ffee0011"), ("bus", "0a1b2c3d"), ("car", "0a1b2c3d")]

theorem registerAll_accounts_fleet :
    (∀ c ∈ fleet, '/' ∉ c.2.toList) ∧
      (registerAll .hashSuffix "out" {} fleet).1.accounts = ⟨4, 1, 1, 0⟩ ∧
      (placed fleet (registerAll .hashSuffix "out" {} fleet).2).length = 3 ∧
      (registerAll .hashSuffix "out" {} fleet.reverse).1.accounts = ⟨4, 1, 1, 0⟩ ∧
      (registerAll .skipConflicts "out" {} fleet).1.accounts.duplicates = 2 ∧
      (fleet.zip (registerAll .hashSuffix "out" {} fleet).2).Pairwise Apart := by
  have hdigest : ∀ c ∈ fleet, '/' ∉ c.2.toList := by decide
  obtain ⟨_, _, hsuffix, _, horder, hapart⟩ := registerAll_accounts .hashSuffix "out" fleet
  obtain ⟨_, _, _, hskip, _⟩ := registerAll_accounts .skipConflicts "out" fleet
  have haccounts : (registerAll .hashSuffix "out" {} fleet).1.accounts = ⟨4, 1, 1, 0⟩ := by
    decide +kernel
  have hplaced := (hsuffix rfl).2.2.1
  have hduplicates := (hskip rfl).1
  have hreverse := (horder fleet.reverse (List.reverse_perm fleet).symm).1
  refine ⟨hdigest, haccounts, hplaced, hreverse.trans haccounts, ?_, hapart hdigest⟩
  have hnames : namespaces fleet = 2 := by decide +kernel
  have hlength : fleet.length = 4 := rfl
  omega

end Tenancy
end Command
end WireCodec
