import Mathlib.Data.List.Duplicate
import Mathlib.Data.List.Pairwise
import Mathlib.Data.List.Perm.Subperm
import Mathlib.Logic.Relation
import WireCodec.Proofs.Dependencies
/-! # Cycles of composites

A composite refers to the composites among the types of its members (`Composite.RefersTo`), and a
definition is cyclic if one of them refers to itself, directly or through others (`IsCyclic`).  The
only guard against cycles is the number of composites around a type, which `Lays` counts.

The guard stops types of cyclic definitions and no others.  What it stops is the end of the first path
of more references than there are types (`tooDeep?`), and such a path comes back to one of its places
(`exists_cycle_of_isChain`).  A composite that refers to itself, in turn, has no run, since the runs of
what it refers to are shorter than its own (`Run.exists_shorter`). -/

namespace WireCodec

open Relation

/-! ### Paths that come back -/

section paths

variable {α : Type} {r : α → α → Prop} {first : α} {rest places : List α}

/-- Of two places of a path, the later one can be reached from the earlier one. -/
theorem pairwise_of_isChain {path : List α} (h : path.IsChain r) : path.Pairwise (TransGen r) := by
  have hsteps : path.IsChain (TransGen r) := h.imp fun _ _ => TransGen.single
  exact hsteps.pairwise

/-- A path of more places than there are comes back to one of them on its way to the last. -/
theorem exists_cycle_of_isChain (h : (first :: rest).IsChain r) (hsub : first :: rest ⊆ places)
    (hlength : places.length ≤ rest.length) :
    ∃ x, ReflTransGen r first x ∧ TransGen r x x ∧
      ReflTransGen r x ((first :: rest).getLast (List.cons_ne_nil _ _)) := by
  have hpairs := pairwise_of_isChain h
  have htwice : ¬ (first :: rest).Nodup := by
    intro hnodup
    have hle := (hnodup.subperm hsub).length_le
    rw [List.length_cons] at hle
    omega
  obtain ⟨x, hx⟩ := List.exists_duplicate_iff_not_nodup.mpr htwice
  have hreaches : first :: rest |>.Pairwise (ReflTransGen r) :=
    hpairs.imp TransGen.to_reflTransGen
  refine ⟨x, ?_, ?_, hreaches.rel_getLast hx.mem⟩
  · rcases List.mem_cons.mp hx.mem with rfl | hmem
    · exact .refl
    · exact List.rel_of_pairwise_cons hreaches hmem
  · have htwo := hpairs.sublist (List.duplicate_iff_sublist.mp hx)
    exact List.rel_of_pairwise_cons htwo (List.mem_singleton_self x)

end paths

namespace Definition

variable {types : List NamedType}

/-! ### References between composites -/

/-- The type of one of the members is the composite `e`. -/
def Composite.RefersTo (types : List NamedType) (c e : Composite) : Prop :=
  ∃ m ∈ c.members, m.2.lookup types = .ok (.composite e)

/-- Some composite refers to itself, directly or through other composites. -/
def IsCyclic (d : Definition) : Prop := ∃ c, TransGen (Composite.RefersTo d.allTypes) c c

def NamedType.composite? : NamedType → Option Composite
  | composite c => some c
  | _ => none

/-- The composites among the types. -/
def composites (types : List NamedType) : List Composite := types.filterMap NamedType.composite?

theorem mem_composites {c : Composite} : c ∈ composites types ↔ .composite c ∈ types := by
  unfold composites
  rw [List.mem_filterMap]
  constructor
  · rintro ⟨t, ht, hc⟩
    cases t <;> cases hc
    exact ht
  · intro hc
    exact ⟨_, hc, rfl⟩

theorem length_composites_le (types : List NamedType) : (composites types).length ≤ types.length :=
  List.length_filterMap_le _ _

theorem mem_composites_of_transGen {c e : Composite}
    (h : TransGen (Composite.RefersTo types) c e) : e ∈ composites types := by
  obtain ⟨b, -, ⟨name, r⟩, -, found⟩ := TransGen.tail'_iff.mp h
  cases r with
  | inline element => cases found
  | named n => exact mem_composites.mpr (mem_of_find found)

/-! ### Where faults come from -/

theorem Reference.lookup_eq_error {r : Reference} {e : Fault} (h : r.lookup types = .error e) :
    ∃ name, e = .missingType name := by
  cases r with
  | inline element => cases h
  | named n =>
      rw [Reference.lookup, find] at h
      split at h
      · cases h
      · cases h
        exact ⟨n, rfl⟩

/-- The fault is that of a name without a type, or one of the types is laid out with it. -/
def StemsFromType (types : List NamedType) (e : Fault) : Prop :=
  (∃ name, e = .missingType name) ∨ ∃ t ∈ types, ∃ p, NamedType.outerTokens types t p = .error e

theorem Reference.mem_of_lookup {r : Reference} {t : NamedType} {p : Position} {e : Fault}
    (found : r.lookup types = .ok t) (h : t.outerTokens types p = .error e) : t ∈ types := by
  cases r with
  | inline element =>
      obtain rfl := Except.ok.inj found
      unfold NamedType.outerTokens at h
      rw [NamedType.tokens_element] at h
      cases h
  | named n => exact mem_of_find found

theorem Field.stemsFromType {f : Field} {offset : Nat} {e : Fault}
    (h : f.tokens types offset = .error e) : StemsFromType types e := by
  rw [Field.tokens_eq] at h
  rcases bind_eq_error.mp h with h | ⟨t, found, h⟩
  · exact .inl (Reference.lookup_eq_error h)
  rcases bind_eq_error.mp h with h | ⟨_, -, h⟩
  · exact .inr ⟨t, Reference.mem_of_lookup found h, _, h⟩
  · exact absurd h pure_ne_error

theorem fieldTokens_stemsFromType {e : Fault} : ∀ {fields : List Field} {offset : Nat},
    fieldTokens types offset fields = .error e → StemsFromType types e
  | [], _, h => nomatch h
  | f :: fields, offset, h => by
      rw [fieldTokens] at h
      rcases bind_eq_error.mp h with h | ⟨_, -, h⟩
      · exact Field.stemsFromType h
      rcases bind_eq_error.mp h with h | ⟨_, -, h⟩
      · exact fieldTokens_stemsFromType h
      · exact absurd h pure_ne_error

theorem groupTokens_stemsFromType {e : Fault} : ∀ {groups : List Group},
    groupTokens types groups = .error e → StemsFromType types e
  | [], h => by
      rw [groupTokens] at h
      cases h
  | .mk name id since p q fields groups varData :: rest, h => by
      rw [groupTokens, Group.tokens] at h
      rcases bind_eq_error.mp h with h | ⟨_, -, h⟩
      · rcases bind_eq_error.mp h with h | ⟨_, -, h⟩
        · exact fieldTokens_stemsFromType h
        rcases bind_eq_error.mp h with h | ⟨_, -, h⟩
        · exact groupTokens_stemsFromType h
        · exact absurd h pure_ne_error
      rcases bind_eq_error.mp h with h | ⟨_, -, h⟩
      · exact groupTokens_stemsFromType h
      · exact absurd h pure_ne_error
termination_by groups => sizeOf groups

theorem Message.stemsFromType {m : Message} {e : Fault} (h : m.tokens types = .error e) :
    StemsFromType types e := by
  unfold Message.tokens at h
  rcases bind_eq_error.mp h with h | ⟨_, -, h⟩
  · exact fieldTokens_stemsFromType h
  rcases bind_eq_error.mp h with h | ⟨_, -, h⟩
  · exact groupTokens_stemsFromType h
  · exact absurd h pure_ne_error

/-! ### What the guard stops -/

/-- The composite at which the first path of so many references from the type ends, where the members
of a composite are tried in their order. -/
def NamedType.pathEnd? (types : List NamedType) : Nat → NamedType → Option Composite
  | 0, .composite c => some c
  | levels + 1, .composite c =>
      c.members.findSome? fun m => (m.2.lookup types).toOption.bind (pathEnd? types levels)
  | _, _ => none

/-- The composite that stands too deep in a definition: the end of the first path of more references
than there are types. -/
def tooDeep? (d : Definition) : Option Composite :=
  d.allTypes.findSome? (NamedType.pathEnd? d.allTypes (d.allTypes.length + 1))

section members

variable {tokens : NamedType → Position → Except Fault (List Token × Nat)}
variable {pathEnd? : NamedType → Option Composite} {version : Nat}

/-- No path goes through members that are laid out. -/
theorem findSome?_of_memberTokens_eq_ok
    (htokens : ∀ e p, tokens (.element e) p = .ok ([e.token p], e.encodedLength))
    (hok : ∀ t p laid, tokens t p = .ok laid → pathEnd? t = none) :
    ∀ {members : List (String × Reference)} {offset : Nat} {laid : List Token × Nat},
      memberTokens types tokens version offset members = .ok laid →
      members.findSome? (fun m => (m.2.lookup types).toOption.bind pathEnd?) = none
  | [], _, _, _ => rfl
  | (name, r) :: members, _, _, h => by
      rw [memberTokens_cons _ _ htokens] at h
      obtain ⟨t, found, h⟩ := bind_eq_ok.mp h
      obtain ⟨_, head, h⟩ := bind_eq_ok.mp h
      obtain ⟨_, tail, -⟩ := bind_eq_ok.mp h
      have hfirst : (r.lookup types).toOption.bind pathEnd? = none := by
        rw [found]
        exact hok t _ _ head
      rw [List.findSome?_cons, hfirst]
      exact findSome?_of_memberTokens_eq_ok htokens hok tail

/-- The first path through members that are stopped leads to the composite that is named. -/
theorem findSome?_of_memberTokens_eq_typeCycle {cycle : String}
    (htokens : ∀ e p, tokens (.element e) p = .ok ([e.token p], e.encodedLength))
    (hok : ∀ t p laid, tokens t p = .ok laid → pathEnd? t = none)
    (hstop : ∀ t p, tokens t p = .error (.typeCycle cycle) → ∃ c, pathEnd? t = some c ∧ c.name = cycle) :
    ∀ {members : List (String × Reference)} {offset : Nat},
      memberTokens types tokens version offset members = .error (.typeCycle cycle) →
      ∃ c, members.findSome? (fun m => (m.2.lookup types).toOption.bind pathEnd?) = some c ∧
        c.name = cycle
  | [], _, h => nomatch h
  | (name, r) :: members, _, h => by
      rw [memberTokens_cons _ _ htokens] at h
      rcases bind_eq_error.mp h with h | ⟨t, found, h⟩
      · obtain ⟨_, hname⟩ := Reference.lookup_eq_error h
        cases hname
      have hfirst : (r.lookup types).toOption.bind pathEnd? = pathEnd? t := by
        rw [found]
        rfl
      rw [List.findSome?_cons, hfirst]
      rcases bind_eq_error.mp h with h | ⟨_, head, h⟩
      · obtain ⟨c, hc, hname⟩ := hstop t _ h
        rw [hc]
        exact ⟨c, rfl, hname⟩
      rw [hok t _ _ head]
      rcases bind_eq_error.mp h with h | ⟨_, -, h⟩
      · exact findSome?_of_memberTokens_eq_typeCycle htokens hok hstop h
      · exact absurd h pure_ne_error

end members

/-- A type that is laid out has no path of so many references. -/
theorem NamedType.pathEnd?_of_ok : ∀ {levels : Nat} {t : NamedType} {p : Position}
    {laid : List Token × Nat}, t.tokens types levels p = .ok laid → t.pathEnd? types levels = none
  | levels, .element e, _, _, _ => by cases levels <;> rfl
  | levels, .enumeration e, _, _, _ => by cases levels <;> rfl
  | levels, .bitSet s, _, _, _ => by cases levels <;> rfl
  | 0, .composite c, _, _, h => by
      rw [tokens] at h
      cases h
  | levels + 1, .composite c, p, _, h => by
      rw [tokens_composite] at h
      obtain ⟨_, hmembers, -⟩ := bind_eq_ok.mp h
      exact findSome?_of_memberTokens_eq_ok (tokens_element types levels)
        (fun _ _ _ => pathEnd?_of_ok) hmembers

/-- The guard stops the composite at the end of the first path with one reference for each level. -/
theorem NamedType.pathEnd?_of_typeCycle {name : String} : ∀ {levels : Nat} {t : NamedType}
    {p : Position}, t.tokens types levels p = .error (.typeCycle name) →
    ∃ c, t.pathEnd? types levels = some c ∧ c.name = name
  | levels, .element e, p, h => by
      rw [tokens_element] at h
      cases h
  | levels, .enumeration e, p, h => by
      rw [tokens, Enumeration.tokens] at h
      split at h <;> cases h
  | levels, .bitSet s, p, h => by
      rw [tokens] at h
      cases h
  | 0, .composite c, p, h => by
      rw [tokens] at h
      cases h
      exact ⟨c, rfl, rfl⟩
  | levels + 1, .composite c, p, h => by
      rw [tokens_composite] at h
      rcases bind_eq_error.mp h with h | ⟨_, -, h⟩
      · exact findSome?_of_memberTokens_eq_typeCycle (tokens_element types levels)
          (fun _ _ _ => pathEnd?_of_ok) (fun _ _ => pathEnd?_of_typeCycle) h
      · exact absurd h pure_ne_error

/-- A definition that is refused for a cycle has a composite that stands too deep, and names it. -/
theorem tooDeep?_of_schema {d : Definition} {name : String}
    (h : d.schema = .error (.typeCycle name)) : ∃ c, d.tooDeep? = some c ∧ c.name = name := by
  unfold schema at h
  rcases bind_eq_error.mp h with h | ⟨_, hruns, h⟩
  · obtain ⟨front, t, back, hsplit, hfront, ht⟩ := exists_of_mapM_eq_error h
    obtain ⟨c, hc, hname⟩ := NamedType.pathEnd?_of_typeCycle (except_map_eq_error.mp ht)
    refine ⟨c, List.findSome?_eq_some_iff.mpr ⟨front, t, back, hsplit, hc, ?_⟩, hname⟩
    intro u hu
    obtain ⟨_, hrun⟩ := hfront u hu
    obtain ⟨_, hlaid, -⟩ := except_map_eq_ok.mp hrun
    exact NamedType.pathEnd?_of_ok hlaid
  -- The types are laid out, so no message can fail for one of them.
  rcases bind_eq_error.mp h with h | ⟨_, -, h⟩
  · obtain ⟨_, m, _, -, -, hm⟩ := exists_of_mapM_eq_error h
    rcases Message.stemsFromType hm with ⟨_, hname⟩ | ⟨t, ht, p, hstop⟩
    · cases hname
    · obtain ⟨c, hc, -⟩ := NamedType.pathEnd?_of_typeCycle hstop
      obtain ⟨_, -, hrun⟩ := ok_of_mapM_eq_ok hruns ht
      obtain ⟨_, hlaid, -⟩ := except_map_eq_ok.mp hrun
      rw [NamedType.pathEnd?_of_ok hlaid] at hc
      cases hc
  · exact absurd h pure_ne_error

/-- There is such a path: one reference for each level leads from the type to the composite. -/
theorem NamedType.exists_path_of_pathEnd? {e : Composite} : ∀ {levels : Nat} {t : NamedType},
    t.pathEnd? types levels = some e →
    ∃ c path, t = .composite c ∧ (c :: path).IsChain (Composite.RefersTo types) ∧
      path.length = levels ∧ (c :: path).getLast (List.cons_ne_nil _ _) = e
  | levels, .element _, h => by cases levels <;> cases h
  | levels, .enumeration _, h => by cases levels <;> cases h
  | levels, .bitSet _, h => by cases levels <;> cases h
  | 0, .composite c, h => by
      obtain rfl := Option.some.inj h
      exact ⟨c, [], rfl, .singleton c, rfl, rfl⟩
  | levels + 1, .composite c, h => by
      obtain ⟨m, hm, h⟩ := List.exists_of_findSome?_eq_some h
      obtain ⟨t, found, h⟩ := Option.bind_eq_some_iff.mp h
      obtain ⟨b, path, rfl, hpath, hlength, hlast⟩ := exists_path_of_pathEnd? h
      refine ⟨c, b :: path, rfl, ?_, ?_, ?_⟩
      · exact List.isChain_cons_cons.mpr ⟨⟨m, hm, toOption_eq_some.mp found⟩, hpath⟩
      · rw [List.length_cons, hlength]
      · rwa [List.getLast_cons (List.cons_ne_nil _ _)]

/-- A path of more references than there are types comes from a cycle. -/
theorem NamedType.exists_cycle_of_pathEnd? {c : Composite} {levels : Nat} {t : NamedType}
    (h : t.pathEnd? types levels = some c) (hlevels : types.length < levels) :
    .composite c ∈ types ∧ ∃ e, TransGen (Composite.RefersTo types) e e ∧
      ReflTransGen (Composite.RefersTo types) e c := by
  obtain ⟨b, path, rfl, hpath, hlength, hlast⟩ := exists_path_of_pathEnd? h
  have hmem : ∀ c ∈ path, c ∈ composites types := fun c hc =>
    mem_composites_of_transGen (List.rel_of_pairwise_cons (pairwise_of_isChain hpath) hc)
  cases path with
  | nil =>
      rw [List.length_nil] at hlength
      omega
  | cons first path =>
      rw [List.length_cons] at hlength
      rw [List.getLast_cons (List.cons_ne_nil _ _)] at hlast
      have hle := length_composites_le types
      obtain ⟨e, -, hcycle, hreaches⟩ :=
        exists_cycle_of_isChain (List.isChain_cons_cons.mp hpath).2 hmem (by omega)
      rw [hlast] at hreaches
      refine ⟨mem_composites.mp (hmem c ?_), e, hcycle, hreaches⟩
      rw [← hlast]
      exact List.getLast_mem _

/-- What stands too deep can be reached from a cycle. -/
theorem exists_cycle_of_tooDeep? {d : Definition} {c : Composite} (h : d.tooDeep? = some c) :
    .composite c ∈ d.allTypes ∧ ∃ e, TransGen (Composite.RefersTo d.allTypes) e e ∧
      ReflTransGen (Composite.RefersTo d.allTypes) e c := by
  obtain ⟨t, -, ht⟩ := List.exists_of_findSome?_eq_some h
  exact NamedType.exists_cycle_of_pathEnd? ht (Nat.lt_succ_self _)

/-! ### The guard in acyclic definitions -/

/-- Is the outcome that of the guard? -/
def IsStopped {α : Type} (outcome : Except Fault α) : Prop :=
  ∃ name, outcome = .error (.typeCycle name)

theorem IsStopped.bind {α β : Type} {x : Except Fault α} (h : IsStopped x) (f : α → Except Fault β) :
    IsStopped (x >>= f) := by
  obtain ⟨name, rfl⟩ := h
  exact ⟨name, rfl⟩

theorem memberTokens_of_lookup {levels version offset : Nat} {name : String} {r : Reference}
    {members : List (String × Reference)} {t : NamedType} (found : r.lookup types = .ok t) :
    memberTokens types (NamedType.tokens types levels) version offset ((name, r) :: members) = (do
      let (ts, n) ← t.tokens types levels { name, referencedName := r.stated, offset, version }
      let (rest, m) ← memberTokens types (NamedType.tokens types levels) version (offset + n) members
      return (ts ++ rest, n + m)) := by
  rw [memberTokens_cons _ _ (NamedType.tokens_element types levels), found]
  rfl

theorem memberTokens_of_lookup_error {levels version offset : Nat} {name : String} {r : Reference}
    {members : List (String × Reference)} {e : Fault} (missing : r.lookup types = .error e) :
    memberTokens types (NamedType.tokens types levels) version offset ((name, r) :: members)
      = .error e := by
  rw [memberTokens_cons _ _ (NamedType.tokens_element types levels), missing]
  rfl

theorem memberTokens_succ {levels version : Nat}
    (ih : ∀ t p, ¬ IsStopped (NamedType.tokens types levels t p) →
      NamedType.tokens types (levels + 1) t p = NamedType.tokens types levels t p) :
    ∀ {members : List (String × Reference)} {offset : Nat},
      ¬ IsStopped (memberTokens types (NamedType.tokens types levels) version offset members) →
      memberTokens types (NamedType.tokens types (levels + 1)) version offset members =
        memberTokens types (NamedType.tokens types levels) version offset members
  | [], _, _ => rfl
  | (name, r) :: members, offset, h => by
      cases found : r.lookup types with
      | error e => rw [memberTokens_of_lookup_error found, memberTokens_of_lookup_error found]
      | ok t =>
          rw [memberTokens_of_lookup found] at h
          rw [memberTokens_of_lookup found, memberTokens_of_lookup found]
          rw [ih _ _ fun hs => h (hs.bind _)]
          cases hts : t.tokens types levels { name, referencedName := r.stated, offset, version } with
          | error e => rfl
          | ok laid =>
              rw [hts] at h
              have hrest : ¬ IsStopped (memberTokens types (NamedType.tokens types levels) version
                  (offset + laid.2) members) := fun hs => h (hs.bind _)
              change memberTokens types _ version (offset + laid.2) members >>= _ = _
              rw [memberTokens_succ ih hrest]
              rfl

theorem NamedType.tokens_succ : ∀ {levels : Nat} {t : NamedType} {p : Position},
    ¬ IsStopped (t.tokens types levels p) → t.tokens types (levels + 1) p = t.tokens types levels p
  | levels, .element e, p, _ => by rw [tokens_element, tokens_element]
  | levels, .enumeration e, p, _ => by cases levels <;> rfl
  | levels, .bitSet s, p, _ => by cases levels <;> rfl
  | 0, .composite c, p, h => absurd ⟨c.name, rfl⟩ h
  | levels + 1, .composite c, p, h => by
      rw [tokens_composite] at h
      rw [tokens_composite, tokens_composite]
      have hmembers : ¬ IsStopped (memberTokens types (NamedType.tokens types levels) p.version 0
          c.members) := fun hs => h (hs.bind _)
      exact congrArg (· >>= _) (memberTokens_succ (fun _ _ => tokens_succ) hmembers)

/-- Without a cycle any number of levels above that of the types will do. -/
theorem NamedType.tokens_of_acyclic
    (hacyclic : ¬ ∃ c, TransGen (Composite.RefersTo types) c c) (t : NamedType) (p : Position)
    {levels : Nat} (hlevels : types.length < levels) :
    t.tokens types levels p = t.outerTokens types p := by
  have hfree : ∀ levels, types.length < levels → ¬ IsStopped (t.tokens types levels p) := by
    rintro levels hlevels ⟨name, h⟩
    obtain ⟨c, hc, -⟩ := pathEnd?_of_typeCycle h
    obtain ⟨-, e, hcycle, -⟩ := exists_cycle_of_pathEnd? hc hlevels
    exact hacyclic ⟨e, hcycle⟩
  unfold outerTokens
  induction levels, hlevels using Nat.le_induction with
  | base => rfl
  | succ levels hle ih => rw [tokens_succ (hfree levels hle), ih]

/-! ### Composites that refer to themselves -/

theorem Members.exists_run {version : Nat} {m : String × Reference} {t : NamedType}
    (found : m.2.lookup types = .ok t) : ∀ {members : List (String × Reference)} {offset n : Nat}
      {tokens : List Token}, Members types version offset members tokens n → m ∈ members →
      ∃ p run k, Run types t p run k ∧ run.length ≤ tokens.length
  | [], _, _, _, _, hm => nomatch hm
  | (name, r) :: members, _, _, _, h, hm => by
      obtain ⟨t', run, rest, k, _, found', hrun, tail, rfl, -⟩ := h.of_cons
      rw [List.length_append]
      rcases List.mem_cons.mp hm with rfl | hm
      · obtain rfl := Except.ok.inj (found.symm.trans found')
        exact ⟨_, run, k, hrun, Nat.le_add_right _ _⟩
      · obtain ⟨p, run', k', hrun', hle⟩ := tail.exists_run found hm
        exact ⟨p, run', k', hrun', by omega⟩

theorem Run.exists_shorter {c e : Composite} {p : Position} {tokens : List Token} {n : Nat}
    (h : Run types (.composite c) p tokens n) (hrefers : c.RefersTo types e) :
    ∃ q run k, Run types (.composite e) q run k ∧ run.length < tokens.length := by
  obtain ⟨m, hm, found⟩ := hrefers
  cases h with
  | leaf placed => cases placed
  | composite nested =>
      obtain ⟨q, run, k, hrun, hle⟩ := nested.exists_run found hm
      refine ⟨q, run, k, hrun, ?_⟩
      unfold compositeRun simpleRun
      rw [length_wrap]
      omega

theorem Run.exists_shorter_of_transGen {c e : Composite} {p : Position} {tokens : List Token} {n : Nat}
    (h : Run types (.composite c) p tokens n) (hreaches : TransGen (Composite.RefersTo types) c e) :
    ∃ q run k, Run types (.composite e) q run k ∧ run.length < tokens.length := by
  induction hreaches with
  | single hrefers => exact h.exists_shorter hrefers
  | tail _ hrefers ih =>
      obtain ⟨_, _, _, hrun, hlt⟩ := ih
      obtain ⟨q, run, k, hrun, hlt'⟩ := hrun.exists_shorter hrefers
      exact ⟨q, run, k, hrun, Nat.lt_trans hlt' hlt⟩

theorem Run.not_transGen_self {c : Composite} {p : Position} {tokens : List Token} {n : Nat}
    (h : Run types (.composite c) p tokens n) : ¬ TransGen (Composite.RefersTo types) c c := by
  intro hcycle
  obtain ⟨q, run, k, hrun, hlt⟩ := h.exists_shorter_of_transGen hcycle
  have := h.length_eq hrun
  omega

/-- A definition that is laid out has no cycle. -/
theorem not_isCyclic_of_schema {d : Definition} {s : Schema} (h : d.schema = .ok s) :
    ¬ d.IsCyclic := by
  rintro ⟨c, hcycle⟩
  have hc := mem_composites.mp (mem_composites_of_transGen hcycle)
  obtain ⟨run, -, hrun⟩ := ok_of_mapM_eq_ok (schema_eq_ok h).1 hc
  obtain ⟨⟨tokens, n⟩, htokens, -⟩ := except_map_eq_ok.mp hrun
  exact (run_of_tokens htokens).not_transGen_self hcycle

/-! ### The layout by depth -/

mutual

/-- The outcome of laying out a type within `depth` composites. -/
inductive Lays (types : List NamedType) :
    Nat → NamedType → Position → Except Fault (List Token × Nat) → Prop
  | element (depth : Nat) (e : Element) (p : Position) :
      Lays types depth (.element e) p (.ok ([e.token p], e.encodedLength))
  | enumeration (depth : Nat) (e : Enumeration) (p : Position) :
      Lays types depth (.enumeration e) p (e.tokens p)
  | bitSet (depth : Nat) (s : BitSet) (p : Position) :
      Lays types depth (.bitSet s) p (.ok (s.tokens p))
  | tooDeep {depth : Nat} {c : Composite} {p : Position} (deep : types.length < depth) :
      Lays types depth (.composite c) p (.error (.typeCycle c.name))
  | composite {depth : Nat} {c : Composite} {p : Position} {outcome : Except Fault (List Token × Nat)}
      (shallow : depth ≤ types.length)
      (members : LaysMembers types (depth + 1) p.version 0 c.members outcome) :
      Lays types depth (.composite c) p (outcome.map fun (inner, n) => (compositeRun p inner n, n))

/-- The outcome of laying out the members of a composite from some offset on. -/
inductive LaysMembers (types : List NamedType) :
    Nat → Nat → Nat → List (String × Reference) → Except Fault (List Token × Nat) → Prop
  | nil (depth version offset : Nat) : LaysMembers types depth version offset [] (.ok ([], 0))
  | missing {depth version offset : Nat} {name : String} {r : Reference}
      {members : List (String × Reference)} {e : Fault} (missing : r.lookup types = .error e) :
      LaysMembers types depth version offset ((name, r) :: members) (.error e)
  | failed {depth version offset : Nat} {name : String} {r : Reference}
      {members : List (String × Reference)} {t : NamedType} {e : Fault}
      (found : r.lookup types = .ok t)
      (head : Lays types depth t { name, referencedName := r.stated, offset, version } (.error e)) :
      LaysMembers types depth version offset ((name, r) :: members) (.error e)
  | cons {depth version offset : Nat} {name : String} {r : Reference}
      {members : List (String × Reference)} {t : NamedType} {tokens : List Token} {n : Nat}
      {outcome : Except Fault (List Token × Nat)} (found : r.lookup types = .ok t)
      (head : Lays types depth t { name, referencedName := r.stated, offset, version }
        (.ok (tokens, n)))
      (tail : LaysMembers types depth version (offset + n) members outcome) :
      LaysMembers types depth version offset ((name, r) :: members)
        (outcome.map fun (rest, m) => (tokens ++ rest, n + m))

end

theorem laysMembers_iff {depth levels : Nat}
    (ih : ∀ t p outcome, Lays types depth t p outcome ↔ outcome = t.tokens types levels p)
    {version : Nat} : ∀ {members : List (String × Reference)} {offset : Nat}
      {outcome : Except Fault (List Token × Nat)},
      LaysMembers types depth version offset members outcome ↔
        outcome = memberTokens types (NamedType.tokens types levels) version offset members
  | [], offset, outcome => by
      constructor
      · intro h
        cases h
        rfl
      · rintro rfl
        exact .nil depth version offset
  | (name, r) :: members, offset, outcome => by
      constructor
      · intro h
        cases h with
        | missing missing => rw [memberTokens_of_lookup_error missing]
        | failed found head =>
            rw [memberTokens_of_lookup found, ← (ih _ _ _).mp head]
            rfl
        | cons found head tail =>
            rw [memberTokens_of_lookup found, ← (ih _ _ _).mp head, (laysMembers_iff ih).mp tail]
            rfl
      · rintro rfl
        cases found : r.lookup types with
        | error e =>
            rw [memberTokens_of_lookup_error found]
            exact .missing found
        | ok t =>
            rw [memberTokens_of_lookup found]
            have head := (ih t { name, referencedName := r.stated, offset, version } _).mpr rfl
            cases hts : t.tokens types levels { name, referencedName := r.stated, offset, version } with
            | error e =>
                rw [hts] at head
                exact .failed found head
            | ok laid =>
                rw [hts] at head
                exact .cons found head ((laysMembers_iff ih).mpr rfl)

/-- Levels count down what the depth counts up. -/
theorem lays_iff : ∀ {levels depth : Nat}, depth + levels = types.length + 1 →
    ∀ (t : NamedType) (p : Position) (outcome : Except Fault (List Token × Nat)),
      Lays types depth t p outcome ↔ outcome = t.tokens types levels p
  | levels, depth, _, .element e, p, outcome => by
      rw [NamedType.tokens_element]
      constructor
      · intro h
        cases h
        rfl
      · rintro rfl
        exact .element depth e p
  | levels, depth, _, .enumeration e, p, outcome => by
      rw [NamedType.tokens]
      constructor
      · intro h
        cases h
        rfl
      · rintro rfl
        exact .enumeration depth e p
  | levels, depth, _, .bitSet s, p, outcome => by
      rw [NamedType.tokens]
      constructor
      · intro h
        cases h
        rfl
      · rintro rfl
        exact .bitSet depth s p
  | 0, depth, hdepth, .composite c, p, outcome => by
      rw [NamedType.tokens]
      constructor
      · intro h
        cases h with
        | tooDeep deep => rfl
        | composite shallow members => omega
      · rintro rfl
        exact .tooDeep (by omega)
  | levels + 1, depth, hdepth, .composite c, p, outcome => by
      rw [NamedType.tokens_composite]
      have hmembers := @laysMembers_iff types (depth + 1) levels (lays_iff (by omega)) p.version
        c.members 0
      constructor
      · intro h
        cases h with
        | tooDeep deep => omega
        | composite shallow members =>
            rw [hmembers.mp members]
            rfl
      · rintro rfl
        exact .composite (by omega) (hmembers.mpr rfl)

/-- **Cycles of composites.**  Laying out a type comes to an end, with one outcome.  A definition that
is refused for a cycle has one, and a definition with a cycle is not laid out.  In a definition
without a cycle the guard is never met, however deep composites are nested. -/
theorem schema_cycle (d : Definition) :
    (∀ (t : NamedType) p outcome,
      Lays d.allTypes 0 t p outcome ↔ outcome = t.outerTokens d.allTypes p) ∧
      (∀ name, d.schema = .error (.typeCycle name) → d.IsCyclic) ∧
      (d.IsCyclic → ∀ s, d.schema ≠ .ok s) ∧
      (¬ d.IsCyclic → ∀ (t : NamedType) p levels, d.allTypes.length < levels →
        t.tokens d.allTypes levels p = t.outerTokens d.allTypes p) := by
  refine ⟨lays_iff (by omega), ?_, ?_, ?_⟩
  · intro name h
    obtain ⟨c, hc, -⟩ := tooDeep?_of_schema h
    obtain ⟨-, e, hcycle, -⟩ := exists_cycle_of_tooDeep? hc
    exact ⟨e, hcycle⟩
  · intro hcyclic s hs
    exact not_isCyclic_of_schema hs hcyclic
  · intro hacyclic t p levels hlevels
    exact t.tokens_of_acyclic hacyclic p hlevels

namespace Engines

/-- A composite with one member, of the given type. -/
def nest (name : String) (member : String) (type : Reference) : NamedType :=
  .composite ⟨name, [(member, type)]⟩

/-- An engine with a booster that has an engine. -/
def circular : Definition :=
  { packageName := "cars"
    types := [nest "Engine" "booster" (.named "Booster"), nest "Booster" "engine" (.named "Engine")] }

/-- An engine with a booster.  The second booster has an engine, but no name refers to it. -/
def shadowed : Definition :=
  { packageName := "cars"
    types := [nest "Booster" "boost" (.inline (.ofPrimitive "uint8" .uint8)),
      nest "Engine" "booster" (.named "Booster"), nest "Booster" "engine" (.named "Engine")] }

end Engines

theorem schema_cycle_engine :
    Engines.circular.schema = .error (.typeCycle "Engine") ∧ Engines.circular.IsCyclic ∧
      Engines.shadowed.schema.toOption.isSome ∧ ¬ Engines.shadowed.IsCyclic := by
  have hcircular : Engines.circular.schema = .error (.typeCycle "Engine") := by rfl
  have hshadowed : Engines.shadowed.schema.toOption.isSome := by decide +kernel
  refine ⟨hcircular, (schema_cycle Engines.circular).2.1 _ hcircular, hshadowed, ?_⟩
  obtain ⟨s, hs⟩ := Option.isSome_iff_exists.mp hshadowed
  intro hcyclic
  exact (schema_cycle Engines.shadowed).2.2.1 hcyclic s (toOption_eq_some.mp hs)

end Definition
end WireCodec
