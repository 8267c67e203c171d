import WireCodec.Proofs.Cycles
import WireCodec.Proofs.Ordering
/-! # Which type a cycle is reported for

A cycle is noticed where the work gets stuck, and the type that is named there need not be on it.  The
layout of a definition gets stuck below a cycle, at the end of a path of too many references
(`Definition.tooDeep?`).  The registry gets stuck above: it names the first of its types that leads to
a cycle (`FirstToCycle`), and it does so exactly if there is such a type.  `typeCycle_names` states
both.

The types that wait when no type is ready are the ones that lead to a cycle.  Each of them depends on
another one that waits, so a path among them comes back (`leadsToCycle_of_waiting`); and nothing that
is placed leads to a cycle, as dependencies come first (`DependenciesFirst.not_leadsToCycle`). -/

namespace WireCodec

open Relation

namespace Registry

/-! ### Types that lead to a cycle -/

/-- The type depends on itself, or on a type that does, directly or through others. -/
def LeadsToCycle (types : List NamedType) (t : NamedType) : Prop :=
  ∃ u, ReflTransGen (DependsOn types) t u ∧ TransGen (DependsOn types) u u

/-- The type is the first of the list that leads to a cycle. -/
def FirstToCycle (types : List NamedType) (t : NamedType) : Prop :=
  LeadsToCycle types t ∧
    ∃ front back, types = front ++ t :: back ∧ ∀ u ∈ front, ¬ LeadsToCycle types u

variable {types placed waiting : List NamedType} {t u : NamedType}

theorem FirstToCycle.unique (ht : FirstToCycle types t) (hu : FirstToCycle types u) : t = u := by
  classical
  have hfind : ∀ v, FirstToCycle types v →
      types.find? (fun w => decide (LeadsToCycle types w)) = some v := by
    rintro v ⟨hv, front, back, hsplit, hfront⟩
    refine List.find?_eq_some_iff_append.mpr ⟨decide_eq_true hv, front, back, hsplit, ?_⟩
    intro w hw
    simp [hfront w hw]
  exact Option.some.inj ((hfind t ht).symm.trans (hfind u hu))

/-- Among types that each depend on another of them, every one leads to a cycle. -/
theorem leadsToCycle_of_waiting (h : ∀ t ∈ waiting, ∃ u ∈ waiting, DependsOn types t u)
    (ht : t ∈ waiting) : LeadsToCycle types t := by
  have hpath : ∀ n, ∀ t ∈ waiting, ∃ path, (t :: path).IsChain (DependsOn types) ∧
      t :: path ⊆ waiting ∧ path.length = n := by
    intro n
    induction n with
    | zero =>
        intro t ht
        exact ⟨[], .singleton t, List.cons_subset.mpr ⟨ht, List.nil_subset _⟩, rfl⟩
    | succ n ih =>
        intro t ht
        obtain ⟨u, hu, hdep⟩ := h t ht
        obtain ⟨path, hchain, hsub, hlength⟩ := ih u hu
        refine ⟨u :: path, ?_, List.cons_subset.mpr ⟨ht, hsub⟩, ?_⟩
        · exact List.isChain_cons_cons.mpr ⟨hdep, hchain⟩
        · rw [List.length_cons, hlength]
  obtain ⟨path, hchain, hsub, hlength⟩ := hpath waiting.length t ht
  obtain ⟨u, hreaches, hcycle, -⟩ := exists_cycle_of_isChain hchain hsub hlength.ge
  exact ⟨u, hreaches, hcycle⟩

/-- Where dependencies come first, no type leads to a cycle. -/
theorem DependenciesFirst.not_leadsToCycle (h : DependenciesFirst types placed) (ht : t ∈ placed) :
    ¬ LeadsToCycle types t := by
  rintro ⟨u, hreaches, hcycle⟩
  have hu : u ∈ placed := by
    clear hcycle
    induction hreaches with
    | refl => exact ht
    | tail _ hdep ih => exact (h.idxOf_lt ih hdep).1
  have hearlier : ∀ v, TransGen (DependsOn types) u v →
      v ∈ placed ∧ placed.idxOf v < placed.idxOf u := by
    intro v hpath
    induction hpath with
    | single hdep => exact h.idxOf_lt hu hdep
    | tail _ hdep ih =>
        obtain ⟨hmem, hlt⟩ := ih
        obtain ⟨hv, hlt'⟩ := h.idxOf_lt hmem hdep
        exact ⟨hv, Nat.lt_trans hlt' hlt⟩
  have := (hearlier u hcycle).2
  omega

/-! ### The selection gets stuck -/

/-- Some types are placed, and none of the others is ready; `t` is the first of them. -/
structure Stuck (types placed : List NamedType) (t : NamedType) (waiting : List NamedType) : Prop
    extends Progress types placed (t :: waiting) where
  blocked : ∀ u ∈ t :: waiting, ¬ isReady types placed u

/-- The selection fails where it gets stuck. -/
theorem Progress.order_eq_error (hnodup : (types.map NamedType.name).Nodup) {e : Fault} :
    ∀ {fuel : Nat} {placed waiting : List NamedType}, Progress types placed waiting →
      order types fuel placed waiting = .error e →
      ∃ placed t waiting, e = .typeCycle t.name ∧ Stuck types placed t waiting
  | _, placed, [], _, herror => by
      unfold order at herror
      cases herror
  | 0, placed, t :: waiting, _, herror => by
      unfold order at herror
      cases herror
  | fuel + 1, placed, t :: waiting, h, herror => by
      rw [order] at herror
      split at herror
      next next hnext => exact order_eq_error hnodup (h.step hnodup hnext) herror
      next hnone =>
        cases herror
        exact ⟨placed, t, waiting, rfl, h, List.find?_eq_none.mp hnone⟩

/-- What is not ready depends on something that waits. -/
theorem Stuck.exists_dependsOn (h : Stuck types placed t waiting)
    (hnodup : (types.map NamedType.name).Nodup) (hu : u ∈ t :: waiting) :
    ∃ v ∈ t :: waiting, DependsOn types u v := by
  have hblocked := h.blocked u hu
  rw [isReady_iff hnodup h.subset (h.sublist.subset hu)] at hblocked
  push Not at hblocked
  obtain ⟨v, hdep, hnot⟩ := hblocked
  exact ⟨v, h.mem_waiting hdep.2.1 hnot, hdep⟩

/-- The first type that waits is the first that leads to a cycle. -/
theorem Stuck.firstToCycle (h : Stuck types placed t waiting)
    (hnodup : (types.map NamedType.name).Nodup) : FirstToCycle types t := by
  have hwaiting : ∀ u ∈ t :: waiting, ∃ v ∈ t :: waiting, DependsOn types u v :=
    fun u hu => h.exists_dependsOn hnodup hu
  refine ⟨leadsToCycle_of_waiting hwaiting List.mem_cons_self, ?_⟩
  have ht : t ∈ types := h.sublist.subset List.mem_cons_self
  obtain ⟨front, back, hsplit, hnot⟩ := List.eq_append_cons_of_mem ht
  refine ⟨front, back, hsplit, ?_⟩
  intro u hu
  -- The waiting types keep their order, so nothing in front of the first one waits.
  have hlt : types.idxOf u < types.idxOf t := by
    rw [hsplit, List.idxOf_append_of_mem hu, List.idxOf_append_of_notMem hnot]
    have := List.idxOf_lt_length_of_mem hu
    omega
  have hplaced : u ∈ placed := by
    by_contra hfree
    have hmem := h.mem_waiting (by rw [hsplit]; exact List.mem_append_left _ hu) hfree
    have hsub : ([] ++ t :: waiting).Sublist types := h.sublist
    have hle : types.idxOf t ≤ types.idxOf u :=
      idxOf_le_of_sublist hsub (List.Nodup.of_map _ hnodup) hmem
    omega
  exact h.first.not_leadsToCycle hplaced

/-! ### The registry gets stuck -/

/-- Nothing but a run that cannot be cut out keeps types from being found. -/
theorem exists_of_found_eq_error {e : Fault} : ∀ {tokens : List Token} {owned : Bool} {skip : Nat},
    found owned skip tokens = .error e → ∃ name defect, e = .malformedRange name defect
  | [], _, skip, h => by cases skip <;> cases h
  | t :: rest, _, skip + 1, h => by
      rw [found] at h
      exact exists_of_found_eq_error h
  | t :: rest, _, 0, h => by
      rw [found] at h
      split at h
      · exact exists_of_found_eq_error h
      split at h
      · cases h
        exact ⟨_, _, rfl⟩
      split at h
      · exact exists_of_found_eq_error h
      · exact exists_of_found_eq_error (map_eq_error.mp h)

theorem exists_of_collect_eq_error {s : Schema} {e : Fault} (h : collect s = .error e) :
    ∃ name defect, e = .malformedRange name defect := by
  unfold collect at h
  rw [foldlM_scan] at h
  obtain ⟨_, run, _, -, -, hrun⟩ := exists_of_mapM_eq_error (map_eq_error.mp h)
  exact exists_of_found_eq_error hrun

/-- Types among which one leads to a cycle have no order. -/
theorem FirstToCycle.not_acyclic (h : FirstToCycle types t) : ¬ Acyclic types := by
  obtain ⟨⟨u, -, hcycle⟩, -⟩ := h
  intro hacyclic
  exact hacyclic u hcycle

theorem exists_firstToCycle_of_ofSchema {s : Schema} (htypes : collect s = .ok types) {e : Fault}
    (h : ofSchema s = .error e) : ∃ t, e = .typeCycle t.name ∧ FirstToCycle types t := by
  unfold ofSchema at h
  rw [htypes] at h
  have horder : order types types.length [] types = .error e := map_eq_error.mp h
  have hnodup := nodup_collect htypes
  obtain ⟨placed, t, waiting, rfl, hstuck⟩ := Progress.start.order_eq_error hnodup horder
  exact ⟨t, rfl, hstuck.firstToCycle hnodup⟩

/-- The registry names the first type that leads to a cycle. -/
theorem ofSchema_eq_typeCycle_iff {s : Schema} {name : String} :
    ofSchema s = .error (.typeCycle name) ↔
      ∃ types t, collect s = .ok types ∧ t.name = name ∧ FirstToCycle types t := by
  constructor
  · intro h
    cases htypes : collect s with
    | error e =>
        unfold ofSchema at h
        rw [htypes] at h
        obtain ⟨_, _, rfl⟩ := exists_of_collect_eq_error htypes
        cases h
    | ok types =>
        obtain ⟨t, hname, hfirst⟩ := exists_firstToCycle_of_ofSchema htypes h
        cases hname
        exact ⟨types, t, rfl, rfl, hfirst⟩
  · rintro ⟨types, t, htypes, rfl, hfirst⟩
    cases h : ofSchema s with
    | ok r => exact absurd ((ofSchema_order htypes).1.mp ⟨r, h⟩) hfirst.not_acyclic
    | error e =>
        obtain ⟨u, rfl, hfirst'⟩ := exists_firstToCycle_of_ofSchema htypes h
        rw [hfirst'.unique hfirst]

end Registry

/-! ### The types that are named -/

/-- **What a reported cycle names.**  In a definition that is refused for a cycle it is the composite at
the end of the first path of more references than there are types, and it can be reached from a cycle.
A schema is refused for a cycle exactly if one of its types leads to one, and the first such type is
named.  What is named is on a cycle, then, exactly if this composite or this type is. -/
theorem typeCycle_names (name : String) :
    (∀ d : Definition, d.schema = .error (.typeCycle name) →
      ∃ c, d.tooDeep? = some c ∧ c.name = name ∧ .composite c ∈ d.allTypes ∧
        ∃ e, TransGen (Definition.Composite.RefersTo d.allTypes) e e ∧
          ReflTransGen (Definition.Composite.RefersTo d.allTypes) e c) ∧
      (∀ s, Registry.ofSchema s = .error (.typeCycle name) ↔
        ∃ types t, Registry.collect s = .ok types ∧ t.name = name ∧
          Registry.FirstToCycle types t) := by
  refine ⟨?_, fun s => Registry.ofSchema_eq_typeCycle_iff⟩
  intro d h
  obtain ⟨c, hc, hname⟩ := Definition.tooDeep?_of_schema h
  obtain ⟨hmem, e, hcycle, hreaches⟩ := Definition.exists_cycle_of_tooDeep? hc
  exact ⟨c, hc, hname, hmem, e, hcycle, hreaches⟩

namespace Definition.Engines

/-- An engine that has fuel and a spare engine. -/
def spare : Definition :=
  { packageName := "cars"
    types := [.composite ⟨"Engine", [("fuel", .named "Fuel"), ("spare", .named "Engine")]⟩,
      nest "Fuel" "level" (.inline (.ofPrimitive "uint8" .uint8))] }

theorem schema_spare : spare.schema = .error (.typeCycle "Fuel") := by rfl

end Definition.Engines

namespace Registry.Engines

/-- The run of an engine that has a spare one. -/
def spareEngine : List Token :=
  run .beginComposite .endComposite "Engine" (run .beginComposite .endComposite "Engine" [])

def spareCar : List Token := run .beginComposite .endComposite "Car" spareEngine

/-- A car with such an engine. -/
def spare : Schema := { packageName := "cars", types := [spareCar] }

def spareTypes : List NamedType :=
  [⟨"Car", .composite, spareCar, ["Engine"]⟩, ⟨"Engine", .composite, spareEngine, ["Engine"]⟩]

theorem collect_spare : collect spare = .ok spareTypes := by rfl

theorem ofSchema_spare : ofSchema spare = .error (.typeCycle "Car") := by rfl

end Registry.Engines

theorem typeCycle_names_engine :
    (∃ c, Definition.Engines.spare.tooDeep? = some c ∧ c.name = "Fuel" ∧
      .composite c ∈ Definition.Engines.spare.allTypes ∧
      ∃ e, TransGen (Definition.Composite.RefersTo Definition.Engines.spare.allTypes) e e ∧
        ReflTransGen (Definition.Composite.RefersTo Definition.Engines.spare.allTypes) e c) ∧
      ∃ types t, Registry.collect Registry.Engines.spare = .ok types ∧ t.name = "Car" ∧
        Registry.FirstToCycle types t :=
  ⟨(typeCycle_names "Fuel").1 _ Definition.Engines.schema_spare,
    ((typeCycle_names "Car").2 _).mp Registry.Engines.ofSchema_spare⟩

/-- Fuel refers to nothing and nothing depends on the car, yet these are the types that are named. -/
theorem typeCycle_off_cycle :
    (Definition.Engines.spare.schema = .error (.typeCycle "Fuel") ∧
      ∀ c, c.name = "Fuel" →
        ¬ TransGen (Definition.Composite.RefersTo Definition.Engines.spare.allTypes) c c) ∧
      (Registry.ofSchema Registry.Engines.spare = .error (.typeCycle "Car") ∧
        Registry.collect Registry.Engines.spare = .ok Registry.Engines.spareTypes ∧
        ∀ t, t.name = "Car" → ¬ TransGen (Registry.DependsOn Registry.Engines.spareTypes) t t) := by
  refine ⟨⟨Definition.Engines.schema_spare, ?_⟩, Registry.Engines.ofSchema_spare,
    Registry.Engines.collect_spare, ?_⟩
  · intro c hname hcycle
    have hc := Definition.mem_composites.mp (Definition.mem_composites_of_transGen hcycle)
    have hlevel : c.members = [("level", .inline (.ofPrimitive "uint8" .uint8))] := by
      rcases hc with _ | ⟨_, _ | ⟨_, _ | ⟨_, hc⟩⟩⟩
      · exact absurd hname (by decide)
      · exact absurd hname (by decide)
      · rfl
      · cases hc
    obtain ⟨e, ⟨m, hm, found⟩, -⟩ := TransGen.head'_iff.mp hcycle
    rw [hlevel] at hm
    obtain rfl := List.mem_singleton.mp hm
    cases found
  · intro t hname hcycle
    obtain ⟨u, -, hu, -, hdep⟩ := TransGen.tail'_iff.mp hcycle
    have hengine : u.dependencies = ["Engine"] := by
      rcases hu with _ | ⟨_, _ | ⟨_, hu⟩⟩
      · rfl
      · rfl
      · cases hu
    rw [hname, hengine] at hdep
    exact absurd hdep (by decide)

end WireCodec
