import Mathlib.Data.Fintype.EquivFin
import Mathlib.Data.Fintype.Sets
import Mathlib.Data.List.Lex
import Mathlib.Data.List.Nodup
import Mathlib.Logic.Relation
import Mathlib.Order.WellFounded
import WireCodec.Proofs.Registry
/-! # The order of the registered types

The types of a schema can be ordered exactly if no registered type depends on itself, directly or
through others, and `Registry.ofSchema` then finds the order that a reader of the schema would: every
type comes after the registered types it depends on, and apart from that the types come as they first
appear.  `Registry.ofSchema_order` says this in three ways of growing strength: the result is an order
(`IsOrder`), at each place it has the first type that can stand there (`IsEarliest`), and no other order
comes before it when orders are compared by where their types first appear (`places`).

A type depends on those that open in its run (`dependsOn_iff`).

The invariant of the selection is `Progress`: what is placed is the front of an order and was chosen
as early as possible, and the others wait in the order of their appearance. -/

namespace WireCodec.Registry

/-! ### Orders -/

/-- Both types are registered, and the first one depends on the second. -/
def DependsOn (types : List NamedType) (t u : NamedType) : Prop :=
  t ∈ types ∧ u ∈ types ∧ u.name ∈ t.dependencies

/-- No registered type depends on itself, directly or through other registered types. -/
def Acyclic (types : List NamedType) : Prop := ∀ t, ¬ Relation.TransGen (DependsOn types) t t

/-- Each type comes after the registered types that it depends on. -/
def DependenciesFirst (types out : List NamedType) : Prop :=
  ∀ front t back, out = front ++ t :: back → ∀ u, DependsOn types t u → u ∈ front

/-- The types in an order in which each comes after the registered ones that it depends on. -/
structure IsOrder (types out : List NamedType) : Prop where
  perm : out.Perm types
  first : DependenciesFirst types out

/-- At each place stands the first to appear of the types that are not placed in front of it and have
all their registered dependencies there. -/
def IsEarliest (types out : List NamedType) : Prop :=
  ∀ front t back, out = front ++ t :: back → ∀ u ∈ types, u ∉ front →
    (∀ d, DependsOn types u d → d ∈ front) → types.idxOf t ≤ types.idxOf u

/-- Where the types of a list first appear. -/
def places (types out : List NamedType) : List Nat := out.map types.idxOf

/-! ### What a type depends on -/

/-- The tokens that open types, where the run of each type is passed over. -/
inductive Opens : List Token → List Token → Prop
  | nil : Opens [] []
  | pass {t : Token} {rest firsts : List Token} (other : t.signal.typeKind? = none)
      (tail : Opens rest firsts) : Opens (t :: rest) firsts
  | type {t : Token} {rest firsts : List Token} (opens : t.signal.typeKind?.isSome)
      (tail : Opens (rest.drop (t.span - 1)) firsts) : Opens (t :: rest) (t :: firsts)

theorem references_drop (found : List String) : ∀ (skip : Nat) (tokens : List Token),
    references found skip tokens = references found 0 (tokens.drop skip)
  | 0, _ => rfl
  | _ + 1, [] => rfl
  | skip + 1, _ :: rest => references_drop found skip rest

theorem mem_references_iff {tokens firsts : List Token} (h : Opens tokens firsts) (found : List String)
    (d : String) :
    d ∈ references found 0 tokens ↔ d ∈ found ∨ ∃ first ∈ firsts, first.typeName = d := by
  induction h generalizing found with
  | nil => simp [references]
  | pass other tail ih =>
      rw [references, other]
      exact ih found
  | @type t rest firsts opens tail ih =>
      have hmem : d ∈ (if found.contains t.typeName then found else found ++ [t.typeName])
          ↔ d ∈ found ∨ t.typeName = d := by
        split
        next h =>
          have hname := List.contains_iff_mem.mp h
          exact ⟨.inl, fun h => h.elim id fun heq => heq ▸ hname⟩
        next => rw [List.mem_append, List.mem_singleton, eq_comm]
      rw [references, if_pos opens, references_drop, ih, hmem, List.exists_mem_cons_iff, or_assoc]

/-- The types of a list of tokens that open in it. -/
theorem exists_opens (tokens : List Token) : ∃ firsts, Opens tokens firsts := by
  induction h : tokens.length using Nat.strong_induction_on generalizing tokens with
  | _ n ih =>
    subst h
    cases tokens with
    | nil => exact ⟨[], .nil⟩
    | cons t rest =>
        cases hkind : t.signal.typeKind? with
        | none =>
            obtain ⟨firsts, h⟩ := ih rest.length (Nat.lt_succ_self _) rest rfl
            exact ⟨firsts, .pass hkind h⟩
        | some kind =>
            have hlt : (rest.drop (t.span - 1)).length < (t :: rest).length := by
              rw [List.length_drop, List.length_cons]
              omega
            obtain ⟨firsts, h⟩ := ih _ hlt _ rfl
            exact ⟨t :: firsts, .type (by rw [hkind]; rfl) h⟩

/-- A registered type depends on the registered ones that open in the run of a composite, outside of
each other's runs. -/
theorem dependsOn_iff {s : Schema} {types : Collected} (h : collect s = .ok types) {t u : NamedType} :
    DependsOn types t u ↔ t ∈ types ∧ u ∈ types ∧ t.kind = .composite ∧
      ∃ firsts, Opens t.run.tail.dropLast firsts ∧ ∃ first ∈ firsts, first.typeName = u.name := by
  have hlisted : ∀ t ∈ types, t.dependencies
      = if t.kind = .composite then directDependencies t.run else [] :=
    forall_of_collect h fun _ _ _ _ _ _ _ => rfl
  constructor
  · rintro ⟨ht, hu, hd⟩
    rw [hlisted t ht] at hd
    split at hd
    next hkind =>
      obtain ⟨firsts, hopens⟩ := exists_opens t.run.tail.dropLast
      have hfirst := ((mem_references_iff hopens [] u.name).mp hd).resolve_left List.not_mem_nil
      exact ⟨ht, hu, hkind, firsts, hopens, hfirst⟩
    next => cases hd
  · rintro ⟨ht, hu, hkind, firsts, hopens, hfirst⟩
    refine ⟨ht, hu, ?_⟩
    rw [hlisted t ht, if_pos hkind]
    exact (mem_references_iff hopens [] u.name).mpr (.inr hfirst)

section orders

variable {types out : List NamedType}

/-- What a placed type depends on is placed, too, and earlier. -/
theorem DependenciesFirst.idxOf_lt (h : DependenciesFirst types out) {t u : NamedType} (ht : t ∈ out)
    (hdep : DependsOn types t u) : u ∈ out ∧ out.idxOf u < out.idxOf t := by
  obtain ⟨front, back, hsplit, hnot⟩ := List.eq_append_cons_of_mem ht
  have hu : u ∈ front := h front t back hsplit u hdep
  have hidx : out.idxOf t = front.length := by
    rw [hsplit, List.idxOf_append_of_notMem hnot, List.idxOf_cons_self, Nat.add_zero]
  refine ⟨by rw [hsplit]; exact List.mem_append_left _ hu, ?_⟩
  rw [hidx, hsplit, List.idxOf_append_of_mem hu]
  exact List.idxOf_lt_length_of_mem hu

theorem IsOrder.idxOf_lt (h : IsOrder types out) {t u : NamedType} (hdep : DependsOn types t u) :
    out.idxOf u < out.idxOf t :=
  (h.first.idxOf_lt (h.perm.mem_iff.mpr hdep.1) hdep).2

/-- What grows smaller with each dependency leaves no room for a cycle. -/
theorem acyclic_of_measure (measure : NamedType → Nat)
    (h : ∀ t u, DependsOn types t u → measure u < measure t) : Acyclic types := by
  have hlt : ∀ t u, Relation.TransGen (DependsOn types) t u → measure u < measure t := by
    intro t u hpath
    induction hpath with
    | single hdep => exact h _ _ hdep
    | tail _ hdep ih => exact Nat.lt_trans (h _ _ hdep) ih
  intro t hcycle
  have := hlt t t hcycle
  omega

/-- Types that can be ordered are in no cycle. -/
theorem IsOrder.acyclic (h : IsOrder types out) : Acyclic types :=
  acyclic_of_measure out.idxOf fun _ _ => h.idxOf_lt

/-- Among the types of a list without cycles there is one that depends on none of them. -/
theorem Acyclic.exists_independent (h : Acyclic types) {waiting : List NamedType}
    (hne : waiting ≠ []) : ∃ t ∈ waiting, ∀ u ∈ waiting, ¬ DependsOn types t u := by
  let Below (u t : { t // t ∈ waiting }) : Prop := Relation.TransGen (DependsOn types) t.val u.val
  have htrans : IsTrans { t // t ∈ waiting } Below := ⟨fun _ _ _ hab hbc => hbc.trans hab⟩
  have hirrefl : Std.Irrefl Below := ⟨fun t => h t.val⟩
  have hwf : WellFounded Below := Finite.wellFounded_of_trans_of_irrefl Below
  obtain ⟨first, hfirst⟩ := List.exists_mem_of_ne_nil waiting hne
  obtain ⟨t, -, hmin⟩ := hwf.has_min Set.univ ⟨⟨first, hfirst⟩, Set.mem_univ _⟩
  refine ⟨t.val, t.property, ?_⟩
  intro u hu hdep
  exact hmin ⟨u, hu⟩ (Set.mem_univ _) (.single hdep)

/-- An order that takes the first type it can at each place comes before every other order. -/
theorem IsEarliest.places_le (h : IsEarliest types out) {other : List NamedType}
    (hout : IsOrder types out) (hother : IsOrder types other) (hnodup : types.Nodup) :
    places types out ≤ places types other := by
  have hlength : out.length = other.length := (hout.perm.trans hother.perm.symm).length_eq
  have hnodup' : other.Nodup := hother.perm.nodup_iff.mpr hnodup
  -- The two orders agree up to some place, where the first one has the earlier type.
  have hsuffix : ∀ back back' front, out = front ++ back → other = front ++ back' →
      places types back ≤ places types back' := by
    intro back
    induction back with
    | nil =>
        intro back' front _ _
        exact not_lt.mp (List.not_lt_nil _)
    | cons t back ih =>
        intro back' front hsplit hsplit'
        cases back' with
        | nil =>
            rw [hsplit, hsplit'] at hlength
            simp at hlength
        | cons u back' =>
            unfold places
            rw [List.map_cons, List.map_cons]
            by_cases htu : t = u
            · subst htu
              have hrest : places types back ≤ places types back' := by
                apply ih back' (front ++ [t])
                · rw [hsplit, List.append_assoc, List.singleton_append]
                · rw [hsplit', List.append_assoc, List.singleton_append]
              rcases hrest.lt_or_eq with hlt | heq
              · exact le_of_lt (List.Lex.cons hlt)
              · exact le_of_eq (congrArg (types.idxOf t :: ·) heq)
            · have hut : u ∈ types := hother.perm.mem_iff.mp (by rw [hsplit']; simp)
              have htt : t ∈ types := hout.perm.mem_iff.mp (by rw [hsplit]; simp)
              have hfront : u ∉ front := by
                rw [hsplit'] at hnodup'
                intro hu
                exact (List.nodup_append.mp hnodup').2.2 u hu u List.mem_cons_self rfl
              have hle : types.idxOf t ≤ types.idxOf u :=
                h front t back hsplit u hut hfront (hother.first front u back' hsplit')
              have hne : types.idxOf t ≠ types.idxOf u := by
                intro heq
                exact htu ((List.idxOf_inj htt).mp heq)
              exact le_of_lt (List.Lex.rel (lt_of_le_of_ne hle hne))
  exact hsuffix out other [] rfl rfl

end orders

/-! ### The selection -/

/-- Some types are placed, and the others wait. -/
structure Progress (types placed waiting : List NamedType) : Prop where
  perm : (placed ++ waiting).Perm types
  /-- The waiting types are in the order of their first appearance. -/
  sublist : waiting.Sublist types
  first : DependenciesFirst types placed
  earliest : IsEarliest types placed

section selection

variable {types placed waiting : List NamedType}

theorem Progress.start : Progress types [] types where
  perm := List.Perm.refl _
  sublist := List.Sublist.refl _
  first := by
    intro front t back h
    simp at h
  earliest := by
    intro front t back h
    simp at h

/-- A property of every place is kept when one more place is filled for which it holds. -/
theorem forall_split_concat {P : List NamedType → NamedType → Prop} {out : List NamedType}
    {t : NamedType} (h : ∀ front u back, out = front ++ u :: back → P front u) (ht : P out t) :
    ∀ front u back, out ++ [t] = front ++ u :: back → P front u := by
  intro front u back hsplit
  rcases List.eq_nil_or_concat back with rfl | ⟨back', last, rfl⟩
  · obtain ⟨rfl, hlast⟩ := List.append_inj' hsplit rfl
    rw [← List.singleton_inj.mp hlast]
    exact ht
  · rw [List.concat_eq_append, ← List.cons_append, ← List.append_assoc] at hsplit
    obtain ⟨hout, -⟩ := List.append_inj' hsplit rfl
    exact h front u back' hout

/-- A type is ready exactly if the registered types that it depends on are placed. -/
theorem isReady_iff {t : NamedType} (hnodup : (types.map NamedType.name).Nodup)
    (hsub : placed ⊆ types) (ht : t ∈ types) :
    isReady types placed t ↔ ∀ u, DependsOn types t u → u ∈ placed := by
  unfold isReady
  simp only [List.all_eq_true, Bool.or_eq_true, Bool.not_eq_true', List.any_eq_true,
    List.any_eq_false, beq_iff_eq]
  constructor
  · rintro h u ⟨-, hu, hdep⟩
    rcases h u.name hdep with hnone | ⟨v, hv, hname⟩
    · exact absurd rfl (hnone u hu)
    · rwa [← eq_of_name_eq hnodup (hsub hv) hu hname]
  · intro h d hd
    by_cases hknown : ∃ u ∈ types, u.name = d
    · obtain ⟨u, hu, rfl⟩ := hknown
      exact .inr ⟨u, h u ⟨ht, hu, hd⟩, rfl⟩
    · refine .inl fun u hu hname => hknown ⟨u, hu, hname⟩

theorem Progress.subset (h : Progress types placed waiting) : placed ⊆ types := by
  intro t ht
  exact h.perm.subset (List.mem_append_left _ ht)

theorem Progress.mem_waiting (h : Progress types placed waiting) {t : NamedType} (ht : t ∈ types)
    (hnot : t ∉ placed) : t ∈ waiting := by
  rcases List.mem_append.mp (h.perm.symm.subset ht) with hmem | hmem
  · exact absurd hmem hnot
  · exact hmem

theorem idxOf_le_of_sublist {front back : List NamedType} {t u : NamedType}
    (hsub : (front ++ t :: back).Sublist types) (hnodup : types.Nodup) (hu : u ∈ t :: back) :
    types.idxOf t ≤ types.idxOf u := by
  rcases List.mem_cons.mp hu with rfl | hu
  · exact Nat.le_refl _
  · have hpair : [t, u].Sublist types := by
      refine List.Sublist.trans ?_ hsub
      refine List.Sublist.trans ?_ (List.sublist_append_right _ _)
      exact List.Sublist.cons_cons t (List.singleton_sublist.mpr hu)
    obtain ⟨l, r, rfl, ht, hu⟩ := List.cons_sublist_iff.mp hpair
    have hu : u ∈ r := List.singleton_sublist.mp hu
    have hul : u ∉ l := fun hul => (List.nodup_append.mp hnodup).2.2 u hul u hu rfl
    rw [List.idxOf_append_of_mem ht, List.idxOf_append_of_notMem hul]
    have := List.idxOf_lt_length_of_mem ht
    omega

/-- **One step.**  Placing the first of the waiting types that is ready keeps what is known. -/
theorem Progress.step (h : Progress types placed waiting) (hnodup : (types.map NamedType.name).Nodup)
    {next : NamedType} (hnext : waiting.find? (isReady types placed) = some next) :
    Progress types (placed ++ [next]) (waiting.eraseP (·.name == next.name)) := by
  have hmem : next ∈ waiting := List.mem_of_find?_eq_some hnext
  have hready : isReady types placed next := List.find?_some hnext
  have hwaiting : (waiting.map NamedType.name).Nodup := hnodup.sublist (h.sublist.map _)
  refine ⟨?_, ?_, ?_, ?_⟩
  · rw [List.append_assoc, List.singleton_append]
    exact ((perm_cons_eraseP hwaiting hmem).symm.append_left placed).trans h.perm
  · exact (List.eraseP_sublist).trans h.sublist
  · refine forall_split_concat h.first ?_
    exact (isReady_iff hnodup h.subset (h.sublist.subset hmem)).mp hready
  · refine forall_split_concat h.earliest ?_
    intro u hu hnot hdeps
    have huready : isReady types placed u := (isReady_iff hnodup h.subset hu).mpr hdeps
    obtain ⟨-, front, back, hsplit, hfront⟩ := List.find?_eq_some_iff_append.mp hnext
    have hsub := h.sublist
    have huwait := h.mem_waiting hu hnot
    rw [hsplit] at hsub huwait
    rcases List.mem_append.mp huwait with hearly | hlate
    · have hnotready := hfront u hearly
      rw [huready] at hnotready
      cases hnotready
    · exact idxOf_le_of_sublist hsub (List.Nodup.of_map _ hnodup) hlate

/-- **The whole run.**  What the selection yields is an order, with the first type that can stand
there at each place. -/
theorem Progress.order_eq_ok : ∀ {fuel : Nat} {placed waiting out : List NamedType},
    Progress types placed waiting → (types.map NamedType.name).Nodup → waiting.length ≤ fuel →
    order types fuel placed waiting = .ok out → IsOrder types out ∧ IsEarliest types out
  | _, placed, [], out, h, _, _, hout => by
      unfold order at hout
      cases hout
      have hperm := h.perm
      rw [List.append_nil] at hperm
      exact ⟨⟨hperm, h.first⟩, h.earliest⟩
  | fuel + 1, placed, t :: waiting, out, h, hnodup, hle, hout => by
      rw [order] at hout
      split at hout
      next next hnext =>
        have hmem := List.mem_of_find?_eq_some hnext
        exact order_eq_ok (h.step hnodup hnext) hnodup (length_eraseP_le hmem hle) hout
      next => cases hout

/-- Without cycles the selection never gets stuck. -/
theorem Progress.order_isOk (hacyclic : Acyclic types) : ∀ {fuel : Nat}
    {placed waiting : List NamedType}, Progress types placed waiting →
    (types.map NamedType.name).Nodup → waiting.length ≤ fuel →
    ∃ out, order types fuel placed waiting = .ok out
  | _, placed, [], _, _, _ => ⟨placed, by unfold order; rfl⟩
  | fuel + 1, placed, t :: waiting, h, hnodup, hle => by
      rw [order]
      split
      next next hnext =>
        have hmem := List.mem_of_find?_eq_some hnext
        exact order_isOk hacyclic (h.step hnodup hnext) hnodup (length_eraseP_le hmem hle)
      next hnone =>
        -- A waiting type that depends on no waiting type is ready.
        obtain ⟨u, hu, hfree⟩ := hacyclic.exists_independent (List.cons_ne_nil t waiting)
        have hready : isReady types placed u := by
          rw [isReady_iff hnodup h.subset (h.sublist.subset hu)]
          intro d hdep
          by_contra hnot
          exact hfree d (h.mem_waiting hdep.2.1 hnot) hdep
        exact absurd hready (List.find?_eq_none.mp hnone u hu)

end selection

/-! ### The registry -/

theorem ofSchema_eq_ok {s : Schema} {types : List NamedType} {r : Registry}
    (h : collect s = .ok types) :
    ofSchema s = .ok r ↔ order types types.length [] types = .ok r.types := by
  unfold ofSchema
  rw [h]
  constructor
  · intro hr
    obtain ⟨out, hout, rfl⟩ := map_eq_ok.mp hr
    exact hout
  · intro hout
    exact map_eq_ok.mpr ⟨r.types, hout, rfl⟩

/-- The registered types are the ones collected, in an order. -/
theorem isOrder_of_ofSchema {s : Schema} {types : List NamedType} {r : Registry}
    (h : collect s = .ok types) (hr : ofSchema s = .ok r) :
    IsOrder types r.types ∧ IsEarliest types r.types :=
  Progress.start.order_eq_ok (nodup_collect h) (Nat.le_refl _) ((ofSchema_eq_ok h).mp hr)

theorem exists_ofSchema_of_acyclic {s : Schema} {types : List NamedType}
    (h : collect s = .ok types) (hacyclic : Acyclic types) : ∃ r, ofSchema s = .ok r := by
  obtain ⟨out, hout⟩ := Progress.start.order_isOk hacyclic (nodup_collect h) (Nat.le_refl _)
  exact ⟨⟨out⟩, (ofSchema_eq_ok h).mpr hout⟩

theorem perm_of_ofSchema {s : Schema} {r : Registry} (h : ofSchema s = .ok r) :
    ∃ types, collect s = .ok types ∧ r.types.Perm types := by
  obtain ⟨types, htypes, _⟩ := bind_eq_ok.mp h
  exact ⟨types, htypes, (isOrder_of_ofSchema htypes h).1.perm⟩

/-- A name stands for the first type of that name that is come across. -/
theorem get?_ofSchema {s : Schema} {r : Registry} {fs : List NamedType} (h : ofSchema s = .ok r)
    (hfs : allFound s = .ok fs) (n : String) : r.get? n = fs.find? (·.name == n) := by
  obtain ⟨types, htypes, hperm⟩ := perm_of_ofSchema h
  have hnodup' := (hperm.map NamedType.name).nodup_iff.mpr (nodup_collect htypes)
  rw [← find?_collect htypes hfs]
  refine List.find?_eq_find?_of_perm hperm ?_
  rintro t ⟨ht, htn⟩ u ⟨hu, hun⟩
  exact eq_of_name_eq hnodup' ht hu ((beq_iff_eq.mp htn).trans (beq_iff_eq.mp hun).symm)

/-- **The order of a schema's types.**  The types that a schema defines can be ordered exactly if they
are in no cycle.  The registry then holds all of them, each after the ones it depends on; at each place
it has the first type that can stand there, and of all orders it is the one that keeps closest to the
schema's. -/
theorem ofSchema_order {s : Schema} {types : List NamedType} (h : collect s = .ok types) :
    ((∃ r, ofSchema s = .ok r) ↔ Acyclic types) ∧
      ∀ r, ofSchema s = .ok r → IsOrder types r.types ∧ IsEarliest types r.types ∧
        ∀ out, IsOrder types out → places types r.types ≤ places types out := by
  refine ⟨⟨?_, exists_ofSchema_of_acyclic h⟩, ?_⟩
  · rintro ⟨r, hr⟩
    exact (isOrder_of_ofSchema h hr).1.acyclic
  · intro r hr
    obtain ⟨horder, hearliest⟩ := isOrder_of_ofSchema h hr
    refine ⟨horder, hearliest, ?_⟩
    intro out hout
    exact hearliest.places_le horder hout (List.Nodup.of_map _ (nodup_collect h))

/-! ### An engine with a booster -/

namespace Engines

/-- A run of a named type. -/
def run (first last : Signal) (name : String) (members : List Token) : List Token :=
  { signal := first, name, offset := 0, encodedLength := 1, span := members.length + 2 }
    :: (members ++ [{ signal := last, name }])

def boostType : List Token := run .beginEnum .endEnum "BoostType" []

def booster : List Token := run .beginComposite .endComposite "Booster" boostType

def engine : List Token := run .beginComposite .endComposite "Engine" booster

def extras : List Token := run .beginSet .endSet "Extras" []

/-- Nothing but an engine, in which its booster is nested, and a set. -/
def schema : Schema := { packageName := "cars", types := [engine, extras] }

/-- The types as they appear. -/
def types : List NamedType :=
  [⟨"Engine", .composite, engine, ["Booster"]⟩, ⟨"Booster", .composite, booster, ["BoostType"]⟩,
   ⟨"BoostType", .enumeration, boostType, []⟩, ⟨"Extras", .bitSet, extras, []⟩]

/-- The types from the inside out. -/
def ordered : List NamedType :=
  [⟨"BoostType", .enumeration, boostType, []⟩, ⟨"Booster", .composite, booster, ["BoostType"]⟩,
   ⟨"Engine", .composite, engine, ["Booster"]⟩, ⟨"Extras", .bitSet, extras, []⟩]

theorem collect_schema : collect schema = .ok types := toOption_eq_some.mp (by decide +kernel)

theorem ofSchema_schema : ofSchema schema = .ok ⟨ordered⟩ := toOption_eq_some.mp (by decide +kernel)

end Engines

theorem ofSchema_order_engine :
    collect Engines.schema = .ok Engines.types ∧ Acyclic Engines.types ∧
      IsOrder Engines.types Engines.ordered ∧
      ∀ out, IsOrder Engines.types out → [2, 1, 0, 3] ≤ places Engines.types out := by
  obtain ⟨hok, hall⟩ := ofSchema_order Engines.collect_schema
  obtain ⟨horder, -, hleast⟩ := hall ⟨Engines.ordered⟩ Engines.ofSchema_schema
  exact ⟨Engines.collect_schema, hok.mp ⟨_, Engines.ofSchema_schema⟩, horder, hleast⟩

end WireCodec.Registry
