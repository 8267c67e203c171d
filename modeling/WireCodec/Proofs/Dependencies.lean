import WireCodec.Proofs.Fitting
import WireCodec.Proofs.Passing
/-! # The types that a definition's types refer to

In the run of a type the registry comes across the type itself, unless it is an element, and types
that are referred to by name (`Run.passes`); what is come across under a name is a run of the type
that the name refers to (`Referred`).  A composite depends on types of shorter runs only
(`Defines.refersWithin`). -/

namespace WireCodec.Definition

open Registry (Passes)

/-! ### Types in runs -/

variable {types : List NamedType}

/-- What a type is registered as. -/
def NamedType.kind? : NamedType → Option TypeKind
  | element _ => none
  | enumeration _ => some .enumeration
  | bitSet _ => some .bitSet
  | composite _ => some .composite

/-- The name under which a type at a position is registered. -/
def Position.typeName (p : Position) : String := p.referencedName.getD p.name

/-- A run of the type is registered. -/
inductive Defines (types : List NamedType) (t : NamedType) : WireCodec.NamedType → Prop
  | intro {p : Position} {first : Token} {inner : List Token} {kind : TypeKind} {n : Nat}
      (kind_eq : t.kind? = some kind) (name_eq : p.typeName = t.name)
      (run : Run types t p (first :: inner) n) (short : n < 2 ^ 31) :
      Defines types t (Registry.defined kind first (first :: inner))

/-- A run of the type that its name refers to is registered. -/
def Referred (types : List NamedType) (u : WireCodec.NamedType) : Prop :=
  ∃ t, find types u.name = .ok t ∧ Defines types t u

/-- No types are come across but those that names refer to. -/
def OnlyReferred (types : List NamedType) (tokens : List Token) : Prop :=
  ∃ found, Passes tokens found ∧ ∀ u ∈ found, Referred types u

theorem OnlyReferred.of_passes_nil {tokens : List Token} (h : Passes tokens []) :
    OnlyReferred types tokens :=
  ⟨[], h, fun _ hu => nomatch hu⟩

theorem OnlyReferred.append {ts us : List Token} (ht : OnlyReferred types ts)
    (hu : OnlyReferred types us) : OnlyReferred types (ts ++ us) := by
  obtain ⟨fs, hfs, ht⟩ := ht
  obtain ⟨gs, hgs, hu⟩ := hu
  refine ⟨fs ++ gs, hfs.append hgs, fun u hmem => ?_⟩
  rcases List.mem_append.mp hmem with h | h
  · exact ht u h
  · exact hu u h

theorem Position.Starts.typeName {p : Position} {n : Nat} {first : Token} (h : p.Starts n first) :
    first.typeName = p.typeName := by
  unfold Token.typeName Position.typeName
  rw [h.referencedName, h.name]

theorem Defines.name {t : NamedType} {u : WireCodec.NamedType} (h : Defines types t u) :
    u.name = t.name := by
  cases h with
  | intro kind_eq name_eq run short =>
      obtain ⟨_, _, hcons, _, hstarts⟩ := run.starts
      obtain ⟨rfl, rfl⟩ := List.cons.inj hcons
      exact hstarts.typeName.trans name_eq

/-- A type that is no composite is passed as itself; an element is not come across. -/
theorem passes_leaf {t : NamedType} {p : Position} {tokens : List Token} {n : Nat}
    (placed : t.tokens types 0 p = .ok (tokens, n)) (hn : n < 2 ^ 31) :
    (t.kind? = none ∧ Passes tokens []) ∨
      (t.kind?.isSome ∧ (p.typeName = t.name → ∃ u, Passes tokens [u] ∧ Defines types t u)) := by
  obtain ⟨e, rfl, rfl, rfl⟩ | ⟨e, rfl, he⟩ | ⟨s, rfl, hs⟩ := leaf_eq_ok placed
  · exact .inl ⟨rfl, .single ⟨rfl, rfl⟩⟩
  · refine .inr ⟨rfl, fun hname => ?_⟩
    obtain ⟨_, _, rfl⟩ := Enumeration.tokens_eq_ok he
    have hkind : Signal.beginEnum.typeKind? = some .enumeration := rfl
    refine ⟨_, .leaf hkind (by decide) rfl ⟨rfl, rfl⟩, ?_⟩
    exact .intro rfl hname (.leaf placed) hn
  · refine .inr ⟨rfl, fun hname => ?_⟩
    obtain ⟨rfl, rfl⟩ := Prod.mk.inj hs
    have hkind : Signal.beginSet.typeKind? = some .bitSet := rfl
    refine ⟨_, .leaf hkind (by decide) rfl ⟨rfl, rfl⟩, ?_⟩
    exact .intro rfl hname (.leaf placed) hn

/-- A composite is passed as itself and then as its members. -/
theorem passes_composite {c : Composite} {p : Position} {inner : List Token} {n : Nat}
    {fs : List WireCodec.NamedType} (nested : Members types p.version 0 c.members inner n)
    (hn : n < 2 ^ 31) (hname : p.typeName = c.name) (h : Passes inner fs) :
    ∃ u, Passes (compositeRun p inner n) (u :: fs) ∧ Defines types (.composite c) u := by
  let t : Token := { p.token .beginComposite n {} with span := inner.length + 2 }
  have hstated : t.encodedLength = wrap32 n := by
    simp only [t, Position.token]
  have hlength : 0 ≤ t.encodedLength := by
    rw [hstated, wrap32_of_lt hn]
    omega
  refine ⟨_, Passes.composite (t := t) rfl rfl ⟨rfl, rfl⟩ hlength h, ?_⟩
  exact .intro rfl hname (.composite nested) hn

theorem Reference.find_of_lookup {r : Reference} {t : NamedType} (h : r.lookup types = .ok t)
    (hkind : t.kind?.isSome) : find types t.name = .ok t ∧ r.stated = some t.name := by
  cases r with
  | inline e =>
      cases h
      cases hkind
  | named n =>
      have hname : t.name = n := name_of_find h
      rw [hname]
      exact ⟨h, rfl⟩

theorem Defines.referred {t : NamedType} {u : WireCodec.NamedType} (h : Defines types t u)
    (found : find types t.name = .ok t) : Referred types u :=
  ⟨t, by rwa [h.name], h⟩

/-- In the members of a composite only types are come across that names refer to. -/
theorem Members.onlyReferred {version offset n : Nat} {members : List (String × Reference)}
    {tokens : List Token} (h : Members types version offset members tokens n) (hn : n < 2 ^ 31) :
    OnlyReferred types tokens := by
  induction h with
  | nil => exact .of_passes_nil .nil
  | @leaf offset name r _ t tokens _ _ _ found placed tail ih =>
      refine OnlyReferred.append ?_ (ih (by omega))
      obtain ⟨_, hpasses⟩ | ⟨hkind, hpasses⟩ := passes_leaf placed (by omega)
      · exact .of_passes_nil hpasses
      · obtain ⟨hfind, hstated⟩ := Reference.find_of_lookup found hkind
        obtain ⟨u, hu, hdefines⟩ := hpasses (by rw [hstated]; rfl)
        refine ⟨[u], hu, fun v hv => ?_⟩
        obtain rfl := List.mem_singleton.mp hv
        exact hdefines.referred hfind
  | @composite offset name r _ c inner _ n _ found nested tail ihNested ihTail =>
      refine OnlyReferred.append ?_ (ihTail (by omega))
      obtain ⟨fs, hfs, hnested⟩ := ihNested (by omega)
      obtain ⟨hfind, hstated⟩ := Reference.find_of_lookup found rfl
      have hname : Position.typeName { name, referencedName := r.stated, offset, version } = c.name := by
        rw [hstated]
        rfl
      have hn' : n < 2 ^ 31 := by omega
      obtain ⟨u, hu, hdefines⟩ :=
        passes_composite (p := { name, referencedName := r.stated, offset, version }) nested hn' hname hfs
      refine ⟨_, hu, fun v hv => ?_⟩
      rcases List.mem_cons.mp hv with rfl | hv
      · exact hdefines.referred hfind
      · exact hnested v hv

/-- In the run of a type the type itself comes first, unless it is an element, and then types that
names refer to. -/
theorem Run.passes {t : NamedType} {p : Position} {tokens : List Token} {n : Nat}
    (h : Run types t p tokens n) (hn : n < 2 ^ 31) (hname : p.typeName = t.name) :
    ∃ own nested, Passes tokens (own ++ nested) ∧ (∀ u ∈ nested, Referred types u) ∧
      (t.kind? = none ∧ own = [] ∨ t.kind?.isSome ∧ ∃ u, own = [u] ∧ Defines types t u) := by
  cases h with
  | leaf placed =>
      obtain ⟨hkind, hpasses⟩ | ⟨hkind, hpasses⟩ := passes_leaf placed hn
      · exact ⟨[], [], hpasses, fun u hu => (nomatch hu), .inl ⟨hkind, rfl⟩⟩
      · obtain ⟨u, hu, hdefines⟩ := hpasses hname
        exact ⟨[u], [], hu, fun v hv => (nomatch hv), .inr ⟨hkind, u, rfl, hdefines⟩⟩
  | composite nested =>
      obtain ⟨fs, hfs, hreferred⟩ := nested.onlyReferred hn
      obtain ⟨u, hu, hdefines⟩ := passes_composite nested hn hname hfs
      exact ⟨[u], fs, hu, hreferred, .inr ⟨rfl, u, rfl, hdefines⟩⟩

/-! ### Lengths of runs -/

theorem leaf_length_eq {t : NamedType} {p q : Position} {tokens tokens' : List Token} {n n' : Nat}
    (h : t.tokens types 0 p = .ok (tokens, n)) (h' : t.tokens types 0 q = .ok (tokens', n')) :
    tokens.length = tokens'.length := by
  cases t with
  | element e =>
      cases h
      cases h'
      rfl
  | enumeration e =>
      obtain ⟨_, _, rfl⟩ := Enumeration.tokens_eq_ok h
      obtain ⟨_, _, rfl⟩ := Enumeration.tokens_eq_ok h'
      unfold simpleRun
      rw [length_wrap, length_wrap, List.length_map, List.length_map]
  | bitSet s =>
      cases h
      cases h'
      unfold simpleRun
      rw [length_wrap, length_wrap, List.length_map, List.length_map]
  | composite c => cases h

theorem Members.length_eq {version offset n : Nat} {members : List (String × Reference)}
    {tokens : List Token} (h : Members types version offset members tokens n) :
    ∀ {version' offset' n' : Nat} {tokens' : List Token},
      Members types version' offset' members tokens' n' → tokens.length = tokens'.length := by
  induction h with
  | nil =>
      intro _ _ _ _ h'
      cases h'
      rfl
  | leaf found placed tail ih =>
      intro _ _ _ _ h'
      obtain ⟨t', run', rest', _, _, found', hrun', tail', rfl, rfl⟩ := h'.of_cons
      obtain rfl := Except.ok.inj (found.symm.trans found')
      rw [List.length_append, List.length_append, ih tail']
      cases hrun' with
      | leaf placed' => rw [leaf_length_eq placed placed']
      | composite => cases placed
  | composite found nested tail ihNested ihTail =>
      intro _ _ _ _ h'
      obtain ⟨t', run', rest', _, _, found', hrun', tail', rfl, rfl⟩ := h'.of_cons
      obtain rfl := Except.ok.inj (found.symm.trans found')
      rw [List.length_append, List.length_append, ihTail tail']
      cases hrun' with
      | leaf placed' => cases placed'
      | composite nested' =>
          unfold compositeRun simpleRun
          rw [length_wrap, length_wrap, ihNested nested']

theorem Run.length_eq {t : NamedType} {p q : Position} {tokens tokens' : List Token} {n n' : Nat}
    (h : Run types t p tokens n) (h' : Run types t q tokens' n') : tokens.length = tokens'.length := by
  cases h with
  | leaf placed =>
      cases h' with
      | leaf placed' => exact leaf_length_eq placed placed'
      | composite => cases placed
  | composite nested =>
      cases h' with
      | leaf placed' => cases placed'
      | composite nested' =>
          unfold compositeRun simpleRun
          rw [length_wrap, length_wrap, nested.length_eq nested']

theorem Run.kind_eq {t : NamedType} {p : Position} {first : Token} {inner : List Token} {n : Nat}
    (h : Run types t p (first :: inner) n) :
    first.signal.typeKind? = t.kind? ∧ (t.kind? = none → inner = []) := by
  cases h with
  | leaf placed =>
      obtain ⟨e, rfl, heq, rfl⟩ | ⟨e, rfl, he⟩ | ⟨s, rfl, hs⟩ := leaf_eq_ok placed
      · obtain ⟨rfl, rfl⟩ := List.cons.inj heq
        exact ⟨rfl, fun _ => rfl⟩
      · obtain ⟨_, _, heq⟩ := Enumeration.tokens_eq_ok he
        obtain ⟨rfl, rfl⟩ := List.cons.inj heq
        exact ⟨rfl, fun h => nomatch h⟩
      · obtain ⟨heq, rfl⟩ := Prod.mk.inj hs
        obtain ⟨rfl, rfl⟩ := List.cons.inj heq
        exact ⟨rfl, fun h => nomatch h⟩
  | composite nested => exact ⟨rfl, fun h => nomatch h⟩

/-! ### Dependencies -/

theorem references_skip (found : List String) : ∀ inner rest : List Token,
    Registry.references found inner.length (inner ++ rest) = Registry.references found 0 rest
  | [], _ => rfl
  | _ :: inner, rest => references_skip found inner rest

/-- The name refers to a type other than an element, whose runs have `length` tokens at most. -/
def RefersWithin (types : List NamedType) (d : String) (length : Nat) : Prop :=
  ∃ t p run k, find types d = .ok t ∧ t.kind?.isSome ∧ Run types t p run k ∧ run.length ≤ length

theorem RefersWithin.mono {d : String} {n m : Nat} (h : RefersWithin types d n) (hle : n ≤ m) :
    RefersWithin types d m := by
  obtain ⟨t, p, run, k, hfind, hkind, hrun, hlength⟩ := h
  exact ⟨t, p, run, k, hfind, hkind, hrun, Nat.le_trans hlength hle⟩

theorem Members.refersWithin {version : Nat} {d : String} :
    ∀ {members : List (String × Reference)} {offset n : Nat} {tokens : List Token}
      {found : List String}, Members types version offset members tokens n →
      d ∈ Registry.references found 0 tokens → d ∈ found ∨ RefersWithin types d tokens.length
  | [], _, _, _, _, h, hd => by
      cases h
      exact .inl hd
  | (name, r) :: members, offset, _, _, found, h, hd => by
      obtain ⟨t, run, rest, k, m, hfound, hrun, tail, rfl, rfl⟩ := h.of_cons
      obtain ⟨first, inner, rfl, hheads, hstarts⟩ := hrun.starts
      obtain ⟨hkind, hinner⟩ := hrun.kind_eq
      rw [List.length_append]
      rw [List.cons_append, Registry.references, hkind] at hd
      cases hk : t.kind? with
      | none =>
          rw [hk, hinner hk] at hd
          rcases tail.refersWithin hd with hd | hd
          · exact .inl hd
          · exact .inr (hd.mono (Nat.le_add_left _ _))
      | some kind =>
          rw [hk, if_pos Option.isSome_some] at hd
          dsimp only at hd
          rw [hheads.span, Nat.add_sub_cancel, references_skip] at hd
          rcases tail.refersWithin hd with hd | hd
          · obtain ⟨hfind, hstated⟩ := Reference.find_of_lookup hfound (by rw [hk]; rfl)
            have hname : first.typeName = t.name := by
              rw [hstarts.typeName, Position.typeName, hstated]
              rfl
            have hd' : d ∈ found ∨ d = t.name := by
              split at hd
              · exact .inl hd
              · rwa [List.mem_append, List.mem_singleton, hname] at hd
            rcases hd' with hd | rfl
            · exact .inl hd
            · exact .inr ⟨t, _, _, k, hfind, by rw [hk]; rfl, hrun, Nat.le_add_right _ _⟩
          · exact .inr (hd.mono (Nat.le_add_left _ _))

theorem directDependencies_compositeRun (p : Position) (inner : List Token) (n : Nat) :
    Registry.directDependencies (compositeRun p inner n) = Registry.references [] 0 inner := by
  unfold Registry.directDependencies compositeRun simpleRun wrap
  rw [List.tail_cons, List.dropLast_concat]

/-- A registered type depends on types of shorter runs. -/
theorem Defines.refersWithin {t : NamedType} {u : WireCodec.NamedType} (h : Defines types t u)
    {d : String} (hd : d ∈ u.dependencies) :
    ∃ length, RefersWithin types d length ∧ length < u.run.length := by
  cases h with
  | @intro p first inner kind n kind_eq name_eq run short =>
      unfold Registry.defined at hd ⊢
      dsimp only at hd ⊢
      split at hd
      next hk =>
        subst hk
        generalize hrun : first :: inner = tokens at run hd ⊢
        cases run with
        | leaf placed =>
            cases t with
            | composite c => cases placed
            | _ => cases kind_eq
        | composite nested =>
            rw [directDependencies_compositeRun] at hd
            rcases nested.refersWithin hd with hd | hd
            · cases hd
            · refine ⟨_, hd, ?_⟩
              unfold compositeRun simpleRun
              rw [length_wrap]
              omega
      next => cases hd

end WireCodec.Definition
