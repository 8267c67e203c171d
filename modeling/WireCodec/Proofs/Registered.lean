import WireCodec.Proofs.Dependencies
import WireCodec.Proofs.Ordering
/-! # The registry of a definition

In the tokens of a message only types are come across that names refer to (`Message.onlyReferred`),
and in those of the types each type comes before all that could be taken for it.  So what is
registered under a name is a run of the type that the name refers to, unless that is an element
(`Registrable`), and the registry can be ordered (`registry_isOk`). -/

namespace WireCodec.Definition

open Registry (Passes)

variable {types : List NamedType}

/-! ### Messages -/

/-- A run of no type is passed as what it contains. -/
theorem OnlyReferred.wrap {opening closing : Token} {inner : List Token}
    (hopening : opening.signal.IsQuiet) (hclosing : closing.signal.IsQuiet)
    (h : OnlyReferred types inner) : OnlyReferred types (Definition.wrap opening closing inner) := by
  have hsingle : OnlyReferred types [{ opening with span := inner.length + 2 }] :=
    .of_passes_nil (.single hopening)
  exact hsingle.append (h.append (.of_passes_nil (.single hclosing)))

/-- A group or a var data member with the composite that belongs to it. -/
theorem OnlyReferred.owner {t opening closing : Token} {kind : TypeKind} {inner content : List Token}
    (hkind : t.signal.typeKind? = none) (howns : t.signal.ownsNext = true)
    (hopening : opening.signal.typeKind? = some kind) (hclosing : closing.signal.IsQuiet)
    (h : OnlyReferred types content) :
    OnlyReferred types (t :: (Definition.wrap opening closing inner ++ content)) := by
  obtain ⟨fs, hfs, hreferred⟩ := h
  refine ⟨fs, fun rest => ?_, hreferred⟩
  have howned := Registry.found_owned (t := { opening with span := inner.length + 2 }) hopening rfl
    hclosing (content ++ rest)
  unfold Definition.wrap
  rw [List.cons_append, List.append_assoc, Registry.found, hkind, howns, List.cons_append,
    List.append_assoc, List.singleton_append]
  exact howned.trans (hfs rest)

theorem VarData.onlyReferred (v : VarData) : OnlyReferred types v.tokens := by
  have hkind : Signal.beginComposite.typeKind? = some .composite := rfl
  unfold VarData.tokens
  exact .owner rfl rfl hkind ⟨rfl, rfl⟩ (.of_passes_nil (.single ⟨rfl, rfl⟩))

theorem Field.onlyReferred {f : Field} {offset n : Nat} {tokens : List Token}
    (h : f.tokens types offset = .ok (tokens, n)) (hn : n < 2 ^ 31) : OnlyReferred types tokens := by
  rw [Field.tokens_eq] at h
  simp only [bind_eq_ok, pure_eq_ok] at h
  obtain ⟨t, found, ⟨run, k⟩, hrun, h⟩ := h
  obtain ⟨rfl, rfl⟩ := Prod.mk.inj h
  refine .wrap ⟨rfl, rfl⟩ ⟨rfl, rfl⟩ ?_
  obtain ⟨own, nested, hpasses, hreferred, hown⟩ := (run_of_tokens hrun).passes hn rfl
  refine ⟨_, hpasses, fun u hu => ?_⟩
  rcases List.mem_append.mp hu with hu | hu
  · obtain ⟨_, rfl⟩ | ⟨hkind, v, rfl, hdefines⟩ := hown
    · cases hu
    · obtain rfl := List.mem_singleton.mp hu
      exact hdefines.referred (Reference.find_of_lookup found hkind).1
  · exact hreferred u hu

theorem onlyReferred_fieldTokens : ∀ {fields : List Field} {offset n : Nat} {tokens : List Token},
    fieldTokens types offset fields = .ok (tokens, n) → n < 2 ^ 31 → OnlyReferred types tokens
  | [], _, _, _, h, _ => by
      cases h
      exact .of_passes_nil .nil
  | f :: fields, offset, _, _, h, hn => by
      rw [fieldTokens] at h
      simp only [bind_eq_ok, pure_eq_ok] at h
      obtain ⟨⟨ts, n⟩, hts, ⟨rest, m⟩, hrest, h⟩ := h
      obtain ⟨rfl, rfl⟩ := Prod.mk.inj h
      exact (Field.onlyReferred hts (by omega)).append (onlyReferred_fieldTokens hrest (by omega))

theorem onlyReferred_varData : ∀ varData : List VarData,
    OnlyReferred types (varData.flatMap VarData.tokens)
  | [] => .of_passes_nil .nil
  | v :: rest => v.onlyReferred.append (onlyReferred_varData rest)

theorem onlyReferred_groupTokens : ∀ {groups : List Group} {tokens : List Token},
    (∀ fields ∈ groupFieldLists groups, IsSound types fields) → groupTokens types groups = .ok tokens →
      OnlyReferred types tokens
  | [], _, _, h => by
      cases h
      exact .of_passes_nil .nil
  | .mk name id since p q fields groups inner :: rest, _, sound, h => by
      simp only [groupFieldLists, Group.fieldLists, List.cons_append, List.mem_cons,
        List.mem_append] at sound
      rw [groupTokens, Group.tokens] at h
      simp only [bind_eq_ok, pure_eq_ok] at h
      obtain ⟨_, ⟨⟨fieldTs, n⟩, hfields, groupTs, hgroups, rfl⟩, restTs, hrest, rfl⟩ := h
      have hkind : Signal.beginComposite.typeKind? = some .composite := rfl
      have hclosing : OnlyReferred types [groupClosing name] := .of_passes_nil (.single ⟨rfl, rfl⟩)
      have hfieldTs :=
        onlyReferred_fieldTokens hfields ((sound fields (.inl rfl)).short _ _ hfields)
      have hgroupTs := onlyReferred_groupTokens (fun fs hfs => sound fs (.inr (.inl hfs))) hgroups
      have hrestTs := onlyReferred_groupTokens (fun fs hfs => sound fs (.inr (.inr hfs))) hrest
      refine OnlyReferred.append ?_ hrestTs
      have h := (hfieldTs.append (hgroupTs.append (onlyReferred_varData inner))).append hclosing
      rw [List.append_assoc, List.append_assoc (dimensionTokens since p q)]
      unfold wrap
      rw [List.append_assoc (dimensionTokens since p q)]
      exact .owner rfl rfl hkind ⟨rfl, rfl⟩ h
termination_by groups => sizeOf groups

theorem Message.onlyReferred {m : Message} {run : List Token}
    (hfields : IsSound types m.fields) (hgroups : ∀ fields ∈ groupFieldLists m.groups, IsSound types fields)
    (h : m.tokens types = .ok run) : OnlyReferred types run := by
  unfold Message.tokens at h
  simp only [bind_eq_ok, pure_eq_ok] at h
  obtain ⟨⟨fieldTs, n⟩, hfieldTs, groupTs, hgroupTs, rfl⟩ := h
  have hfieldTs' := onlyReferred_fieldTokens hfieldTs (hfields.short _ _ hfieldTs)
  have hgroupTs' := onlyReferred_groupTokens hgroups hgroupTs
  exact .wrap ⟨rfl, rfl⟩ ⟨rfl, rfl⟩ ((hfieldTs'.append hgroupTs').append (onlyReferred_varData m.varData))

/-! ### Types -/

/-- The types of a definition, in their order: the runs that are come across in each. -/
def OwnFirst (types : List NamedType) (t : NamedType) (fs : List WireCodec.NamedType) : Prop :=
  ∃ own nested, fs = own ++ nested ∧ (∀ u ∈ nested, Referred types u) ∧
    (t.kind? = none ∧ own = [] ∨ t.kind?.isSome ∧ ∃ u, own = [u] ∧ Defines types t u)

/-- The first run that is come across under a name is one of the type that the name refers to, or of
the first type of that name that is no element. -/
theorem referred_or_defines {ts : List NamedType} {fss : List (List WireCodec.NamedType)} {n : String}
    {u : WireCodec.NamedType} (h : List.Forall₂ (OwnFirst types) ts fss)
    (hu : fss.flatten.find? (·.name == n) = some u) :
    Referred types u ∨
      ∃ t, ts.find? (fun t => t.name == n && t.kind?.isSome) = some t ∧ Defines types t u := by
  induction h with
  | nil => cases hu
  | @cons t fs ts fss hfs _ ih =>
      obtain ⟨own, nested, rfl, hreferred, hown⟩ := hfs
      rw [List.flatten_cons, List.append_assoc] at hu
      -- Where the type itself is not of the name, what is found comes after it.
      have hbehind : (nested ++ fss.flatten).find? (·.name == n) = some u →
          (t.name == n && t.kind?.isSome) = false → Referred types u ∨
            ∃ t', (t :: ts).find? (fun t => t.name == n && t.kind?.isSome) = some t' ∧
              Defines types t' u := by
        intro hu ht
        rw [List.find?_append, Option.or_eq_some_iff] at hu
        rw [List.find?_cons_of_neg (by rw [ht]; decide)]
        rcases hu with hu | ⟨_, hu⟩
        · exact .inl (hreferred u (List.mem_of_find?_eq_some hu))
        · exact ih hu
      obtain ⟨hkind, rfl⟩ | ⟨hkind, v, rfl, hdefines⟩ := hown
      · exact hbehind hu (by rw [hkind, Option.isSome_none, Bool.and_false])
      · by_cases hn : v.name == n
        · rw [List.singleton_append, List.find?_cons_of_pos (p := fun v : WireCodec.NamedType => v.name == n) hn,
            Option.some.injEq] at hu
          subst hu
          rw [hdefines.name] at hn
          exact .inr ⟨t, List.find?_cons_of_pos (by rw [hn, hkind]; rfl), hdefines⟩
        · rw [List.singleton_append, List.find?_cons_of_neg (p := fun v : WireCodec.NamedType => v.name == n)
            hn] at hu
          rw [hdefines.name, Bool.not_eq_true] at hn
          exact hbehind hu (by rw [hn, Bool.false_and])

/-- A type that can be registered under its name: a run of the first type of that name which is no
element. -/
def Registrable (types : List NamedType) (u : WireCodec.NamedType) : Prop :=
  ∃ t, types.find? (fun t => t.name == u.name && t.kind?.isSome) = some t ∧ Defines types t u

theorem find?_eq_of_find {n : String} {t : NamedType} (h : find types n = .ok t)
    (hkind : t.kind?.isSome) :
    types.find? (fun t => t.name == n && t.kind?.isSome) = some t := by
  unfold find at h
  split at h
  · rename_i t' ht'
    cases h
    induction types with
    | nil => cases ht'
    | cons x xs ih =>
        by_cases hx : x.name == n
        · rw [List.find?_cons_of_pos (p := fun t : NamedType => t.name == n) hx, Option.some.injEq] at ht'
          subst ht'
          exact List.find?_cons_of_pos (by rw [hx, hkind]; rfl)
        · rw [List.find?_cons_of_neg (p := fun t : NamedType => t.name == n) hx] at ht'
          rw [Bool.not_eq_true] at hx
          rw [List.find?_cons_of_neg (by rw [hx, Bool.false_and]; decide)]
          exact ih ht'
  · cases h

theorem Defines.kind_isSome {t : NamedType} {u : WireCodec.NamedType} (h : Defines types t u) :
    t.kind?.isSome := by
  cases h with
  | intro kind_eq name_eq run short => rw [kind_eq]; rfl

theorem Referred.registrable {u : WireCodec.NamedType} (h : Referred types u) :
    Registrable types u := by
  obtain ⟨t, hfind, hdefines⟩ := h
  exact ⟨t, find?_eq_of_find hfind hdefines.kind_isSome, hdefines⟩

/-- What is registered depends on types of shorter runs, as far as these are registered. -/
theorem Registrable.run_lt {u v : WireCodec.NamedType} (hu : Registrable types u)
    (hv : Registrable types v) (h : v.name ∈ u.dependencies) : v.run.length < u.run.length := by
  obtain ⟨t, _, hdefines⟩ := hu
  obtain ⟨length, ⟨t', p, run, k, hfind, hkind, hrun, hle⟩, hlt⟩ := hdefines.refersWithin h
  obtain ⟨t'', hfind', hdefines'⟩ := hv
  rw [find?_eq_of_find hfind hkind, Option.some.injEq] at hfind'
  subst hfind'
  cases hdefines' with
  | intro kind_eq name_eq run' short =>
      have hlength := run'.length_eq hrun
      exact Nat.lt_of_le_of_lt (Nat.le_trans (Nat.le_of_eq hlength) hle) hlt

/-! ### Definitions -/

/-- The fields of a message, and those of each of its groups. -/
def Message.fieldLists (m : Message) : List (List Field) := m.fields :: groupFieldLists m.groups

end WireCodec.Definition

namespace WireCodec

/-- All elements of a definition are built. -/
structure Definition.IsBuilt (d : Definition) : Prop where
  types : ∀ t ∈ d.types, ∀ e ∈ t.elements, e.Made
  fields : ∀ m ∈ d.messages, ∀ fields ∈ m.fieldLists, ∀ f ∈ fields, ∀ e ∈ f.type.elements, e.Made

/-- All lengths that a definition gives rise to can be stated. -/
structure Definition.IsShort (d : Definition) : Prop where
  types : ∀ t ∈ d.allTypes, ∀ run n,
    t.outerTokens d.allTypes { name := t.name, offset := 0, version := 0 } = .ok (run, n) → n < 2 ^ 31
  blocks : ∀ m ∈ d.messages, ∀ fields ∈ m.fieldLists, ∀ run n,
    fieldTokens d.allTypes 0 fields = .ok (run, n) → n < 2 ^ 31

end WireCodec

namespace WireCodec.Definition

variable {d : Definition} {s : Schema}

theorem made_header : ∀ e ∈ (NamedType.composite header).elements, e.Made := by
  intro e he
  simp only [NamedType.elements, header, List.flatMap_cons, Reference.elements, List.flatMap_nil,
    List.singleton_append, List.append_nil, List.mem_cons, List.not_mem_nil, or_false] at he
  obtain rfl | rfl | rfl | rfl := he <;> exact .ofPrimitive _ _

theorem IsBuilt.allTypes (h : d.IsBuilt) : ∀ t ∈ d.allTypes, ∀ e ∈ t.elements, e.Made := by
  intro t ht
  unfold Definition.allTypes at ht
  split at ht
  · rcases List.mem_cons.mp ht with rfl | ht
    · exact made_header
    · exact h.types t ht
  · exact h.types t ht

theorem IsBuilt.isSound (h : d.IsBuilt) (short : d.IsShort) {m : Message} (hm : m ∈ d.messages) :
    ∀ fields ∈ m.fieldLists, IsSound d.allTypes fields :=
  fun fields hfields => ⟨h.fields m hm fields hfields, short.blocks m hm fields hfields⟩

/-- In the tokens of each type, that type is come across first. -/
theorem found_types (h : d.schema = .ok s) (short : d.IsShort) :
    ∃ fss, s.types.mapM (Registry.found false 0) = .ok fss ∧
      List.Forall₂ (OwnFirst d.allTypes) d.allTypes fss := by
  refine mapM_isOk_of_forall₂ (mapM_eq_ok.mp (schema_eq_ok h).1) fun t ht run hrun => ?_
  obtain ⟨⟨_, n⟩, htokens, rfl⟩ := except_map_eq_ok.mp hrun
  have hn := short.types t ht _ n htokens
  obtain ⟨own, nested, hpasses, hreferred, hown⟩ := (run_of_tokens htokens).passes hn rfl
  exact ⟨_, hpasses.found_eq, own, nested, rfl, hreferred, hown⟩

theorem found_messages (h : d.schema = .ok s) (built : d.IsBuilt) (short : d.IsShort) :
    ∃ fss, s.messages.mapM (Registry.found false 0) = .ok fss ∧
      ∀ fs ∈ fss, ∀ u ∈ fs, Referred d.allTypes u := by
  have hruns := mapM_eq_ok.mp (schema_eq_ok h).2
  obtain ⟨fss, hfss, hreferred⟩ := mapM_isOk_of_forall₂ (f := Registry.found false 0)
    (P := fun _ fs => ∀ u ∈ fs, Referred d.allTypes u) hruns fun m hm run hrun => by
      have sound := built.isSound short hm
      obtain ⟨fs, hpasses, hreferred⟩ := Message.onlyReferred (sound _ List.mem_cons_self)
        (fun fields hfields => sound fields (List.mem_cons_of_mem _ hfields)) hrun
      exact ⟨fs, hpasses.found_eq, hreferred⟩
  exact ⟨fss, hfss, forall_of_forall₂ hreferred⟩

/-- **The registry of a definition.** The types of a definition can be registered, each as a run of
the type that its name refers to. -/
theorem registry_isOk (h : d.schema = .ok s) (built : d.IsBuilt) (short : d.IsShort) :
    ∃ r, Registry.ofSchema s = .ok r ∧ ∀ u ∈ r.types, Registrable d.allTypes u := by
  obtain ⟨fss, hfss, hown⟩ := found_types h short
  obtain ⟨gss, hgss, hreferred⟩ := found_messages h built short
  have hall : Registry.allFound s = .ok (fss ++ gss).flatten := by
    unfold Registry.allFound
    rw [List.mapM_append, hfss, hgss]
    rfl
  have hcollect := Registry.collect_eq_ok.mpr ⟨_, hall, rfl⟩
  have hregistrable : ∀ u ∈ (fss ++ gss).flatten.foldl Registry.add [], Registrable d.allTypes u := by
    intro u hu
    have hfirst := (Registry.mem_collect_iff hcollect hall).mp hu
    rw [List.flatten_append, List.find?_append, Option.or_eq_some_iff] at hfirst
    rcases hfirst with hfirst | ⟨_, hfirst⟩
    · rcases referred_or_defines hown hfirst with hu | hu
      · exact hu.registrable
      · exact hu
    · obtain ⟨gs, hgs, hu⟩ := List.mem_flatten.mp (List.mem_of_find?_eq_some hfirst)
      exact (hreferred gs hgs u hu).registrable
  have hacyclic : Registry.Acyclic ((fss ++ gss).flatten.foldl Registry.add []) :=
    Registry.acyclic_of_measure (fun t => t.run.length) fun t u hdep =>
      (hregistrable t hdep.1).run_lt (hregistrable u hdep.2.1) hdep.2.2
  obtain ⟨r, hr⟩ := Registry.exists_ofSchema_of_acyclic hcollect hacyclic
  refine ⟨r, hr, ?_⟩
  intro u hu
  have hperm := (Registry.isOrder_of_ofSchema hcollect hr).1.perm
  exact hregistrable u (hperm.mem_iff.mp hu)

end WireCodec.Definition
