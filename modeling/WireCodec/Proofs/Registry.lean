import Mathlib.Data.List.Find
import WireCodec.Proofs.Outcome
import WireCodec.Registry
/-! # Which types are registered

`Registry.found` lists every type that the registry comes across in a token list, as often as it does.
What is registered are the first of each name (`Registry.mem_collect_iff`, `Registry.find?_collect`);
in particular the types that are registered already do not change where types are found. -/

namespace WireCodec

/-- Does a composite right behind the signal belong to what it opens? -/
def Signal.ownsNext : Signal → Bool
  | .beginGroup | .beginVarData => true
  | _ => false

namespace Registry

/-- The type that a run defines. -/
def defined (kind : TypeKind) (first : Token) (run : List Token) : NamedType :=
  { name := first.typeName, kind, run
    dependencies := if kind = .composite then directDependencies run else [] }

/-- The types that are come across in a token list; `owned` says whether the first token belongs to a
group or a var data member, and `skip` tokens are to be passed over. -/
def found (owned : Bool) : Nat → List Token → Except Fault (List NamedType)
  | _, [] => .ok []
  | skip + 1, t :: rest => found t.signal.ownsNext skip rest
  | 0, t :: rest =>
    match t.signal.typeKind? with
    | none => found t.signal.ownsNext 0 rest
    | some kind =>
      if t.span < 2 ∨ rest.length + 1 < t.span then
        .error (.malformedRange t.name (.typeRunTooLong t.span))
      else if owned ∨ kind = .composite ∧ t.encodedLength < 0 then
        found t.signal.ownsNext (t.span - 1) rest
      else
        let skip := if kind = .composite then 0 else t.span - 1
        (defined kind t ((t :: rest).take t.span) :: ·) <$> found t.signal.ownsNext skip rest

/-- Adds a type unless its name is taken. -/
def add (types : Collected) (t : NamedType) : Collected :=
  if types.any (·.name == t.name) then types else types ++ [t]

theorem register_eq (types : Collected) (kind : TypeKind) (first : Token) (run : List Token) :
    register types kind first run = add types (defined kind first run) := rfl

theorem any_ownsNext (before : Option Signal) :
    before.any Signal.ownsNext ↔ before = some .beginGroup ∨ before = some .beginVarData := by
  cases before with
  | none => simp
  | some s => cases s <;> simp [Signal.ownsNext]

/-- Where types are found does not depend on what is registered. -/
theorem scan_eq (types : Collected) (before : Option Signal) (skip : Nat) (tokens : List Token) :
    scan types before skip tokens
      = (List.foldl add types ·) <$> found (before.any Signal.ownsNext) skip tokens := by
  induction tokens generalizing types before skip with
  | nil => cases skip <;> rfl
  | cons t rest ih =>
      cases skip with
      | succ skip => exact ih types (some t.signal) skip
      | zero =>
          rw [scan, found]
          cases hkind : t.signal.typeKind? with
          | none => exact ih types (some t.signal) 0
          | some kind =>
              dsimp only
              by_cases hlong : t.span < 2 ∨ rest.length + 1 < t.span
              · rw [if_pos hlong, if_pos hlong]
                rfl
              rw [if_neg hlong, if_neg hlong]
              by_cases howned : before.any Signal.ownsNext
              · rw [if_pos ((any_ownsNext before).mp howned), if_pos (.inl howned)]
                exact ih types (some t.signal) (t.span - 1)
              rw [if_neg (mt (any_ownsNext before).mpr howned)]
              by_cases hvariable : kind = .composite ∧ t.encodedLength < 0
              · rw [if_pos hvariable, if_pos (.inr hvariable)]
                exact ih types (some t.signal) (t.span - 1)
              rw [if_neg hvariable, if_neg (not_or.mpr ⟨howned, hvariable⟩), register_eq, ih,
                ← comp_map]
              rfl

/-! ### Adding -/

section add

variable {types found : List NamedType} {t : NamedType} {n : String}

theorem find?_add : (add types t).find? (·.name == n) = (types ++ [t]).find? (·.name == n) := by
  unfold add
  split
  next h =>
    rw [List.find?_append]
    cases hn : types.find? (·.name == n) with
    | some u => rfl
    | none =>
        obtain ⟨u, hu, hname⟩ := List.any_eq_true.mp h
        have hne := List.find?_eq_none.mp hn u hu
        rw [beq_iff_eq] at hname hne
        rw [Option.none_or, List.find?_singleton, if_neg (by rwa [beq_iff_eq, ← hname])]
  next => rfl

/-- The first of a name is registered, and the name stands for it. -/
theorem find?_foldl_add :
    (found.foldl add types).find? (·.name == n) = (types ++ found).find? (·.name == n) := by
  induction found generalizing types with
  | nil => rw [List.foldl_nil, List.append_nil]
  | cons t found ih =>
      rw [List.foldl_cons, ih, List.find?_append, find?_add, ← List.find?_append, List.append_assoc,
        List.singleton_append]

theorem nodup_foldl_add (h : (types.map NamedType.name).Nodup) :
    ((found.foldl add types).map NamedType.name).Nodup := by
  induction found generalizing types with
  | nil => exact h
  | cons t found ih =>
      refine ih ?_
      unfold add
      split
      next => exact h
      next hnew =>
        rw [List.map_append, List.nodup_append]
        refine ⟨h, List.pairwise_singleton _ _, ?_⟩
        intro name hname name' hname' heq
        obtain ⟨u, hu, rfl⟩ := List.mem_map.mp hname
        rw [List.map_singleton, List.mem_singleton] at hname'
        rw [List.any_eq_true] at hnew
        exact hnew ⟨u, hu, by rw [beq_iff_eq, heq, hname']⟩

theorem find?_name_of_mem : ∀ {types : List NamedType}, (types.map NamedType.name).Nodup →
    t ∈ types → types.find? (·.name == t.name) = some t
  | u :: types, hnodup, ht => by
      rw [List.map_cons, List.nodup_cons] at hnodup
      rcases List.mem_cons.mp ht with rfl | ht
      · exact List.find?_cons_of_pos (beq_self_eq_true _)
      · rw [List.find?_cons_of_neg]
        · exact find?_name_of_mem hnodup.2 ht
        · intro h
          rw [beq_iff_eq] at h
          exact hnodup.1 (List.mem_map.mpr ⟨t, ht, h.symm⟩)

end add

/-! ### Collecting -/

/-- The types that are come across in a schema, types before messages. -/
def allFound (s : Schema) : Except Fault (List NamedType) :=
  List.flatten <$> (s.types ++ s.messages).mapM (found false 0)

theorem foldlM_scan (types : Collected) (runs : List (List Token)) :
    runs.foldlM (fun types tokens => scan types none 0 tokens) types
      = (fun fs => (List.flatten fs).foldl add types) <$> runs.mapM (found false 0) := by
  induction runs generalizing types with
  | nil => rfl
  | cons run runs ih =>
      rw [List.foldlM_cons, List.mapM_cons, scan_eq]
      change ((fun fs => List.foldl add types fs) <$> found false 0 run) >>= _ = _
      cases found false 0 run with
      | error e => rfl
      | ok fs =>
          change List.foldlM _ (List.foldl add types fs) runs = _
          rw [ih]
          cases runs.mapM (found false 0) with
          | error e => rfl
          | ok rest =>
              have h : (fs :: rest).flatten.foldl add types
                  = rest.flatten.foldl add (fs.foldl add types) := by
                rw [List.flatten_cons, List.foldl_append]
              exact congrArg Except.ok h.symm

theorem collect_eq_ok {s : Schema} {types : Collected} :
    collect s = .ok types ↔ ∃ fs, allFound s = .ok fs ∧ fs.foldl add [] = types := by
  unfold collect allFound
  rw [foldlM_scan, map_eq_ok]
  constructor
  · rintro ⟨fs, hfs, rfl⟩
    exact ⟨_, map_eq_ok.mpr ⟨fs, hfs, rfl⟩, rfl⟩
  · rintro ⟨_, hall, rfl⟩
    obtain ⟨fs, hfs, rfl⟩ := map_eq_ok.mp hall
    exact ⟨fs, hfs, rfl⟩

/-- A name stands for the first type of that name that is come across. -/
theorem find?_collect {s : Schema} {types : Collected} {fs : List NamedType} (h : collect s = .ok types)
    (hfs : allFound s = .ok fs) (n : String) :
    types.find? (·.name == n) = fs.find? (·.name == n) := by
  obtain ⟨fs', hfs', rfl⟩ := collect_eq_ok.mp h
  rw [hfs] at hfs'
  cases hfs'
  rw [find?_foldl_add, List.nil_append]

theorem nodup_collect {s : Schema} {types : Collected} (h : collect s = .ok types) :
    (types.map NamedType.name).Nodup := by
  obtain ⟨fs, _, rfl⟩ := collect_eq_ok.mp h
  exact nodup_foldl_add List.nodup_nil

/-- The registered types are the first of each name. -/
theorem mem_collect_iff {s : Schema} {types : Collected} {fs : List NamedType}
    (h : collect s = .ok types) (hfs : allFound s = .ok fs) {t : NamedType} :
    t ∈ types ↔ fs.find? (·.name == t.name) = some t := by
  rw [← find?_collect h hfs]
  exact ⟨find?_name_of_mem (nodup_collect h), List.mem_of_find?_eq_some⟩

/-- What holds of every type that tokens define holds of all types that are come across. -/
theorem forall_of_found {p : NamedType → Prop} : ∀ {tokens : List Token} {owned : Bool} {skip : Nat}
    {fs : List NamedType}, (∀ kind first run, first ∈ tokens → run ⊆ tokens → p (defined kind first run)) →
    found owned skip tokens = .ok fs → ∀ t ∈ fs, p t
  | [], _, skip, _, _, hfs => by
      cases skip <;> cases hfs <;> exact List.forall_mem_nil _
  | t :: rest, _, skip, fs, h, hfs => by
      have hrest : ∀ kind first run, first ∈ rest → run ⊆ rest → p (defined kind first run) :=
        fun kind first run hfirst hrun =>
          h kind first run (List.mem_cons_of_mem t hfirst) (List.subset_cons_of_subset t hrun)
      cases skip with
      | succ skip => exact forall_of_found hrest hfs
      | zero =>
          rw [found] at hfs
          split at hfs
          · exact forall_of_found hrest hfs
          · obtain ⟨_, hfs⟩ := guard_eq_ok.mp hfs
            split at hfs
            · exact forall_of_found hrest hfs
            · obtain ⟨gs, hgs, rfl⟩ := map_eq_ok.mp hfs
              rw [List.forall_mem_cons]
              exact ⟨h _ t _ List.mem_cons_self (List.take_subset _ _), forall_of_found hrest hgs⟩

theorem forall_of_collect {p : NamedType → Prop} {s : Schema} {types : Collected}
    (htypes : collect s = .ok types)
    (h : ∀ tokens ∈ s.types ++ s.messages, ∀ kind first run, first ∈ tokens → run ⊆ tokens →
      p (defined kind first run)) : ∀ t ∈ types, p t := by
  intro t ht
  obtain ⟨fs, hfs, _⟩ := collect_eq_ok.mp htypes
  have hfound := List.mem_of_find?_eq_some ((mem_collect_iff htypes hfs).mp ht)
  obtain ⟨fss, hfss, rfl⟩ := map_eq_ok.mp hfs
  obtain ⟨own, hown, ht⟩ := List.mem_flatten.mp hfound
  obtain ⟨tokens, htokens, hown⟩ := exists_of_mapM_eq_ok hfss hown
  exact forall_of_found (h tokens htokens) hown t ht

/-! ### Distinct names -/

section names

variable {types : List NamedType}

theorem eq_of_name_eq {t u : NamedType} (h : (types.map NamedType.name).Nodup) (ht : t ∈ types)
    (hu : u ∈ types) (hname : t.name = u.name) : t = u := by
  have h' := find?_name_of_mem h ht
  rw [hname, find?_name_of_mem h hu] at h'
  exact (Option.some.inj h').symm

theorem perm_cons_eraseP {t : NamedType} (h : (types.map NamedType.name).Nodup) (ht : t ∈ types) :
    types.Perm (t :: types.eraseP (·.name == t.name)) := by
  obtain ⟨u, front, back, _, hname, hsplit, herase⟩ :=
    List.exists_of_eraseP ht (p := (·.name == t.name)) (beq_self_eq_true _)
  have hu : u ∈ types := by
    rw [hsplit]
    exact List.mem_append_right _ List.mem_cons_self
  obtain rfl := eq_of_name_eq h hu ht (beq_iff_eq.mp hname)
  rw [herase]
  conv_lhs => rw [hsplit]
  exact List.perm_middle

theorem length_eraseP_le {t : NamedType} {fuel : Nat} (ht : t ∈ types) (h : types.length ≤ fuel + 1) :
    (types.eraseP (·.name == t.name)).length ≤ fuel := by
  have hlength := List.length_eraseP_of_mem ht (p := (·.name == t.name)) (beq_self_eq_true _)
  omega

end names

end Registry
end WireCodec
