import WireCodec.Proofs.Offsets
/-! # Constants take no room

`storedTokens` leaves the runs of constants out of tokens, and how many tokens a run has, which is all
that a constant adds to the runs around it.  `Definition.withoutConstants` leaves the constant members
out of a definition: fields of messages and groups, and members of composites.

What is left of the tokens of a definition are those of the definition without its constants
(`schema_withoutConstants`): other members keep their offsets, and blocks their lengths. -/

namespace WireCodec

/-! ### Stored tokens -/

/-- The tokens without the runs of constants; how many tokens a run has is left out, too. -/
def storedTokens : List Token → List Token
  | [] => []
  | t :: rest =>
    if t.isConstant then storedTokens (rest.drop (t.span - 1))
    else { t with span := 1 } :: storedTokens rest
termination_by tokens => tokens.length
decreasing_by
  · rw [List.length_drop, List.length_cons]
    omega
  · exact Nat.lt_succ_self _

theorem storedTokens_cons {t : Token} (h : t.isConstant = false) (rest : List Token) :
    storedTokens (t :: rest) = { t with span := 1 } :: storedTokens rest := by
  rw [storedTokens, if_neg (by simp [h])]

/-- The run of a constant is skipped as a whole. -/
theorem storedTokens_constant {t : Token} (h : t.isConstant) {inner : List Token}
    (hspan : t.span = inner.length + 1) (rest : List Token) :
    storedTokens (t :: (inner ++ rest)) = storedTokens rest := by
  rw [storedTokens, if_pos h, hspan, Nat.add_sub_cancel, List.drop_left]

/-- The same tokens are stored of both lists, whatever follows them. -/
def StoredAlike (a b : List Token) : Prop :=
  ∀ rest rest', storedTokens rest = storedTokens rest' →
    storedTokens (a ++ rest) = storedTokens (b ++ rest')

namespace StoredAlike

variable {a a' b b' : List Token}

theorem eq (h : StoredAlike a b) : storedTokens a = storedTokens b := by
  have hnil := h [] [] rfl
  rwa [List.append_nil, List.append_nil] at hnil

theorem nil : StoredAlike [] [] := fun _ _ h => h

theorem append (ha : StoredAlike a a') (hb : StoredAlike b b') : StoredAlike (a ++ b) (a' ++ b') := by
  intro rest rest' h
  rw [List.append_assoc, List.append_assoc]
  exact ha _ _ (hb rest rest' h)

theorem cons {t u : Token} (ht : t.isConstant = false)
    (heq : ({ t with span := 1 } : Token) = { u with span := 1 }) (h : StoredAlike a b) :
    StoredAlike (t :: a) (u :: b) := by
  intro rest rest' hrest
  have hencoding : t.encoding = u.encoding := congrArg (·.encoding) heq
  have hu : u.isConstant = false := by
    rw [Token.isConstant, ← hencoding]
    exact ht
  rw [List.cons_append, List.cons_append, storedTokens_cons ht, storedTokens_cons hu, heq,
    h rest rest' hrest]

theorem of_constant {t : Token} {inner : List Token} (h : t.isConstant)
    (hspan : t.span = inner.length + 1) : StoredAlike (t :: inner) [] := by
  intro rest rest' hrest
  rw [List.cons_append, storedTokens_constant h hspan, hrest, List.nil_append]

theorem trans {c : List Token} (hab : StoredAlike a b) (hbc : StoredAlike b c) : StoredAlike a c :=
  fun rest rest' h => (hab rest rest' h).trans (hbc rest' rest' rfl)

theorem symm (h : StoredAlike a b) : StoredAlike b a :=
  fun rest rest' hrest => (h rest' rest hrest.symm).symm

theorem refl_of_forall (h : ∀ t ∈ a, t.isConstant = false) : StoredAlike a a := by
  induction a with
  | nil => exact .nil
  | cons t a ih =>
      obtain ⟨ht, ha⟩ := List.forall_mem_cons.mp h
      exact .cons ht rfl (ih ha)

theorem wrap {opening closing : Token} (hopening : opening.isConstant = false)
    (hclosing : closing.isConstant = false) (h : StoredAlike a b) :
    StoredAlike (Definition.wrap opening closing a) (Definition.wrap opening closing b) := by
  have hlast : StoredAlike [closing] [closing] := .cons hclosing rfl .nil
  exact .cons hopening rfl (h.append hlast)

end StoredAlike

namespace Definition

variable {types : List NamedType}

/-! ### Definitions without constants -/

/-- Is a member of the type a constant? -/
def NamedType.isConstant (isFixed : Bool) : NamedType → Bool
  | .element e => e.presence == .constant
  | .enumeration _ => isFixed
  | _ => false

/-- Does the reference stand for a constant? -/
def Reference.isConstant (types : List NamedType) (isFixed : Bool) (r : Reference) : Bool :=
  match r.lookup types with
  | .ok t => t.isConstant isFixed
  | .error _ => false

def Field.isConstant (types : List NamedType) (f : Field) : Bool :=
  f.type.isConstant types f.constant.isSome

def NamedType.withoutConstants (types : List NamedType) : NamedType → NamedType
  | .composite c =>
    .composite { c with members := c.members.filter fun (_, r) => !r.isConstant types false }
  | t => t

def storedFields (types : List NamedType) (fields : List Field) : List Field :=
  fields.filter fun f => !f.isConstant types

mutual
def Group.withoutConstants (types : List NamedType) : Group → Group
  | .mk name id since p q fields groups varData =>
    .mk name id since p q (storedFields types fields) (groupsWithoutConstants types groups) varData

def groupsWithoutConstants (types : List NamedType) : List Group → List Group
  | [] => []
  | g :: gs => g.withoutConstants types :: groupsWithoutConstants types gs
end

def Message.withoutConstants (types : List NamedType) (m : Message) : Message :=
  { m with
    fields := storedFields types m.fields
    groups := groupsWithoutConstants types m.groups }

/-- The definition without the constant members of its composites, messages and groups. -/
def withoutConstants (d : Definition) : Definition :=
  { d with
    types := d.types.map (NamedType.withoutConstants d.allTypes)
    messages := d.messages.map (Message.withoutConstants d.allTypes) }

@[simp] theorem NamedType.name_withoutConstants (t : NamedType) :
    (t.withoutConstants types).name = t.name := by
  cases t <;> rfl

theorem allTypes_map (d : Definition) (messages : List Message) {E : NamedType → NamedType}
    (hname : ∀ t, (E t).name = t.name) (hheader : E (.composite header) = .composite header) :
    allTypes { d with types := d.types.map E, messages } = d.allTypes.map E := by
  have hnames : (d.types.map E).any (·.name == headerName) = d.types.any (·.name == headerName) := by
    simp only [List.any_map, Function.comp_def, hname]
  unfold allTypes
  dsimp only
  rw [hnames]
  split
  · rw [List.map_cons, hheader]
  · rfl

theorem allTypes_withoutConstants (d : Definition) :
    d.withoutConstants.allTypes = d.allTypes.map (NamedType.withoutConstants d.allTypes) :=
  d.allTypes_map _ (fun t => t.name_withoutConstants) rfl

/-! ### References -/

theorem find_map (types : List NamedType) (E : NamedType → NamedType) (hE : ∀ t, (E t).name = t.name)
    (n : String) : find (types.map E) n = (find types n).map E := by
  unfold find
  rw [List.find?_map]
  have hcomp : ((fun t : NamedType => t.name == n) ∘ E) = fun t => t.name == n := by
    funext t
    simp only [Function.comp_apply, hE]
  rw [hcomp]
  cases types.find? fun t => t.name == n <;> rfl

theorem Reference.lookup_withoutConstants {r : Reference} {t : NamedType}
    (h : r.lookup types = .ok t) :
    r.lookup (types.map (NamedType.withoutConstants types)) = .ok (t.withoutConstants types) := by
  cases r with
  | inline e =>
      cases h
      rfl
  | named n =>
      have hfind : find types n = .ok t := h
      rw [lookup, find_map _ _ (fun t => t.name_withoutConstants), hfind]
      rfl

theorem Reference.isConstant_of_lookup {r : Reference} {t : NamedType}
    (h : r.lookup types = .ok t) (isFixed : Bool) : r.isConstant types isFixed = t.isConstant isFixed := by
  unfold isConstant
  rw [h]

/-! ### Types -/

theorem beq_constant_ite (b : Bool) :
    ((if b then Presence.constant else .required) == .constant) = b := by
  cases b <;> rfl

theorem Run.isConstant_first {t : NamedType} {p : Position} {first : Token} {inner : List Token}
    {n : Nat} (run : Run types t p (first :: inner) n) :
    first.isConstant = t.isConstant p.constant.isSome := by
  generalize htokens : first :: inner = tokens at run
  cases run with
  | leaf placed =>
      obtain ⟨e, rfl, rfl, rfl⟩ | ⟨e, rfl, he⟩ | ⟨s, rfl, hs⟩ := leaf_eq_ok placed
      · obtain ⟨rfl, _⟩ := List.cons.inj htokens
        rfl
      · obtain ⟨_, _, rfl⟩ := Enumeration.tokens_eq_ok he
        obtain ⟨rfl, _⟩ := List.cons.inj htokens
        exact beq_constant_ite p.constant.isSome
      · obtain ⟨rfl, _⟩ := Prod.mk.inj hs
        obtain ⟨rfl, _⟩ := List.cons.inj htokens
        rfl
  | composite nested =>
      obtain ⟨rfl, _⟩ := List.cons.inj htokens
      rfl

theorem Run.storedAlike_nil {t : NamedType} {p : Position} {tokens : List Token} {n : Nat}
    (run : Run types t p tokens n) (hc : t.isConstant p.constant.isSome) :
    n = 0 ∧ StoredAlike tokens [] := by
  constructor
  · cases run with
    | leaf placed =>
        obtain ⟨e, rfl, _, rfl⟩ | ⟨e, rfl, he⟩ | ⟨s, rfl, _⟩ := leaf_eq_ok placed
        · exact if_pos (beq_iff_eq.mp hc)
        · obtain ⟨_, rfl, _⟩ := Enumeration.tokens_eq_ok he
          exact if_pos hc
        · cases hc
    | composite nested => cases hc
  · obtain ⟨first, inner, rfl, hheads, _⟩ := run.starts
    have hfirst : first.isConstant := by
      rw [run.isConstant_first]
      exact hc
    exact .of_constant hfirst hheads.span

theorem storedAlike_leaf {t : NamedType} {p : Position} {tokens : List Token} {n : Nat}
    (h : t.tokens types 0 p = .ok (tokens, n)) : StoredAlike tokens tokens := by
  by_cases hc : t.isConstant p.constant.isSome
  · obtain ⟨_, hnil⟩ := (Run.leaf h).storedAlike_nil hc
    exact hnil.trans hnil.symm
  · obtain ⟨e, rfl, rfl, _⟩ | ⟨e, rfl, he⟩ | ⟨s, rfl, hs⟩ := leaf_eq_ok h
    · exact .cons (Bool.eq_false_iff.mpr hc) rfl .nil
    · obtain ⟨_, _, rfl⟩ := Enumeration.tokens_eq_ok he
      have hencoding : (e.encoding p).presence = .required := if_neg hc
      have hfalse : ((e.encoding p).presence == .constant) = false := by rw [hencoding]; rfl
      refine .wrap hfalse hfalse (.refl_of_forall fun t ht => ?_)
      obtain ⟨value, _, rfl⟩ := List.mem_map.mp ht
      rfl
    · obtain ⟨rfl, _⟩ := Prod.mk.inj hs
      refine .wrap rfl rfl (.refl_of_forall fun t ht => ?_)
      obtain ⟨choice, _, rfl⟩ := List.mem_map.mp ht
      rfl

/-- The layout without constants of what has been laid out: the same length, the same tokens stored,
and the first token describes the same value. -/
def IsKept (tokens : List Token) (n : Nat) (result : Except Fault (List Token × Nat)) : Prop :=
  ∃ tokens', result = .ok (tokens', n) ∧ StoredAlike tokens tokens' ∧
    tokens.head?.map Token.encoding = tokens'.head?.map Token.encoding

theorem isKept_leaf {levels : Nat} {types' : List NamedType} {t : NamedType} {p : Position}
    {tokens : List Token} {n : Nat} (h : t.tokens types 0 p = .ok (tokens, n)) :
    IsKept tokens n ((t.withoutConstants types).tokens types' levels p) := by
  refine ⟨tokens, ?_, storedAlike_leaf h, rfl⟩
  cases t with
  | composite c => cases h
  | _ => cases levels <;> exact h

/-- The members of a composite that are constants can be left out. -/
theorem memberTokens_withoutConstants {levels version : Nat} {types' : List NamedType}
    (htypes : types' = types.map (NamedType.withoutConstants types))
    (ih : ∀ t p tokens n, NamedType.tokens types levels t p = .ok (tokens, n) →
      IsKept tokens n ((t.withoutConstants types).tokens types' levels p)) :
    ∀ {members : List (String × Reference)} {offset n : Nat} {tokens : List Token},
      memberTokens types (NamedType.tokens types levels) version offset members = .ok (tokens, n) →
      ∃ tokens', memberTokens types' (NamedType.tokens types' levels) version offset
          (members.filter fun (_, r) => !r.isConstant types false) = .ok (tokens', n) ∧
        StoredAlike tokens tokens'
  | [], _, _, _, h => by
      cases h
      exact ⟨[], rfl, .nil⟩
  | (name, r) :: members, offset, _, _, h => by
      rw [memberTokens_cons _ _ (NamedType.tokens_element types levels)] at h
      simp only [bind_eq_ok, pure_eq_ok] at h
      obtain ⟨t, found, ⟨run, n⟩, hrun, ⟨rest, m⟩, hrest, h⟩ := h
      cases h
      obtain ⟨rest', hrest', hstored⟩ := memberTokens_withoutConstants htypes ih hrest
      have hconstant := Reference.isConstant_of_lookup found false
      cases hc : t.isConstant false with
      | true =>
          obtain ⟨rfl, hnil⟩ := (run_of_tokens hrun).storedAlike_nil hc
          refine ⟨rest', ?_, hnil.append hstored⟩
          rw [List.filter_cons_of_neg (by simp [hconstant, hc]), Nat.zero_add]
          exact hrest'
      | false =>
          obtain ⟨run', hrun', hrunStored, _⟩ := ih t _ run n hrun
          refine ⟨run' ++ rest', ?_, hrunStored.append hstored⟩
          rw [List.filter_cons_of_pos (by simp [hconstant, hc]),
            memberTokens_cons _ _ (NamedType.tokens_element types' levels), htypes,
            Reference.lookup_withoutConstants found, ← htypes]
          simp only [bind_eq_ok, pure_eq_ok]
          exact ⟨_, rfl, _, hrun', _, hrest', rfl⟩

/-- The constants in a type can be left out. -/
theorem tokens_withoutConstants {types' : List NamedType}
    (htypes : types' = types.map (NamedType.withoutConstants types)) :
    ∀ (levels : Nat) (t : NamedType) (p : Position) (tokens : List Token) (n : Nat),
      NamedType.tokens types levels t p = .ok (tokens, n) →
      IsKept tokens n ((t.withoutConstants types).tokens types' levels p)
  | 0, _, _, _, _, h => isKept_leaf h
  | levels + 1, .composite c, p, _, _, h => by
      rw [NamedType.tokens_composite, bind_eq_ok] at h
      obtain ⟨⟨inner, length⟩, hinner, h⟩ := h
      rw [pure_eq_ok] at h
      obtain ⟨rfl, rfl⟩ := Prod.mk.inj h
      obtain ⟨inner', hinner', hstored⟩ := memberTokens_withoutConstants htypes
        (tokens_withoutConstants htypes levels) hinner
      refine ⟨compositeRun p inner' length, ?_, .wrap rfl rfl hstored, rfl⟩
      rw [NamedType.withoutConstants, NamedType.tokens_composite, hinner']
      rfl
  | _ + 1, .element _, _, _, _, h => isKept_leaf h
  | _ + 1, .enumeration _, _, _, _, h => isKept_leaf h
  | _ + 1, .bitSet _, _, _, _, h => isKept_leaf h

theorem outerTokens_withoutConstants {types' : List NamedType}
    (htypes : types' = types.map (NamedType.withoutConstants types)) {t : NamedType} {p : Position}
    {tokens : List Token} {n : Nat} (h : t.outerTokens types p = .ok (tokens, n)) :
    IsKept tokens n ((t.withoutConstants types).outerTokens types' p) := by
  have hlength : types'.length = types.length := by
    rw [htypes, List.length_map]
  unfold NamedType.outerTokens at h ⊢
  rw [hlength]
  exact tokens_withoutConstants htypes _ t p tokens n h

/-! ### Messages -/

theorem Field.storedAlike_nil {f : Field} {offset n : Nat} {tokens : List Token}
    (h : f.tokens types offset = .ok (tokens, n)) (hc : f.isConstant types) :
    n = 0 ∧ StoredAlike tokens [] := by
  rw [tokens_eq] at h
  simp only [bind_eq_ok, pure_eq_ok] at h
  obtain ⟨t, found, ⟨run, n⟩, hrun, h⟩ := h
  cases h
  have hrun := run_of_tokens hrun
  have ht : t.isConstant f.constant.isSome := by
    rw [← Reference.isConstant_of_lookup found]
    exact hc
  obtain ⟨rfl, _⟩ := hrun.storedAlike_nil ht
  obtain ⟨first, inner, rfl, _, _⟩ := hrun.starts
  refine ⟨rfl, .of_constant ?_ ?_⟩
  · exact (hrun.isConstant_first).trans ht
  · rw [List.length_append]
    rfl

theorem Field.tokens_withoutConstants {types' : List NamedType}
    (htypes : types' = types.map (NamedType.withoutConstants types)) {f : Field} {offset n : Nat}
    {tokens : List Token} (h : f.tokens types offset = .ok (tokens, n))
    (hc : f.isConstant types = false) :
    ∃ tokens', f.tokens types' offset = .ok (tokens', n) ∧ StoredAlike tokens tokens' := by
  rw [tokens_eq] at h ⊢
  simp only [bind_eq_ok, pure_eq_ok] at h
  obtain ⟨t, found, ⟨run, n⟩, hrun, h⟩ := h
  cases h
  obtain ⟨run', hrun', hstored, hencoding⟩ := outerTokens_withoutConstants htypes hrun
  have hrun := run_of_tokens hrun
  have ht : t.isConstant f.constant.isSome = false := by
    rw [← Reference.isConstant_of_lookup found]
    exact hc
  obtain ⟨first, inner, rfl, _, _⟩ := hrun.starts
  have hopening : (f.opening offset n first.encoding).isConstant = false :=
    (hrun.isConstant_first).trans ht
  rw [htypes, Reference.lookup_withoutConstants found, ← htypes]
  simp only [bind_eq_ok, pure_eq_ok]
  have hname : (t.withoutConstants types).name = t.name := t.name_withoutConstants
  rw [← hname] at hrun'
  refine ⟨_, ⟨_, rfl, _, hrun', rfl⟩, ?_⟩
  rw [← hencoding]
  exact .wrap hopening rfl hstored

theorem fieldTokens_withoutConstants {types' : List NamedType}
    (htypes : types' = types.map (NamedType.withoutConstants types)) :
    ∀ {fields : List Field} {offset n : Nat} {tokens : List Token},
      fieldTokens types offset fields = .ok (tokens, n) →
      ∃ tokens', fieldTokens types' offset (storedFields types fields) = .ok (tokens', n) ∧
        StoredAlike tokens tokens'
  | [], _, _, _, h => by
      cases h
      exact ⟨[], rfl, .nil⟩
  | f :: fields, offset, _, _, h => by
      rw [fieldTokens] at h
      simp only [bind_eq_ok, pure_eq_ok] at h
      obtain ⟨⟨run, n⟩, hrun, ⟨rest, m⟩, hrest, h⟩ := h
      cases h
      obtain ⟨rest', hrest', hstored⟩ := fieldTokens_withoutConstants htypes hrest
      unfold storedFields at hrest' ⊢
      cases hc : f.isConstant types with
      | true =>
          obtain ⟨rfl, hnil⟩ := f.storedAlike_nil hrun hc
          refine ⟨rest', ?_, hnil.append hstored⟩
          rw [List.filter_cons_of_neg (by simp [hc]), Nat.zero_add]
          exact hrest'
      | false =>
          obtain ⟨run', hrun', hrunStored⟩ := f.tokens_withoutConstants htypes hrun hc
          refine ⟨run' ++ rest', ?_, hrunStored.append hstored⟩
          rw [List.filter_cons_of_pos (by simp [hc]), fieldTokens]
          simp only [bind_eq_ok, pure_eq_ok]
          exact ⟨_, hrun', _, hrest', rfl⟩

theorem storedAlike_varData (varData : List VarData) :
    StoredAlike (varData.flatMap VarData.tokens) (varData.flatMap VarData.tokens) := by
  refine .refl_of_forall fun t ht => ?_
  obtain ⟨v, _, ht⟩ := List.mem_flatMap.mp ht
  simp only [VarData.tokens, wrap, List.mem_cons, List.mem_append, List.not_mem_nil, or_false] at ht
  rcases ht with rfl | (rfl | (rfl | rfl) | rfl) | rfl <;> rfl

theorem storedAlike_dimensionTokens (since : Nat) (p q : Primitive) :
    StoredAlike (dimensionTokens since p q) (dimensionTokens since p q) := by
  refine .refl_of_forall fun t ht => ?_
  simp only [dimensionTokens, wrap, List.mem_cons, List.mem_append, List.not_mem_nil, or_false] at ht
  rcases ht with rfl | (rfl | rfl) | rfl <;> rfl

theorem groupTokens_withoutConstants {types' : List NamedType}
    (htypes : types' = types.map (NamedType.withoutConstants types)) :
    ∀ {groups : List Group} {tokens : List Token}, groupTokens types groups = .ok tokens →
      ∃ tokens', groupTokens types' (groupsWithoutConstants types groups) = .ok tokens' ∧
        StoredAlike tokens tokens'
  | [], _, h => by
      cases h
      exact ⟨[], rfl, .nil⟩
  | .mk name id since p q fields groups varData :: rest, _, h => by
      rw [groupTokens, Group.tokens] at h
      simp only [bind_eq_ok, pure_eq_ok] at h
      obtain ⟨_, ⟨⟨fieldTs, n⟩, hfields, groupTs, hgroups, rfl⟩, restTs, hrest, rfl⟩ := h
      obtain ⟨fieldTs', hfields', hfieldsStored⟩ := fieldTokens_withoutConstants htypes hfields
      obtain ⟨groupTs', hgroups', hgroupsStored⟩ := groupTokens_withoutConstants htypes hgroups
      obtain ⟨restTs', hrest', hrestStored⟩ := groupTokens_withoutConstants htypes hrest
      have hinner := (((storedAlike_dimensionTokens since p q).append hfieldsStored).append
        hgroupsStored).append (storedAlike_varData varData)
      have hrun : StoredAlike (wrap (groupOpening name id since n) (groupClosing name) _)
          (wrap (groupOpening name id since n) (groupClosing name) _) := .wrap rfl rfl hinner
      refine ⟨_, ?_, hrun.append hrestStored⟩
      rw [groupsWithoutConstants, Group.withoutConstants, groupTokens, Group.tokens]
      simp only [bind_eq_ok, pure_eq_ok]
      exact ⟨_, ⟨_, hfields', _, hgroups', rfl⟩, _, hrest', rfl⟩
termination_by groups => sizeOf groups

theorem Message.tokens_withoutConstants {types' : List NamedType}
    (htypes : types' = types.map (NamedType.withoutConstants types)) {m : Message}
    {tokens : List Token} (h : m.tokens types = .ok tokens) :
    ∃ tokens', (m.withoutConstants types).tokens types' = .ok tokens' ∧
      StoredAlike tokens tokens' := by
  unfold Message.tokens at h ⊢
  simp only [bind_eq_ok, pure_eq_ok] at h ⊢
  obtain ⟨⟨fieldTs, n⟩, hfields, groupTs, hgroups, rfl⟩ := h
  obtain ⟨fieldTs', hfields', hfieldsStored⟩ := fieldTokens_withoutConstants htypes hfields
  obtain ⟨groupTs', hgroups', hgroupsStored⟩ := groupTokens_withoutConstants htypes hgroups
  have hinner := (hfieldsStored.append hgroupsStored).append (storedAlike_varData m.varData)
  have hrun : StoredAlike (wrap (m.opening n) m.closing _) (wrap (m.opening n) m.closing _) :=
    .wrap rfl rfl hinner
  exact ⟨_, ⟨_, hfields', _, hgroups', rfl⟩, hrun⟩

/-! ### Schemas -/

/-- What is stored of each run is stored of a run for what is left. -/
theorem mapM_withoutConstants {α : Type} {f g : α → Except Fault (List Token)} {E : α → α}
    {xs : List α} {runs : List (List Token)} (h : xs.mapM f = .ok runs)
    (hkept : ∀ x run, f x = .ok run → ∃ run', g (E x) = .ok run' ∧ StoredAlike run run') :
    ∃ runs', (xs.map E).mapM g = .ok runs' ∧
      runs'.map storedTokens = runs.map storedTokens := by
  have hruns := mapM_eq_ok.mp h
  clear h
  induction hruns with
  | nil => exact ⟨[], rfl, rfl⟩
  | @cons x run xs runs hrun _ ih =>
      obtain ⟨run', hrun', hstored⟩ := hkept x run hrun
      obtain ⟨runs', hruns', heq⟩ := ih
      refine ⟨run' :: runs', ?_, ?_⟩
      · exact mapM_eq_ok.mpr (.cons hrun' (mapM_eq_ok.mp hruns'))
      · rw [List.map_cons, List.map_cons, heq, hstored.eq]

/-- A definition that can be laid out can be laid out without its constants, and the same tokens are
stored. -/
theorem schema_withoutConstants {d : Definition} {s : Schema} (h : d.schema = .ok s) :
    ∃ s', d.withoutConstants.schema = .ok s' ∧ s'.types.map storedTokens = s.types.map storedTokens ∧
      s'.messages.map storedTokens = s.messages.map storedTokens := by
  obtain ⟨htypes, hmessages⟩ := schema_eq_ok h
  have hall := d.allTypes_withoutConstants
  obtain ⟨runs, hruns, hrunsStored⟩ := mapM_withoutConstants
    (E := NamedType.withoutConstants d.allTypes)
    (g := fun t => (t.outerTokens d.withoutConstants.allTypes
      { name := t.name, offset := 0, version := 0 }).map (·.1)) htypes fun t run hrun => by
    obtain ⟨⟨tokens, n⟩, htokens, rfl⟩ := except_map_eq_ok.mp hrun
    obtain ⟨tokens', htokens', hstored, _⟩ := outerTokens_withoutConstants hall htokens
    refine ⟨tokens', ?_, hstored⟩
    rw [NamedType.name_withoutConstants, htokens']
    rfl
  obtain ⟨messages, hmessages', hmessagesStored⟩ := mapM_withoutConstants
    (E := Message.withoutConstants d.allTypes) hmessages
    fun m run hrun => m.tokens_withoutConstants hall hrun
  rw [← hall] at hruns
  have hmap : d.withoutConstants.messages = d.messages.map (Message.withoutConstants d.allTypes) := rfl
  rw [← hmap] at hmessages'
  have hschema : d.withoutConstants.schema = .ok
      { packageName := d.packageName, namespaceName := d.namespaceName, id := d.id
        version := d.version, semanticVersion := d.semanticVersion, description := d.description
        byteOrder := d.byteOrder, types := runs, messages } := by
    unfold schema
    simp only [bind_eq_ok, pure_eq_ok]
    exact ⟨runs, hruns, messages, hmessages', rfl⟩
  exact ⟨_, hschema, hrunsStored, hmessagesStored⟩

/-- **Where members lie.**  For a definition that has been built and laid out, within lengths that can
be stated: in each message, group and composite, members begin where the ones before them end, and
their lengths make up the length that the block states; an opening token counts its run; and a layout
that is described from the tokens of a member has its place and its length.  Constants take no room, so
definitions that differ in constant members only place all others alike, in blocks of the same
lengths. -/
theorem schema_laid {d : Definition} {s : Schema} (h : d.schema = .ok s) (built : d.IsBuilt)
    (short : d.IsShort) :
    List.Forall₂ (fun t run => ∃ n, TypeLaid d.allTypes t false run n) d.allTypes s.types ∧
      List.Forall₂ (MessageLaid d.allTypes) d.messages s.messages ∧
      ∀ (d' : Definition) (s' : Schema), d'.schema = .ok s' →
        d'.withoutConstants = d.withoutConstants →
        s'.types.map storedTokens = s.types.map storedTokens ∧
          s'.messages.map storedTokens = s.messages.map storedTokens := by
  obtain ⟨htypes, hmessages⟩ := schema_eq_ok h
  refine ⟨?_, ?_, fun d' s' h' heq => ?_⟩
  · have hruns := (List.forall₂_and_left _ _).mpr ⟨fun _ ht => ht, mapM_eq_ok.mp htypes⟩
    refine hruns.imp fun t run ⟨ht, hrun⟩ => ?_
    obtain ⟨⟨tokens, n⟩, htokens, rfl⟩ := except_map_eq_ok.mp hrun
    have hn := short.types t ht _ n htokens
    exact ⟨n, (run_of_tokens htokens).laid built.allTypes (built.allTypes t ht) hn⟩
  · have hruns := (List.forall₂_and_left _ _).mpr ⟨fun _ hm => hm, mapM_eq_ok.mp hmessages⟩
    refine hruns.imp fun m run ⟨hm, hrun⟩ => ?_
    exact m.tokens_laid built.allTypes hrun (built.isSound short hm)
  · obtain ⟨u, hu, hutypes, humessages⟩ := schema_withoutConstants h
    obtain ⟨u', hu', hutypes', humessages'⟩ := schema_withoutConstants h'
    rw [heq, hu] at hu'
    obtain rfl := Except.ok.inj hu'
    exact ⟨hutypes'.symm.trans hutypes, humessages'.symm.trans humessages⟩

/-- An order whose price has a constant exponent in front. -/
def Order.scaled : Definition :=
  let exponent : Element :=
    { name := "int8", primitive := .int8, presence := .constant, constant := some "-4" }
  { definition with
    types := [.composite ⟨"Price", [("exponent", .inline exponent),
      ("mantissa", .inline (.ofPrimitive "int64" .int64)), ("side", .named "Side")]⟩, side] }

/-- The members of an order lie where they lie behind a constant exponent. -/
theorem schema_laid_order :
    ∃ s s', Order.definition.schema = .ok s ∧ Order.scaled.schema = .ok s' ∧
      List.Forall₂ (fun t run => ∃ n, TypeLaid Order.definition.allTypes t false run n)
        Order.definition.allTypes s.types ∧
      List.Forall₂ (MessageLaid Order.definition.allTypes) Order.definition.messages s.messages ∧
      s'.types.map storedTokens = s.types.map storedTokens ∧
      s'.messages.map storedTokens = s.messages.map storedTokens := by
  obtain ⟨s, hs⟩ : ∃ s, Order.definition.schema = .ok s := ⟨_, rfl⟩
  obtain ⟨s', hs'⟩ : ∃ s', Order.scaled.schema = .ok s' := ⟨_, rfl⟩
  obtain ⟨htypes, hmessages, halike⟩ := schema_laid hs Order.isBuilt Order.isShort
  exact ⟨s, s', hs, hs', htypes, hmessages, halike Order.scaled s' hs' rfl⟩

end Definition
end WireCodec
