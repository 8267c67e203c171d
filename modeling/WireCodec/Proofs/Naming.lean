import Mathlib.Tactic.MkIffOfInductiveProp
import WireCodec.Proofs.Generator
import WireCodec.Proofs.Layout
import WireCodec.Proofs.Ordering
import WireCodec.Proofs.Reading
import WireCodec.Proofs.Wording
/-! # Names in a schema

`Schema.IsSpelled names s` says which characters the names in a schema consist of, and that no line ends
in its constants; nothing is said of its other texts.  Everything that is made of the tokens of such a
schema is spelled in the same way: its named types, the members of its messages, and their layouts,
whose names are words of code. -/

namespace WireCodec

open Text (Fits IsWord Unbroken)

/-! ### Tokens -/

/-- The names in the token consist of the given characters, and its constant stands on one line. -/
@[mk_iff]
structure Token.IsSpelled (names : Char → Prop) (t : Token) : Prop where
  name : ∀ c ∈ t.name.toList, names c
  reference : ∀ n ∈ t.referencedName, ∀ c ∈ n.toList, names c
  constant : ∀ v ∈ t.encoding.constant, ∀ c ∈ v.toList, Unbroken c

/-- The package name and the names in the tokens consist of the given characters, and constants stand on
one line. -/
@[mk_iff]
structure Schema.IsSpelled (names : Char → Prop) (s : Schema) : Prop where
  package : ∀ c ∈ s.packageName.toList, names c
  tokens : ∀ tokens ∈ s.types ++ s.messages, ∀ t ∈ tokens, t.IsSpelled names

instance (names : Char → Prop) [DecidablePred names] (t : Token) : Decidable (t.IsSpelled names) :=
  decidable_of_iff
    (t.name.toList.all (names ·) ∧ (t.referencedName.all fun n => n.toList.all (names ·)) ∧
      t.encoding.constant.all fun v => v.toList.all (Unbroken ·))
    (by
      rw [Token.isSpelled_iff]
      cases t.referencedName <;> cases t.encoding.constant <;> simp)

instance (names : Char → Prop) [DecidablePred names] (s : Schema) : Decidable (s.IsSpelled names) :=
  decidable_of_iff
    (s.packageName.toList.all (names ·) ∧
      ∀ tokens ∈ s.types ++ s.messages, ∀ t ∈ tokens, t.IsSpelled names)
    (by simp [Schema.isSpelled_iff])

/-- The name of the type and the names in its run consist of the given characters. -/
structure NamedType.IsSpelled (names : Char → Prop) (t : NamedType) : Prop where
  name : ∀ c ∈ t.name.toList, names c
  run : ∀ token ∈ t.run, token.IsSpelled names

variable {names : Char → Prop} {slash : Prop}

theorem Token.IsSpelled.mono {names' : Char → Prop} (h : ∀ c, names c → names' c) {t : Token}
    (ht : t.IsSpelled names) : t.IsSpelled names' where
  name c hc := h c (ht.name c hc)
  reference n hn c hc := h c (ht.reference n hn c hc)
  constant := ht.constant

theorem Schema.IsSpelled.mono {names' : Char → Prop} (h : ∀ c, names c → names' c) {s : Schema}
    (hs : s.IsSpelled names) : s.IsSpelled names' where
  package c hc := h c (hs.package c hc)
  tokens tokens htokens t ht := (hs.tokens tokens htokens t ht).mono h

theorem Token.IsSpelled.typeName {t : Token} (ht : t.IsSpelled names) :
    ∀ c ∈ t.typeName.toList, names c := by
  unfold Token.typeName
  cases href : t.referencedName with
  | none => exact ht.name
  | some n => exact ht.reference n href

/-! ### Named types -/

/-- Registered types are spelled like the tokens that they are found in. -/
theorem Schema.IsSpelled.types {s : Schema} (hs : s.IsSpelled names) {r : Registry}
    (h : Registry.ofSchema s = .ok r) : ∀ t ∈ r.types, t.IsSpelled names := by
  obtain ⟨types, htypes, hperm⟩ := Registry.perm_of_ofSchema h
  have hspelled : ∀ t ∈ types, t.IsSpelled names :=
    Registry.forall_of_collect htypes fun tokens htokens _ first _ hfirst hrun =>
      ⟨(hs.tokens tokens htokens first hfirst).typeName,
        fun u hu => hs.tokens tokens htokens u (hrun hu)⟩
  exact fun t ht => hspelled t (hperm.mem_iff.mp ht)

/-! ### Members -/

/-- The tokens that name the members and their types have some property. -/
inductive Body.Consists (p : Token → Prop) : Body → Prop
  | nil : Consists p []
  | field {f : Field} {ms : Body} (token : p f.token) (type : p f.type) (tail : Consists p ms) :
      Consists p (.field f :: ms)
  | group {head : GroupHead} {members ms : Body} (token : p head.token) (body : Consists p members)
      (tail : Consists p ms) : Consists p (.group head members :: ms)
  | varData {v : VarData} {ms : Body} (token : p v.token) (tail : Consists p ms) :
      Consists p (.varData v :: ms)

theorem Field.Spans.mem {t : Token} {inner : List Token} {f : Field} (h : Spans t inner f) :
    f.token ∈ t :: inner ∧ f.type ∈ t :: inner := by
  cases h <;> simp

theorem Member.token_of_varDataOfRun {t : Token} {inner : List Token} {v : VarData}
    (h : varDataOfRun (t :: inner) = .ok v) : v.token = t := by
  unfold varDataOfRun at h
  simp only [bind_eq_ok, tokenAt_eq_ok_iff] at h
  obtain ⟨token, ⟨hget, _⟩, h⟩ := h
  obtain rfl := Option.some.inj hget
  split at h
  · obtain ⟨_, ⟨⟩, _⟩ := h
  · simp only [bind_eq_ok, pure_eq_ok] at h
    obtain ⟨_, _, _, _, _, _, _, _, rfl⟩ := h
    rfl

/-- What holds of all tokens holds of those that the members are made of. -/
theorem Body.Reads.consists {p : Token → Prop} {stage : Stage} {tokens : List Token} {b : Body}
    (h : Reads stage tokens b) (ht : ∀ t ∈ tokens, p t) : b.Consists p := by
  induction h with
  | nil => exact .nil
  | field run spans tail ih =>
      rw [List.forall_mem_cons, List.forall_mem_append] at ht
      have hrun := List.forall_mem_cons.mpr ⟨ht.1, ht.2.1⟩
      exact .field (hrun _ spans.mem.1) (hrun _ spans.mem.2) (ih ht.2.2)
  | group signal run order header body tail ihBody ihTail =>
      rw [List.forall_mem_cons, List.forall_mem_append] at ht
      have hrun := List.forall_mem_cons.mpr ⟨ht.1, ht.2.1⟩
      refine .group ?_ (ihBody fun t h => ?_) (ihTail ht.2.2)
      · rw [Member.token_of_groupHead header]
        exact ht.1
      · exact hrun t (List.mem_of_mem_drop (List.dropLast_subset _ h))
  | varData signal run shape tail ih =>
      rw [List.forall_mem_cons, List.forall_mem_append] at ht
      refine .varData ?_ (ih ht.2.2)
      rw [Member.token_of_varDataOfRun shape]
      exact ht.1

theorem Body.Encloses.consists {p : Token → Prop} {signal : Signal} {tokens : List Token}
    {token : Token} {b : Body} (h : Encloses signal tokens token b) (ht : ∀ t ∈ tokens, p t) :
    p token ∧ b.Consists p := by
  obtain ⟨inner, rest, rfl, _, _, hbody⟩ := h
  rw [List.forall_mem_cons, List.forall_mem_append] at ht
  exact ⟨ht.1, hbody.consists fun t h => ht.2.1 t (List.dropLast_subset _ h)⟩

namespace Body.Consists

variable {p : Token → Prop} {b : Body}

theorem forall_fields (h : b.Consists p) : ∀ f ∈ b.fields, p f.token ∧ p f.type := by
  induction h with
  | nil => simp [Body.fields]
  | field token type _ ih => exact List.forall_mem_cons.mpr ⟨⟨token, type⟩, ih⟩
  | group _ _ _ _ ih => exact ih
  | varData _ _ ih => exact ih

theorem forall_groups (h : b.Consists p) : ∀ g ∈ b.groups, p g.1.token := by
  induction h with
  | nil => simp [Body.groups]
  | field _ _ _ ih => exact ih
  | group token _ _ _ ih => exact List.forall_mem_cons.mpr ⟨token, ih⟩
  | varData _ _ ih => exact ih

theorem forall_varData (h : b.Consists p) : ∀ v ∈ b.varData, p v.token := by
  induction h with
  | nil => simp [Body.varData]
  | field _ _ _ ih => exact ih
  | group _ _ _ _ ih => exact ih
  | varData token _ ih => exact List.forall_mem_cons.mpr ⟨token, ih⟩

end Body.Consists

/-! ### Layouts -/

/-- The names in a kind of field are words; the variant that a constant names stands on one line. -/
def FieldKind.IsSpelled (slash : Prop) : FieldKind → Prop
  | .constant (.variant enumType variant) =>
    IsWord slash enumType ∧ ∀ c ∈ variant.toList, Unbroken c
  | .enumeration typeName _ | .bitSet typeName _ | .composite typeName _ => IsWord slash typeName
  | _ => True

structure FieldLayout.IsSpelled (slash : Prop) (f : FieldLayout) : Prop where
  name : IsWord slash f.name
  accessor : IsWord slash f.accessor
  kind : f.kind.IsSpelled slash

structure GroupLayout.IsSpelled (slash : Prop) (g : GroupLayout) : Prop where
  accessor : IsWord slash g.accessor
  structName : IsWord slash g.structName

theorem Field.unbroken_variant {raw : String} (h : ∀ c ∈ raw.toList, Unbroken c) :
    ∀ c ∈ (Name.type (afterPoint raw)).toList, Unbroken c := by
  have hraw : IsWord True (afterPoint raw) := by
    unfold afterPoint
    rw [Text.isWord_ofList]
    intro c hc
    refine ⟨h c ?_, fun _ => trivial⟩
    cases hlast : (Text.split '.' raw.toList).getLast? with
    | none =>
        rw [hlast] at hc
        cases hc
    | some word =>
        rw [hlast] at hc
        exact Text.mem_of_mem_split (List.mem_of_getLast? hlast) c hc
  exact fun c hc => (Name.isWord_type hraw c hc).unbroken

theorem Field.unbroken_constantLiteral {f : Field} {raw : String} (h : f.constantLiteral = .ok raw)
    (htoken : f.token.IsSpelled names) (htype : f.type.IsSpelled names) :
    ∀ c ∈ raw.toList, Unbroken c := by
  unfold constantLiteral at h
  split at h
  next hraw =>
    cases h
    rcases Option.or_eq_some_iff.mp hraw with hraw | ⟨_, hraw⟩
    · exact htoken.constant _ hraw
    · exact htype.constant _ hraw
  · cases h

theorem Field.isSpelled_of_constant {f : Field} {c : Constant} (h : f.constant = .ok c) :
    (FieldKind.constant c).IsSpelled slash := by
  cases c with
  | variant => 
    unfold Field.constant at h
    simp only [bind_eq_ok] at h
    obtain ⟨p, _, raw, _, encoding, _, h⟩ := h
    split at h
    · split at h <;> cases h
    · cases h
    · obtain ⟨v, _, ⟨⟩⟩ := bind_eq_ok.mp h
  | _ => trivial

theorem Field.isSpelled_of_kind {f : Field} {kind : FieldKind} (h : f.kind = .ok kind)
    (htoken : f.token.IsSpelled (Text.Fits slash)) (htype : f.type.IsSpelled (Text.Fits slash)) :
    kind.IsSpelled slash := by
  have hname : IsWord slash (Name.type f.type.typeName) := Name.isWord_type htype.typeName
  unfold Field.kind at h
  split at h
  · split at h
    · obtain ⟨c, hc, rfl⟩ := map_eq_ok.mp h
      exact isSpelled_of_constant hc
    · simp only [bind_eq_ok, pure_eq_ok] at h
      obtain ⟨element, _, rfl⟩ := h
      split <;> trivial
  · dsimp only at h
    split at h
    · simp only [bind_eq_ok, pure_eq_ok] at h
      obtain ⟨raw, hraw, rfl⟩ := h
      exact ⟨hname, unbroken_variant (unbroken_constantLiteral hraw htoken htype)⟩
    · simp only [bind_eq_ok, pure_eq_ok] at h
      obtain ⟨p, _, rfl⟩ := h
      exact hname
  · simp only [bind_eq_ok, pure_eq_ok] at h
    obtain ⟨p, _, rfl⟩ := h
    exact hname
  · cases h
    exact hname
  · cases h

/-- The layout of a field is spelled like its tokens. -/
theorem Field.isSpelled_of_layout {f : Field} {l : FieldLayout} (h : f.layout = .ok l)
    (htoken : f.token.IsSpelled (Text.Fits slash)) (htype : f.type.IsSpelled (Text.Fits slash)) :
    l.IsSpelled slash := by
  obtain ⟨hkind, hl⟩ := Field.layout_eq_ok.mp h
  have hspelled := isSpelled_of_kind hkind htoken htype
  rw [hl]
  exact ⟨htoken.name, Name.isWord_function htoken.name, hspelled⟩

theorem Field.isSpelled_of_layouts {fields : List Field} {raw : List FieldLayout}
    (hraw : fields.mapM Field.layout = .ok raw)
    (h : ∀ f ∈ fields, f.token.IsSpelled (Text.Fits slash) ∧ f.type.IsSpelled (Text.Fits slash))
    (enclosing : Nat) : ∀ l ∈ raw.map (·.within enclosing), l.IsSpelled slash := by
  intro l hl
  obtain ⟨plain, hplain, rfl⟩ := List.mem_map.mp hl
  obtain ⟨f, hf, hlayout⟩ := exists_of_mapM_eq_ok hraw hplain
  obtain ⟨htoken, htype⟩ := h f hf
  obtain ⟨hname, haccessor, hkind⟩ := isSpelled_of_layout hlayout htoken htype
  exact ⟨hname, haccessor, hkind⟩

theorem GroupHead.isSpelled_of_layout {head : GroupHead} {g : GroupLayout} (h : head.layout = .ok g)
    (htoken : head.token.IsSpelled (Fits slash)) : g.IsSpelled slash := by
  obtain ⟨_, _, _, _, _, _, _, rfl⟩ := GroupHead.layout_eq_ok.mp h
  exact ⟨Name.isWord_function htoken.name, Name.isWord_type htoken.name⟩

theorem VarData.isWord_of_layout {v : VarData} {l : VarDataLayout} (h : v.layout = .ok l)
    (htoken : v.token.IsSpelled (Fits slash)) : IsWord slash l.accessor := by
  simp only [VarData.layout, bind_eq_ok, pure_eq_ok] at h
  obtain ⟨_, _, _, _, rfl⟩ := h
  exact Name.isWord_function htoken.name

end WireCodec
