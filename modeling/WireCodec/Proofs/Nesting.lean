import WireCodec.Proofs.Generator
import WireCodec.Proofs.Passing
import WireCodec.Proofs.Reading
/-! # Nested tokens

The registry looks for types in a flat list of tokens, while the members of messages, groups and
composites are read run by run.  In nested tokens, where every run is closed at its end, the two agree:
the registry comes across the type of every field, at any depth, unless the type is a composite of
variable length (`Body.Reads.sighted`). -/

namespace WireCodec

open Registry (Passes defined found found_owned found_quiet map_nil_append)

/-- Token lists of whole runs: an opening token spans the tokens up to the one that closes its run, and
any other token spans itself only. -/
inductive Nested : List Token → Prop
  | nil : Nested []
  | single {t : Token} {rest : List Token} (closing : t.signal.closing = none) (span : t.span = 1)
      (tail : Nested rest) : Nested (t :: rest)
  | run {t last : Token} {inner rest : List Token} (closing : t.signal.closing = some last.signal)
      (span : t.span = inner.length + 2) (content : Nested inner) (tail : Nested rest) :
      Nested (t :: (inner ++ last :: rest))

/-! ### Signals -/

namespace Signal

variable {s closer : Signal}

theorem isQuiet_of_closing_eq_none (h : s.closing = none) : s.IsQuiet := by
  cases s <;> first | exact ⟨rfl, rfl⟩ | cases h

theorem isQuiet_of_closing (h : s.closing = some closer) : closer.IsQuiet := by
  cases s <;> cases h <;> exact ⟨rfl, rfl⟩

theorem eq_beginComposite_of_typeKind? (h : s.typeKind? = some .composite) : s = .beginComposite := by
  cases s <;> first | rfl | cases h

end Signal

/-! ### Whole runs -/

/-- A run in nested tokens, with what follows it. -/
theorem Nested.of_heads {t : Token} {inner rest : List Token} (h : Nested (t :: (inner ++ rest)))
    (run : t.Heads inner) :
    Nested rest ∧ (inner = [] ∧ t.signal.closing = none ∨
      ∃ content last, inner = content ++ [last] ∧ t.signal.closing = some last.signal ∧
        Nested content) := by
  have hspan := run.span
  generalize htokens : inner ++ rest = tokens at h
  cases h with
  | single closing span tail =>
      obtain rfl : inner = [] := List.eq_nil_of_length_eq_zero (by omega)
      rw [List.nil_append] at htokens
      subst htokens
      exact ⟨tail, .inl ⟨rfl, closing⟩⟩
  | @run _ last content rest' closing span hcontent tail =>
      have hsplit : inner ++ rest = (content ++ [last]) ++ rest' := by
        rw [htokens, List.append_assoc, List.singleton_append]
      have hlength : inner.length = (content ++ [last]).length := by
        rw [List.length_append, List.length_singleton]
        omega
      obtain ⟨rfl, rfl⟩ := List.append_inj hsplit hlength
      exact ⟨tail, .inr ⟨content, last, rfl, closing, hcontent⟩⟩

theorem Nested.head_run {t : Token} {inner rest : List Token} (h : Nested (t :: (inner ++ rest)))
    (run : t.Heads inner) : Nested (t :: inner) := by
  have hspan := run.span
  obtain ⟨rfl, closing⟩ | ⟨content, last, rfl, closing, hcontent⟩ := (h.of_heads run).2
  · exact .single closing hspan .nil
  · rw [List.length_append, List.length_singleton] at hspan
    exact .run closing hspan hcontent .nil

/-! ### What is come across -/

/-- The type that the token opens is among those come across, unless it is a composite of variable
length. -/
def Sighted (types : List NamedType) (t : Token) : Prop :=
  ∀ kind, t.signal.typeKind? = some kind → (kind = .composite → 0 ≤ t.encodedLength) →
    ∃ u ∈ types, u.name = t.typeName ∧ u.kind = kind

/-- The run of a composite is nested, and the types that are come across within it are among those
given. -/
def NamedType.IsFollowed (types : List NamedType) (u : NamedType) : Prop :=
  ∃ t content last own, u.run = t :: (content ++ [last]) ∧ t.span = content.length + 2 ∧
    Nested content ∧ Passes content own ∧ own ⊆ types

/-- The types that are come across in nested tokens. -/
structure Surveys (tokens : List Token) (types : List NamedType) : Prop where
  passes : Passes tokens types
  follows : ∀ u ∈ types, u.kind = .composite → u.IsFollowed types
  head : ∀ t rest, tokens = t :: rest → Sighted types t

theorem Sighted.mono {types types' : List NamedType} {t : Token} (h : Sighted types t)
    (hsub : types ⊆ types') : Sighted types' t := by
  intro kind hkind hlength
  obtain ⟨u, hu, hname⟩ := h kind hkind hlength
  exact ⟨u, hsub hu, hname⟩

theorem Sighted.of_typeKind?_eq_none {types : List NamedType} {t : Token}
    (h : t.signal.typeKind? = none) : Sighted types t := by
  intro kind hkind
  rw [h] at hkind
  cases hkind

theorem NamedType.IsFollowed.mono {types types' : List NamedType} {u : NamedType}
    (h : u.IsFollowed types) (hsub : types ⊆ types') : u.IsFollowed types' := by
  obtain ⟨t, content, last, own, hrun, hspan, hcontent, hown, hle⟩ := h
  exact ⟨t, content, last, own, hrun, hspan, hcontent, hown, List.Subset.trans hle hsub⟩

namespace Surveys

variable {t last : Token} {ts us inner : List Token} {fs gs : List NamedType}

theorem nil : Surveys [] [] := ⟨.nil, fun _ hu => (nomatch hu), fun _ _ h => nomatch h⟩

theorem append (ht : Surveys ts fs) (hu : Surveys us gs) : Surveys (ts ++ us) (fs ++ gs) := by
  refine ⟨ht.passes.append hu.passes, fun u hmem hkind => ?_, fun t rest heq => ?_⟩
  · rcases List.mem_append.mp hmem with h | h
    · exact (ht.follows u h hkind).mono (List.subset_append_left fs gs)
    · exact (hu.follows u h hkind).mono (List.subset_append_right fs gs)
  · cases ts with
    | nil => exact (hu.head t rest heq).mono (List.subset_append_right fs gs)
    | cons t' ts =>
        obtain ⟨rfl, rfl⟩ := List.cons.inj heq
        exact (ht.head t' ts rfl).mono (List.subset_append_left fs gs)

theorem quiet (h : t.signal.IsQuiet) : Surveys [t] [] := by
  refine ⟨.single h, fun _ hu => (nomatch hu), fun u rest heq => ?_⟩
  obtain ⟨rfl, rfl⟩ := List.cons.inj heq
  exact .of_typeKind?_eq_none h.1

theorem leaf {kind : TypeKind} (hkind : t.signal.typeKind? = some kind) (hleaf : kind ≠ .composite)
    (hspan : t.span = inner.length + 2) (hlast : last.signal.IsQuiet) :
    Surveys (t :: (inner ++ [last])) [defined kind t (t :: (inner ++ [last]))] := by
  refine ⟨.leaf hkind hleaf hspan hlast, fun u hu huk => ?_, fun u rest heq => ?_⟩
  · obtain rfl := List.mem_singleton.mp hu
    exact absurd huk hleaf
  · obtain ⟨rfl, rfl⟩ := List.cons.inj heq
    intro kind' hkind' _
    obtain rfl := Option.some.inj (hkind.symm.trans hkind')
    exact ⟨_, List.mem_singleton_self _, rfl, rfl⟩

theorem composite (ht : t.signal = .beginComposite) (hspan : t.span = inner.length + 2)
    (hlast : last.signal.IsQuiet) (content : Nested inner) (h : Surveys inner fs) :
    ∃ gs, Surveys (t :: (inner ++ [last])) gs := by
  have hkind : t.signal.typeKind? = some .composite := by
    rw [ht]
    rfl
  by_cases hlength : 0 ≤ t.encodedLength
  · refine ⟨_, .composite ht hspan hlast hlength h.passes, fun u hu huk => ?_,
      fun u rest heq => ?_⟩
    · rcases List.mem_cons.mp hu with rfl | hu
      · exact ⟨t, inner, last, fs, rfl, hspan, content, h.passes, List.subset_cons_self _ fs⟩
      · exact (h.follows u hu huk).mono (List.subset_cons_self _ fs)
    · obtain ⟨rfl, rfl⟩ := List.cons.inj heq
      intro kind hkind' _
      obtain rfl := Option.some.inj (hkind.symm.trans hkind')
      exact ⟨_, List.mem_cons_self, rfl, rfl⟩
  · refine ⟨[], .variableLength ht hspan hlast (by omega), fun _ hu => (nomatch hu), fun u rest heq => ?_⟩
    obtain ⟨rfl, rfl⟩ := List.cons.inj heq
    intro kind hkind' hstated
    obtain rfl := Option.some.inj (hkind.symm.trans hkind')
    exact absurd (hstated rfl) hlength

end Surveys

/-! ### Groups and var data -/

theorem found_owned_eq {t : Token} (h : t.signal.typeKind? = none) (rest : List Token) :
    found true 0 (t :: rest) = found false 0 (t :: rest) := by
  rw [found, found, h]

theorem Nested.owned {inner : List Token} (h : Nested inner)
    (ih : ∀ ts : List Token, Nested ts → ts.length ≤ inner.length → ∃ fs, Surveys ts fs) :
    ∃ fs, (∀ u ∈ fs, u.kind = .composite → u.IsFollowed fs) ∧
      ∀ last rest, last.signal.IsQuiet →
        found true 0 (inner ++ last :: rest) = (fs ++ ·) <$> found false 0 (last :: rest) := by
  have hself := ih inner h (Nat.le_refl _)
  cases h with
  | nil =>
      refine ⟨[], fun _ hu => (nomatch hu), fun last rest hlast => ?_⟩
      rw [List.nil_append, found_owned_eq hlast.1, map_nil_append]
  | single closing span tail =>
      obtain ⟨fs, hfs⟩ := hself
      refine ⟨fs, hfs.follows, fun last rest _ => ?_⟩
      rw [← hfs.passes]
      exact found_owned_eq (Signal.isQuiet_of_closing_eq_none closing).1 _
  | @run t last' content rest' closing span hcontent tail =>
      cases hkind : t.signal.typeKind? with
      | none =>
          obtain ⟨fs, hfs⟩ := hself
          refine ⟨fs, hfs.follows, fun last rest _ => ?_⟩
          rw [← hfs.passes]
          exact found_owned_eq hkind _
      | some kind =>
          have hle : rest'.length ≤ (t :: (content ++ last' :: rest')).length := by
            rw [List.length_cons, List.length_append, List.length_cons]
            omega
          obtain ⟨fs, hfs⟩ := ih rest' tail hle
          refine ⟨fs, hfs.follows, fun last rest _ => ?_⟩
          have howned := found_owned hkind span (Signal.isQuiet_of_closing closing) (rest' ++ last :: rest)
          rw [List.cons_append, List.append_assoc, List.cons_append, howned, hfs.passes]

/-- What is come across in a run whose content is known. -/
theorem Nested.surveys_run {t last : Token} {inner : List Token} (content : Nested inner)
    (closing : t.signal.closing = some last.signal) (span : t.span = inner.length + 2)
    (ih : ∀ ts : List Token, Nested ts → ts.length ≤ inner.length → ∃ fs, Surveys ts fs) :
    ∃ fs, Surveys (t :: (inner ++ [last])) fs := by
  have hlast := Signal.isQuiet_of_closing closing
  obtain ⟨fs, hfs⟩ := ih inner content (Nat.le_refl _)
  cases hkind : t.signal.typeKind? with
  | some kind =>
      by_cases hcomposite : kind = .composite
      · subst hcomposite
        exact Surveys.composite (Signal.eq_beginComposite_of_typeKind? hkind) span hlast content hfs
      · exact ⟨_, .leaf hkind hcomposite span hlast⟩
  | none =>
      cases howns : t.signal.ownsNext with
      | false => exact ⟨_, (Surveys.quiet ⟨hkind, howns⟩).append (hfs.append (.quiet hlast))⟩
      | true =>
          obtain ⟨gs, hfollows, hgs⟩ := content.owned ih
          refine ⟨gs, ?_, hfollows, fun u rest heq => ?_⟩
          · intro rest
            rw [List.cons_append, List.append_assoc, List.singleton_append, found, hkind, howns]
            dsimp only
            rw [hgs last rest hlast, found_quiet false hlast]
          · obtain ⟨rfl, rfl⟩ := List.cons.inj heq
            exact .of_typeKind?_eq_none hkind

theorem Nested.surveys_of_length_le : ∀ (n : Nat) {tokens : List Token}, Nested tokens →
    tokens.length ≤ n → ∃ types, Surveys tokens types
  | n, _, .nil, _ => ⟨[], .nil⟩
  | 0, _, .single _ _ _, hle => by
      rw [List.length_cons] at hle
      omega
  | 0, _, .run _ _ _ _, hle => by
      rw [List.length_cons] at hle
      omega
  | n + 1, _, .single closing _ tail, hle => by
      rw [List.length_cons] at hle
      obtain ⟨fs, hfs⟩ := Nested.surveys_of_length_le n tail (by omega)
      exact ⟨_, (Surveys.quiet (Signal.isQuiet_of_closing_eq_none closing)).append hfs⟩
  | n + 1, _, .run closing span content tail, hle => by
      rw [List.length_cons, List.length_append, List.length_cons] at hle
      obtain ⟨fs, hfs⟩ := content.surveys_run closing span fun ts hts hts' =>
        Nested.surveys_of_length_le n hts (by omega)
      obtain ⟨gs, hgs⟩ := Nested.surveys_of_length_le n tail (by omega)
      have happend := hfs.append hgs
      rw [List.cons_append, List.append_assoc, List.singleton_append] at happend
      exact ⟨_, happend⟩

/-- In nested tokens the registry comes across the types of whole runs. -/
theorem Nested.surveys {tokens : List Token} (h : Nested tokens) : ∃ types, Surveys tokens types :=
  Nested.surveys_of_length_le tokens.length h (Nat.le_refl _)

theorem Registry.Passes.unique {tokens : List Token} {fs gs : List NamedType} (hf : Passes tokens fs)
    (hg : Passes tokens gs) : fs = gs := Except.ok.inj (hf.found_eq.symm.trans hg.found_eq)

/-! ### Members -/

/-- The types of all fields of a body are among those come across, and so in its groups. -/
structure Body.IsSighted (types : List NamedType) (body : Body) : Prop where
  fields : ∀ f ∈ body.fields, Sighted types f.type
  groups : ∀ b ∈ body.groupBlocks, ∀ f ∈ b.fields, Sighted types f.type

namespace Body.IsSighted

variable {types : List NamedType} {ms members : Body}

theorem nil : Body.IsSighted types [] := by
  refine ⟨fun _ hf => (nomatch hf), fun b hb => ?_⟩
  rw [groupBlocks] at hb
  cases hb

theorem field {f : Field} (hf : Sighted types f.type) (h : ms.IsSighted types) :
    Body.IsSighted types (.field f :: ms) := by
  refine ⟨fun f' hf' => ?_, fun b hb => ?_⟩
  · rcases List.mem_cons.mp hf' with rfl | hf'
    · exact hf
    · exact h.fields f' hf'
  · rw [groupBlocks] at hb
    exact h.groups b hb

theorem group {head : GroupHead} (hmembers : members.IsSighted types) (h : ms.IsSighted types) :
    Body.IsSighted types (.group head members :: ms) := by
  refine ⟨h.fields, fun b hb => ?_⟩
  rw [groupBlocks, List.mem_cons, List.mem_append] at hb
  rcases hb with rfl | hb | hb
  · exact hmembers.fields
  · exact hmembers.groups b hb
  · exact h.groups b hb

theorem varData {v : VarData} (h : ms.IsSighted types) : Body.IsSighted types (.varData v :: ms) := by
  refine ⟨h.fields, fun b hb => ?_⟩
  rw [groupBlocks] at hb
  exact h.groups b hb

theorem mono {types' : List NamedType} (h : ms.IsSighted types) (hsub : types ⊆ types') :
    ms.IsSighted types' :=
  ⟨fun f hf => (h.fields f hf).mono hsub, fun b hb f hf => (h.groups b hb f hf).mono hsub⟩

end Body.IsSighted

/-- The type of a field is come across in the run of the field. -/
theorem Field.Spans.sighted {t : Token} {inner : List Token} {f : Field} (h : Field.Spans t inner f)
    (run : t.Heads inner) (nested : Nested (t :: inner)) :
    ∃ types, Passes (t :: inner) types ∧ Sighted types f.type := by
  cases h with
  | bare =>
      obtain ⟨types, htypes⟩ := nested.surveys
      exact ⟨types, htypes.passes, htypes.head t inner rfl⟩
  | @wrapped type closing run' hsignal =>
      have hinner : (type :: run' ++ [closing]) ++ [] = type :: run' ++ [closing] := List.append_nil _
      rw [← hinner] at nested
      obtain ⟨_, ⟨hnil, _⟩ | ⟨content, last, heq, hclosing, hcontent⟩⟩ := nested.of_heads run
      · cases hnil
      obtain ⟨rfl, hlast⟩ := List.append_inj' heq rfl
      obtain rfl := List.singleton_inj.mp hlast
      have hquiet := Signal.isQuiet_of_closing hclosing
      obtain ⟨types, htypes⟩ := hcontent.surveys
      have ht : Passes [t] [] := .single (by rw [hsignal]; exact ⟨rfl, rfl⟩)
      have hpasses := ht.append (htypes.passes.append (.single hquiet))
      rw [List.append_nil] at hpasses
      exact ⟨types, hpasses, htypes.head type run' rfl⟩

/-- The header of a group is a run of four tokens, behind which there are others. -/
theorem Member.header_of_groupHead {t : Token} {inner : List Token} {head : GroupHead}
    (h : groupHead (t :: inner) = .ok head) :
    ∃ header rest, inner = header :: rest ∧ header.signal = .beginComposite ∧ header.span = 4 := by
  unfold groupHead at h
  simp only [bind_eq_ok, tokenAt_eq_ok_iff] at h
  obtain ⟨_, _, header, ⟨hget, hsignal⟩, h⟩ := h
  cases inner with
  | nil => cases hget
  | cons header' rest =>
      obtain rfl := Option.some.inj hget
      refine ⟨_, rest, rfl, hsignal, ?_⟩
      by_contra hspan
      rw [if_pos (.inl hspan)] at h
      obtain ⟨_, ⟨⟩, _⟩ := h

/-- The members of a group follow its header, which is passed over. -/
theorem Nested.of_group {t : Token} {inner : List Token} {head : GroupHead}
    (nested : Nested (t :: inner)) (run : t.Heads inner) (signal : t.signal = .beginGroup)
    (h : Member.groupHead (t :: inner) = .ok head) :
    Nested (Member.groupInner (t :: inner)) ∧
      ∀ types, Passes (Member.groupInner (t :: inner)) types → Passes (t :: inner) types := by
  obtain ⟨header, behind, rfl, hheader, hspan⟩ := Member.header_of_groupHead h
  have hkind : header.signal.typeKind? = some .composite := by
    rw [hheader]
    rfl
  have hnested : Nested (t :: ((header :: behind) ++ [])) := by
    rwa [List.append_nil]
  obtain ⟨hnil, _⟩ | ⟨content, last, heq, hclosing, hcontent⟩ := (hnested.of_heads run).2
  · cases hnil
  have hlast := Signal.isQuiet_of_closing hclosing
  cases hcontent with
  | nil =>
      obtain ⟨rfl, _⟩ := List.cons.inj heq
      rw [hlast.1] at hkind
      cases hkind
  | single closing span tail =>
      obtain ⟨rfl, _⟩ := List.cons.inj heq
      rw [(Signal.isQuiet_of_closing_eq_none closing).1] at hkind
      cases hkind
  | @run _ last' inner rest closing span content tail =>
      obtain ⟨rfl, hbehind⟩ := List.cons.inj heq
      have hlength : inner.length = 2 := by omega
      obtain ⟨a, b, rfl⟩ := List.length_eq_two.mp hlength
      have hsplit : behind = a :: b :: last' :: (rest ++ [last]) := hbehind
      have hinner : Member.groupInner (t :: header :: behind) = rest := by
        rw [hsplit]
        exact List.dropLast_concat
      rw [hinner]
      refine ⟨tail, fun types htypes more => ?_⟩
      have ht : t.signal.typeKind? = none := by
        rw [signal]
        rfl
      have howns : t.signal.ownsNext = true := by
        rw [signal]
        rfl
      have howned := found_owned hkind span (Signal.isQuiet_of_closing closing) (rest ++ last :: more)
      have hmore : header :: behind ++ more = header :: ([a, b] ++ last' :: (rest ++ last :: more)) := by
        rw [hsplit]
        simp only [List.cons_append, List.append_assoc, List.nil_append]
      rw [List.cons_append, hmore, found, ht, howns]
      dsimp only
      rw [howned, htypes, found_quiet false hlast]

/-- **Fields are seen by the registry.**  In nested tokens it comes across the types of all fields
that are read, at any depth. -/
theorem Body.Reads.sighted {stage : Stage} {tokens : List Token} {body : Body}
    (h : Body.Reads stage tokens body) (nested : Nested tokens) :
    ∃ types, Passes tokens types ∧ body.IsSighted types := by
  induction h with
  | nil => exact ⟨[], .nil, .nil⟩
  | @field t inner rest f ms run spans tail ih =>
      obtain ⟨gs, hgs, hms⟩ := ih (nested.of_heads run).1
      obtain ⟨fs, hfs, hf⟩ := spans.sighted run (nested.head_run run)
      have hf' := hf.mono (List.subset_append_left fs gs)
      exact ⟨fs ++ gs, hfs.append hgs, .field hf' (hms.mono (List.subset_append_right fs gs))⟩
  | @group stage t inner rest head members ms signal run order header body tail ihBody ihTail =>
      obtain ⟨hinner, hpasses⟩ := (nested.head_run run).of_group run signal header
      obtain ⟨gs, hgs, hms⟩ := ihTail (nested.of_heads run).1
      obtain ⟨fs, hfs, hmembers⟩ := ihBody hinner
      have hmembers' := hmembers.mono (List.subset_append_left fs gs)
      exact ⟨fs ++ gs, (hpasses fs hfs).append hgs,
        .group hmembers' (hms.mono (List.subset_append_right fs gs))⟩
  | @varData stage t inner rest v ms signal run shape tail ih =>
      obtain ⟨gs, hgs, hms⟩ := ih (nested.of_heads run).1
      obtain ⟨fs, hfs⟩ := (nested.head_run run).surveys
      exact ⟨fs ++ gs, hfs.passes.append hgs, .varData (hms.mono (List.subset_append_right fs gs))⟩

/-! ### Messages and composites -/

theorem Nested.of_encloses {signal closing : Signal} {tokens : List Token} {token : Token} {body : Body}
    (nested : Nested tokens) (h : Body.Encloses signal tokens token body)
    (hclosing : signal.closing = some closing) :
    ∃ content last rest, tokens = token :: (content ++ last :: rest) ∧ token.signal = signal ∧
      last.signal.IsQuiet ∧ Nested content ∧ Nested rest ∧ Body.Reads .field content body := by
  obtain ⟨inner, rest, rfl, hsignal, run, hbody⟩ := h
  obtain ⟨hrest, ⟨_, hnone⟩ | ⟨content, last, rfl, hlast, hcontent⟩⟩ := nested.of_heads run
  · rw [hsignal, hclosing] at hnone
    cases hnone
  · rw [List.dropLast_concat] at hbody
    refine ⟨content, last, rest, ?_, hsignal, Signal.isQuiet_of_closing hlast, hcontent, hrest, hbody⟩
    rw [List.append_assoc, List.singleton_append]

/-- The types of a message's fields are come across in its tokens. -/
theorem Nested.sighted_of_ofMessage {tokens : List Token} {token : Token} {body : Body}
    {types : List NamedType} (nested : Nested tokens) (h : Body.ofMessage tokens = .ok (token, body))
    (htypes : Passes tokens types) : body.IsSighted types := by
  obtain ⟨content, last, rest, rfl, hsignal, hlast, hcontent, hrest, hbody⟩ :=
    nested.of_encloses (Body.ofMessage_eq_ok_iff.mp h) rfl
  obtain ⟨fs, hfs, hsighted⟩ := hbody.sighted hcontent
  obtain ⟨gs, hgs⟩ := hrest.surveys
  have htoken : Passes [token] [] := .single (by rw [hsignal]; exact ⟨rfl, rfl⟩)
  have hpasses : Passes (token :: (content ++ last :: rest)) (fs ++ gs) :=
    htoken.append (hfs.append ((Passes.single hlast).append hgs.passes))
  rw [htypes.unique hpasses]
  exact hsighted.mono (List.subset_append_left fs gs)

/-- The types of a composite's members are come across with the composite. -/
theorem NamedType.IsFollowed.sighted {u : NamedType} {types : List NamedType} {body : Body}
    (h : u.IsFollowed types) (hbody : Body.ofComposite u.run = .ok body) : body.IsSighted types := by
  obtain ⟨t, content, last, own, hrun, hspan, hcontent, hown, hsub⟩ := h
  obtain ⟨⟨token, inner, rest, hinner, hsignal, run, hreads⟩, _⟩ := Body.ofComposite_eq_ok_iff.mp hbody
  rw [hrun] at hinner
  obtain ⟨rfl, happend⟩ := List.cons.inj hinner
  have hlength : (content ++ [last]).length = inner.length := by
    have := run.span
    rw [List.length_append, List.length_singleton]
    omega
  obtain ⟨rfl, _⟩ := List.append_inj ((List.append_nil _).trans happend) hlength
  rw [List.dropLast_concat] at hreads
  obtain ⟨fs, hfs, hsighted⟩ := hreads.sighted hcontent
  rw [hown.unique hfs] at hsub
  exact hsighted.mono hsub

end WireCodec
