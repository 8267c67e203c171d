import WireCodec.Proofs.Reading
/-! # The grammar of messages

A message is one run of fields, then groups, then var data, and the elements of a group are made up
in the same way.  `Grammar` leaves open which tokens are a field, the dimension of a group and a var
data member; `IsBody`, `IsGroup` and `IsMessage` say how messages are put together from these.

* `Grammar.full` describes every token, down to the values of an enum.
* `Grammar.outer` takes the run of a type as a whole: its first token counts it and its last one
  closes it, but what lies between them is not looked at.

`Grammar.isOk_ofMessage_iff` says that all messages of the full grammar are read, and that tokens with
nothing behind the first one's run, and with no var data of more than six tokens, are read exactly if
they are a message of the outer grammar. -/

namespace WireCodec

/-- The token has the given signal and counts no other token. -/
def Token.IsLeaf (signal : Signal) (t : Token) : Prop := t.signal = signal ∧ t.span = 1

/-- The tokens `first`, `inner`, `last` are one run of the given opening signal. -/
structure IsRun (signal : Signal) (first : Token) (inner : List Token) (last : Token) : Prop where
  opens : first.signal = signal
  closes : signal.closing = some last.signal
  span : first.span = inner.length + 2

theorem IsRun.heads {signal : Signal} {first last : Token} {inner : List Token}
    (h : IsRun signal first inner last) : first.Heads (inner ++ [last]) := by
  refine ⟨by simp [h.span], fun closing hc => ⟨last, by simp, ?_⟩⟩
  rw [h.opens, h.closes] at hc
  exact Option.some.inj hc

theorem Token.Heads.exists_isRun {t : Token} {inner : List Token} (h : t.Heads inner)
    {signal : Signal} (hs : t.signal = signal) (hc : signal.closing.isSome) :
    ∃ middle last, inner = middle ++ [last] ∧ IsRun signal t middle last := by
  obtain ⟨closing, hc⟩ := Option.isSome_iff_exists.mp hc
  obtain ⟨last, hlast, hsignal⟩ := h.closes closing (by rw [hs, hc])
  obtain ⟨middle, rfl⟩ : ∃ middle, inner = middle ++ [last] := List.getLast?_eq_some_iff.mp hlast
  refine ⟨middle, last, rfl, hs, by rw [hc, hsignal], ?_⟩
  have hspan := h.span
  simp at hspan
  omega

/-! ### Messages and groups -/

/-- What the members of messages look like, groups apart. -/
structure Grammar where
  IsField : List Token → Prop
  IsDimension : List Token → Prop
  IsVarData : List Token → Prop

namespace Grammar
variable (g : Grammar)

/-- A group: its dimension, and then fields, groups and var data. -/
inductive IsGroup : List Token → Prop
  | intro {first last : Token} {dimension : List Token} {fields groups varData : List (List Token)}
      (run : IsRun .beginGroup first
        (dimension ++ (fields.flatten ++ (groups.flatten ++ varData.flatten))) last)
      (isDimension : g.IsDimension dimension) (areFields : ∀ r ∈ fields, g.IsField r)
      (areGroups : ∀ r ∈ groups, IsGroup r) (areVarData : ∀ r ∈ varData, g.IsVarData r) :
      IsGroup (first ::
        (dimension ++ (fields.flatten ++ (groups.flatten ++ varData.flatten)) ++ [last]))

/-- The runs of fields, then those of groups, then those of var data. -/
def IsBody (tokens : List Token) : Prop :=
  ∃ fields groups varData : List (List Token),
    tokens = fields.flatten ++ (groups.flatten ++ varData.flatten) ∧
      (∀ r ∈ fields, g.IsField r) ∧ (∀ r ∈ groups, g.IsGroup r) ∧ ∀ r ∈ varData, g.IsVarData r

/-- One run of a message. -/
def IsMessage (tokens : List Token) : Prop :=
  ∃ first body last, tokens = first :: (body ++ [last]) ∧ IsRun .beginMessage first body last ∧
    g.IsBody body

variable {g}

theorem isGroup_iff {tokens : List Token} :
    g.IsGroup tokens ↔ ∃ first dimension body last,
      tokens = first :: (dimension ++ body ++ [last]) ∧
        IsRun .beginGroup first (dimension ++ body) last ∧ g.IsDimension dimension ∧
        g.IsBody body := by
  constructor
  · rintro ⟨run, hd, hf, hg, hv⟩
    exact ⟨_, _, _, _, rfl, run, hd, _, _, _, rfl, hf, hg, hv⟩
  · rintro ⟨first, dimension, body, last, rfl, run, hd, fields, groups, varData, rfl, hf, hg, hv⟩
    exact .intro run hd hf hg hv

theorem IsBody.nil : g.IsBody [] := ⟨[], [], [], by simp⟩

theorem IsGroup.mono {g' : Grammar} (hf : ∀ r, g.IsField r → g'.IsField r)
    (hd : ∀ r, g.IsDimension r → g'.IsDimension r) (hv : ∀ r, g.IsVarData r → g'.IsVarData r)
    {tokens : List Token} (h : g.IsGroup tokens) : g'.IsGroup tokens := by
  induction h with
  | intro run isDimension areFields _ areVarData ih =>
      exact .intro run (hd _ isDimension) (fun r hr => hf r (areFields r hr)) ih
        fun r hr => hv r (areVarData r hr)

theorem IsMessage.mono {g' : Grammar} (hf : ∀ r, g.IsField r → g'.IsField r)
    (hd : ∀ r, g.IsDimension r → g'.IsDimension r) (hv : ∀ r, g.IsVarData r → g'.IsVarData r)
    {tokens : List Token} (h : g.IsMessage tokens) : g'.IsMessage tokens := by
  obtain ⟨first, body, last, rfl, run, fields, groups, varData, rfl, hfs, hgs, hvs⟩ := h
  exact ⟨first, _, last, rfl, run, fields, groups, varData, rfl, fun r hr => hf r (hfs r hr),
    fun r hr => (hgs r hr).mono hf hd hv, fun r hr => hv r (hvs r hr)⟩

end Grammar

/-! ### Every token -/

/-- The tokens of a type. -/
inductive IsType : List Token → Prop
  | encoding {t : Token} (leaf : t.IsLeaf .encoding) : IsType [t]
  | enumeration {first last : Token} {values : List Token}
      (run : IsRun .beginEnum first values last) (leaves : ∀ t ∈ values, t.IsLeaf .validValue) :
      IsType (first :: (values ++ [last]))
  | bitSet {first last : Token} {choices : List Token}
      (run : IsRun .beginSet first choices last) (leaves : ∀ t ∈ choices, t.IsLeaf .choice) :
      IsType (first :: (choices ++ [last]))
  | composite {first last : Token} {members : List (List Token)}
      (run : IsRun .beginComposite first members.flatten last) (types : ∀ r ∈ members, IsType r) :
      IsType (first :: (members.flatten ++ [last]))

namespace Grammar

/-- Every token of a message is described. -/
def full : Grammar where
  IsField tokens := IsType tokens ∨ ∃ first type last, tokens = first :: (type ++ [last]) ∧
    IsRun .beginField first type last ∧ IsType type
  IsDimension tokens := ∃ first a b last, tokens = [first, a, b, last] ∧
    IsRun .beginComposite first [a, b] last ∧ a.IsLeaf .encoding ∧ b.IsLeaf .encoding ∧
    ∀ name ∈ ["blockLength", "numInGroup"], ∃ t ∈ [a, b], t.name = name
  IsVarData tokens := ∃ first head length data tail last,
    tokens = [first, head, length, data, tail, last] ∧
    IsRun .beginVarData first [head, length, data, tail] last ∧
    IsRun .beginComposite head [length, data] tail ∧ length.IsLeaf .encoding ∧
    data.IsLeaf .encoding ∧ length.encoding.primitive.isSome

/-! ### The runs of members -/

/-- The runs of types are taken as wholes.  A dimension is four tokens of which the first one says
so, and holds the two encodings; of a var data member the first four tokens are looked at, and the
last one. -/
def outer : Grammar where
  IsField tokens := ∃ first inner, tokens = first :: inner ∧ first.Heads inner ∧
    (first.signal.isType ∨ first.signal = .beginField ∧ 2 ≤ inner.length)
  IsDimension tokens := ∃ first rest, tokens = first :: rest ∧ first.signal = .beginComposite ∧
    first.span = 4 ∧ rest.length = 3 ∧
    ∀ name ∈ ["blockLength", "numInGroup"], ∃ t ∈ rest, t.signal = .encoding ∧ t.name = name
  IsVarData tokens := ∃ first head length data tail last,
    tokens = [first, head, length, data, tail, last] ∧
    IsRun .beginVarData first [head, length, data, tail] last ∧ head.signal = .beginComposite ∧
    length.signal = .encoding ∧ data.signal = .encoding ∧ length.encoding.primitive.isSome

theorem heads_of_isType {tokens : List Token} (h : IsType tokens) :
    ∃ first inner, tokens = first :: inner ∧ first.Heads inner ∧ first.signal.isType := by
  cases h with
  | encoding leaf =>
      refine ⟨_, [], rfl, ⟨leaf.2, fun closing hc => ?_⟩, by rw [leaf.1]; rfl⟩
      rw [leaf.1] at hc
      cases hc
  | enumeration run _ => exact ⟨_, _, rfl, run.heads, by rw [run.opens]; rfl⟩
  | bitSet run _ => exact ⟨_, _, rfl, run.heads, by rw [run.opens]; rfl⟩
  | composite run _ => exact ⟨_, _, rfl, run.heads, by rw [run.opens]; rfl⟩

theorem outer_isField_of_full {tokens : List Token} (h : full.IsField tokens) :
    outer.IsField tokens := by
  rcases h with h | ⟨first, type, last, rfl, run, h⟩
  · obtain ⟨first, inner, rfl, hheads, htype⟩ := heads_of_isType h
    exact ⟨first, inner, rfl, hheads, .inl htype⟩
  · obtain ⟨t, inner, rfl, _, _⟩ := heads_of_isType h
    exact ⟨first, _, rfl, run.heads, .inr ⟨run.opens, by simp⟩⟩

theorem outer_isDimension_of_full {tokens : List Token} (h : full.IsDimension tokens) :
    outer.IsDimension tokens := by
  obtain ⟨first, a, b, last, rfl, run, ha, hb, hnames⟩ := h
  refine ⟨first, [a, b, last], rfl, run.opens, run.span, rfl, fun name hname => ?_⟩
  obtain ⟨t, ht, rfl⟩ := hnames name hname
  refine ⟨t, List.mem_append_left [last] ht, ?_, rfl⟩
  rcases List.mem_pair.mp ht with rfl | rfl
  · exact ha.1
  · exact hb.1

theorem outer_isVarData_of_full {tokens : List Token} (h : full.IsVarData tokens) :
    outer.IsVarData tokens := by
  obtain ⟨first, head, length, data, tail, last, rfl, run, inner, hl, hd, hp⟩ := h
  exact ⟨first, head, length, data, tail, last, rfl, run, inner.opens, hl.1, hd.1, hp⟩

/-- What the full grammar admits the outer one admits. -/
theorem IsMessage.outer {tokens : List Token} (h : full.IsMessage tokens) :
    outer.IsMessage tokens :=
  h.mono (fun _ => outer_isField_of_full) (fun _ => outer_isDimension_of_full)
    fun _ => outer_isVarData_of_full

end Grammar

/-! ### What is read of a run -/

theorem Field.exists_spans_iff {t : Token} {inner : List Token} :
    (∃ f, Field.Spans t inner f) ↔
      t.signal.isType ∨ t.signal = .beginField ∧ 2 ≤ inner.length := by
  constructor
  · rintro ⟨f, hf⟩
    cases hf with
    | wrapped hs => exact .inr ⟨hs, by simp⟩
    | bare hs => exact .inl hs
  · rintro (hs | ⟨hs, hlength⟩)
    · exact ⟨_, .bare hs⟩
    · have hne : inner.dropLast ≠ [] := by
        intro hnil
        have := congrArg List.length hnil
        simp at this
        omega
      obtain ⟨type, run, hrun⟩ := List.exists_cons_of_ne_nil hne
      have hinner : inner ≠ [] := by
        rintro rfl
        simp at hlength
      have hsplit : inner = type :: run ++ [inner.getLast hinner] := by
        rw [← hrun, List.dropLast_append_getLast]
      rw [hsplit]
      exact ⟨_, .wrapped hs⟩

namespace Member

/-- Is the token the encoding of that name? -/
def isEncodingOf (name : String) (t : Token) : Bool := t.signal == .encoding && t.name == name

theorem find_eq_ok_iff (tokens : List Token) (name : String) (e : Fault) (t : Token) :
    (match tokens.find? fun t => t.signal == .encoding && t.name == name with
      | some t => Except.ok t
      | none => .error e) = .ok t ↔ tokens.find? (isEncodingOf name) = some t := by
  have h : isEncodingOf name = fun t => t.signal == .encoding && t.name == name := rfl
  rw [h]
  cases tokens.find? fun t => t.signal == .encoding && t.name == name <;> simp

theorem groupHead_eq_ok_iff {t : Token} {inner : List Token} {head : GroupHead} :
    groupHead (t :: inner) = .ok head ↔
      t.signal = .beginGroup ∧ head.token = t ∧
        ∃ first rest, inner = first :: rest ∧ first.signal = .beginComposite ∧ first.span = 4 ∧
          4 ≤ rest.length ∧
          (inner.take 4).find? (isEncodingOf "blockLength") = some head.blockLength ∧
          (inner.take 4).find? (isEncodingOf "numInGroup") = some head.numInGroup := by
  unfold groupHead
  simp only [bind_eq_ok, tokenAt_eq_ok_iff, List.getElem?_cons_zero, List.getElem?_cons_succ]
  constructor
  · rintro ⟨_, ⟨⟨⟩, hsignal⟩, first, ⟨hfirst, hcomposite⟩, h⟩
    obtain ⟨rest, rfl⟩ : ∃ rest, inner = first :: rest := by
      cases inner with
      | nil => cases hfirst
      | cons first' rest => exact ⟨rest, by rw [Option.some.inj hfirst]⟩
    split at h
    · obtain ⟨_, h, _⟩ := bind_eq_ok.mp h
      exact absurd h throw_ne_ok
    · rename_i hshape
      rw [not_or, not_not, List.length_cons, List.length_cons] at hshape
      simp only [bind_eq_ok, pure_eq_ok] at h
      obtain ⟨b, hb, n, hn, rfl⟩ := h
      exact ⟨hsignal, rfl, first, rest, rfl, hcomposite, hshape.1, by omega,
        (find_eq_ok_iff _ _ _ _).mp hb, (find_eq_ok_iff _ _ _ _).mp hn⟩
  · rintro ⟨hsignal, rfl, first, rest, rfl, hcomposite, hspan, hlength, hb, hn⟩
    refine ⟨_, ⟨rfl, hsignal⟩, first, ⟨rfl, hcomposite⟩, ?_⟩
    rw [if_neg (by simp; omega)]
    simp only [bind_eq_ok, pure_eq_ok]
    exact ⟨_, (find_eq_ok_iff _ _ _ _).mpr hb, _, (find_eq_ok_iff _ _ _ _).mpr hn, rfl⟩

theorem exists_find_isEncodingOf {tokens : List Token} {name : String} :
    (∃ t, tokens.find? (isEncodingOf name) = some t) ↔
      ∃ t ∈ tokens, t.signal = .encoding ∧ t.name = name := by
  rw [← Option.isSome_iff_exists, List.find?_isSome]
  simp [isEncodingOf]

/-- The opening tokens of a group are read exactly if a dimension follows the first one, and some
token follows the dimension. -/
theorem exists_groupHead_iff {t : Token} {inner : List Token} :
    (∃ head, groupHead (t :: inner) = .ok head) ↔
      t.signal = .beginGroup ∧ ∃ dimension rest, inner = dimension ++ rest ∧ rest ≠ [] ∧
        Grammar.outer.IsDimension dimension := by
  constructor
  · rintro ⟨head, h⟩
    obtain ⟨hsignal, _, first, rest, rfl, hcomposite, hspan, hlength, hb, hn⟩ :=
      groupHead_eq_ok_iff.mp h
    have hsplit : first :: rest = (first :: rest.take 3) ++ rest.drop 3 := by
      rw [List.cons_append, List.take_append_drop]
    have hbehind : rest.drop 3 ≠ [] := by
      intro hnil
      have := List.drop_eq_nil_iff.mp hnil
      omega
    -- the first token of the header opens it, so the two encodings are behind it
    have hnamed : ∀ {name : String} {e : Token},
        (first :: rest.take 3).find? (isEncodingOf name) = some e →
          ∃ t ∈ rest.take 3, t.signal = .encoding ∧ t.name = name := by
      intro name e he
      obtain ⟨t, ht, hs, hname⟩ := exists_find_isEncodingOf.mp ⟨e, he⟩
      rcases List.mem_cons.mp ht with rfl | ht
      · rw [hcomposite] at hs
        cases hs
      · exact ⟨t, ht, hs, hname⟩
    refine ⟨hsignal, _, _, hsplit, hbehind, first, _, rfl, hcomposite, hspan, ?_, ?_⟩
    · rw [List.length_take]
      omega
    · intro name hname
      rcases List.mem_pair.mp hname with rfl | rfl
      · exact hnamed hb
      · exact hnamed hn
  · rintro ⟨hsignal, dimension, behind, rfl, hbehind, first, rest, rfl, hcomposite, hspan, hlength,
      hnames⟩
    have hfour : (first :: rest).length = 4 := by rw [List.length_cons, hlength]
    have htake : (first :: rest ++ behind).take 4 = first :: rest := by
      rw [← hfour, List.take_left]
    have hfind : ∀ name ∈ ["blockLength", "numInGroup"],
        ∃ e, ((first :: rest ++ behind).take 4).find? (isEncodingOf name) = some e := by
      intro name hname
      obtain ⟨t, ht, hs, hn⟩ := hnames name hname
      rw [htake]
      exact exists_find_isEncodingOf.mpr ⟨t, List.mem_cons_of_mem first ht, hs, hn⟩
    obtain ⟨b, hb⟩ := hfind "blockLength" (by simp)
    obtain ⟨n, hn⟩ := hfind "numInGroup" (by simp)
    have hpos := List.length_pos_of_ne_nil hbehind
    refine ⟨⟨t, b, n⟩, groupHead_eq_ok_iff.mpr ⟨hsignal, rfl, first, rest ++ behind, rfl, hcomposite,
      hspan, ?_, hb, hn⟩⟩
    rw [List.length_append]
    omega

theorem exists_varDataOfRun_iff {t : Token} {inner : List Token} :
    (∃ v, varDataOfRun (t :: inner) = .ok v) ↔
      t.signal = .beginVarData ∧ ∃ head length data rest,
        inner = head :: length :: data :: rest ∧ 2 ≤ rest.length ∧ head.signal = .beginComposite ∧
          length.signal = .encoding ∧ data.signal = .encoding ∧
          length.encoding.primitive.isSome := by
  unfold varDataOfRun
  simp only [bind_eq_ok, tokenAt_eq_ok_iff, List.getElem?_cons_zero]
  constructor
  · rintro ⟨v, _, ⟨⟨⟩, hsignal⟩, h⟩
    split at h
    · obtain ⟨_, h, _⟩ := bind_eq_ok.mp h
      exact absurd h throw_ne_ok
    · rename_i hshort
      rw [Nat.not_lt, List.length_cons] at hshort
      obtain ⟨head, length, data, rest, rfl⟩ : ∃ head length data rest,
          inner = head :: length :: data :: rest := by
        match inner, hshort with
        | head :: length :: data :: rest, _ => exact ⟨head, length, data, rest, rfl⟩
      simp only [bind_eq_ok, tokenAt_eq_ok_iff, Token.primitive_eq_ok_iff,
        List.getElem?_cons_zero, List.getElem?_cons_succ] at h
      obtain ⟨_, ⟨⟨⟩, hhead⟩, _, ⟨⟨⟩, hlength⟩, _, ⟨⟨⟩, hdata⟩, p, hp, _⟩ := h
      refine ⟨hsignal, head, length, data, rest, rfl, ?_, hhead, hlength, hdata, by rw [hp]; rfl⟩
      simp at hshort
      omega
  · rintro ⟨hsignal, head, length, data, rest, rfl, hrest, hhead, hlength, hdata, hp⟩
    obtain ⟨p, hp⟩ := Option.isSome_iff_exists.mp hp
    refine ⟨⟨t, length, data⟩, t, ⟨rfl, hsignal⟩, ?_⟩
    rw [if_neg (by simp; omega)]
    simp only [bind_eq_ok, tokenAt_eq_ok_iff, Token.primitive_eq_ok_iff,
      List.getElem?_cons_zero, List.getElem?_cons_succ]
    exact ⟨head, ⟨rfl, hhead⟩, length, ⟨rfl, hlength⟩, data, ⟨rfl, hdata⟩, p, hp, rfl⟩

theorem groupInner_append (t last : Token) {dimension : List Token} (body : List Token)
    (h : dimension.length = 4) :
    groupInner (t :: (dimension ++ body ++ [last])) = body := by
  unfold groupInner
  rw [List.drop_succ_cons, List.append_assoc, ← h, List.drop_left, List.dropLast_concat]

end Member

/-! ### From what is read to the grammar -/

namespace Grammar

theorem length_of_outer_isDimension {dimension : List Token} (h : outer.IsDimension dimension) :
    dimension.length = 4 := by
  obtain ⟨first, rest, rfl, _, _, hlength, _⟩ := h
  rw [List.length_cons, hlength]

/-- A group that is read has its dimension in front of its members. -/
theorem exists_dimension_of_groupHead {t : Token} {inner : List Token} {head : GroupHead}
    (run : t.Heads inner) (h : Member.groupHead (t :: inner) = .ok head) :
    ∃ dimension body last, inner = dimension ++ body ++ [last] ∧
      IsRun .beginGroup t (dimension ++ body) last ∧ outer.IsDimension dimension ∧
      Member.groupInner (t :: inner) = body := by
  obtain ⟨hsignal, dimension, behind, rfl, hbehind, hd⟩ := Member.exists_groupHead_iff.mp ⟨head, h⟩
  obtain ⟨middle, last, hmiddle, hrun⟩ := run.exists_isRun hsignal rfl
  have hsplit : behind = behind.dropLast ++ [behind.getLast hbehind] :=
    (List.dropLast_append_getLast hbehind).symm
  rw [hsplit, ← List.append_assoc] at hmiddle
  obtain ⟨rfl, hlast⟩ := List.append_inj' hmiddle rfl
  have hinner : dimension ++ behind = dimension ++ behind.dropLast ++ [last] := by
    rw [← hlast, List.append_assoc, ← hsplit]
  refine ⟨dimension, behind.dropLast, last, hinner, hrun, hd, ?_⟩
  rw [hinner, Member.groupInner_append t last _ (length_of_outer_isDimension hd)]

theorem outer_isVarData_of_shape {t : Token} {inner : List Token} {v : VarData} (run : t.Heads inner)
    (h : Member.varDataOfRun (t :: inner) = .ok v) (hsix : t.span ≤ 6) :
    outer.IsVarData (t :: inner) := by
  obtain ⟨hsignal, head, length, data, rest, rfl, hrest, hhead, hlength, hdata, hp⟩ :=
    Member.exists_varDataOfRun_iff.mp ⟨v, h⟩
  have hspan := run.span
  simp only [List.length_cons] at hspan
  obtain ⟨tail, last, rfl⟩ : ∃ tail last, rest = [tail, last] := List.length_eq_two.mp (by omega)
  obtain ⟨middle, last', hmiddle, hrun⟩ := run.exists_isRun hsignal rfl
  have hconcat : [head, length, data, tail] ++ [last] = middle ++ [last'] := hmiddle
  obtain ⟨rfl, hlast⟩ := List.append_inj' hconcat rfl
  cases hlast
  exact ⟨t, head, length, data, tail, last, rfl, hrun, hhead, hlength, hdata, hp⟩

/-- What is read is a body, in which only what may still come does come. -/
theorem outer_parts_of_reads {stage : Stage} {tokens : List Token} {members : Body}
    (h : Body.Reads stage tokens members)
    (hsix : ∀ t ∈ tokens, t.signal = .beginVarData → t.span ≤ 6) :
    ∃ fields groups varData : List (List Token),
      tokens = fields.flatten ++ (groups.flatten ++ varData.flatten) ∧
        (∀ r ∈ fields, outer.IsField r) ∧ (∀ r ∈ groups, outer.IsGroup r) ∧
        (∀ r ∈ varData, outer.IsVarData r) ∧ (1 ≤ stage.rank → fields = []) ∧
        (2 ≤ stage.rank → groups = []) := by
  induction h with
  | nil stage => exact ⟨[], [], [], by simp⟩
  | @field t inner rest f ms run spans tail ih =>
      obtain ⟨fields, groups, varData, hrest, hf, hg, hv, _, _⟩ :=
        ih fun u hu => hsix u (by simp [hu])
      have hfield : outer.IsField (t :: inner) :=
        ⟨t, inner, rfl, run, Field.exists_spans_iff.mp ⟨f, spans⟩⟩
      refine ⟨(t :: inner) :: fields, groups, varData, ?_, ?_, hg, hv, ?_, ?_⟩
      · rw [hrest, List.flatten_cons, List.cons_append, List.cons_append, List.append_assoc]
      · exact List.forall_mem_cons.mpr ⟨hfield, hf⟩
      · intro hrank
        simp [Stage.rank] at hrank
      · intro hrank
        simp [Stage.rank] at hrank
  | @group stage t inner rest head members ms signal run order header body tail ihBody ihTail =>
      obtain ⟨fields, groups, varData, hrest, _, hg, hv, hnil, _⟩ :=
        ihTail fun u hu => hsix u (by simp [hu])
      obtain ⟨dimension, elements, last, hinner, hrun, hd, helements⟩ :=
        exists_dimension_of_groupHead run header
      rw [helements] at ihBody
      obtain ⟨fs, gs, vs, hbody, hfs, hgs, hvs, _, _⟩ :=
        ihBody fun u hu => hsix u (by simp [hinner, hu])
      have hgroup : outer.IsGroup (t :: inner) := by
        rw [hinner]
        exact isGroup_iff.mpr ⟨t, dimension, elements, last, rfl, hrun, hd, fs, gs, vs, hbody, hfs,
          hgs, hvs⟩
      obtain rfl := hnil (Nat.le_refl 1)
      refine ⟨[], (t :: inner) :: groups, varData, ?_, by simp, ?_, hv, fun _ => rfl, ?_⟩
      · rw [hrest, List.flatten_nil, List.flatten_cons, List.nil_append, List.nil_append,
          List.cons_append, List.cons_append, List.append_assoc]
      · exact List.forall_mem_cons.mpr ⟨hgroup, hg⟩
      · intro hrank
        omega
  | @varData stage t inner rest v ms signal run shape tail ih =>
      obtain ⟨fields, groups, varData, hrest, _, _, hv, hfnil, hgnil⟩ :=
        ih fun u hu => hsix u (by simp [hu])
      have hvarData := outer_isVarData_of_shape run shape (hsix t List.mem_cons_self signal)
      obtain rfl := hfnil (by decide)
      obtain rfl := hgnil (by decide)
      refine ⟨[], [], (t :: inner) :: varData, ?_, by simp, by simp, ?_, fun _ => rfl, fun _ => rfl⟩
      · rw [hrest, List.flatten_nil, List.flatten_cons, List.nil_append, List.nil_append,
          List.nil_append, List.nil_append, List.cons_append]
      · exact List.forall_mem_cons.mpr ⟨hvarData, hv⟩

/-! ### From the grammar to what is read -/

/-- Members can be read from the tokens. -/
def Readable (stage : Stage) (tokens : List Token) : Prop := ∃ members, Body.Reads stage tokens members

/-- In front of what can be read, the run can be read as well. -/
def Extends (stage : Stage) (run : List Token) : Prop :=
  ∀ rest, Readable stage rest → Readable stage (run ++ rest)

theorem Readable.flatten_append {stage : Stage} {runs : List (List Token)} {rest : List Token}
    (hruns : ∀ r ∈ runs, Extends stage r) (hrest : Readable stage rest) :
    Readable stage (runs.flatten ++ rest) := by
  induction runs with
  | nil => exact hrest
  | cons r runs ih =>
      obtain ⟨hr, hruns⟩ := List.forall_mem_cons.mp hruns
      rw [List.flatten_cons, List.append_assoc]
      exact hr _ (ih hruns)

theorem extends_of_isField {run : List Token} (h : outer.IsField run) : Extends .field run := by
  rintro rest ⟨ms, hms⟩
  obtain ⟨t, inner, rfl, hheads, hshape⟩ := h
  obtain ⟨f, hf⟩ := Field.exists_spans_iff.mpr hshape
  exact ⟨_, .field hheads hf hms⟩

theorem extends_of_isVarData {run : List Token} (h : outer.IsVarData run) :
    Extends .varData run := by
  rintro rest ⟨ms, hms⟩
  obtain ⟨t, head, length, data, tail, last, rfl, hrun, hhead, hlength, hdata, hp⟩ := h
  obtain ⟨v, hv⟩ := Member.exists_varDataOfRun_iff.mpr ⟨hrun.opens, head, length, data, [tail, last],
    rfl, Nat.le_refl 2, hhead, hlength, hdata, hp⟩
  exact ⟨_, .varData hrun.opens hrun.heads hv hms⟩

/-- A body can be read where its groups can. -/
theorem readable_body {fields groups varData : List (List Token)}
    (hf : ∀ r ∈ fields, outer.IsField r) (hg : ∀ r ∈ groups, Extends .group r)
    (hv : ∀ r ∈ varData, outer.IsVarData r) :
    Readable .field (fields.flatten ++ (groups.flatten ++ varData.flatten)) := by
  have hnil : Readable .varData [] := ⟨[], .nil .varData⟩
  have hvarData := hnil.flatten_append fun r hr => extends_of_isVarData (hv r hr)
  rw [List.append_nil] at hvarData
  obtain ⟨vs, hvs⟩ := hvarData
  obtain ⟨gs, hgs⟩ := Readable.flatten_append hg ⟨vs, hvs.weaken (by decide)⟩
  exact Readable.flatten_append (fun r hr => extends_of_isField (hf r hr))
    ⟨gs, hgs.weaken (by decide)⟩

theorem extends_of_isGroup {run : List Token} (h : outer.IsGroup run) : Extends .group run := by
  induction h with
  | @intro first last dimension fields groups varData hrun hd hf _ hv ih =>
      rintro rest ⟨ms, hms⟩
      obtain ⟨members, hmembers⟩ := readable_body hf ih hv
      have hinner := Member.groupInner_append first last
        (fields.flatten ++ (groups.flatten ++ varData.flatten)) (length_of_outer_isDimension hd)
      obtain ⟨head, hhead⟩ := Member.exists_groupHead_iff.mpr ⟨hrun.opens, dimension,
        fields.flatten ++ (groups.flatten ++ varData.flatten) ++ [last], rfl, by simp, hd⟩
      rw [← List.append_assoc dimension] at hhead
      rw [← hinner] at hmembers
      exact ⟨_, .group hrun.opens hrun.heads (Nat.le_refl 1) hhead hmembers hms⟩

theorem isOk_of_isMessage {tokens : List Token} (h : outer.IsMessage tokens) :
    ∃ r, Body.ofMessage tokens = .ok r := by
  obtain ⟨first, body, last, rfl, hrun, fields, groups, varData, rfl, hf, hg, hv⟩ := h
  obtain ⟨members, hmembers⟩ := readable_body hf (fun r hr => extends_of_isGroup (hg r hr)) hv
  refine ⟨(first, members), Body.ofMessage_eq_ok_iff.mpr
    ⟨_, [], by rw [List.append_nil], hrun.opens, hrun.heads, ?_⟩⟩
  rwa [List.dropLast_concat]

theorem isMessage_of_ofMessage {tokens : List Token} {r : Token × Body}
    (h : Body.ofMessage tokens = .ok r) (hwhole : ∀ t ∈ tokens.head?, tokens.length ≤ t.span)
    (hsix : ∀ t ∈ tokens, t.signal = .beginVarData → t.span ≤ 6) : outer.IsMessage tokens := by
  obtain ⟨inner, rest, rfl, hsignal, hheads, hreads⟩ := Body.ofMessage_eq_ok_iff.mp h
  have hspan := hheads.span
  have hnil : rest = [] := by
    have hlength := hwhole _ rfl
    rw [List.length_cons, List.length_append] at hlength
    exact List.eq_nil_of_length_eq_zero (by omega)
  subst hnil
  obtain ⟨body, last, rfl, hrun⟩ := hheads.exists_isRun hsignal rfl
  rw [List.dropLast_concat] at hreads
  rw [List.append_nil] at hsix ⊢
  obtain ⟨fields, groups, varData, hbody, hf, hg, hv, _, _⟩ :=
    outer_parts_of_reads hreads fun t ht => hsix t (by simp [ht])
  exact ⟨_, body, last, rfl, hrun, fields, groups, varData, hbody, hf, hg, hv⟩

/-- **Which messages are read.**  All messages of the full grammar are read.  Where nothing follows
what the first token counts, and no var data counts more than six tokens, a token list is read exactly
if it is a message of the outer grammar. -/
theorem isOk_ofMessage_iff (tokens : List Token) :
    (full.IsMessage tokens → ∃ r, Body.ofMessage tokens = .ok r) ∧
      ((∀ t ∈ tokens.head?, tokens.length ≤ t.span) →
        (∀ t ∈ tokens, t.signal = .beginVarData → t.span ≤ 6) →
          ((∃ r, Body.ofMessage tokens = .ok r) ↔ outer.IsMessage tokens)) := by
  refine ⟨fun h => isOk_of_isMessage h.outer, fun hwhole hsix => ⟨?_, isOk_of_isMessage⟩⟩
  rintro ⟨r, hr⟩
  exact isMessage_of_ofMessage hr hwhole hsix

/-! ### A message with all kinds of members -/

namespace Trade

def encoding (name : String) (primitive : Primitive) : Token :=
  { signal := .encoding, name, encoding := { primitive := some primitive } }

/-- A wrapped enum with two values. -/
def side : List Token :=
  [{ signal := .beginField, name := "side", span := 6 },
   { signal := .beginEnum, name := "Side", span := 4 }, { signal := .validValue, name := "BUY" },
   { signal := .validValue, name := "SELL" }, { signal := .endEnum, name := "Side" },
   { signal := .endField, name := "side" }]

/-- A group of fills with one field. -/
def fills : List Token :=
  [{ signal := .beginGroup, name := "fills", span := 7 },
   { signal := .beginComposite, name := "groupSize", span := 4 }, encoding "blockLength" .uint16,
   encoding "numInGroup" .uint8, { signal := .endComposite, name := "groupSize" },
   encoding "price" .int64, { signal := .endGroup, name := "fills" }]

def note : List Token :=
  [{ signal := .beginVarData, name := "note", span := 6 },
   { signal := .beginComposite, name := "text", span := 4 }, encoding "length" .uint16,
   encoding "varData" .char, { signal := .endComposite, name := "text" },
   { signal := .endVarData, name := "note" }]

def message : List Token :=
  { signal := .beginMessage, name := "Trade", span := 21 } ::
    (side ++ (fills ++ note) ++ [{ signal := .endMessage, name := "Trade" }])

theorem isField_side : full.IsField side :=
  .inr ⟨_, _, _, rfl, ⟨rfl, rfl, rfl⟩,
    @IsType.enumeration _ _ [_, _] ⟨rfl, rfl, rfl⟩ (by simp [Token.IsLeaf])⟩

theorem isField_encoding (name : String) (primitive : Primitive) :
    full.IsField [encoding name primitive] := .inl (.encoding ⟨rfl, rfl⟩)

theorem isGroup_fills : full.IsGroup fills := by
  refine isGroup_iff.mpr ⟨_, [_, _, _, _], [_], _, rfl, ⟨rfl, rfl, rfl⟩,
    ⟨_, _, _, _, rfl, ⟨rfl, rfl, rfl⟩, ⟨rfl, rfl⟩, ⟨rfl, rfl⟩, ?_⟩, ?_⟩
  · decide
  · exact ⟨[[encoding "price" .int64]], [], [], rfl,
      List.forall_mem_singleton.mpr (isField_encoding _ _), by simp, by simp⟩

theorem isVarData_note : full.IsVarData note :=
  ⟨_, _, _, _, _, _, rfl, ⟨rfl, rfl, rfl⟩, ⟨rfl, rfl, rfl⟩, ⟨rfl, rfl⟩, ⟨rfl, rfl⟩, rfl⟩

theorem isMessage_message : full.IsMessage message :=
  ⟨_, _, _, rfl, ⟨rfl, rfl, rfl⟩, [side], [fills], [note], by simp,
    List.forall_mem_singleton.mpr isField_side, List.forall_mem_singleton.mpr isGroup_fills,
    List.forall_mem_singleton.mpr isVarData_note⟩

/-- The same with a value that belongs to a bit set. -/
def mixed : List Token :=
  [{ signal := .beginMessage, name := "Trade", span := 5 },
   { signal := .beginEnum, name := "Side", span := 3 }, { signal := .choice, name := "BUY" },
   { signal := .endEnum, name := "Side" }, { signal := .endMessage, name := "Trade" }]

end Trade

theorem isOk_ofMessage_iff_trade :
    full.IsMessage Trade.message ∧
      (∀ t ∈ Trade.message.head?, Trade.message.length ≤ t.span) ∧
      (∀ t ∈ Trade.message, t.signal = .beginVarData → t.span ≤ 6) ∧
      (∃ r, Body.ofMessage Trade.message = .ok r) ∧ outer.IsMessage Trade.message := by
  obtain ⟨hfull, hiff⟩ := isOk_ofMessage_iff Trade.message
  have hwhole : ∀ t ∈ Trade.message.head?, Trade.message.length ≤ t.span := by decide
  have hsix : ∀ t ∈ Trade.message, t.signal = .beginVarData → t.span ≤ 6 := by decide
  have hok := hfull Trade.isMessage_message
  exact ⟨Trade.isMessage_message, hwhole, hsix, hok, (hiff hwhole hsix).mp hok⟩

/-- The first run of a body stands for a member. -/
theorem IsBody.exists_run {t : Token} {rest : List Token} {g : Grammar} (h : g.IsBody (t :: rest)) :
    ∃ inner behind, rest = inner ++ behind ∧
      (g.IsField (t :: inner) ∨ g.IsGroup (t :: inner) ∨ g.IsVarData (t :: inner)) := by
  obtain ⟨fields, groups, varData, heq, hf, hg, hv⟩ := h
  rw [← List.flatten_append, ← List.flatten_append, eq_comm, List.flatten_eq_cons_iff] at heq
  obtain ⟨empty, inner, runs, hruns, _, hrest⟩ := heq
  refine ⟨inner, runs.flatten, hrest, ?_⟩
  have hmem : t :: inner ∈ fields ++ (groups ++ varData) := by
    rw [hruns]
    exact List.mem_append_right _ List.mem_cons_self
  simp only [List.mem_append] at hmem
  exact hmem.imp (hf _) fun h => h.imp (hg _) (hv _)

/-- An enum is read although it holds the choice of a bit set. -/
theorem mixed_isOk_not_isMessage :
    (∃ r, Body.ofMessage Trade.mixed = .ok r) ∧ ¬ full.IsMessage Trade.mixed := by
  constructor
  · exact isOk_of_isMessage ⟨_, [_, _, _], _, rfl, ⟨rfl, rfl, rfl⟩, [[_, _, _]], [], [], rfl,
      List.forall_mem_singleton.mpr ⟨_, _, rfl, @IsRun.heads .beginEnum _ _ [_] ⟨rfl, rfl, rfl⟩,
        .inl rfl⟩, by simp, by simp⟩
  · rintro ⟨first, body, last, heq, _, hbody⟩
    obtain ⟨rfl, htail⟩ := List.cons.inj heq
    have hconcat : [_, _, _] ++ [_] = body ++ [last] := htail
    obtain ⟨rfl, _⟩ := List.append_inj' hconcat rfl
    obtain ⟨inner, behind, hinner, h⟩ := hbody.exists_run
    rcases h with (h | ⟨_, _, _, heq, run, _⟩) | h | ⟨_, _, _, _, _, _, heq, run, _⟩
    · cases h with
      | encoding leaf => cases leaf.1
      | @enumeration _ _ values run leaves =>
          obtain ⟨value, rfl⟩ := List.length_eq_one_iff.mp (Nat.succ.inj (Nat.succ.inj run.span.symm))
          obtain ⟨rfl, _⟩ := List.cons.inj hinner
          cases (leaves _ List.mem_cons_self).1
      | bitSet run _ => cases run.opens
      | composite run _ => cases run.opens
    · obtain ⟨rfl, _⟩ := List.cons.inj heq
      cases run.opens
    · obtain ⟨_, _, _, _, heq, run, _⟩ := isGroup_iff.mp h
      obtain ⟨rfl, _⟩ := List.cons.inj heq
      cases run.opens
    · obtain ⟨rfl, _⟩ := List.cons.inj heq
      cases run.opens

end Grammar
end WireCodec
