import WireCodec.Member
import WireCodec.Proofs.Outcome
/-! # Which tokens are read as which members

`Body.Reads stage tokens members` says, without reference to places and names of owners, that the
members of a token list are the ones given and that none is of an earlier stage.  It has one rule for
each kind of member.  `Member.range_eq_ok_iff` proves that the reader succeeds exactly on such lists,
and that it consumes all of the tokens. -/

namespace WireCodec

/-! ### Runs -/

/-- The token opens a run, and `inner` is what follows it there. -/
structure Token.Heads (t : Token) (inner : List Token) : Prop where
  span : t.span = inner.length + 1
  closes : ∀ closing, t.signal.closing = some closing →
    ∃ last, inner.getLast? = some last ∧ last.signal = closing

namespace Token

theorem primitive_eq_ok_iff {t : Token} {p : Primitive} :
    t.primitive = .ok p ↔ t.encoding.primitive = some p := by
  unfold primitive
  cases t.encoding.primitive <;> simp

theorem Heads.runAfter {t : Token} {inner : List Token} (h : t.Heads inner) (rest : List Token) :
    t.runAfter (inner ++ rest) = inner := by
  rw [Token.runAfter, h.span, Nat.add_sub_cancel]
  exact List.take_left

theorem Heads.drop {t : Token} {inner : List Token} (h : t.Heads inner) (rest : List Token) :
    (inner ++ rest).drop (t.span - 1) = rest := by
  rw [h.span, Nat.add_sub_cancel]
  exact List.drop_left

/-- The check of a run accepts exactly the tokens that begin with it. -/
theorem checkRun_eq_ok_iff {owner : String} {t : Token} {rest : List Token} :
    t.checkRun owner rest = .ok () ↔ ∃ inner rest', rest = inner ++ rest' ∧ t.Heads inner := by
  unfold checkRun
  rw [guard_eq_ok, not_or, Nat.not_lt]
  constructor
  · rintro ⟨⟨hpos, hle⟩, h⟩
    have hlen : (rest.take (t.span - 1)).length = t.span - 1 := by
      rw [List.length_take]
      omega
    refine ⟨_, _, (List.take_append_drop (t.span - 1) rest).symm, by omega, ?_⟩
    intro closing hc
    simp only [hc, guard_eq_ok, not_or, not_not, Nat.not_lt, and_true] at h
    obtain ⟨hspan, hlast⟩ := h
    have hne : rest.take (t.span - 1) ≠ [] := by
      intro hnil
      rw [hnil, List.length_nil] at hlen
      omega
    refine ⟨_, List.getLast?_eq_some_getLast hne, ?_⟩
    rwa [runAfter, List.getLast?_eq_some_getLast hne, Option.getD_some] at hlast
  · rintro ⟨inner, rest', rfl, h⟩
    have hspan := h.span
    have hrun := h.runAfter rest'
    refine ⟨⟨by omega, by rw [List.length_append]; omega⟩, ?_⟩
    cases hc : t.signal.closing with
    | none => rfl
    | some closing =>
        obtain ⟨last, hlast, hsignal⟩ := h.closes closing hc
        have hne : inner ≠ [] := by
          rintro rfl
          simp at hlast
        have hpos := List.length_pos_of_ne_nil hne
        have hwide : ¬ (t.span < 2 ∨ closing ≠ closing) := by
          rw [not_or, not_not]
          exact ⟨by omega, rfl⟩
        simp only [hrun, hlast, Option.getD_some, hsignal]
        exact if_neg hwide

end Token

/-! ### Single members -/

/-- Does the signal open the tokens of a type? -/
def Signal.isType : Signal → Bool
  | .encoding | .beginEnum | .beginSet | .beginComposite => true
  | _ => false

/-- The field that a run stands for: its own type, or the type that it wraps. -/
inductive Field.Spans : Token → List Token → Field → Prop
  | wrapped {t type closing : Token} {run : List Token} (h : t.signal = .beginField) :
      Spans t (type :: run ++ [closing]) ⟨t, type, type :: run⟩
  | bare {t : Token} {inner : List Token} (h : t.signal.isType) : Spans t inner ⟨t, t, t :: inner⟩

/-- The members that are read from a token list, none of which is of an earlier stage. -/
inductive Body.Reads : Stage → List Token → Body → Prop
  | nil (stage : Stage) : Reads stage [] []
  | field {t : Token} {inner rest : List Token} {f : Field} {ms : Body}
      (run : t.Heads inner) (spans : Field.Spans t inner f) (tail : Reads .field rest ms) :
      Reads .field (t :: (inner ++ rest)) (.field f :: ms)
  | group {stage : Stage} {t : Token} {inner rest : List Token} {head : GroupHead} {members ms : Body}
      (signal : t.signal = .beginGroup) (run : t.Heads inner) (order : stage.rank ≤ 1)
      (header : Member.groupHead (t :: inner) = .ok head)
      (body : Reads .field (Member.groupInner (t :: inner)) members) (tail : Reads .group rest ms) :
      Reads stage (t :: (inner ++ rest)) (.group head members :: ms)
  | varData {stage : Stage} {t : Token} {inner rest : List Token} {v : VarData} {ms : Body}
      (signal : t.signal = .beginVarData) (run : t.Heads inner)
      (shape : Member.varDataOfRun (t :: inner) = .ok v) (tail : Reads .varData rest ms) :
      Reads stage (t :: (inner ++ rest)) (.varData v :: ms)

theorem tokenAt_eq_ok_iff {tokens : List Token} {index : Nat} {signal : Signal} {t : Token} :
    tokenAt tokens index signal = .ok t ↔ tokens[index]? = some t ∧ t.signal = signal := by
  unfold tokenAt
  cases tokens[index]? with
  | none => simp
  | some t' =>
      dsimp only
      split
      next h =>
        rw [Except.ok.injEq, Option.some.injEq]
        constructor
        · rintro rfl
          exact ⟨rfl, h⟩
        · exact And.left
      next h =>
        constructor
        · intro h'
          cases h'
        · rintro ⟨ht, hs⟩
          cases ht
          exact absurd hs h

namespace Member

theorem token_of_groupHead {t : Token} {inner : List Token} {head : GroupHead}
    (h : groupHead (t :: inner) = .ok head) : head.token = t := by
  unfold groupHead at h
  simp only [bind_eq_ok, tokenAt_eq_ok_iff] at h
  obtain ⟨token, ⟨hget, _⟩, _, _, h⟩ := h
  obtain rfl := Option.some.inj hget
  split at h
  · obtain ⟨_, ⟨⟩, _⟩ := h
  · simp only [bind_eq_ok, pure_eq_ok] at h
    obtain ⟨_, _, _, _, rfl⟩ := h
    rfl

/-- A group's run is read as it is within a range. -/
theorem ofGroup_cons (t : Token) (inner : List Token) :
    Body.ofGroup (t :: inner) = (do
      let head ← groupHead (t :: inner)
      let (members, _) ← range t.name .field 0 (groupInner (t :: inner))
      return (head, members)) := by
  unfold Body.ofGroup Body.ofTokens Body.ofRange
  rw [List.drop_zero]
  cases header : groupHead (t :: inner) with
  | error fault => rfl
  | ok head =>
      obtain rfl := token_of_groupHead header
      cases hmembers : range head.token.name .field 0 (groupInner (head.token :: inner)) <;>
        simp only [bind, Except.bind, hmembers, Except.map]

/-- The member that a run stands for; `inner` is what follows its opening token. -/
def ofRun (owner : String) (index : Nat) (t : Token) (inner : List Token) : Except Fault Member :=
  match t.signal with
  | .beginField => field <$> wrappedField owner t inner
  | .encoding | .beginEnum | .beginSet | .beginComposite =>
    .ok (field { token := t, type := t, run := t :: inner })
  | .beginGroup => do
    let (head, members) ← Body.ofGroup (t :: inner)
    return group head members
  | .beginVarData => varData <$> varDataOfRun (t :: inner)
  | found => .error (.unexpectedSignal .member found t.name index)

/-- The reader reads one run, and then what follows it. -/
theorem range_cons (owner : String) (stage : Stage) (index : Nat) (t : Token) (rest : List Token) :
    range owner stage index (t :: rest) = (do
      t.checkRun owner rest
      let m ← ofRun owner index t (t.runAfter rest)
      if m.stage.rank < stage.rank then
        throw (.malformedRange owner (.outOfOrder m.stage t.name stage))
      let (ms, next) ← range owner m.stage (index + t.span) (rest.drop (t.span - 1))
      return (m :: ms, next)) := by
  rw [range]
  unfold ofRun
  cases t.signal <;> simp only [ofGroup_cons, pure_bind, bind_assoc] <;> rfl

theorem range_cons_eq_ok_iff {owner : String} {stage : Stage} {index next : Nat} {t : Token}
    {rest : List Token} {members : Body} :
    range owner stage index (t :: rest) = .ok (members, next) ↔
      ∃ inner rest' m ms, rest = inner ++ rest' ∧ t.Heads inner ∧
        ofRun owner index t inner = .ok m ∧ stage.rank ≤ m.stage.rank ∧
        range owner m.stage (index + t.span) rest' = .ok (ms, next) ∧ members = m :: ms := by
  rw [range_cons]
  simp only [bind_eq_ok]
  constructor
  · rintro ⟨⟨⟩, hrun, m, hm, h⟩
    obtain ⟨inner, rest', rfl, hheads⟩ := Token.checkRun_eq_ok_iff.mp hrun
    rw [hheads.runAfter] at hm
    rw [hheads.drop] at h
    split at h
    · cases h
    · simp only [bind_eq_ok, pure_eq_ok] at h
      obtain ⟨⟨ms, next'⟩, hms, h⟩ := h
      cases h
      exact ⟨inner, rest', m, ms, rfl, hheads, hm, by omega, hms, rfl⟩
  · rintro ⟨inner, rest', m, ms, rfl, hheads, hm, hle, hms, rfl⟩
    refine ⟨(), Token.checkRun_eq_ok_iff.mpr ⟨inner, rest', rfl, hheads⟩, m, ?_, ?_⟩
    · rwa [hheads.runAfter]
    · rw [hheads.drop, if_neg (Nat.not_lt.mpr hle), hms]
      rfl

theorem wrappedField_eq_ok_iff {owner : String} {t : Token} {inner : List Token} {f : Field} :
    wrappedField owner t inner = .ok f ↔
      ∃ type run closing, inner = type :: run ++ [closing] ∧ f = ⟨t, type, type :: run⟩ := by
  unfold wrappedField
  constructor
  · intro h
    cases hi : inner.dropLast with
    | nil =>
        rw [hi] at h
        cases h
    | cons type run =>
        rw [hi] at h
        cases h
        have hne : inner ≠ [] := by
          rintro rfl
          cases hi
        refine ⟨type, run, inner.getLast hne, ?_, rfl⟩
        rw [← hi, List.dropLast_append_getLast]
  · rintro ⟨type, run, closing, rfl, rfl⟩
    rw [List.dropLast_concat]

/-- The kinds of members that a run can stand for. -/
theorem ofRun_eq_ok_iff {owner : String} {index : Nat} {t : Token} {inner : List Token} {m : Member} :
    ofRun owner index t inner = .ok m ↔
      (∃ f, Field.Spans t inner f ∧ m = field f) ∨
      (∃ head members next, t.signal = .beginGroup ∧ groupHead (t :: inner) = .ok head ∧
        range t.name .field 0 (groupInner (t :: inner)) = .ok (members, next) ∧
        m = group head members) ∨
      (∃ v, t.signal = .beginVarData ∧ varDataOfRun (t :: inner) = .ok v ∧ m = varData v) := by
  unfold ofRun
  constructor
  · intro h
    split at h
    next hs =>
      obtain ⟨f, hf, rfl⟩ := except_map_eq_ok.mp h
      obtain ⟨type, run, closing, rfl, rfl⟩ := wrappedField_eq_ok_iff.mp hf
      exact .inl ⟨_, .wrapped hs, rfl⟩
    iterate 4
      next hs =>
        cases h
        exact .inl ⟨_, .bare (by rw [hs]; rfl), rfl⟩
    next hs =>
      simp only [ofGroup_cons, bind_assoc, pure_bind, bind_eq_ok, pure_eq_ok] at h
      obtain ⟨head, hhead, ⟨members, next⟩, hmembers, rfl⟩ := h
      exact .inr (.inl ⟨head, members, next, hs, hhead, hmembers, rfl⟩)
    next hs =>
      obtain ⟨v, hv, rfl⟩ := except_map_eq_ok.mp h
      exact .inr (.inr ⟨v, hs, hv, rfl⟩)
    next => cases h
  · rintro (⟨f, hf, rfl⟩ | ⟨head, members, next, hs, hhead, hmembers, rfl⟩ | ⟨v, hs, hv, rfl⟩)
    · cases hf with
      | wrapped hs =>
          rw [hs]
          exact except_map_eq_ok.mpr ⟨_, wrappedField_eq_ok_iff.mpr ⟨_, _, _, rfl, rfl⟩, rfl⟩
      | bare hs =>
          cases hsig : t.signal <;> rw [hsig] at hs <;> first | rfl | cases hs
    · rw [hs]
      simp only [ofGroup_cons, hhead, hmembers]
      rfl
    · rw [hs]
      exact except_map_eq_ok.mpr ⟨v, hv, rfl⟩

end Member

/-! ### Token lists -/

theorem Stage.eq_field_of_rank_le {stage : Stage} (h : stage.rank ≤ Stage.field.rank) :
    stage = .field := by
  cases stage with
  | field => rfl
  | group | varData => simp [Stage.rank] at h

theorem Body.Reads.weaken {stage stage' : Stage} {tokens : List Token} {members : Body}
    (h : Body.Reads stage tokens members) (hle : stage'.rank ≤ stage.rank) :
    Body.Reads stage' tokens members := by
  cases h with
  | nil => exact .nil stage'
  | field run spans tail =>
      obtain rfl := Stage.eq_field_of_rank_le hle
      exact .field run spans tail
  | group signal run order header body tail =>
      exact .group signal run (Nat.le_trans hle order) header body tail
  | varData signal run shape tail => exact .varData signal run shape tail

namespace Member

theorem length_groupInner_le (t : Token) (inner : List Token) :
    (groupInner (t :: inner)).length ≤ inner.length := by
  unfold groupInner
  rw [List.length_dropLast, List.length_drop, List.length_cons]
  omega

/-- What is read consists of runs that stand for the members. -/
theorem reads_of_range {owner : String} {stage : Stage} {index next : Nat} :
    (tokens : List Token) → {members : Body} →
    range owner stage index tokens = .ok (members, next) → Body.Reads stage tokens members
  | [], _, h => by
      rw [range] at h
      cases h
      exact .nil stage
  | t :: rest, _, h => by
      obtain ⟨inner, rest', m, ms, hsplit, hheads, hm, hle, hms, rfl⟩ := range_cons_eq_ok_iff.mp h
      have hlength : rest.length = inner.length + rest'.length := by
        rw [hsplit, List.length_append]
      have tail := reads_of_range rest' hms
      rw [hsplit]
      obtain ⟨f, hf, rfl⟩ | ⟨head, members, _, hs, hhead, hmembers, rfl⟩ | ⟨v, hs, hv, rfl⟩ :=
        ofRun_eq_ok_iff.mp hm
      · obtain rfl := Stage.eq_field_of_rank_le hle
        exact .field hheads hf tail
      · exact .group hs hheads hle hhead (reads_of_range (groupInner (t :: inner)) hmembers) tail
      · exact .varData hs hheads hv tail
termination_by tokens => tokens.length
decreasing_by
  · rw [List.length_cons]
    omega
  · have hinner := length_groupInner_le t inner
    rw [List.length_cons]
    omega

theorem range_run {owner : String} {stage : Stage} {index : Nat} {t : Token} {inner rest : List Token}
    {m : Member} {ms : Body} (run : t.Heads inner) (hm : ofRun owner index t inner = .ok m)
    (order : stage.rank ≤ m.stage.rank)
    (tail : ∀ index, range owner m.stage index rest = .ok (ms, index + rest.length)) :
    range owner stage index (t :: (inner ++ rest))
      = .ok (m :: ms, index + (t :: (inner ++ rest)).length) := by
  refine range_cons_eq_ok_iff.mpr ⟨inner, rest, m, ms, rfl, run, hm, order, ?_, rfl⟩
  rw [tail, run.span, List.length_cons, List.length_append]
  congr 2
  omega

/-- Runs that stand for members are read as these, and all of them are consumed. -/
theorem range_of_reads {stage : Stage} {tokens : List Token} {members : Body}
    (h : Body.Reads stage tokens members) (owner : String) (index : Nat) :
    range owner stage index tokens = .ok (members, index + tokens.length) := by
  induction h generalizing owner index with
  | nil stage => rw [range, List.length_nil, Nat.add_zero]
  | @field t inner rest f ms run spans tail ih =>
      have hm : ofRun owner index t inner = .ok (field f) :=
        ofRun_eq_ok_iff.mpr (.inl ⟨f, spans, rfl⟩)
      exact range_run run hm (Nat.le_refl _) (ih owner)
  | @group stage t inner rest head members ms signal run order header body tail ihBody ihTail =>
      have hm : ofRun owner index t inner = .ok (group head members) :=
        ofRun_eq_ok_iff.mpr (.inr (.inl ⟨head, members, _, signal, header, ihBody t.name 0, rfl⟩))
      exact range_run run hm order (ihTail owner)
  | @varData stage t inner rest v ms signal run shape tail ih =>
      have hm : ofRun owner index t inner = .ok (varData v) :=
        ofRun_eq_ok_iff.mpr (.inr (.inr ⟨v, signal, shape, rfl⟩))
      refine range_run run hm ?_ (ih owner)
      cases stage <;> simp [Member.stage, Stage.rank]

/-- The reader succeeds exactly on runs that stand for members, and consumes all tokens. -/
theorem range_eq_ok_iff {owner : String} {stage : Stage} {index next : Nat} {tokens : List Token}
    {members : Body} :
    range owner stage index tokens = .ok (members, next) ↔
      Body.Reads stage tokens members ∧ next = index + tokens.length := by
  constructor
  · intro h
    have hreads := reads_of_range tokens h
    rw [range_of_reads hreads] at h
    cases h
    exact ⟨hreads, rfl⟩
  · rintro ⟨h, rfl⟩
    exact range_of_reads h owner index

end Member

namespace Body

theorem isVariable_map_field (fields : List Field) : isVariable (fields.map .field) = false := by
  induction fields with
  | nil => rfl
  | cons f fields ih => exact ih

theorem fields_map_field (fields : List Field) : Body.fields (fields.map .field) = fields := by
  induction fields with
  | nil => rfl
  | cons f fields ih => exact congrArg (f :: ·) ih

theorem ofTokens_eq_ok_iff {owner : String} {tokens : List Token} {body : Body} :
    ofTokens owner tokens = .ok body ↔ Reads .field tokens body := by
  unfold ofTokens ofRange
  rw [except_map_eq_ok, List.drop_zero]
  constructor
  · rintro ⟨⟨members, next⟩, h, rfl⟩
    exact (Member.range_eq_ok_iff.mp h).1
  · intro h
    exact ⟨_, Member.range_of_reads h owner 0, rfl⟩

theorem innerTokens_of_heads {t : Token} {inner : List Token} (h : t.Heads inner)
    (rest : List Token) : innerTokens (t :: (inner ++ rest)) t = inner.dropLast := by
  unfold innerTokens
  rw [h.span, List.take_succ_cons, List.take_left, List.tail_cons]

/-- The tokens begin with a run of the given signal, between whose ends the members are read. -/
def Encloses (signal : Signal) (tokens : List Token) (token : Token) (body : Body) : Prop :=
  ∃ inner rest, tokens = token :: (inner ++ rest) ∧ token.signal = signal ∧ token.Heads inner ∧
    Reads .field inner.dropLast body

theorem encloses_iff {signal : Signal} {tokens : List Token} {token : Token} {body : Body} :
    Encloses signal tokens token body ↔
      tokenAt tokens 0 signal = .ok token ∧ token.checkRun token.name tokens.tail = .ok () ∧
        ofTokens token.name (innerTokens tokens token) = .ok body := by
  rw [tokenAt_eq_ok_iff, ofTokens_eq_ok_iff]
  constructor
  · rintro ⟨inner, rest, rfl, hs, hheads, hbody⟩
    refine ⟨⟨rfl, hs⟩, Token.checkRun_eq_ok_iff.mpr ⟨inner, rest, rfl, hheads⟩, ?_⟩
    rwa [innerTokens_of_heads hheads]
  · rintro ⟨⟨ht, hs⟩, hrun, hbody⟩
    obtain ⟨tail, rfl⟩ : ∃ tail, tokens = token :: tail := by
      cases tokens with
      | nil => cases ht
      | cons t tail =>
          cases ht
          exact ⟨tail, rfl⟩
    obtain ⟨inner, rest, hsplit, hheads⟩ := Token.checkRun_eq_ok_iff.mp hrun
    rw [List.tail_cons] at hsplit
    subst hsplit
    rw [innerTokens_of_heads hheads] at hbody
    exact ⟨inner, rest, rfl, hs, hheads, hbody⟩

theorem ofMessage_eq_ok_iff {tokens : List Token} {token : Token} {body : Body} :
    ofMessage tokens = .ok (token, body) ↔ Encloses .beginMessage tokens token body := by
  unfold ofMessage
  simp only [bind_eq_ok, pure_eq_ok, encloses_iff]
  constructor
  · rintro ⟨t, ht, ⟨⟩, hrun, body', hbody, h⟩
    cases h
    exact ⟨ht, hrun, hbody⟩
  · rintro ⟨ht, hrun, hbody⟩
    exact ⟨token, ht, (), hrun, body, hbody, rfl⟩

theorem ofComposite_eq_ok_iff {run : List Token} {body : Body} :
    ofComposite run = .ok body ↔
      (∃ token, Encloses .beginComposite run token body) ∧ body.isVariable = false := by
  unfold ofComposite
  simp only [bind_eq_ok, encloses_iff]
  constructor
  · rintro ⟨t, ht, ⟨⟩, hrun, body', hbody, h⟩
    split at h
    · obtain ⟨_, h, _⟩ := bind_eq_ok.mp h
      exact absurd h throw_ne_ok
    · rename_i hvariable
      cases h
      exact ⟨⟨t, ht, hrun, hbody⟩, by simpa using hvariable⟩
  · rintro ⟨⟨token, ht, hrun, hbody⟩, hvariable⟩
    refine ⟨token, ht, (), hrun, body, hbody, ?_⟩
    rw [hvariable]
    rfl

end Body
end WireCodec
