import Mathlib
import WireCodec.Proofs.Grammar
import WireCodec.Proofs.Parts
/-! # Members tile their tokens

`Body.Tiles tokens body` says that the tokens are the runs of the members of a body, one behind the
other, with nothing before, between and behind them.  Each run begins with the member's own token, which
counts it, and an opening signal is closed by the last token.  The members of a group tile the tokens
between its header and its last token in the same way.

Whatever is read from some place on is read to the end and tiles the tokens from there
(`Body.ofRange_tiles`). -/

namespace WireCodec

/-- The token that a member's run begins with. -/
def Member.token : Member → Token
  | .field f => f.token
  | .group head _ => head.token
  | .varData v => v.token

/-- The run of a token: the token counts it, and the last one closes what it opens. -/
structure Token.Spans (t : Token) (run : List Token) : Prop where
  first : run.head? = some t
  length : run.length = t.span
  closes : ∀ closing, t.signal.closing = some closing →
    2 ≤ run.length ∧ ∃ last, run.getLast? = some last ∧ last.signal = closing

/-- The field is what the run holds: a type, or a type between an opening and a closing token. -/
def Field.IsOf (f : Field) (run : List Token) : Prop :=
  f.run.head? = some f.type ∧
    (f.token.signal.isType ∧ f.type = f.token ∧ run = f.run ∨
      f.token.signal = .beginField ∧ ∃ last, run = f.token :: (f.run ++ [last]))

/-- The four tokens are the header of a group. -/
structure GroupHead.IsOf (head : GroupHead) (header : List Token) : Prop where
  length : header.length = 4
  first : ∃ t, header.head? = some t ∧ t.signal = .beginComposite ∧ t.span = 4
  blockLength : head.blockLength ∈ header
  numInGroup : head.numInGroup ∈ header

mutual
/-- The member stands for the run. -/
def Member.IsOf : Member → List Token → Prop
  | .field f, run => f.token.Spans run ∧ f.IsOf run
  | .group head members, run =>
    head.token.Spans run ∧ head.token.signal = .beginGroup ∧ Body.IsOrdered members ∧
      ∃ header inner last, run = head.token :: (header ++ (inner ++ [last])) ∧ head.IsOf header ∧
        last.signal = .endGroup ∧ Body.Tiles members inner
  | .varData v, run =>
    v.token.Spans run ∧ v.token.signal = .beginVarData ∧ run[2]? = some v.length ∧
      run[3]? = some v.data

/-- The tokens are the runs of the members, one behind the other. -/
def Body.Tiles : List Member → List Token → Prop
  | [], tokens => tokens = []
  | m :: ms, tokens => ∃ run rest, tokens = run ++ rest ∧ m.IsOf run ∧ Body.Tiles ms rest
end

/-! ### Single runs -/

theorem Token.Heads.spans {t : Token} {inner : List Token} (h : t.Heads inner) :
    t.Spans (t :: inner) := by
  have hspan := h.span
  refine ⟨rfl, by rw [List.length_cons, hspan], fun closing hclosing => ?_⟩
  obtain ⟨last, hlast, hsignal⟩ := h.closes closing hclosing
  have hne : inner ≠ [] := by
    rintro rfl
    cases hlast
  have hpos := List.length_pos_of_ne_nil hne
  refine ⟨by rw [List.length_cons]; omega, last, ?_, hsignal⟩
  rw [List.getLast?_cons, hlast, Option.getD_some]

theorem Member.IsOf.spans {m : Member} {run : List Token} (h : m.IsOf run) : m.token.Spans run := by
  cases m with
  | field f =>
      rw [IsOf] at h
      exact h.1
  | group head members =>
      rw [IsOf] at h
      exact h.1
  | varData v =>
      rw [IsOf] at h
      exact h.1

theorem Field.Spans.token_eq {t : Token} {inner : List Token} {f : Field} (h : Spans t inner f) :
    f.token = t := by
  cases h <;> rfl

theorem Field.Spans.isOf {t : Token} {inner : List Token} {f : Field} (h : Spans t inner f) :
    f.IsOf (t :: inner) := by
  cases h with
  | wrapped hs => exact ⟨rfl, .inr ⟨hs, _, rfl⟩⟩
  | bare hs => exact ⟨rfl, .inl ⟨hs, rfl, rfl⟩⟩

theorem Member.isOf_field {t : Token} {inner : List Token} {f : Field} (run : t.Heads inner)
    (spans : Field.Spans t inner f) : (Member.field f).IsOf (t :: inner) := by
  have htoken := spans.token_eq
  rw [IsOf, htoken]
  exact ⟨run.spans, spans.isOf⟩

/-- A group's run is its token, its header, its members and its last token. -/
theorem Member.exists_header {t : Token} {inner : List Token} {head : GroupHead} (run : t.Heads inner)
    (h : groupHead (t :: inner) = .ok head) :
    ∃ header last, t :: inner = t :: (header ++ (groupInner (t :: inner) ++ [last])) ∧
      head.IsOf header ∧ last.signal = .endGroup := by
  obtain ⟨hsignal, -, first, rest, rfl, hcomposite, hspan, hlength, hb, hn⟩ :=
    groupHead_eq_ok_iff.mp h
  obtain ⟨middle, last, hmiddle, hrun⟩ := run.exists_isRun hsignal rfl
  have hclosing : last.signal = .endGroup := (Option.some.inj hrun.closes).symm
  have hfour : ((first :: rest).take 4).length = 4 := by
    rw [List.length_take, List.length_cons]
    omega
  have hlast : (first :: rest).drop 4 = ((first :: rest).drop 4).dropLast ++ [last] := by
    have hlong : 4 ≤ middle.length := by
      have hsplit := congrArg List.length hmiddle
      rw [List.length_cons, List.length_append, List.length_singleton] at hsplit
      omega
    rw [hmiddle, List.drop_append_of_le_length hlong, List.dropLast_concat]
  refine ⟨(first :: rest).take 4, last, ?_, ⟨hfour, ⟨first, rfl, hcomposite, hspan⟩, ?_, ?_⟩, hclosing⟩
  · have hinner : groupInner (t :: first :: rest) = ((first :: rest).drop 4).dropLast := rfl
    rw [hinner, ← hlast, List.take_append_drop]
  · exact List.mem_of_find?_eq_some hb
  · exact List.mem_of_find?_eq_some hn

theorem Member.isOf_group {t : Token} {inner : List Token} {head : GroupHead} {members : Body}
    (signal : t.signal = .beginGroup) (run : t.Heads inner)
    (h : groupHead (t :: inner) = .ok head) (ordered : members.IsOrdered)
    (tiles : Body.Tiles members (groupInner (t :: inner))) :
    (Member.group head members).IsOf (t :: inner) := by
  have htoken : head.token = t := (groupHead_eq_ok_iff.mp h).2.1
  obtain ⟨header, last, hsplit, hheader, hlast⟩ := exists_header run h
  rw [IsOf, htoken]
  exact ⟨run.spans, signal, ordered, header, _, last, hsplit, hheader, hlast, tiles⟩

theorem Member.isOf_varData {t : Token} {inner : List Token} {v : VarData}
    (signal : t.signal = .beginVarData) (run : t.Heads inner)
    (h : varDataOfRun (t :: inner) = .ok v) : (Member.varData v).IsOf (t :: inner) := by
  unfold varDataOfRun at h
  simp only [bind_eq_ok, tokenAt_eq_ok_iff] at h
  obtain ⟨token, ⟨hget, _⟩, h⟩ := h
  obtain rfl := Option.some.inj hget
  split at h
  · obtain ⟨_, ⟨⟩, _⟩ := h
  · simp only [bind_eq_ok, tokenAt_eq_ok_iff, pure_eq_ok] at h
    obtain ⟨_, _, length, ⟨hlength, _⟩, data, ⟨hdata, _⟩, _, _, rfl⟩ := h
    rw [IsOf]
    exact ⟨run.spans, signal, hlength, hdata⟩

/-! ### Bodies -/

theorem Body.tiles_cons {m : Member} {ms : Body} {run rest : List Token} (h : m.IsOf run)
    (tail : Body.Tiles ms rest) : Body.Tiles (m :: ms) (run ++ rest) := by
  rw [Body.Tiles]
  exact ⟨run, rest, rfl, h, tail⟩

/-- What is read from tokens tiles them. -/
theorem Body.Reads.tiles {stage : Stage} {tokens : List Token} {body : Body}
    (h : Body.Reads stage tokens body) : Body.Tiles body tokens := by
  induction h with
  | nil stage => rw [Body.Tiles]
  | field run spans tail ih => exact Body.tiles_cons (Member.isOf_field run spans) ih
  | group signal run order header body tail ihBody ih =>
      have hordered := (Body.isOrdered_of_reads body).1
      exact Body.tiles_cons (Member.isOf_group signal run header hordered ihBody) ih
  | varData signal run shape tail ih =>
      exact Body.tiles_cons (Member.isOf_varData signal run shape) ih

/-- The place of a member in the tokens: all runs before its own come first. -/
theorem Body.Tiles.getElem?_token {body : Body} {tokens : List Token} (h : Body.Tiles body tokens)
    {k : Nat} {m : Member} (hm : body[k]? = some m) :
    tokens[((body.take k).map (·.token.span)).sum]? = some m.token := by
  induction body generalizing tokens k with
  | nil => simp at hm
  | cons first ms ih =>
      rw [Body.Tiles] at h
      obtain ⟨run, rest, rfl, hfirst, htail⟩ := h
      have hspans := hfirst.spans
      have hlength := hspans.length
      cases k with
      | zero =>
          obtain rfl := Option.some.inj hm
          have hhead := hspans.first
          rw [List.head?_eq_getElem?] at hhead
          have hpos : 0 < run.length := (List.getElem?_eq_some_iff.mp hhead).1
          simpa [List.getElem?_append_left hpos] using hhead
      | succ k =>
          have hrest := ih htail hm
          rw [List.take_succ_cons, List.map_cons, List.sum_cons, ← hlength,
            List.getElem?_append_right (Nat.le_add_right _ _), Nat.add_sub_cancel_left]
          exact hrest

/-- A message without its last token. -/
def Grammar.Trade.members : List Token :=
  { signal := .beginMessage, name := "Trade", span := 21 } :: (side ++ (fills ++ note))

theorem Grammar.Trade.readable_members : Readable .field (members.drop 1) := by
  have hside := outer_isField_of_full isField_side
  have hfills : outer.IsGroup fills := isGroup_fills.mono (fun _ => outer_isField_of_full)
    (fun _ => outer_isDimension_of_full) fun _ => outer_isVarData_of_full
  have hnote := outer_isVarData_of_full isVarData_note
  have hbody := readable_body (List.forall_mem_singleton.mpr hside)
    (List.forall_mem_singleton.mpr (extends_of_isGroup hfills)) (List.forall_mem_singleton.mpr hnote)
  simp only [List.flatten_cons, List.flatten_nil, List.append_nil] at hbody
  exact hbody

/-- **Members tile their tokens.**  Whatever is read from some place on is read to the end.  The runs of
the members follow each other from that place without gaps: each begins where the spans of the members
before it end.  Fields come first, then groups, then var data, and the same holds within each group. -/
theorem Body.ofRange_tiles {owner : String} {tokens : List Token} {start next : Nat} {body : Body}
    (hstart : start ≤ tokens.length) (h : Body.ofRange owner tokens start = .ok (body, next)) :
    next = tokens.length ∧ Body.Tiles body (tokens.drop start) ∧ body.IsOrdered ∧
      ∀ k m, body[k]? = some m →
        tokens[start + ((body.take k).map (·.token.span)).sum]? = some m.token := by
  obtain ⟨hreads, hnext⟩ := Member.range_eq_ok_iff.mp h
  have htiles := hreads.tiles
  refine ⟨?_, htiles, (Body.isOrdered_of_reads hreads).1, fun k m hm => ?_⟩
  · rw [hnext, List.length_drop]
    omega
  · have hplace := htiles.getElem?_token hm
    rwa [List.getElem?_drop] at hplace

/-- The members of a message, whose own token is left out in front. -/
theorem Body.ofRange_tiles_trade :
    ∃ body next, Body.ofRange "Trade" Grammar.Trade.members 1 = .ok (body, next) ∧ next = 20 ∧
      Body.Tiles body (Grammar.Trade.members.drop 1) ∧ body.IsOrdered ∧
        ∀ k m, body[k]? = some m →
          Grammar.Trade.members[1 + ((body.take k).map (·.token.span)).sum]? = some m.token := by
  obtain ⟨body, hbody⟩ := Grammar.Trade.readable_members
  have hread : Body.ofRange "Trade" Grammar.Trade.members 1 = .ok (body, 1 + 19) :=
    Member.range_of_reads hbody "Trade" 1
  exact ⟨body, 1 + 19, hread, Body.ofRange_tiles (by decide) hread⟩

end WireCodec
