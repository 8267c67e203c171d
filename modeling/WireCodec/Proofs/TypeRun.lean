import WireCodec.Definition.Layout
import WireCodec.Proofs.Reading
/-! # The tokens of types

`Run types t p tokens n` says that a type `t` at a position is laid out as these tokens in `n` bytes,
and `Members` says so of the members of a composite.  Both leave out how deep composites may be
nested: `run_of_tokens` reduces the layout of a type to them.  A type is always laid out as one run
(`Run.starts`), whose number of tokens does not depend on its position (`Run.length_eq`). -/

namespace WireCodec.Definition

/-! ### Wrapped tokens -/

theorem heads_wrap {opening closing : Token} {inner : List Token}
    (h : opening.signal.closing = some closing.signal) :
    ({ opening with span := inner.length + 2 } : Token).Heads (inner ++ [closing]) := by
  constructor
  · rw [List.length_append, List.length_singleton]
  · intro found hfound
    rw [h, Option.some.injEq] at hfound
    exact ⟨closing, List.getLast?_concat, hfound⟩

theorem length_wrap (opening closing : Token) (inner : List Token) :
    (wrap opening closing inner).length = inner.length + 2 := by
  unfold wrap
  rw [List.length_cons, List.length_append, List.length_singleton]

theorem encloses_wrap {opening closing : Token} {inner : List Token} {body : Body}
    (h : opening.signal.closing = some closing.signal) (hbody : Body.Reads .field inner body) :
    Body.Encloses opening.signal (wrap opening closing inner)
      { opening with span := inner.length + 2 } body := by
  refine ⟨inner ++ [closing], [], ?_, rfl, heads_wrap h, ?_⟩
  · rw [List.append_nil]
    rfl
  · rwa [List.dropLast_concat]

/-! ### References -/

namespace Reference

/-- The type that is referred to. -/
def lookup (types : List NamedType) : Reference → Except Fault NamedType
  | inline e => .ok (.element e)
  | named n => find types n

/-- The name that a token carries for the type; a type given in place has none. -/
def stated : Reference → Option String
  | inline _ => none
  | named n => some n

end Reference

theorem name_of_find {types : List NamedType} {n : String} {t : NamedType}
    (h : find types n = .ok t) : t.name = n := by
  unfold find at h
  split at h
  · rename_i t' ht'
    cases h
    simpa using List.find?_some ht'
  · cases h

theorem memberTokens_cons (types : List NamedType)
    (tokens : NamedType → Position → Except Fault (List Token × Nat))
    (htokens : ∀ e p, tokens (.element e) p = .ok ([e.token p], e.encodedLength))
    (version offset : Nat) (name : String) (r : Reference) (members : List (String × Reference)) :
    memberTokens types tokens version offset ((name, r) :: members) = (do
      let t ← r.lookup types
      let (ts, length) ← tokens t { name, referencedName := r.stated, offset, version }
      let (rest, restLength) ← memberTokens types tokens version (offset + length) members
      return (ts ++ rest, length + restLength)) := by
  rw [memberTokens.eq_def]
  cases r with
  | inline e =>
      change _ = tokens (.element e) _ >>= _
      rw [htokens]
      rfl
  | named n =>
      simp only [Reference.lookup, Reference.stated]
      cases hfind : find types n with
      | error e => rfl
      | ok t =>
          rw [← name_of_find hfind]
          rfl

theorem NamedType.tokens_element (types : List NamedType) (levels : Nat) (e : Element) (p : Position) :
    NamedType.tokens types levels (.element e) p = .ok ([e.token p], e.encodedLength) := by
  cases levels <;> rfl

/-- The run of a composite around the tokens of its members. -/
def compositeRun (p : Position) (inner : List Token) (length : Nat) : List Token :=
  simpleRun .beginComposite .endComposite p length {} inner

theorem NamedType.tokens_composite (types : List NamedType) (levels : Nat) (c : Composite)
    (p : Position) :
    NamedType.tokens types (levels + 1) (.composite c) p = (do
      let (inner, length) ←
        memberTokens types (NamedType.tokens types levels) p.version 0 c.members
      return (compositeRun p inner length, length)) := rfl

/-! ### Runs without levels -/

/-- The tokens of the members of a composite from some offset on, and their length.  A member is no
composite, or has members of its own. -/
inductive Members (types : List NamedType) (version : Nat) :
    Nat → List (String × Reference) → List Token → Nat → Prop
  | nil (offset : Nat) : Members types version offset [] [] 0
  | leaf {offset : Nat} {name : String} {r : Reference} {members : List (String × Reference)}
      {t : NamedType} {tokens rest : List Token} {n m : Nat} (found : r.lookup types = .ok t)
      (placed : t.tokens types 0 { name, referencedName := r.stated, offset, version }
        = .ok (tokens, n))
      (tail : Members types version (offset + n) members rest m) :
      Members types version offset ((name, r) :: members) (tokens ++ rest) (n + m)
  | composite {offset : Nat} {name : String} {r : Reference} {members : List (String × Reference)}
      {c : Composite} {inner rest : List Token} {n m : Nat} (found : r.lookup types = .ok (.composite c))
      (nested : Members types version 0 c.members inner n)
      (tail : Members types version (offset + n) members rest m) :
      Members types version offset ((name, r) :: members)
        (compositeRun { name, referencedName := r.stated, offset, version } inner n ++ rest) (n + m)

/-- The tokens of a type at a position, and its length. -/
inductive Run (types : List NamedType) : NamedType → Position → List Token → Nat → Prop
  | leaf {t : NamedType} {p : Position} {tokens : List Token} {n : Nat}
      (placed : t.tokens types 0 p = .ok (tokens, n)) : Run types t p tokens n
  | composite {c : Composite} {p : Position} {inner : List Token} {n : Nat}
      (nested : Members types p.version 0 c.members inner n) :
      Run types (.composite c) p (compositeRun p inner n) n

variable {types : List NamedType}

theorem Members.cons {version offset : Nat} {name : String} {r : Reference}
    {members : List (String × Reference)} {t : NamedType} {tokens rest : List Token} {n m : Nat}
    (found : r.lookup types = .ok t)
    (run : Run types t { name, referencedName := r.stated, offset, version } tokens n)
    (tail : Members types version (offset + n) members rest m) :
    Members types version offset ((name, r) :: members) (tokens ++ rest) (n + m) := by
  cases run with
  | leaf placed => exact .leaf found placed tail
  | composite nested => exact .composite found nested tail

theorem Members.of_cons {version offset : Nat} {name : String} {r : Reference}
    {members : List (String × Reference)} {tokens : List Token} {n : Nat}
    (h : Members types version offset ((name, r) :: members) tokens n) :
    ∃ t run rest k m, r.lookup types = .ok t ∧
      Run types t { name, referencedName := r.stated, offset, version } run k ∧
      Members types version (offset + k) members rest m ∧ tokens = run ++ rest ∧ n = k + m := by
  cases h with
  | leaf found placed tail => exact ⟨_, _, _, _, _, found, .leaf placed, tail, rfl, rfl⟩
  | composite found nested tail => exact ⟨_, _, _, _, _, found, .composite nested, tail, rfl, rfl⟩

theorem members_of_memberTokens {levels version : Nat}
    (ih : ∀ t p tokens n, NamedType.tokens types levels t p = .ok (tokens, n) → Run types t p tokens n) :
    ∀ {members : List (String × Reference)} {offset : Nat} {tokens : List Token} {n : Nat},
      memberTokens types (NamedType.tokens types levels) version offset members = .ok (tokens, n) →
        Members types version offset members tokens n
  | [], offset, _, _, h => by
      cases h
      exact .nil offset
  | (name, r) :: members, offset, _, _, h => by
      rw [memberTokens_cons _ _ (NamedType.tokens_element types levels)] at h
      simp only [bind_eq_ok, pure_eq_ok] at h
      obtain ⟨t, found, ⟨ts, length⟩, hts, ⟨rest, m⟩, hrest, h⟩ := h
      cases h
      exact .cons found (ih _ _ _ _ hts) (members_of_memberTokens ih hrest)

/-- However deep composites are nested, the tokens of a type are a run of it. -/
theorem run_of_tokens : ∀ {levels : Nat} {t : NamedType} {p : Position} {tokens : List Token} {n : Nat},
    NamedType.tokens types levels t p = .ok (tokens, n) → Run types t p tokens n
  | 0, _, _, _, _, h => .leaf h
  | levels + 1, .composite c, p, _, _, h => by
      rw [NamedType.tokens_composite, bind_eq_ok] at h
      obtain ⟨⟨inner, length⟩, hinner, h⟩ := h
      rw [pure_eq_ok] at h
      cases h
      exact .composite (members_of_memberTokens (fun _ _ _ _ => run_of_tokens) hinner)
  | _ + 1, .element _, _, _, _, h => .leaf h
  | _ + 1, .enumeration _, _, _, _, h => .leaf h
  | _ + 1, .bitSet _, _, _, _, h => .leaf h

/-! ### The start of a run -/

/-- What the first token of a type says. -/
structure Position.Starts (p : Position) (length : Nat) (first : Token) : Prop where
  isType : first.signal.isType
  name : first.name = p.name
  referencedName : first.referencedName = p.referencedName
  offset : first.offset = wrap32 p.offset
  version : first.version = p.version
  encodedLength : first.encodedLength = wrap32 length

/-- What is said of the value of an enum. -/
def Enumeration.encoding (e : Enumeration) (p : Position) : Encoding :=
  { presence := if p.constant.isSome then .constant else .required
    primitive := some e.primitive, constant := p.constant }

theorem Enumeration.tokens_eq_ok {e : Enumeration} {p : Position} {tokens : List Token} {n : Nat}
    (h : e.tokens p = .ok (tokens, n)) :
    e.values ≠ [] ∧ n = (if p.constant.isSome then 0 else e.primitive.size) ∧
      tokens = simpleRun .beginEnum .endEnum p n (e.encoding p)
        (e.values.map fun (name, literal) => memberToken .validValue p e.primitive name literal) := by
  unfold Enumeration.tokens at h
  obtain ⟨hvalues, h⟩ := guard_eq_ok.mp h
  obtain ⟨rfl, rfl⟩ := Prod.mk.inj (Except.ok.inj h)
  exact ⟨hvalues, rfl, rfl⟩

theorem leaf_eq_ok {t : NamedType} {p : Position} {tokens : List Token} {n : Nat}
    (h : t.tokens types 0 p = .ok (tokens, n)) :
    (∃ e, t = .element e ∧ tokens = [e.token p] ∧ n = e.encodedLength) ∨
    (∃ e, t = .enumeration e ∧ e.tokens p = .ok (tokens, n)) ∨
    (∃ s, t = .bitSet s ∧ s.tokens p = (tokens, n)) := by
  cases t with
  | element e =>
      cases h
      exact .inl ⟨e, rfl, rfl, rfl⟩
  | enumeration e => exact .inr (.inl ⟨e, rfl, h⟩)
  | bitSet s =>
      cases h
      exact .inr (.inr ⟨s, rfl, rfl⟩)
  | composite c => cases h

theorem Position.token_starts {signal : Signal} (h : signal.isType) (p : Position) (length : Nat)
    (encoding : Encoding) (span : Nat) :
    p.Starts length { p.token signal length encoding with span } := by
  constructor <;> simp only [token, h]

theorem Element.token_starts (e : Element) (p : Position) : p.Starts e.encodedLength (e.token p) := by
  constructor <;> simp only [Element.token, Position.token, Signal.isType]

theorem simpleRun_starts {opening closing : Signal} (hclosing : opening.closing = some closing)
    (htype : opening.isType) (p : Position) (length : Nat) (encoding : Encoding)
    (members : List Token) : ∃ first inner,
      simpleRun opening closing p length encoding members = first :: inner ∧ first.Heads inner ∧
        p.Starts length first := by
  exact ⟨_, _, rfl, heads_wrap hclosing, p.token_starts htype length encoding _⟩

/-- A type is laid out as one run, which states where it stands. -/
theorem Run.starts {t : NamedType} {p : Position} {tokens : List Token} {n : Nat}
    (h : Run types t p tokens n) :
    ∃ first inner, tokens = first :: inner ∧ first.Heads inner ∧ p.Starts n first := by
  cases h with
  | leaf placed =>
      obtain ⟨e, rfl, rfl, rfl⟩ | ⟨e, rfl, he⟩ | ⟨s, rfl, hs⟩ := leaf_eq_ok placed
      · refine ⟨e.token p, [], rfl, ⟨rfl, ?_⟩, e.token_starts p⟩
        intro closing h
        cases h
      · obtain ⟨_, _, rfl⟩ := Enumeration.tokens_eq_ok he
        exact simpleRun_starts rfl rfl p _ _ _
      · cases hs
        exact simpleRun_starts rfl rfl p _ _ _
  | composite nested => exact simpleRun_starts rfl rfl p _ _ _

end WireCodec.Definition
