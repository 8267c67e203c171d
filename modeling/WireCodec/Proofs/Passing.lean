import WireCodec.Proofs.Registry
/-! # Passing over tokens

`Registry.Passes tokens found` says that the registry comes across the types `found` in the tokens,
whatever follows them.  The lemmas say what is come across in a single token, in a run that opens a
type, and in a run that belongs to a group or a var data member. -/

namespace WireCodec

/-- The registry takes no notice of tokens of the signal: they open no type and own none. -/
def Signal.IsQuiet (s : Signal) : Prop := s.typeKind? = none ∧ s.ownsNext = false

namespace Registry

/-- The types that are come across in tokens. -/
def Passes (tokens : List Token) (found : List NamedType) : Prop :=
  ∀ rest, Registry.found false 0 (tokens ++ rest) = (found ++ ·) <$> Registry.found false 0 rest

/-! ### Skipping -/

theorem map_nil_append (x : Except Fault (List NamedType)) : ([] ++ ·) <$> x = x := by
  cases x <;> rfl

theorem found_quiet (owned : Bool) {t : Token} (h : t.signal.IsQuiet) (rest : List Token) :
    found owned 0 (t :: rest) = found false 0 rest := by
  rw [found, h.1, h.2]

theorem found_skip (owned : Bool) (inner : List Token) {last : Token}
    (h : last.signal.ownsNext = false) (rest : List Token) :
    found owned (inner.length + 1) (inner ++ last :: rest) = found false 0 rest := by
  induction inner generalizing owned with
  | nil =>
      rw [List.nil_append, List.length_nil, found, h]
  | cons t inner ih =>
      rw [List.cons_append, List.length_cons, found]
      exact ih t.signal.ownsNext

theorem found_run (owned : Bool) {t last : Token} {kind : TypeKind} {inner : List Token}
    (hkind : t.signal.typeKind? = some kind) (hspan : t.span = inner.length + 2) (rest : List Token) :
    found owned 0 (t :: (inner ++ last :: rest)) =
      if owned ∨ kind = .composite ∧ t.encodedLength < 0 then
        found t.signal.ownsNext (inner.length + 1) (inner ++ last :: rest)
      else
        (defined kind t (t :: (inner ++ [last])) :: ·) <$>
          found t.signal.ownsNext (if kind = .composite then 0 else inner.length + 1)
            (inner ++ last :: rest) := by
  have htake : (t :: (inner ++ last :: rest)).take (inner.length + 2) = t :: (inner ++ [last]) := by
    have happend : t :: (inner ++ last :: rest) = t :: (inner ++ [last]) ++ rest := by
      rw [List.cons_append, List.append_assoc, List.singleton_append]
    have hlength : (t :: (inner ++ [last])).length = inner.length + 2 := by
      rw [List.length_cons, List.length_append, List.length_singleton]
    rw [happend, ← hlength]
    exact List.take_left
  have hlong : ¬ (inner.length + 2 < 2 ∨ (inner ++ last :: rest).length + 1 < inner.length + 2) := by
    rw [List.length_append, List.length_cons]
    omega
  rw [found, hkind, hspan]
  dsimp only
  rw [if_neg hlong, htake]
  rfl

/-- The run of a type that belongs to a group or a var data member. -/
theorem found_owned {t last : Token} {kind : TypeKind} {inner : List Token}
    (hkind : t.signal.typeKind? = some kind) (hspan : t.span = inner.length + 2)
    (hlast : last.signal.IsQuiet) (rest : List Token) :
    found true 0 (t :: (inner ++ last :: rest)) = found false 0 rest := by
  rw [found_run true hkind hspan, if_pos (.inl rfl)]
  exact found_skip _ inner hlast.2 rest

namespace Passes

variable {t last : Token} {ts us inner : List Token} {fs gs : List NamedType}

theorem nil : Passes [] [] := by
  intro rest
  rw [List.nil_append, map_nil_append]

theorem append (ht : Passes ts fs) (hu : Passes us gs) : Passes (ts ++ us) (fs ++ gs) := by
  intro rest
  rw [List.append_assoc, ht, hu]
  cases Registry.found false 0 rest with
  | error e => rfl
  | ok hs => exact congrArg Except.ok (List.append_assoc fs gs hs).symm

theorem found_eq (h : Passes ts fs) : found false 0 ts = .ok fs := by
  have h' := h []
  rw [List.append_nil] at h'
  rw [h']
  exact congrArg Except.ok (List.append_nil fs)

theorem single (h : t.signal.IsQuiet) : Passes [t] [] := by
  intro rest
  rw [List.singleton_append, found_quiet false h, map_nil_append]

theorem leaf {kind : TypeKind} (hkind : t.signal.typeKind? = some kind) (hleaf : kind ≠ .composite)
    (hspan : t.span = inner.length + 2) (hlast : last.signal.IsQuiet) :
    Passes (t :: (inner ++ [last])) [defined kind t (t :: (inner ++ [last]))] := by
  intro rest
  have hcond : ¬ (false = true ∨ kind = .composite ∧ t.encodedLength < 0) := by
    rintro (h | ⟨h, _⟩)
    · cases h
    · exact hleaf h
  rw [List.cons_append, List.append_assoc, List.singleton_append, found_run false hkind hspan,
    if_neg hcond, if_neg hleaf, found_skip _ inner hlast.2]
  rfl

/-- A composite of stated length is passed as itself and then as what it contains. -/
theorem composite (ht : t.signal = .beginComposite) (hspan : t.span = inner.length + 2)
    (hlast : last.signal.IsQuiet) (hlength : 0 ≤ t.encodedLength) (h : Passes inner fs) :
    Passes (t :: (inner ++ [last])) (defined .composite t (t :: (inner ++ [last])) :: fs) := by
  intro rest
  have hcond : ¬ (false = true ∨ TypeKind.composite = .composite ∧ t.encodedLength < 0) := by
    rintro (h | ⟨_, h⟩)
    · cases h
    · omega
  have hopens : t.signal.typeKind? = some .composite := by
    rw [ht]
    rfl
  have howns : t.signal.ownsNext = false := by
    rw [ht]
    rfl
  rw [List.cons_append, List.append_assoc, List.singleton_append, found_run false hopens hspan,
    if_neg hcond, if_pos rfl, howns, h, found_quiet false hlast]
  cases Registry.found false 0 rest <;> rfl

theorem variableLength (ht : t.signal = .beginComposite) (hspan : t.span = inner.length + 2)
    (hlast : last.signal.IsQuiet) (hlength : t.encodedLength < 0) :
    Passes (t :: (inner ++ [last])) [] := by
  intro rest
  have hopens : t.signal.typeKind? = some .composite := by
    rw [ht]
    rfl
  rw [List.cons_append, List.append_assoc, List.singleton_append, found_run false hopens hspan,
    if_pos (.inr ⟨rfl, hlength⟩), found_skip _ inner hlast.2, map_nil_append]

end Passes
end Registry
end WireCodec
