import Mathlib.Data.List.Induction
import Mathlib.Tactic.IntervalCases
import WireCodec.Proofs.Lines
import WireCodec.Proofs.Numerals
/-! # The grammar of integer literals

An integer literal is an optional sign and one or more decimal digits, with blank characters around
them.  The grammar says so without the reader: `Text.IsTrimmed` for the blanks, `Decimal.Digits` for
the digits and their value, and `Decimal.Denotes` for the sign.  The range of a type follows from its
size and its sign (`Primitive.Fits`).

`Value.parse_eq_ok_iff_writes` says that the reader of literals accepts this grammar within the range
of the type and nothing else.  Digits may be as many as they like, leading zeros count for nothing, and
a zero may be negative. -/

namespace WireCodec

/-! ### Digits and signs -/

namespace Decimal

/-- One or more decimal digits, and the number that they denote. -/
inductive Digits : List Char → Nat → Prop
  | single {d : Nat} (h : d < 10) : Digits [Nat.digitChar d] d
  | append {ds : List Char} {n d : Nat} (front : Digits ds n) (h : d < 10) :
      Digits (ds ++ [Nat.digitChar d]) (10 * n + d)

/-- An optional sign and digits, and the integer that they denote. -/
inductive Denotes : List Char → Int → Prop
  | plain {ds : List Char} {n : Nat} (digits : Digits ds n) : Denotes ds n
  | plus {ds : List Char} {n : Nat} (digits : Digits ds n) : Denotes ('+' :: ds) n
  | minus {ds : List Char} {n : Nat} (digits : Digits ds n) : Denotes ('-' :: ds) (-n)

theorem digit?_digitChar {d : Nat} (h : d < 10) : digit? (Nat.digitChar d) = some d := by
  interval_cases d <;> rfl

theorem isDigit_digitChar {d : Nat} (h : d < 10) : isDigit (Nat.digitChar d) := by
  interval_cases d <;> rfl

theorem exists_digitChar {c : Char} (h : isDigit c) : ∃ d < 10, c = Nat.digitChar d := by
  have hbounds : 48 ≤ c.toNat ∧ c.toNat ≤ 57 := by
    simpa [isDigit, Char.le_def, UInt32.le_iff_toNat_le] using h
  refine ⟨c.toNat - 48, by omega, ?_⟩
  obtain ⟨n, hn⟩ : ∃ n, c.toNat = n := ⟨_, rfl⟩
  rw [← Char.toNat_inj, hn]
  rw [hn] at hbounds
  obtain ⟨hlow, hhigh⟩ := hbounds
  interval_cases n <;> rfl

theorem ofDigits_append (ds : List Char) (c : Char) :
    ofDigits (ds ++ [c]) = 10 * ofDigits ds + (digit? c).getD 0 := by
  unfold ofDigits
  rw [List.foldl_append]
  rfl

theorem natural?_of_digits {cs : List Char} {n : Nat} (h : Digits cs n) : natural? cs = some n := by
  have hread : cs ≠ [] ∧ cs.all isDigit ∧ ofDigits cs = n := by
    induction h with
    | @single d hd =>
        refine ⟨List.cons_ne_nil _ _, ?_, ?_⟩
        · simpa using isDigit_digitChar hd
        · simp [ofDigits, digit?_digitChar hd]
    | @append ds n d front hd ih =>
        obtain ⟨-, hall, hvalue⟩ := ih
        refine ⟨by simp, ?_, ?_⟩
        · rw [List.all_append, hall]
          simpa using isDigit_digitChar hd
        · rw [ofDigits_append, hvalue, digit?_digitChar hd]
          rfl
  obtain ⟨hne, hall, rfl⟩ := hread
  exact if_pos ⟨hne, hall⟩

theorem digits_of_all {cs : List Char} (hne : cs ≠ []) (hall : ∀ c ∈ cs, isDigit c) :
    Digits cs (ofDigits cs) := by
  induction cs using List.reverseRecOn with
  | nil => exact absurd rfl hne
  | append_singleton ds c ih =>
      obtain ⟨d, hd, rfl⟩ := exists_digitChar (hall c (by simp))
      rw [ofDigits_append, digit?_digitChar hd]
      by_cases hds : ds = []
      · subst hds
        have hvalue : 10 * ofDigits [] + (some d).getD 0 = d := by simp [ofDigits]
        rw [hvalue]
        exact .single hd
      · exact .append (ih hds fun c hc => hall c (List.mem_append_left _ hc)) hd

/-- Digits are read as the number that they denote, and nothing else is read. -/
theorem natural?_eq_some_iff {cs : List Char} {n : Nat} : natural? cs = some n ↔ Digits cs n := by
  constructor
  · intro h
    unfold natural? at h
    split at h
    next hdigits =>
      obtain rfl := Option.some.inj h
      exact digits_of_all hdigits.1 (List.all_eq_true.mp hdigits.2)
    next => cases h
  · exact natural?_of_digits

theorem Digits.isDigit_of_mem {cs : List Char} {n : Nat} (h : Digits cs n) : ∀ c ∈ cs, isDigit c := by
  induction h with
  | single hd =>
      intro c hc
      rw [List.mem_singleton.mp hc]
      exact isDigit_digitChar hd
  | append _ hd ih =>
      intro c hc
      rcases List.mem_append.mp hc with hc | hc
      · exact ih c hc
      · rw [List.mem_singleton.mp hc]
        exact isDigit_digitChar hd

theorem Digits.not_sign {ds : List Char} {n : Nat} {c : Char} (h : Digits (c :: ds) n) :
    c ≠ '+' ∧ c ≠ '-' := by
  have hc := h.isDigit_of_mem c List.mem_cons_self
  constructor <;> rintro rfl <;> cases hc

/-- A sign and digits are read as the integer that they denote, as long as 128 bits hold it. -/
theorem integer?_eq_some_iff {cs : List Char} {i : Int} :
    integer? cs = some i ↔ Denotes cs i ∧ -2 ^ 127 ≤ i ∧ i < 2 ^ 127 := by
  unfold integer?
  simp only [Option.filter_eq_some_iff, decide_eq_true_eq]
  refine and_congr_left fun _ => ?_
  split
  next ds =>
    rw [Option.map_eq_some_iff]
    constructor
    · rintro ⟨n, hn, rfl⟩
      exact .plus (natural?_eq_some_iff.mp hn)
    · intro h
      cases h with
      | plain digits => exact absurd rfl digits.not_sign.1
      | plus digits => exact ⟨_, natural?_eq_some_iff.mpr digits, rfl⟩
  next ds =>
    have hcast : (do let n ← natural? ds; pure (n : Int)) = (natural? ds).map Int.ofNat := by
      cases natural? ds <;> rfl
    rw [hcast, Option.map_map, Option.map_eq_some_iff]
    constructor
    · rintro ⟨n, hn, rfl⟩
      exact .minus (natural?_eq_some_iff.mp hn)
    · intro h
      cases h with
      | plain digits => exact absurd rfl digits.not_sign.2
      | minus digits => exact ⟨_, natural?_eq_some_iff.mpr digits, rfl⟩
  next hplus hminus =>
    rw [Option.map_eq_some_iff]
    constructor
    · rintro ⟨n, hn, rfl⟩
      exact .plain (natural?_eq_some_iff.mp hn)
    · intro h
      cases h with
      | plain digits => exact ⟨_, natural?_eq_some_iff.mpr digits, rfl⟩
      | plus digits => exact absurd rfl (hplus _)
      | minus digits => exact absurd rfl (hminus _)

end Decimal

/-! ### Ranges -/

/-- The integer can be held by so many bytes, with a sign or without one. -/
def Primitive.Fits (p : Primitive) (n : Int) : Prop :=
  if p.isSigned then -2 ^ (8 * p.size - 1) ≤ n ∧ n < 2 ^ (8 * p.size - 1)
  else 0 ≤ n ∧ n < 2 ^ (8 * p.size)

instance (p : Primitive) (n : Int) : Decidable (p.Fits n) :=
  inferInstanceAs (Decidable (if p.isSigned then -2 ^ (8 * p.size - 1) ≤ n ∧ n < 2 ^ (8 * p.size - 1)
    else 0 ≤ n ∧ n < 2 ^ (8 * p.size)))

theorem Primitive.holds_iff_fits {p : Primitive} (hp : p.isFloat = false) {n : Int} :
    p.Holds n ↔ p.Fits n := by
  unfold Holds Fits
  cases p with
  | float | double => cases hp
  | _ => simp [range, isSigned, size]; try omega

/-! ### Literals -/

/-- The text writes the integer: blank characters around an optional sign and digits. -/
def Decimal.Writes (raw : String) (n : Int) : Prop :=
  ∃ body, Text.IsTrimmed raw.toList body ∧ Denotes body n

theorem Decimal.toList_toString_ne_singleton {n : Int} (h : 10 ≤ n) (c : Char) :
    (toString n).toList ≠ [c] := by
  intro hlist
  obtain ⟨-, hdigits⟩ | ⟨hneg, -⟩ := toList_toString n
  · rw [hlist] at hdigits
    have hmem : c ∈ Nat.toDigits 10 n.toNat := hdigits ▸ List.mem_singleton_self c
    obtain ⟨d, hd, rfl⟩ := exists_digitChar (isDigit_of_isDigit (isDigit_toDigits _ c hmem))
    have hread := natural?_toDigits n.toNat
    rw [← hdigits, natural?_of_digits (.single hd)] at hread
    have hvalue := Option.some.inj hread
    omega
  · omega

theorem Decimal.isBlank_of_isDigit {c : Char} (h : isDigit c) : Text.isBlank c = false := by
  obtain ⟨d, hd, rfl⟩ := exists_digitChar h
  interval_cases d <;> rfl

theorem Decimal.writes_toString {n : Int} (hlow : -2 ^ 127 ≤ n) (hhigh : n < 2 ^ 127) :
    Writes (toString n) n := by
  have hblank : ∀ c ∈ (toString n).toList, Text.isBlank c = false := by
    intro c hc
    rcases isDigit_of_mem_toString hc with rfl | hdigit
    · rfl
    · exact isBlank_of_isDigit (isDigit_of_isDigit hdigit)
  exact ⟨_, Text.isTrimmed_self hblank, (integer?_eq_some_iff.mp (integer?_toString hlow hhigh)).1⟩

namespace Value

/-- What is read for an integer type where characters do not stand for themselves. -/
theorem parse_of_integer {p : Primitive} (hp : p.isFloat = false) (hc : p ≠ .char) (raw : String) :
    parse p raw = parseInteger p raw := by
  unfold parse
  rw [hp, if_neg Bool.false_ne_true, if_neg hc]

/-- What is written is what the decimal reader sees, for integers in the range of a type. -/
theorem writes_iff {p : Primitive} (hp : p.isFloat = false) {raw : String} {n : Int}
    (hn : p.Fits n) :
    Decimal.Writes raw n ↔ Decimal.integer? (Text.trim raw.toList) = some n := by
  rw [Decimal.integer?_eq_some_iff, and_iff_left ((Primitive.holds_iff_fits hp).mpr hn).bounds]
  unfold Decimal.Writes
  simp only [Text.isTrimmed_iff, exists_eq_left']

/-- An integer that is written and is in the range of the type is read. -/
theorem parseInteger_of_writes {p : Primitive} (hp : p.isFloat = false) {raw : String} {n : Int}
    (h : Decimal.Writes raw n) (hn : p.Fits n) : parseInteger p raw = .ok (.int n) := by
  obtain ⟨least, greatest, hrange, hlow, hhigh⟩ := (Primitive.holds_iff_fits hp).mpr hn
  unfold parseInteger
  rw [(writes_iff hp hn).mp h, hrange]
  exact guard_eq_ok.mpr ⟨by omega, rfl⟩

/-- The reader of integers accepts what the grammar allows within the range of the type. -/
theorem parseInteger_eq_ok_iff {p : Primitive} (hp : p.isFloat = false) (hc : p ≠ .char)
    {raw : String} {v : Value} :
    parseInteger p raw = .ok v ↔ ∃ n, v = .int n ∧ Decimal.Writes raw n ∧ p.Fits n := by
  constructor
  · intro h
    obtain ⟨n, rfl⟩ : ∃ n, v = .int n := by
      unfold parseInteger at h
      split at h
      next n least greatest _ _ => exact ⟨n, (Except.ok.inj (guard_eq_ok.mp h).2).symm⟩
      next => cases h
      next => cases (if_neg hc).symm.trans h
    have hfits := (Primitive.holds_iff_fits hp).mp (holds_of_parseInteger h)
    refine ⟨n, rfl, (writes_iff hp hfits).mpr ?_, hfits⟩
    unfold parseInteger at h
    split at h
    next m least greatest hm _ =>
      obtain ⟨-, h⟩ := guard_eq_ok.mp h
      cases h
      exact hm
    next => cases h
    next => cases (if_neg hc).symm.trans h
  · rintro ⟨n, rfl, hwrites, hfits⟩
    exact parseInteger_of_writes hp hwrites hfits

/-- What an integer type does not accept is refused as it was written. -/
theorem parseInteger_eq_error {p : Primitive} (hc : p ≠ .char) {raw : String} {e : Fault}
    (h : parseInteger p raw = .error e) : e = .invalidLiteral p.name raw := by
  unfold parseInteger at h
  split at h
  next =>
    split at h
    · exact (Except.error.inj h).symm
    · cases h
  next => exact (Except.error.inj h).symm
  next => exact (Except.error.inj ((if_neg hc).symm.trans h)).symm

/-- **Integer literals.**  For an integer type other than characters a text is read exactly if it is an
optional sign and decimal digits, with blanks around them, and the integer that these denote is in the
range of the type; it is read as this integer.  Every other text is refused, with the name of the type
and the text as it was written. -/
theorem parse_eq_ok_iff_writes {p : Primitive} (hp : p.isFloat = false) (hc : p ≠ .char)
    (raw : String) :
    (∀ v, parse p raw = .ok v ↔ ∃ n, v = .int n ∧ Decimal.Writes raw n ∧ p.Fits n) ∧
      ((∀ n, Decimal.Writes raw n → ¬ p.Fits n) →
        parse p raw = .error (.invalidLiteral p.name raw)) := by
  rw [parse_of_integer hp hc]
  refine ⟨fun v => parseInteger_eq_ok_iff hp hc, fun hnone => ?_⟩
  cases h : parseInteger p raw with
  | ok v =>
      obtain ⟨n, -, hwrites, hfits⟩ := (parseInteger_eq_ok_iff hp hc).mp h
      exact absurd hfits (hnone n hwrites)
  | error e => rw [parseInteger_eq_error hc h]

theorem parse_eq_ok_iff_writes_int8 :
    Primitive.int8.isFloat = false ∧ Primitive.int8 ≠ .char ∧
      parse .int8 " -0128\n" = .ok (.int (-128)) ∧
      parse .int8 "+128" = .error (.invalidLiteral "int8" "+128") := by
  refine ⟨rfl, by decide, ?_, ?_⟩
  · have hbody : Text.IsTrimmed " -0128\n".toList ['-', '0', '1', '2', '8'] :=
      Text.isTrimmed_iff.mpr (by decide)
    have hdenotes : Decimal.Denotes ['-', '0', '1', '2', '8'] (-128) :=
      (Decimal.integer?_eq_some_iff.mp rfl).1
    have hread := (parse_eq_ok_iff_writes (p := .int8) rfl (by decide) " -0128\n").1 (.int (-128))
    exact hread.mpr ⟨-128, rfl, ⟨_, hbody, hdenotes⟩, by decide⟩
  · refine (parse_eq_ok_iff_writes (p := .int8) rfl (by decide) "+128").2 ?_
    rintro n ⟨body, hbody, hdenotes⟩ hfits
    have hbounds := ((Primitive.holds_iff_fits rfl).mpr hfits).bounds
    have hread := Decimal.integer?_eq_some_iff.mpr ⟨hdenotes, hbounds⟩
    rw [← Text.isTrimmed_iff.mp hbody] at hread
    have hvalue : Decimal.integer? (Text.trim "+128".toList) = some 128 := by decide
    obtain rfl := Option.some.inj (hvalue.symm.trans hread)
    exact absurd hfits (by decide)

end Value
end WireCodec
