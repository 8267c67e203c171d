import Mathlib.Data.List.Basic
import WireCodec.Proofs.Outcome
import WireCodec.Schema.Token
/-! # Integers and their numerals

An integer is written in decimal digits behind an optional minus sign, and is read back as it was
written (`Decimal.integer?_toString`).  In generated code the numeral is followed by the name of the
type (`Primitive.numeral`), which reads back as well (`Primitive.integerOf?_numeral`), so different
integers have different literals (`Primitive.numeral_inj`).

What a schema states for an integer type is in the range of the type, or is refused
(`Value.holds_of_parse`). -/

namespace WireCodec

/-! ### Digits -/

theorem digit?_of_isDigit {c : Char} (h : c.isDigit) : Decimal.digit? c = some (c.toNat - 48) := by
  unfold Decimal.digit?
  rw [if_pos]
  · rfl
  · simpa [Char.isDigit, Char.le_def] using h

theorem isDigit_of_isDigit {c : Char} (h : c.isDigit) : Decimal.isDigit c := by
  simpa [Decimal.isDigit, Char.isDigit, Char.le_def] using h

theorem isDigit_toDigits (n : Nat) : ∀ c ∈ Nat.toDigits 10 n, c.isDigit := by
  intro c hc
  exact Nat.isDigit_of_mem_toDigits (by decide) (Nat.le_refl 10) hc

namespace Decimal

theorem foldl_digits : ∀ (ds : List Char) (n : Nat), (∀ c ∈ ds, c.isDigit) →
    ds.foldl (fun n c => 10 * n + (digit? c).getD 0) n = Nat.ofDigitChars 10 ds n
  | [], _, _ => by rw [List.foldl_nil, Nat.ofDigitChars_nil]
  | c :: ds, n, h => by
      obtain ⟨hc, hds⟩ := List.forall_mem_cons.mp h
      rw [List.foldl_cons, Nat.ofDigitChars_cons, digit?_of_isDigit hc, foldl_digits ds _ hds]
      rfl

/-- The digits of a number are read as the number. -/
theorem natural?_toDigits (n : Nat) : natural? (Nat.toDigits 10 n) = some n := by
  have hdigits := isDigit_toDigits n
  unfold natural? ofDigits
  rw [if_pos, foldl_digits _ 0 hdigits, Nat.ofDigitChars_ten_toDigits]
  refine ⟨Nat.toDigits_ne_nil, ?_⟩
  rw [List.all_eq_true]
  intro c hc
  exact isDigit_of_isDigit (hdigits c hc)

/-- A numeral consists of digits behind an optional minus sign. -/
theorem toList_toString (n : Int) :
    (0 ≤ n ∧ (toString n).toList = Nat.toDigits 10 n.toNat) ∨
      (n < 0 ∧ (toString n).toList = '-' :: Nat.toDigits 10 (-n).toNat) := by
  rw [Int.toString_eq_repr, Int.repr_eq_if]
  split
  next hpos => exact .inl ⟨by omega, Nat.toList_repr⟩
  next hneg =>
    refine .inr ⟨by omega, ?_⟩
    rw [String.toList_append, Nat.toList_repr]
    rfl

theorem integer?_toString {n : Int} (hlow : -2 ^ 127 ≤ n) (hhigh : n < 2 ^ 127) :
    integer? (toString n).toList = some n := by
  have hkept : Option.filter (fun i : Int => decide (-(2 ^ 127) ≤ i ∧ i < 2 ^ 127)) (some n)
      = some n := by
    rw [Option.filter_some, if_pos (decide_eq_true ⟨hlow, hhigh⟩)]
  obtain ⟨hn, hlist⟩ | ⟨hn, hlist⟩ := toList_toString n
  · have hvalue : Int.ofNat n.toNat = n := Int.toNat_of_nonneg hn
    have hread := natural?_toDigits n.toNat
    have hdigits := isDigit_toDigits n.toNat
    rw [hlist]
    unfold integer?
    cases hds : Nat.toDigits 10 n.toNat with
    | nil => exact absurd hds Nat.toDigits_ne_nil
    | cons c ds =>
        rw [hds] at hread hdigits
        have hc : c.isDigit := hdigits c List.mem_cons_self
        split
        next h =>
          obtain ⟨rfl, -⟩ := List.cons.inj h
          cases hc
        next h =>
          obtain ⟨rfl, -⟩ := List.cons.inj h
          cases hc
        next =>
          rw [hread, Option.map_some, hvalue]
          exact hkept
  · have hvalue : -((-n).toNat : Int) = n := by omega
    rw [hlist]
    unfold integer?
    split
    next h =>
      obtain ⟨h, -⟩ := List.cons.inj h
      cases h
    next ds h =>
      obtain ⟨-, rfl⟩ := List.cons.inj h
      rw [natural?_toDigits]
      show Option.filter _ (some (-((-n).toNat : Int))) = some n
      rw [hvalue]
      exact hkept
    next hminus => exact absurd rfl (hminus _)

theorem isDigit_of_mem_toString {n : Int} {c : Char} (h : c ∈ (toString n).toList) :
    c = '-' ∨ c.isDigit := by
  obtain ⟨-, hlist⟩ | ⟨-, hlist⟩ := toList_toString n
  · rw [hlist] at h
    exact .inr (isDigit_toDigits _ c h)
  · rw [hlist] at h
    rcases List.mem_cons.mp h with rfl | h
    · exact .inl rfl
    · exact .inr (isDigit_toDigits _ c h)

end Decimal

/-! ### The range of a type -/

/-- The integer is in the range of the type. -/
def Primitive.Holds (p : Primitive) (n : Int) : Prop :=
  ∃ least greatest, p.range = some (least, greatest) ∧ least ≤ n ∧ n ≤ greatest

theorem Primitive.Holds.bounds {p : Primitive} {n : Int} (h : p.Holds n) :
    -2 ^ 127 ≤ n ∧ n < 2 ^ 127 := by
  obtain ⟨least, greatest, hrange, hlow, hhigh⟩ := h
  cases p <;> cases hrange <;> omega

theorem Primitive.holds_null {p : Primitive} {n : Int} (h : p.null = .int n) : p.Holds n := by
  cases p <;> cases h <;> exact ⟨_, _, rfl, by decide, by decide⟩

namespace Value

theorem holds_of_parseInteger {p : Primitive} {raw : String} {n : Int}
    (h : parseInteger p raw = .ok (.int n)) : p.Holds n := by
  unfold parseInteger at h
  split at h
  next m least greatest _ hrange =>
    obtain ⟨hin, h⟩ := guard_eq_ok.mp h
    cases h
    exact ⟨least, greatest, hrange, by omega, by omega⟩
  next => cases h
  next => split at h <;> cases h

/-- An integer that is read for a type is in its range. -/
theorem holds_of_parse {p : Primitive} (hp : p.isFloat = false) {raw : String} {n : Int}
    (h : parse p raw = .ok (.int n)) : p.Holds n := by
  unfold parse at h
  rw [hp, if_neg Bool.false_ne_true] at h
  split at h
  next hchar =>
    subst hchar
    split at h
    next c _ =>
      split at h
      next hc =>
        cases h
        exact ⟨0, 2 ^ 8 - 1, rfl, by omega, by omega⟩
      next => cases h
    next => exact holds_of_parseInteger h
  next => exact holds_of_parseInteger h

end Value

theorem Encoding.holds_of_applicableNull {e : Encoding} {p : Primitive} (hp : p.isFloat = false)
    {n : Int} (h : e.applicableNull p = .ok (.int n)) : p.Holds n := by
  unfold applicableNull applicable at h
  split at h
  · exact Value.holds_of_parse hp h
  · exact Primitive.holds_null (Except.ok.inj h)

/-! ### Literals in generated code -/

namespace Primitive

/-- The literal of an integer. -/
def numeral (p : Primitive) (n : Int) : String := s!"{n}_{p.typeName}"

/-- The integer that a literal denotes: a numeral, followed by the name of the type. -/
def integerOf? (p : Primitive) (literal : List Char) : Option Int :=
  if literal.dropWhile (· != '_') = '_' :: p.typeName.toList then
    Decimal.integer? (literal.takeWhile (· != '_'))
  else none

theorem toList_numeral (p : Primitive) (n : Int) :
    (p.numeral n).toList = (toString n).toList ++ '_' :: p.typeName.toList := by
  unfold numeral
  simp [toString]

theorem ne_underscore_of_mem {n : Int} : ∀ c ∈ (toString n).toList, (c != '_') = true := by
  intro c hc
  rw [bne_iff_ne]
  rintro rfl
  rcases Decimal.isDigit_of_mem_toString hc with h | h <;> cases h

theorem integerOf?_numeral {p : Primitive} {n : Int} (h : p.Holds n) :
    p.integerOf? (p.numeral n).toList = some n := by
  obtain ⟨hlow, hhigh⟩ := h.bounds
  unfold integerOf?
  rw [toList_numeral, List.dropWhile_append_of_pos ne_underscore_of_mem,
    List.takeWhile_append_of_pos ne_underscore_of_mem, List.dropWhile_cons_of_neg (by decide),
    List.takeWhile_cons_of_neg (by decide), List.append_nil, if_pos rfl]
  exact Decimal.integer?_toString hlow hhigh

theorem numeral_inj {p : Primitive} {m n : Int} (hm : p.Holds m) (hn : p.Holds n)
    (h : p.numeral m = p.numeral n) : m = n := by
  have hread := integerOf?_numeral hm
  rw [h, integerOf?_numeral hn] at hread
  exact (Option.some.inj hread).symm

end Primitive

/-- A literal can be made of a value that is no number of floating point exactly if it is an integer. -/
theorem Value.literal_eq_ok {p : Primitive} (hp : p.isFloat = false) {v : Value} {s : String} :
    v.literal p = .ok s ↔ ∃ n, v = .int n ∧ s = p.numeral n := by
  unfold literal Primitive.numeral
  cases v with
  | int n =>
      simp only [hp, Bool.false_eq_true, if_false, Except.ok.injEq, Value.int.injEq, eq_comm]
      constructor
      · intro h
        exact ⟨n, rfl, h⟩
      · rintro ⟨_, rfl, h⟩
        exact h
  | float x => simp [hp]
  | text t => simp

end WireCodec
