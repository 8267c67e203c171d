import Mathlib.Data.List.Basic
import Mathlib.Tactic.IntervalCases
import WireCodec.Json.Reader
import WireCodec.Proofs.Numerals
/-! # Texts and numbers are read as they were written

A document writes a text between quotes with its special characters escaped, and an integer in decimal
digits.  The readers undo this (`stringBody_spelled`, `number_toString`), whatever stands behind the
text, and behind the number if it does not go on with it (`Ends`).  `Reads r text x` states for a reader
what these say for scalars: behind any blanks it reads `x` from the text and leaves the rest. -/

namespace WireCodec.Reader

/-! ### Blanks -/

theorem dropBlank_append {blanks cs : List Char} (h : ∀ c ∈ blanks, isBlank c) :
    dropBlank (blanks ++ cs) = dropBlank cs := by
  unfold dropBlank
  rw [List.dropWhile_append_of_pos h]

theorem dropBlank_cons {c : Char} {cs : List Char} (h : isBlank c = false) :
    dropBlank (c :: cs) = c :: cs := by
  unfold dropBlank
  rw [List.dropWhile_cons_of_neg]
  rw [h]
  exact Bool.false_ne_true

/-- What may stand behind a value: a blank, a comma or a bracket that closes. -/
def closers : List Char := [' ', '\n', '\t', '\r', ',', ']', '\x7d']

theorem not_digit_of_mem_closers {c : Char} (h : c ∈ closers) :
    Decimal.isDigit c = false ∧ Decimal.digit? c = none := by
  simp only [closers, List.mem_cons, List.not_mem_nil, or_false] at h
  rcases h with rfl | rfl | rfl | rfl | rfl | rfl | rfl <;> exact ⟨rfl, rfl⟩

/-- The rest does not go on with a number: it is empty, or a character comes next that may stand behind
a value. -/
def Ends (rest : List Char) : Prop := ∀ c ∈ rest.head?, c ∈ closers

theorem ends_nil : Ends [] := by
  intro c h
  cases h

theorem ends_cons {c : Char} (h : c ∈ closers) (rest : List Char) : Ends (c :: rest) := by
  intro d hd
  cases hd
  exact h

theorem Ends.cases {rest : List Char} (h : Ends rest) :
    rest = [] ∨ ∃ c ∈ closers, ∃ r, rest = c :: r := by
  cases rest with
  | nil => exact .inl rfl
  | cons c r => exact .inr ⟨c, h c rfl, r, rfl⟩

/-- Behind any blanks the reader reads `x` from the text and leaves the rest. -/
def Reads {α : Type} (reader : Reader α) (text : List Char) (x : α) : Prop :=
  ∀ blanks, (∀ c ∈ blanks, isBlank c) → ∀ rest, Ends rest →
    reader (blanks ++ (text ++ rest)) = .ok (x, rest)

/-! ### Texts -/

/-- The characters of a text between its quotes. -/
def spelled (cs : List Char) : List Char := cs.flatMap Json.escapeChar

theorem quote_eq (s : String) : Json.quote s = '"' :: (spelled s.toList ++ ['"']) := rfl

theorem hexValue?_hexDigit : ∀ d < 16, hexValue? (Quoted.hexDigit d) = some d := by
  decide

theorem hexUnit_byte {n : Nat} (hn : n < 256) (rest : List Char) :
    hexUnit ('0' :: '0' :: Quoted.hexDigit (n / 16) :: Quoted.hexDigit (n % 16) :: rest)
      = .ok (n, rest) := by
  have hzero : hexValue? '0' = some 0 := rfl
  have hhigh := hexValue?_hexDigit (n / 16) (by omega)
  have hlow := hexValue?_hexDigit (n % 16) (by omega)
  have hsum : ((0 * 16 + 0) * 16 + n / 16) * 16 + n % 16 = n := by omega
  unfold hexUnit
  simp only [hzero, hhigh, hlow, hsum]

/-- A control character is read from its numeric escape. -/
theorem unicodeEscape_control {c : Char} (hc : c.toNat < 32) (rest : List Char) :
    unicodeEscape ('0' :: '0' :: Quoted.hexDigit (c.toNat / 16) :: Quoted.hexDigit (c.toNat % 16)
      :: rest) = .ok (c, rest) := by
  unfold unicodeEscape
  rw [hexUnit_byte (by omega)]
  have hlow : ¬ (0xDC00 ≤ c.toNat ∧ c.toNat ≤ 0xDFFF) := by omega
  have hhigh : ¬ (0xD800 ≤ c.toNat ∧ c.toNat ≤ 0xDBFF) := by omega
  simp only [bind, Except.bind, if_neg hlow, if_neg hhigh, Char.ofNat_toNat]
  rfl

/-- What is read in front of the rest of a string. -/
def consChar (c : Char) (r : Except Flaw (List Char × List Char)) :
    Except Flaw (List Char × List Char) := r.map fun (s, rest) => (c :: s, rest)

theorem stringRest_escaped {b e : Char} {bound t cs : List Char} (h : escaped t = .ok (e, cs)) :
    stringRest (b :: bound) ('\\' :: t) = consChar e (stringRest bound cs) := by
  rw [stringRest, if_neg (by decide), if_pos rfl, h]
  show (do
    let (s, rest) ← stringRest bound cs
    return (e :: s, rest)) = _
  cases stringRest bound cs <;> rfl

theorem stringRest_plain {b c : Char} {bound cs : List Char} (hquote : c ≠ '"')
    (hslash : c ≠ '\\') (hshown : ¬ c.toNat < 32) :
    stringRest (b :: bound) (c :: cs) = consChar c (stringRest bound cs) := by
  rw [stringRest, if_neg hquote, if_neg hslash, if_neg hshown]
  cases stringRest bound cs <;> rfl

/-- A character is read from the way in which it is spelled. -/
theorem stringRest_escapeChar (b : Char) (bound : List Char) (c : Char) (cs : List Char) :
    stringRest (b :: bound) (Json.escapeChar c ++ cs) = consChar c (stringRest bound cs) := by
  unfold Json.escapeChar
  by_cases hquote : c = '"'
  · subst hquote
    exact stringRest_escaped rfl
  by_cases hslash : c = '\\'
  · subst hslash
    exact stringRest_escaped rfl
  by_cases hline : c = '\n'
  · subst hline
    exact stringRest_escaped rfl
  by_cases hreturn : c = '\r'
  · subst hreturn
    exact stringRest_escaped rfl
  by_cases htab : c = '\t'
  · subst htab
    exact stringRest_escaped rfl
  rw [if_neg hquote, if_neg hslash, if_neg hline, if_neg hreturn, if_neg htab]
  by_cases hback : c.toNat = 8
  · have hc : c = '\x08' := Char.toNat_inj.mp hback
    rw [if_pos hback, hc]
    exact stringRest_escaped rfl
  by_cases hfeed : c.toNat = 12
  · have hc : c = '\x0c' := Char.toNat_inj.mp hfeed
    rw [if_neg hback, if_pos hfeed, hc]
    exact stringRest_escaped rfl
  rw [if_neg hback, if_neg hfeed]
  by_cases hcontrol : c.toNat < 32
  · rw [if_pos hcontrol]
    refine stringRest_escaped ?_
    show unicodeEscape _ = _
    exact unicodeEscape_control hcontrol cs
  · rw [if_neg hcontrol]
    exact stringRest_plain hquote hslash hcontrol

theorem stringRest_spelled (rest : List Char) : ∀ cs bound : List Char, cs.length < bound.length →
    stringRest bound (spelled cs ++ '"' :: rest) = .ok (cs, rest)
  | cs, [], h => by simp at h
  | [], b :: bound, _ => rfl
  | c :: cs, b :: bound, h => by
      have hlength : cs.length < bound.length := by simpa using h
      have hcons : spelled (c :: cs) ++ '"' :: rest
          = Json.escapeChar c ++ (spelled cs ++ '"' :: rest) := by
        simp [spelled]
      rw [hcons, stringRest_escapeChar, stringRest_spelled rest cs bound hlength]
      rfl

theorem length_le_spelled (cs : List Char) : cs.length ≤ (spelled cs).length := by
  induction cs with
  | nil => exact Nat.le_refl _
  | cons c cs ih =>
      have hpos : 0 < (Json.escapeChar c).length := by
        unfold Json.escapeChar
        split_ifs <;> simp
      simp only [spelled, List.flatMap_cons, List.length_append, List.length_cons] at ih ⊢
      omega

/-- **Texts.**  What is written between quotes is read as it was. -/
theorem stringBody_spelled (s : String) (rest : List Char) :
    stringBody (spelled s.toList ++ '"' :: rest) = .ok (s, rest) := by
  have hlength : s.toList.length < (spelled s.toList ++ '"' :: rest).length := by
    have := length_le_spelled s.toList
    simp
    omega
  unfold stringBody
  rw [stringRest_spelled rest _ _ hlength]
  simp [Except.map]

/-- Behind any blanks, what begins with a quote is seen from there on. -/
theorem dropBlank_quote {blanks : List Char} (h : ∀ c ∈ blanks, isBlank c) (s : String)
    (rest : List Char) :
    dropBlank (blanks ++ (Json.quote s ++ rest)) = '"' :: (spelled s.toList ++ '"' :: rest) := by
  rw [dropBlank_append h, quote_eq, List.cons_append, dropBlank_cons rfl, List.append_assoc,
    List.singleton_append]

theorem reads_text (s : String) : Reads text (Json.quote s) s := by
  intro blanks hblanks rest _
  unfold text
  rw [dropBlank_quote hblanks]
  exact stringBody_spelled s rest

theorem reads_word {α : Type} {ofWord? : String → Option α} {w : String} {x : α}
    (h : ofWord? w = some x) : Reads (word ofWord?) (Json.quote w) x := by
  intro blanks hblanks rest _
  unfold word
  rw [dropBlank_quote hblanks]
  simp only [stringBody_spelled, bind, Except.bind, h]
  rfl

theorem Reads.optional {α : Type} {reader : Reader α} {w : String} {x : α}
    (h : Reads reader (Json.quote w) x) : Reads (optional reader) (Json.quote w) (some x) := by
  intro blanks hblanks rest hends
  have hread := h [] (by simp) rest hends
  rw [List.nil_append, quote_eq, List.cons_append, List.append_assoc, List.singleton_append] at hread
  unfold Reader.optional
  rw [dropBlank_quote hblanks]
  show (reader ('"' :: (spelled w.toList ++ '"' :: rest)) >>= fun r => pure (some r.1, r.2)) = _
  rw [hread]
  rfl

/-- A value of any shape that is a text is read as that text. -/
theorem reads_value_text (levels : Nat) (s : String) :
    Reads (value levels) (Json.quote s) (.string s) := by
  intro blanks hblanks rest _
  unfold value
  rw [dropBlank_quote hblanks]
  have hdigit : ¬ ('"' = '-' ∨ Decimal.isDigit '"' = true) := by decide
  simp only [stringBody_spelled, bind, Except.bind, hdigit]
  rfl

/-! ### Numbers -/

theorem le_ofDigitChars (n : Nat) (ds : List Char) : n ≤ Nat.ofDigitChars 10 ds n := by
  rw [Nat.ofDigitChars_eq_ofDigitChars_zero]
  have hpos : 0 < 10 ^ ds.length := Nat.pow_pos (by omega)
  have := Nat.le_mul_of_pos_left n hpos
  omega

theorem lead_of_ends {rest : List Char} (h : Ends rest) (n read : Nat) :
    Json.lead n read rest = (n, read, rest) := by
  cases rest with
  | nil => rfl
  | cons c rest =>
      rw [Json.lead, (not_digit_of_mem_closers (h c rfl)).2]

theorem lead_digits {rest : List Char} (hrest : Ends rest) : ∀ (ds : List Char) (n read : Nat),
    (∀ c ∈ ds, c.isDigit) → Nat.ofDigitChars 10 ds n ≤ Json.greatestLead →
    Json.lead n read (ds ++ rest) = (Nat.ofDigitChars 10 ds n, read + ds.length, rest)
  | [], n, read, _, _ => lead_of_ends hrest n read
  | c :: ds, n, read, hds, hle => by
      obtain ⟨hc, hds⟩ := List.forall_mem_cons.mp hds
      rw [Nat.ofDigitChars_cons] at hle ⊢
      have hvalue : c.toNat - '0'.toNat = c.toNat - 48 := rfl
      rw [hvalue] at hle ⊢
      have hsmall := le_ofDigitChars (10 * n + (c.toNat - 48)) ds
      rw [List.cons_append, Json.lead, digit?_of_isDigit hc]
      show (if Json.greatestLead < 10 * n + (c.toNat - 48) then _ else _) = _
      rw [if_neg (by omega), lead_digits hrest ds _ _ hds hle, List.length_cons]
      congr 2
      omega

theorem head_toDigits {n : Nat} (hn : 0 < n) : (Nat.toDigits 10 n).head? ≠ some '0' := by
  induction n using Nat.strongRecOn with
  | ind n ih =>
      rw [Nat.toDigits_eq_if (by omega)]
      split
      next hlt =>
        interval_cases n <;> decide
      next hge =>
        have hne : Nat.toDigits 10 (n / 10) ≠ [] := Nat.toDigits_ne_nil
        rw [List.head?_append_of_ne_nil _ hne]
        exact ih (n / 10) (by omega) (by omega)

/-- The digits of a number are read as the number. -/
theorem unsignedNumber_toDigits {n : Nat} (hn : n < 2 ^ 64) (negative : Bool) {rest : List Char}
    (hrest : Ends rest) :
    Json.unsignedNumber negative (Nat.toDigits 10 n ++ rest)
      = if !negative then .ok (.integer n, rest)
        else if n = 0 ∨ 2 ^ 63 < n then .ok (.real (Binary64.ofNat n).neg, rest)
        else .ok (.integer (-n), rest) := by
  have hdigits := isDigit_toDigits n
  have hlead : Json.lead 0 0 (Nat.toDigits 10 n ++ rest)
      = (n, 0 + (Nat.toDigits 10 n).length, rest) := by
    have hvalue : Nat.ofDigitChars 10 (Nat.toDigits 10 n) 0 = n := Nat.ofDigitChars_ten_toDigits
    rw [lead_digits hrest _ 0 0 hdigits (by rw [hvalue]; unfold Json.greatestLead; omega), hvalue]
  have hzero : ∀ ds, Nat.toDigits 10 n = '0' :: ds → ds = [] := by
    intro ds hds
    rcases Nat.eq_zero_or_pos n with rfl | hpos
    · exact (List.cons.inj hds).2.symm
    · exact absurd (by rw [hds]; rfl) (head_toDigits hpos)
  cases hds : Nat.toDigits 10 n with
  | nil => exact absurd hds Nat.toDigits_ne_nil
  | cons c ds =>
      rw [hds] at hlead
      have hc : Decimal.isDigit c := isDigit_of_isDigit (hdigits c (by rw [hds]; simp))
      have hlone : ¬ (c = '0' ∧ (ds ++ rest).head?.any Decimal.isDigit) := by
        rintro ⟨rfl, hany⟩
        rw [hzero ds hds, List.nil_append] at hany
        obtain rfl | ⟨d, hd, r, rfl⟩ := hrest.cases
        · cases hany
        · exact absurd hany (by simp [(not_digit_of_mem_closers hd).1])
      unfold Json.unsignedNumber
      simp only [List.cons_append] at hlead ⊢
      rw [hc, if_neg (by decide), if_neg hlone, hlead]
      obtain rfl | ⟨d, hd, r, rfl⟩ := hrest.cases
      · rfl
      · simp only [closers, List.mem_cons, List.not_mem_nil, or_false] at hd
        rcases hd with rfl | rfl | rfl | rfl | rfl | rfl | rfl <;> rfl

/-- **Numbers.**  An integer of 64 bits is read as it was written. -/
theorem number_toString {n : Int} (hlow : -2 ^ 63 ≤ n) (hhigh : n < 2 ^ 64) {rest : List Char}
    (hrest : Ends rest) : Json.number ((toString n).toList ++ rest) = .ok (.integer n, rest) := by
  rw [Int.toString_eq_repr, Int.repr_eq_if]
  split
  next hpos =>
    rw [Nat.toList_repr]
    have hn : n.toNat < 2 ^ 64 := by omega
    have hvalue : (n.toNat : Int) = n := by omega
    have hplain : Json.number (Nat.toDigits 10 n.toNat ++ rest)
        = Json.unsignedNumber false (Nat.toDigits 10 n.toNat ++ rest) := by
      cases hds : Nat.toDigits 10 n.toNat with
      | nil => exact absurd hds Nat.toDigits_ne_nil
      | cons c ds =>
          have hc : c.isDigit := isDigit_toDigits n.toNat c (by rw [hds]; exact List.mem_cons_self)
          have hminus : c ≠ '-' := by
            rintro rfl
            cases hc
          unfold Json.number
          split
          next h => exact absurd (List.cons.inj h).1 hminus
          next => rfl
    rw [hplain, unsignedNumber_toDigits hn false hrest]
    simp [hvalue]
  next hneg =>
    have hn : (-n).toNat < 2 ^ 64 := by omega
    have hsmall : ¬ ((-n).toNat = 0 ∨ 2 ^ 63 < (-n).toNat) := by omega
    have hvalue : -((-n).toNat : Int) = n := by omega
    rw [String.toList_append, Nat.toList_repr]
    show Json.unsignedNumber true (Nat.toDigits 10 (-n).toNat ++ rest) = _
    rw [unsignedNumber_toDigits hn true hrest, if_neg (by decide), if_neg hsmall, hvalue]

theorem isBlank_of_isDigit {c : Char} (h : Decimal.isDigit c) : isBlank c = false := by
  unfold isBlank
  have hne : ∀ b : Char, Decimal.isDigit b = false → (c == b) = false := by
    intro b hb
    rw [beq_eq_false_iff_ne]
    rintro rfl
    rw [hb] at h
    cases h
  rw [hne ' ' rfl, hne '\n' rfl, hne '\t' rfl, hne '\r' rfl]
  rfl

/-- An integer is written with a minus sign or a digit in front. -/
theorem exists_toString_cons (n : Int) :
    ∃ c ds, (toString n).toList = c :: ds ∧ (c = '-' ∨ Decimal.isDigit c) := by
  rw [Int.toString_eq_repr, Int.repr_eq_if]
  split
  next =>
    rw [Nat.toList_repr]
    cases hds : Nat.toDigits 10 n.toNat with
    | nil => exact absurd hds Nat.toDigits_ne_nil
    | cons c ds =>
        have hc := isDigit_toDigits n.toNat c (by rw [hds]; exact List.mem_cons_self)
        exact ⟨c, ds, rfl, .inr (isDigit_of_isDigit hc)⟩
  next =>
    rw [String.toList_append]
    exact ⟨'-', _, rfl, .inl rfl⟩

theorem reads_integer {least greatest n : Int} (hlow : -2 ^ 63 ≤ least) (hhigh : greatest < 2 ^ 64)
    (hleast : least ≤ n) (hgreatest : n ≤ greatest) :
    Reads (integer least greatest) (toString n).toList n := by
  intro blanks hblanks rest hrest
  have hnumber := number_toString (n := n) (by omega) (by omega) hrest
  have hrange : ¬ (n < least ∨ greatest < n) := by omega
  obtain ⟨c, ds, hds, hc⟩ := exists_toString_cons n
  have hblank : isBlank c = false := by
    rcases hc with rfl | hc
    · rfl
    · exact isBlank_of_isDigit hc
  rw [hds, List.cons_append] at hnumber ⊢
  unfold integer
  rw [dropBlank_append hblanks, dropBlank_cons hblank]
  simp only [if_pos hc, hnumber, bind, Except.bind, if_neg hrange]
  rfl

end WireCodec.Reader
