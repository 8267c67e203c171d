import WireCodec.Proofs.Spelling
import WireCodec.Proofs.Wording
/-! # Quoted text is read back

Generated code is read by its own rules, which are stated here without the printer.  A literal goes from
a quote to the next one that is not escaped (`Rules.read`); between them stand escapes, each behind a
backslash, and characters that stand for themselves.  Byte strings and strings differ in these two
(`byteRules`, `textRules`).

What `Quoted.bytes` and `Quoted.text` write is read back as it was, and the reader stops exactly at the
end, whatever stands behind the literal (`read_quoted`).  So no text can change its meaning in a literal
or break out of it.  `Spells` says this of one byte or character and is what the two printers have to
satisfy. -/

namespace WireCodec.Quoted

open Text (Unbroken)

/-! ### Reading literals -/

/-- What may stand between the quotes of a literal. -/
structure Rules (α : Type) where
  /-- What an escape denotes, from behind its backslash on, and what follows it. -/
  escape? : List Char → Option (α × List Char)
  /-- What a character denotes that is neither a quote nor a backslash. -/
  plain? : Char → Option α

/-- Reads from behind the opening quote on to the closing one; what stands behind that is left. -/
def Rules.read {α : Type} (r : Rules α) : List Char → List Char → Option (List α × List Char)
  | _, [] => none
  | [], _ => none
  | _ :: bound, c :: cs =>
    if c = '"' then some ([], cs)
    else do
      let (x, cs) ← if c = '\\' then r.escape? cs else (r.plain? c).map (·, cs)
      let (xs, cs) ← r.read bound cs
      return (x :: xs, cs)

/-- The escapes of one character that all literals have. -/
def simpleEscape? : Char → Option Char
  | 't' => some '\t'
  | 'n' => some '\n'
  | 'r' => some '\r'
  | '\'' => some '\''
  | '"' => some '"'
  | '\\' => some '\\'
  | _ => none

/-- Byte strings: a byte may be given by two hexadecimal digits, and printable ASCII stands for itself. -/
def byteRules : Rules UInt8 where
  escape?
    | 'x' :: a :: b :: cs => do
      let high ← Reader.hexValue? a
      let low ← Reader.hexValue? b
      return ((16 * high + low).toUInt8, cs)
    | c :: cs => (simpleEscape? c).map fun e => (e.toNat.toUInt8, cs)
    | [] => none
  plain? c := if 32 ≤ c.toNat ∧ c.toNat < 127 then some c.toNat.toUInt8 else none

/-- The number that one to six hexadecimal digits denote. -/
def scalarValue? (ds : List Char) : Option Nat :=
  if ds = [] ∨ 6 < ds.length then none
  else ds.foldlM (fun n d => (Reader.hexValue? d).map (16 * n + ·)) 0

/-- Strings: a character may be given by the digits of its code point between braces, and every
character but the carriage return stands for itself. -/
def textRules : Rules Char where
  escape?
    | '0' :: cs => some ('\x00', cs)
    | 'u' :: '\x7b' :: cs => do
      let n ← scalarValue? (cs.takeWhile (· ≠ '\x7d'))
      if n.isValidChar ∧ '\x7d' ∈ cs then
        return (Char.ofNat n, (cs.dropWhile (· ≠ '\x7d')).tail)
      else none
    | c :: cs => (simpleEscape? c).map (·, cs)
    | [] => none
  plain? c := if c = '\r' then none else some c

/-- Reads a byte string literal off the front of a text. -/
def readBytes : List Char → Option (List UInt8 × List Char)
  | 'b' :: '"' :: cs => byteRules.read cs cs
  | _ => none

/-- Reads a string literal off the front of a text. -/
def readText : List Char → Option (List Char × List Char)
  | '"' :: cs => textRules.read cs cs
  | _ => none

/-! ### Escaped quotes -/

/-- Is the character behind a text escaped?  It is behind a backslash that is not escaped itself. -/
def escapes (cs : List Char) : Bool := cs.foldl (fun escaped c => c == '\\' && !escaped) false

/-- Every quote in the text is escaped. -/
def QuotesEscaped (cs : List Char) : Prop :=
  ∀ before after, cs = before ++ '"' :: after → escapes before

/-- The text may stand between quotes: all quotes in it are escaped, and so is none behind it. -/
structure IsInside (cs : List Char) : Prop where
  quotes : QuotesEscaped cs
  complete : escapes cs = false

theorem escapes_append {as : List Char} (h : escapes as = false) (bs : List Char) :
    escapes (as ++ bs) = escapes bs := by
  unfold escapes at h ⊢
  rw [List.foldl_append, h]

namespace IsInside

variable {as bs : List Char}

theorem nil : IsInside [] := by
  refine ⟨?_, rfl⟩
  intro before after h
  simp at h

theorem append (ha : IsInside as) (hb : IsInside bs) : IsInside (as ++ bs) := by
  refine ⟨?_, ?_⟩
  · intro before after h
    rcases List.append_eq_append_iff.mp h with ⟨rest, rfl, hrest⟩ | ⟨rest, rfl, hrest⟩
    · rw [escapes_append ha.complete]
      exact hb.quotes rest after hrest
    · cases rest with
      | nil => exact absurd (hb.quotes [] after hrest.symm) (by decide)
      | cons c rest =>
          obtain ⟨rfl, _⟩ := List.cons.inj hrest
          exact ha.quotes before rest rfl
  · rw [escapes_append ha.complete]
    exact hb.complete

theorem flatMap {α : Type} {f : α → List Char} {xs : List α} (h : ∀ x ∈ xs, IsInside (f x)) :
    IsInside (xs.flatMap f) := by
  induction xs with
  | nil => exact nil
  | cons x xs ih =>
      obtain ⟨hx, hxs⟩ := List.forall_mem_cons.mp h
      rw [List.flatMap_cons]
      exact hx.append (ih hxs)

theorem plain (h : ∀ c ∈ as, c ≠ '"' ∧ c ≠ '\\') : IsInside as := by
  induction as with
  | nil => exact nil
  | cons c as ih =>
      obtain ⟨hc, has⟩ := List.forall_mem_cons.mp h
      have hsingle : IsInside [c] := by
        refine ⟨?_, by simp [escapes, hc.2]⟩
        intro before after hsplit
        cases before with
        | nil => exact absurd (List.cons.inj hsplit).1 hc.1
        | cons b before => simp at hsplit
      exact hsingle.append (ih has)

theorem escape (c : Char) : IsInside ['\\', c] := by
  refine ⟨?_, by simp [escapes]⟩
  intro before after h
  match before, h with
  | [], h => exact absurd (List.cons.inj h).1 (by decide)
  | [b], h =>
      obtain ⟨rfl, _⟩ := List.cons.inj h
      decide
  | _ :: _ :: _, h => simp at h

end IsInside

/-! ### Spellings -/

/-- The text denotes `x` by some rules: it is one character, or an escape that is read whatever
follows, and behind whose first character neither quotes nor backslashes stand. -/
inductive Spells {α : Type} (r : Rules α) (x : α) : List Char → Prop
  | plain {c : Char} (quote : c ≠ '"') (backslash : c ≠ '\\') (read : r.plain? c = some x) :
      Spells r x [c]
  | escape {c : Char} {cs : List Char} (read : ∀ rest, r.escape? (c :: cs ++ rest) = some (x, rest))
      (tail : ∀ d ∈ cs, d ≠ '"' ∧ d ≠ '\\') : Spells r x ('\\' :: c :: cs)

section

variable {α : Type} {r : Rules α} {x : α} {cs : List Char} {spell : α → List Char}

theorem Spells.isInside (h : Spells r x cs) : IsInside cs := by
  cases h with
  | plain quote backslash _ =>
      apply IsInside.plain
      rw [List.forall_mem_singleton]
      exact ⟨quote, backslash⟩
  | @escape c cs _ tail => exact (IsInside.escape c).append (.plain tail)

theorem Spells.ne_nil (h : Spells r x cs) : cs ≠ [] := by
  cases h <;> exact List.cons_ne_nil _ _

/-- A spelling is read in front of the rest of a literal. -/
theorem Spells.read (h : Spells r x cs) (b : Char) (bound rest : List Char) :
    r.read (b :: bound) (cs ++ rest) = (r.read bound rest).map fun (xs, rest) => (x :: xs, rest) := by
  have hnext : ∀ o : Option (α × List Char), o = some (x, rest) →
      (do
        let (x, cs) ← o
        let (xs, cs) ← r.read bound cs
        return (x :: xs, cs)) = (r.read bound rest).map fun (xs, rest) => (x :: xs, rest) := by
    rintro _ rfl
    show (do
      let (xs, cs) ← r.read bound rest
      return (x :: xs, cs)) = _
    cases r.read bound rest <;> rfl
  cases h with
  | @plain c quote backslash read =>
      rw [List.singleton_append, Rules.read, if_neg quote, if_neg backslash]
      apply hnext
      rw [read]
      rfl
  | @escape c cs read _ =>
      rw [List.cons_append, Rules.read, if_neg (by decide), if_pos rfl]
      exact hnext _ (read rest)

theorem read_flatMap (h : ∀ x, Spells r x (spell x)) (rest : List Char) :
    ∀ (xs : List α) (bound : List Char), xs.length < bound.length →
      r.read bound (xs.flatMap spell ++ '"' :: rest) = some (xs, rest)
  | [], [], hbound => absurd hbound (Nat.lt_irrefl 0)
  | [], b :: bound, _ => by
      rw [List.flatMap_nil, List.nil_append, Rules.read, if_pos rfl]
  | x :: xs, [], hbound => absurd hbound (Nat.not_lt_zero _)
  | x :: xs, b :: bound, hbound => by
      have hxs := read_flatMap h rest xs bound (Nat.lt_of_succ_lt_succ hbound)
      rw [List.flatMap_cons, List.append_assoc, (h x).read, hxs]
      rfl

theorem length_le_flatMap (h : ∀ x, Spells r x (spell x)) (xs : List α) :
    xs.length ≤ (xs.flatMap spell).length := by
  induction xs with
  | nil => exact Nat.le_refl 0
  | cons x xs ih =>
      have hx := List.length_pos_of_ne_nil (h x).ne_nil
      rw [List.flatMap_cons, List.length_append, List.length_cons]
      omega

theorem read_spelled (h : ∀ x, Spells r x (spell x)) (xs : List α) (rest : List Char) :
    r.read (xs.flatMap spell ++ '"' :: rest) (xs.flatMap spell ++ '"' :: rest)
      = some (xs, rest) := by
  apply read_flatMap h
  have hlength := length_le_flatMap h xs
  rw [List.length_append, List.length_cons]
  omega

end

/-! ### Bytes -/

theorem byteEscape_hex {n : Nat} (hn : n < 256) (rest : List Char) :
    byteRules.escape? ('x' :: hexDigit (n / 16) :: hexDigit (n % 16) :: rest)
      = some (n.toUInt8, rest) := by
  have hhigh := Reader.hexValue?_hexDigit (n / 16) (by omega)
  have hlow := Reader.hexValue?_hexDigit (n % 16) (by omega)
  show (do
    let high ← Reader.hexValue? (hexDigit (n / 16))
    let low ← Reader.hexValue? (hexDigit (n % 16))
    return ((16 * high + low).toUInt8, rest)) = _
  rw [hhigh, hlow]
  show some ((16 * (n / 16) + n % 16).toUInt8, rest) = _
  rw [Nat.div_add_mod]

theorem plain_hexDigit : ∀ n < 16, hexDigit n ≠ '"' ∧ hexDigit n ≠ '\\' := by decide

/-- A byte denotes itself as it is spelled. -/
theorem spells_byte (b : UInt8) : Spells byteRules b (byte b) := by
  have hb : b.toNat < 256 := b.toNat_lt
  have hself : b.toNat.toUInt8 = b := UInt8.ofNat_toNat
  have hsimple : ∀ {c e : Char}, b.toNat = e.toNat → c ≠ 'x' → simpleEscape? c = some e →
      Spells byteRules b ['\\', c] := by
    intro c e he hx hc
    refine .escape (fun rest => ?_) (List.forall_mem_nil _)
    have hread : byteRules.escape? (c :: rest)
        = (simpleEscape? c).map fun e => (e.toNat.toUInt8, rest) := by
      unfold byteRules
      dsimp only
      split
      next h => exact absurd (List.cons.inj h).1 hx
      next h =>
        obtain ⟨rfl, rfl⟩ := List.cons.inj h
        rfl
      next h => cases h
    rw [List.singleton_append, hread, hc, Option.map_some, ← he, hself]
  unfold byte
  dsimp only
  split_ifs with htab hfeed hreturn hquote hsingle hslash hshown
  · exact hsimple (e := '\t') htab (by decide) rfl
  · exact hsimple (e := '\n') hfeed (by decide) rfl
  · exact hsimple (e := '\r') hreturn (by decide) rfl
  · exact hsimple (e := '"') hquote (by decide) rfl
  · exact hsimple (e := '\'') hsingle (by decide) rfl
  · exact hsimple (e := '\\') hslash (by decide) rfl
  · -- A printable byte stands for itself.
    have hcode : (Char.ofNat b.toNat).toNat = b.toNat := by
      rw [Char.ofNat, dif_pos (.inl (by omega))]
      rfl
    refine .plain ?_ ?_ ?_
    · intro h
      rw [h] at hcode
      exact hquote hcode.symm
    · intro h
      rw [h] at hcode
      exact hslash hcode.symm
    · show (if 32 ≤ (Char.ofNat b.toNat).toNat ∧ (Char.ofNat b.toNat).toNat < 127 then
        some (Char.ofNat b.toNat).toNat.toUInt8 else none) = some b
      rw [hcode, if_pos hshown, hself]
  · refine .escape (fun rest => ?_) ?_
    · rw [← hself]
      simpa using byteEscape_hex hb rest
    · simp only [List.forall_mem_cons]
      exact ⟨plain_hexDigit _ (by omega), plain_hexDigit _ (by omega), List.forall_mem_nil _⟩

/-! ### Characters -/

theorem hexValue?_digitChar : ∀ d < 16, Reader.hexValue? (Nat.digitChar d) = some d := by decide

theorem foldlM_hex (n : Nat) :
    (hex n).foldlM (fun n d => (Reader.hexValue? d).map (16 * n + ·)) 0 = some n := by
  unfold hex
  induction n using Nat.strongRecOn with
  | ind n ih =>
      rw [Nat.toDigits_eq_if (by decide)]
      split
      next hn =>
        rw [List.foldlM_cons, hexValue?_digitChar n hn]
        simp
      next hn =>
        have hlast := hexValue?_digitChar (n % 16) (Nat.mod_lt _ (by decide))
        rw [List.foldlM_append, ih (n / 16) (by omega)]
        simp only [Option.bind_eq_bind, Option.bind_some, List.foldlM_cons, List.foldlM_nil, hlast,
          Option.map_some, Option.pure_def]
        rw [Nat.div_add_mod]

/-- The digits of a code point are read as its number. -/
theorem scalarValue?_hex {n : Nat} (hn : n < 16 ^ 6) : scalarValue? (hex n) = some n := by
  have hlength : (hex n).length ≤ 6 := (Nat.length_toDigits_le_iff (by decide) (by decide)).mpr hn
  have hsome : hex n ≠ [] := Nat.toDigits_ne_nil
  unfold scalarValue?
  rw [if_neg (by simp [hsome, hlength]), foldlM_hex]

theorem ne_of_mem_hex {n : Nat} {c : Char} (h : c ∈ hex n) : c ≠ '"' ∧ c ≠ '\\' ∧ c ≠ '\x7d' := by
  unfold hex at h
  induction n using Nat.strongRecOn with
  | ind n ih =>
      have hdigit : ∀ m < 16, Nat.digitChar m ≠ '"' ∧ Nat.digitChar m ≠ '\\' ∧
          Nat.digitChar m ≠ '\x7d' := by decide
      rw [Nat.toDigits_eq_if (by decide)] at h
      split at h
      next hn =>
        rw [List.mem_singleton.mp h]
        exact hdigit n hn
      next hn =>
        rcases List.mem_append.mp h with h | h
        · exact ih (n / 16) (by omega) h
        · rw [List.mem_singleton.mp h]
          exact hdigit _ (Nat.mod_lt _ (by decide))

/-- A character is read from the digits of its code point between braces. -/
theorem textEscape_hex (c : Char) (rest : List Char) :
    textRules.escape? ('u' :: '\x7b' :: (hex c.toNat ++ '\x7d' :: rest)) = some (c, rest) := by
  have hdigits : ∀ d ∈ hex c.toNat, (decide (d ≠ '\x7d')) = true :=
    fun d hd => decide_eq_true (ne_of_mem_hex hd).2.2
  have htake : (hex c.toNat ++ '\x7d' :: rest).takeWhile (· ≠ '\x7d') = hex c.toNat := by
    rw [List.takeWhile_append_of_pos hdigits]
    simp
  have hdrop : (hex c.toNat ++ '\x7d' :: rest).dropWhile (· ≠ '\x7d') = '\x7d' :: rest := by
    rw [List.dropWhile_append_of_pos hdigits]
    simp
  have hsmall : c.toNat < 16 ^ 6 := by
    rcases c.valid with h | ⟨_, h⟩
    · exact Nat.lt_trans h (by decide)
    · exact Nat.lt_trans h (by decide)
  show (do
    let n ← scalarValue? ((hex c.toNat ++ '\x7d' :: rest).takeWhile (· ≠ '\x7d'))
    if n.isValidChar ∧ '\x7d' ∈ hex c.toNat ++ '\x7d' :: rest then
      return (Char.ofNat n, ((hex c.toNat ++ '\x7d' :: rest).dropWhile (· ≠ '\x7d')).tail)
    else none) = _
  rw [htake, hdrop, scalarValue?_hex hsmall]
  show (if c.toNat.isValidChar ∧ _ then _ else none) = _
  rw [if_pos ⟨c.valid, by simp⟩, Char.ofNat_toNat]
  rfl

/-- A character denotes itself as it is spelled. -/
theorem spells_char (c : Char) : Spells textRules c (char c) := by
  have hescape : ∀ {d e : Char}, c = e → (∀ rest, textRules.escape? (d :: rest) = some (e, rest)) →
      Spells textRules c ['\\', d] := by
    rintro d _ rfl hread
    exact .escape hread (List.forall_mem_nil _)
  unfold char
  split_ifs with hzero htab hfeed hreturn hquote hslash hshown
  · exact hescape hzero fun _ => rfl
  · exact hescape htab fun _ => rfl
  · exact hescape hfeed fun _ => rfl
  · exact hescape hreturn fun _ => rfl
  · exact hescape hquote fun _ => rfl
  · exact hescape hslash fun _ => rfl
  · exact .plain hquote hslash (if_neg hreturn)
  · show Spells textRules c ('\\' :: 'u' :: '\x7b' :: (hex c.toNat ++ ['\x7d']))
    refine .escape (fun rest => ?_) ?_
    · simpa using textEscape_hex c rest
    · simp only [List.forall_mem_cons, List.forall_mem_append]
      exact ⟨by decide, fun d hd => ⟨(ne_of_mem_hex hd).1, (ne_of_mem_hex hd).2.1⟩, by decide,
        List.forall_mem_nil _⟩

/-! ### Literals -/

/-- Between the quotes no line ends, and every quote is escaped. -/
theorem inside_of_spells {α : Type} {r : Rules α} {spell : α → List Char}
    (h : ∀ x, Spells r x (spell x)) (hunbroken : ∀ x, ∀ c ∈ spell x, Unbroken c) (xs : List α) :
    '\n' ∉ xs.flatMap spell ∧ '\r' ∉ xs.flatMap spell ∧ QuotesEscaped (xs.flatMap spell) := by
  have hall : ∀ c ∈ xs.flatMap spell, Unbroken c := by
    intro c hc
    obtain ⟨x, _, hc⟩ := List.mem_flatMap.mp hc
    exact hunbroken x c hc
  have hinside : IsInside (xs.flatMap spell) := .flatMap fun x _ => (h x).isInside
  exact ⟨fun hc => (hall _ hc).1 rfl, fun hc => (hall _ hc).2 rfl, hinside.quotes⟩

/-- **Quoted text.**  A byte string literal is read back as the UTF-8 bytes of the text and a string
literal as its characters, and what stands behind the literal is left.  Between the opening quote and
the closing one no line ends, and every quote is escaped. -/
theorem read_quoted (s : String) :
    (∀ rest, readBytes ((bytes s).toList ++ rest) = some (s.toUTF8.toList, rest)) ∧
    (∀ rest, readText ((text s).toList ++ rest) = some (s.toList, rest)) ∧
    (∃ inside, (bytes s).toList = ['b', '"'] ++ inside ++ ['"'] ∧
      '\n' ∉ inside ∧ '\r' ∉ inside ∧ QuotesEscaped inside) ∧
    ∃ inside, (text s).toList = ['"'] ++ inside ++ ['"'] ∧
      '\n' ∉ inside ∧ '\r' ∉ inside ∧ QuotesEscaped inside := by
  have hbytes : (bytes s).toList = ['b', '"'] ++ s.toUTF8.toList.flatMap byte ++ ['"'] :=
    String.toList_ofList
  have htext : (text s).toList = ['"'] ++ s.toList.flatMap char ++ ['"'] := String.toList_ofList
  refine ⟨fun rest => ?_, fun rest => ?_, ⟨_, hbytes, ?_⟩, ⟨_, htext, ?_⟩⟩
  · have hread := read_spelled spells_byte s.toUTF8.toList rest
    rw [hbytes]
    simpa [readBytes] using hread
  · have hread := read_spelled spells_char s.toList rest
    rw [htext]
    simpa [readText] using hread
  · exact inside_of_spells spells_byte unbroken_byte _
  · exact inside_of_spells spells_char unbroken_char _

end WireCodec.Quoted
