import Mathlib.Data.BitVec
import WireCodec.Proofs.Numerals
import WireCodec.Proofs.Printing
/-! # Expressions of generated code

The accessors of a bit set combine the stored integer with shifted literals.  `Lexeme.ofLine` takes a
line of code apart, `Expression.operand` reads an expression from the front of some lexemes, and
`Expression.eval` is its value where an integer of some width is stored.  `Getter.ofBody?` and
`Setter.ofBody?` read the bodies of accessors in this way, so what is proved of an accessor is proved of
its text: the texts for bit `n` are read as `Getter.ofBit n` and `Setter.ofBit n`
(`Getter.ofBody?_bit`, `Setter.ofBody?_bit`), of which the first returns the bit and the second sets it
and leaves all others as they are (`Getter.run_ofBit`, `Setter.run_ofBit`).

Nothing is read in which two operators stand beside each other without brackets, so none of them has to
take precedence. -/

namespace WireCodec

/-! ### Lexemes -/

/-- A word of generated code, or a mark between words. -/
inductive Lexeme
  | word (cs : List Char)
  | mark (c : Char)
  deriving DecidableEq, Repr

namespace Lexeme

/-- Can the character stand in a word? -/
def isWord (c : Char) : Bool := c.isAlphanum || c == '_' || c == '.'

/-- The word that ends here, if one has begun. -/
def close (front : List Char) (rest : List Lexeme) : List Lexeme :=
  if front = [] then rest else word front :: rest

/-- The lexemes of a text behind the front of a word.  All that a blank does is to end a word. -/
def scan (front : List Char) : List Char → List Lexeme
  | [] => close front []
  | c :: cs =>
    if isWord c then scan (front ++ [c]) cs
    else close front (if c = ' ' then scan [] cs else mark c :: scan [] cs)

/-- The lexemes of a line. -/
def ofLine (s : String) : List Lexeme := scan [] s.toList

/-- The word for the stored integer. -/
def stored : Lexeme := word "self.0".toList

/-- What follows the lexemes of a text. -/
def expect (s : String) (lexemes : List Lexeme) : Option (List Lexeme) :=
  lexemes.dropPrefix? (ofLine s)

theorem scan_word_append {ds : List Char} (h : ∀ c ∈ ds, isWord c) (front rest : List Char) :
    scan front (ds ++ rest) = scan (front ++ ds) rest := by
  induction ds generalizing front with
  | nil => rw [List.nil_append, List.append_nil]
  | cons d ds ih =>
      obtain ⟨hd, hds⟩ := List.forall_mem_cons.mp h
      rw [List.cons_append, scan, if_pos hd, ih hds, List.append_assoc, List.singleton_append]

theorem close_append (front : List Char) (xs ys : List Lexeme) :
    close front (xs ++ ys) = close front xs ++ ys := by
  unfold close
  split <;> rfl

theorem scan_cons {c : Char} (hc : isWord c = false) (front cs : List Char) :
    scan front (c :: cs) = close front (scan [] (c :: cs)) := by
  have hword : ¬ isWord c = true := by simp [hc]
  rw [scan, scan, if_neg hword, if_neg hword]
  rfl

theorem scan_append {c : Char} (hc : isWord c = false) (cs rest front : List Char) :
    scan front (cs ++ c :: rest) = scan front cs ++ scan [] (c :: rest) := by
  induction cs generalizing front with
  | nil => rw [List.nil_append, scan_cons hc, scan, ← close_append, List.nil_append]
  | cons d cs ih =>
      rw [List.cons_append, scan, scan]
      split
      · exact ih _
      · rw [← close_append]
        congr 1
        split
        · exact ih []
        · rw [ih, List.cons_append]

theorem ofLine_blank (s t : String) : ofLine (s ++ " " ++ t) = ofLine s ++ ofLine t := by
  unfold ofLine
  rw [String.toList_append, String.toList_append, List.append_assoc]
  exact scan_append rfl s.toList t.toList []

theorem ofLine_mark {mark_ : String} {c : Char} (hmark : mark_.toList = [c]) (hc : isWord c = false)
    (hblank : c ≠ ' ') (s t : String) : ofLine (s ++ mark_ ++ t) = ofLine s ++ mark c :: ofLine t := by
  unfold ofLine
  rw [String.toList_append, String.toList_append, hmark, List.append_assoc, List.singleton_append,
    scan_append hc, scan, if_neg (by simp [hc]), if_neg hblank]
  rfl

theorem ofLine_numeral (n : Nat) : ofLine (toString n) = [word (Nat.toDigits 10 n)] := by
  have hword : ∀ c ∈ Nat.toDigits 10 n, isWord c := by
    intro c hc
    simp [isWord, Char.isAlphanum, isDigit_toDigits n c hc]
  have hscan := scan_word_append hword [] []
  rw [List.append_nil, List.nil_append] at hscan
  rw [ofLine, Nat.toString_eq_repr, Nat.toList_repr, hscan, scan, close, if_neg Nat.toDigits_ne_nil]

theorem expect_append (s : String) (rest : List Lexeme) : expect s (ofLine s ++ rest) = some rest :=
  List.dropPrefix?_eq_some_iff.mpr ⟨ofLine s, rfl, beq_self_eq_true _⟩

/-- The lexemes of a shifted one in brackets. -/
def bit (n : Nat) : List Lexeme :=
  [mark '(', word ['1'], mark '<', mark '<', word (Nat.toDigits 10 n), mark ')']

theorem ofLine_bit (n : Nat) (t : String) :
    ofLine ("(1 << " ++ toString n ++ ")" ++ t) = bit n ++ ofLine t := by
  have hfront : ofLine "(1 <<" = [mark '(', word ['1'], mark '<', mark '<'] := by decide
  have hline : "(1 << " ++ toString n ++ ")" ++ t = "(1 <<" ++ " " ++ (toString n ++ ")" ++ t) := by
    simp [← String.toList_inj]
  rw [hline, ofLine_blank, ofLine_mark (c := ')') (by decide) rfl (by decide), ofLine_numeral, hfront]
  rfl

end Lexeme

/-! ### Expressions -/

/-- An expression over the integer that a bit set stores. -/
inductive Expression
  | stored
  | literal (n : Nat)
  | not (e : Expression)
  | shift (e : Expression) (count : Nat)
  | and (a b : Expression)
  | or (a b : Expression)
  deriving DecidableEq, Repr

namespace Expression

/-- Reads an expression from the front of some lexemes, and returns what is left of them. -/
abbrev Reader := List Lexeme → Option (Expression × List Lexeme)

/-- An operand, or two operands with an operator between them. -/
def combination (operand : Reader) : Reader := fun lexemes => do
  let (a, rest) ← operand lexemes
  match rest with
  | .mark '<' :: .mark '<' :: .word count :: rest =>
    return (.shift a (← Decimal.natural? count), rest)
  | .mark '&' :: rest =>
    let (b, rest) ← operand rest
    return (.and a b, rest)
  | .mark '|' :: rest =>
    let (b, rest) ← operand rest
    return (.or a b, rest)
  | _ => return (a, rest)

/-- A word, something in brackets, or the complement of an operand, down to some depth. -/
def operand : Nat → Reader
  | depth + 1, .mark '(' :: rest => do
    let (e, .mark ')' :: rest) ← combination (operand depth) rest | none
    return (e, rest)
  | depth + 1, .mark '!' :: rest => do
    let (e, rest) ← operand depth rest
    return (.not e, rest)
  | _ + 1, .word w :: rest =>
    if .word w = Lexeme.stored then some (stored, rest)
    else (Decimal.natural? w).map fun n => (literal n, rest)
  | _, _ => none

/-- The value of an expression where `v` is stored.  There is none if a literal does not fit into every
integer type of the width, or if a shift reaches the width. -/
def eval {w : Nat} (v : BitVec w) : Expression → Option (BitVec w)
  | stored => some v
  | literal n => if n < 2 ^ (w - 1) then some (BitVec.ofNat w n) else none
  | not e => return ~~~ (← e.eval v)
  | shift e count => if count < w then return (← e.eval v) <<< count else none
  | and a b => return (← a.eval v) &&& (← b.eval v)
  | or a b => return (← a.eval v) ||| (← b.eval v)

/-- By how much the expression shifts, at any depth. -/
def shifts : Expression → List Nat
  | stored | literal _ => []
  | not e => e.shifts
  | shift e count => e.shifts ++ [count]
  | and a b | or a b => a.shifts ++ b.shifts

/-- A one that is shifted to bit `n`. -/
def bit (n : Nat) : Expression := .shift (.literal 1) n

section reading

variable {read : Reader} {a b e : Expression} {n depth : Nat} {lexemes behind rest : List Lexeme}

theorem operand_stored : operand (depth + 1) (Lexeme.stored :: rest) = some (stored, rest) := if_pos rfl

theorem operand_literal {ds : List Char} (hds : .word ds ≠ Lexeme.stored)
    (h : Decimal.natural? ds = some n) :
    operand (depth + 1) (.word ds :: rest) = some (literal n, rest) := by
  rw [operand, if_neg hds, h, Option.map_some]

theorem operand_brackets (h : combination (operand depth) lexemes = some (e, .mark ')' :: rest)) :
    operand (depth + 1) (.mark '(' :: lexemes) = some (e, rest) := by
  rw [operand, h]
  rfl

theorem operand_not (h : operand depth lexemes = some (e, rest)) :
    operand (depth + 1) (.mark '!' :: lexemes) = some (not e, rest) := by
  rw [operand, h]
  rfl

theorem combination_shift {count : List Char}
    (ha : read lexemes = some (a, .mark '<' :: .mark '<' :: .word count :: rest))
    (hcount : Decimal.natural? count = some n) :
    combination read lexemes = some (shift a n, rest) := by
  rw [combination, ha]
  simp [hcount]

theorem combination_and (ha : read lexemes = some (a, .mark '&' :: behind))
    (hb : read behind = some (b, rest)) : combination read lexemes = some (and a b, rest) := by
  rw [combination, ha]
  simp [hb]

theorem combination_or (ha : read lexemes = some (a, .mark '|' :: behind))
    (hb : read behind = some (b, rest)) : combination read lexemes = some (or a b, rest) := by
  rw [combination, ha]
  simp [hb]

theorem operand_bit : operand (depth + 2) (Lexeme.bit n ++ rest) = some (bit n, rest) :=
  operand_brackets <|
    combination_shift (operand_literal (by decide) (by decide)) (Decimal.natural?_toDigits n)

end reading

variable {w n : Nat} {v : BitVec w}

theorem eval_bit (hw : 1 < w) (hn : n < w) : (bit n).eval v = some (BitVec.twoPow w n) := by
  have hone : 1 < 2 ^ (w - 1) := Nat.one_lt_two_pow (by omega)
  simp only [bit, eval, if_pos hn, if_pos hone, Option.bind_eq_bind, Option.bind_some, Option.pure_def]
  rw [BitVec.twoPow]

theorem eval_zero : (literal 0).eval v = some 0#w := if_pos (Nat.two_pow_pos _)

end Expression

/-! ### Accessors -/

open Expression (operand combination)

/-- A getter that tells whether two values differ. -/
structure Getter where
  left : Expression
  right : Expression
  deriving DecidableEq, Repr

namespace Getter

/-- The getter that a line states. -/
def ofLine? (line : String) : Option Getter := do
  let lexemes := Lexeme.ofLine line
  let (left, rest) ← operand lexemes.length lexemes
  let (right, []) ← operand lexemes.length (← Lexeme.expect "!=" rest) | none
  return ⟨left, right⟩

/-- The getter with a body. -/
def ofBody? (body : List Code) : Option Getter :=
  match Code.linesAll {} 0 body with
  | [line] => ofLine? line
  | _ => none

/-- What the getter returns where `v` is stored. -/
def run {w : Nat} (g : Getter) (v : BitVec w) : Option Bool :=
  return (← g.left.eval v) != (← g.right.eval v)

/-- By how much the getter shifts. -/
def shifts (g : Getter) : List Nat := g.left.shifts ++ g.right.shifts

/-- The getter of bit `n`. -/
def ofBit (n : Nat) : Getter := ⟨.and .stored (.bit n), .literal 0⟩

theorem ofLine_bit (n : Nat) :
    Lexeme.ofLine s!"(self.0 & (1 << {n})) != 0"
      = .mark '(' :: .stored :: .mark '&'
        :: (Lexeme.bit n ++ .mark ')' :: (Lexeme.ofLine "!=" ++ [.word ['0']])) := by
  have hfront : Lexeme.ofLine "(self.0 &" = [.mark '(', .stored, .mark '&'] := by decide
  have hback : Lexeme.ofLine ") != 0" = .mark ')' :: (Lexeme.ofLine "!=" ++ [.word ['0']]) := by decide
  have hline : s!"(self.0 & (1 << {n})) != 0"
      = "(self.0 &" ++ " " ++ ("(1 << " ++ toString n ++ ")" ++ ") != 0") := by
    simp [← String.toList_inj, toString]
  rw [hline, Lexeme.ofLine_blank, Lexeme.ofLine_bit, hfront, hback]
  rfl

theorem ofLine?_bit (n : Nat) : ofLine? s!"(self.0 & (1 << {n})) != 0" = some (ofBit n) := by
  obtain ⟨depth, hdepth⟩ :
      ∃ depth, (Lexeme.ofLine s!"(self.0 & (1 << {n})) != 0").length = depth + 3 := by
    rw [ofLine_bit]
    exact ⟨_, rfl⟩
  have hleft : ∀ rest, operand (depth + 3) (.mark '(' :: .stored :: .mark '&'
      :: (Lexeme.bit n ++ .mark ')' :: rest)) = some (.and .stored (.bit n), rest) := fun rest =>
    Expression.operand_brackets (Expression.combination_and Expression.operand_stored
      Expression.operand_bit)
  have hright : operand (depth + 3) [.word ['0']] = some (.literal 0, []) :=
    Expression.operand_literal (by decide) (by decide)
  unfold ofLine?
  dsimp only
  rw [hdepth, ofLine_bit, hleft]
  simp [Lexeme.expect_append, hright, ofBit]

theorem ofBody?_bit (n : Nat) :
    ofBody? [Code.text s!"(self.0 & (1 << {n})) != 0"] = some (ofBit n) := by
  unfold ofBody?
  rw [← List.map_singleton, Code.linesAll_map_text, List.map_singleton, Style.indented_zero]
  exact ofLine?_bit n

variable {w n : Nat}

/-- The getter of a bit returns the bit. -/
theorem run_ofBit (hw : 1 < w) (hn : n < w) (v : BitVec w) :
    (ofBit n).run v = some (v.getLsbD n) := by
  have hbit : BitVec.twoPow w n ≠ 0#w := by
    intro h
    have := congrArg (BitVec.getLsbD · n) h
    simp [hn] at this
  have hleft : (Expression.and .stored (.bit n)).eval v
      = some (if v.getLsbD n then BitVec.twoPow w n else 0#w) := by
    rw [Expression.eval, Expression.eval_bit hw hn, Expression.eval, ← BitVec.and_twoPow]
    rfl
  unfold run ofBit
  rw [hleft, Expression.eval_zero]
  cases v.getLsbD n with
  | false => simp
  | true => simpa using hbit

end Getter

/-- A setter that stores one of two values. -/
structure Setter where
  on : Expression
  off : Expression
  deriving DecidableEq, Repr

namespace Setter

/-- The setter that a line states. -/
def ofLine? (line : String) : Option Setter := do
  let lexemes := Lexeme.ofLine line
  let rest ← Lexeme.expect "self.0 = if value \x7b" lexemes
  let (on, rest) ← combination (operand lexemes.length) rest
  let rest ← Lexeme.expect "\x7d else \x7b" rest
  let (off, rest) ← combination (operand lexemes.length) rest
  if rest = Lexeme.ofLine "\x7d;" then return ⟨on, off⟩ else none

/-- The setter with a body, which returns the bit set itself. -/
def ofBody? (body : List Code) : Option Setter :=
  match Code.linesAll {} 0 body with
  | [line, "self"] => ofLine? line
  | _ => none

/-- What is stored behind the setter where `v` is stored in front of it. -/
def run {w : Nat} (s : Setter) (value : Bool) (v : BitVec w) : Option (BitVec w) :=
  if value then s.on.eval v else s.off.eval v

/-- By how much the setter shifts. -/
def shifts (s : Setter) : List Nat := s.on.shifts ++ s.off.shifts

/-- The setter of bit `n`. -/
def ofBit (n : Nat) : Setter := ⟨.or .stored (.bit n), .and .stored (.not (.bit n))⟩

/-- The line of a setter. -/
def line (n : Nat) : String :=
  s!"self.0 = if value \x7b self.0 | (1 << {n}) \x7d else "
    ++ s!"\x7b self.0 & !(1 << {n}) \x7d;"

theorem ofLine_line (n : Nat) :
    Lexeme.ofLine (line n)
      = Lexeme.ofLine "self.0 = if value \x7b" ++ .stored :: .mark '|' :: (Lexeme.bit n
        ++ (Lexeme.ofLine "\x7d else \x7b" ++ .stored :: .mark '&' :: .mark '!' :: (Lexeme.bit n
          ++ Lexeme.ofLine "\x7d;"))) := by
  have hor : Lexeme.ofLine "self.0 |" = [.stored, .mark '|'] := by decide
  have hand : Lexeme.ofLine "self.0 &" = [.stored, .mark '&'] := by decide
  have hempty : Lexeme.ofLine "" = [] := rfl
  have hline : line n = "self.0 = if value \x7b" ++ " " ++ ("self.0 |" ++ " " ++
      ("(1 << " ++ toString n ++ ")" ++ ("" ++ " " ++ ("\x7d else \x7b" ++ " " ++ ("self.0 &" ++ " " ++
        ("" ++ "!" ++ ("(1 << " ++ toString n ++ ")" ++ ("" ++ " " ++ "\x7d;")))))))) := by
    unfold line
    simp [← String.toList_inj, toString]
  have hnot : ∀ s t : String,
      Lexeme.ofLine (s ++ "!" ++ t) = Lexeme.ofLine s ++ .mark '!' :: Lexeme.ofLine t :=
    Lexeme.ofLine_mark (by decide) rfl (by decide)
  simp only [hline, Lexeme.ofLine_blank, Lexeme.ofLine_bit, hor, hand, hempty, hnot, List.cons_append,
    List.nil_append]

theorem ofLine?_line (n : Nat) : ofLine? (line n) = some (ofBit n) := by
  obtain ⟨depth, hdepth⟩ : ∃ depth, (Lexeme.ofLine (line n)).length = depth + 3 := by
    rw [ofLine_line]
    exact ⟨_, rfl⟩
  have hon : ∀ rest, combination (operand (depth + 3))
      (.stored :: .mark '|' :: (Lexeme.bit n ++ rest)) = some (.or .stored (.bit n), rest) := fun rest =>
    Expression.combination_or Expression.operand_stored Expression.operand_bit
  have hoff : ∀ rest, combination (operand (depth + 3))
      (.stored :: .mark '&' :: .mark '!' :: (Lexeme.bit n ++ rest))
        = some (.and .stored (.not (.bit n)), rest) := fun rest =>
    Expression.combination_and Expression.operand_stored
      (Expression.operand_not Expression.operand_bit)
  unfold ofLine?
  dsimp only
  rw [hdepth, ofLine_line]
  simp [hon, hoff, Lexeme.expect_append, ofBit]

theorem ofBody?_bit (n : Nat) : ofBody? [Code.text (line n), "self"] = some (ofBit n) := by
  have hbody : Code.linesAll {} 0 [Code.text (line n), "self"] = [line n, "self"] := by
    have hlines := Code.linesAll_map_text {} 0 [line n, "self"]
    rw [List.map_congr_left fun l _ => Style.indented_zero l, List.map_id'] at hlines
    exact hlines
  unfold ofBody?
  rw [hbody]
  exact ofLine?_line n

variable {w n : Nat}

/-- The setter of a bit gives it a value, and leaves all others as they are. -/
theorem run_ofBit (hw : 1 < w) (hn : n < w) (value : Bool) (v : BitVec w) :
    ∃ v', (ofBit n).run value v = some v' ∧
      ∀ m < w, v'.getLsbD m = if m = n then value else v.getLsbD m := by
  cases value with
  | false =>
      refine ⟨v &&& ~~~ BitVec.twoPow w n, ?_, fun m hm => ?_⟩
      · simp [run, ofBit, Expression.eval, Expression.eval_bit hw hn]
      · by_cases h : m = n
        · simp [h]
        · simp [h, hm]
  | true =>
      refine ⟨v ||| BitVec.twoPow w n, ?_, fun m hm => ?_⟩
      · simp [run, ofBit, Expression.eval, Expression.eval_bit hw hn]
      · by_cases h : m = n
        · simp [h, hn]
        · simp [h, Ne.symm h]

end Setter
end WireCodec
