import WireCodec.Decimal.Binary64
/-! # Reading decimals

Integers are an optional sign and digits, refused outside a range.  Real numbers are an optional
sign and either digits with an optional point and an optional power of ten, or the words `inf`,
`infinity` and `nan` in any letter case; they are rounded correctly. -/

namespace WireCodec.Decimal

/-- The value of an ASCII digit. -/
def digit? (c : Char) : Option Nat :=
  if '0' ≤ c ∧ c ≤ '9' then some (c.toNat - '0'.toNat) else none

def isDigit (c : Char) : Bool := '0' ≤ c && c ≤ '9'

/-- The number that a list of digits denotes; other characters count as zero. -/
def ofDigits (cs : List Char) : Nat := cs.foldl (fun n c => 10 * n + (digit? c).getD 0) 0

/-- One or more digits and nothing else. -/
def natural? (cs : List Char) : Option Nat :=
  if cs ≠ [] ∧ cs.all isDigit then some (ofDigits cs) else none

/-! ### Integers -/

/-- An optional plus sign and digits, at most `greatest`. -/
def unsigned? (greatest : Nat) (cs : List Char) : Option Nat :=
  let n := match cs with
    | '+' :: ds => natural? ds
    | ds => natural? ds
  n.filter (· ≤ greatest)

/-- An optional sign and digits, within the range of 128 bits. -/
def integer? (cs : List Char) : Option Int :=
  let n := match cs with
    | '+' :: ds => (natural? ds).map Int.ofNat
    | '-' :: ds => (natural? ds).map fun n => -(n : Int)
    | ds => (natural? ds).map Int.ofNat
  n.filter fun i => -(2 ^ 127 : Int) ≤ i ∧ i < 2 ^ 127

/-! ### Real numbers -/

/-- The power of ten after `e`: an optional sign and digits up to the end.  Digits past `65536` no
longer count. -/
def power? (cs : List Char) : Option Int :=
  let (negative, ds) := match cs with
    | '-' :: r => (true, r)
    | '+' :: r => (false, r)
    | r => (false, r)
  if ds ≠ [] ∧ ds.all isDigit then
    let p := ds.foldl (fun p c => if p < 65536 then 10 * p + (digit? c).getD 0 else p) 0
    some (if negative then -(p : Int) else p)
  else none

/-- The number nearest to `d * 10 ^ k`, without computing powers of ten that decide nothing: past
the order 400 every number is infinite, and below the order -400 every number is zero. -/
def nearest (negative : Bool) (d : Nat) (k : Int) : Binary64 :=
  if d = 0 then .zero negative
  else
    let order := k + (toString d).length
    if 400 < order then .infinite negative
    else if order < -400 then .zero negative
    else .ofDecimal negative d k

/-- Digits with an optional point and an optional power of ten. -/
def unsignedReal? (negative : Bool) (cs : List Char) : Option Binary64 :=
  let whole := cs.takeWhile isDigit
  let rest := cs.dropWhile isDigit
  let (fraction, rest) := match rest with
    | '.' :: r => (r.takeWhile isDigit, r.dropWhile isDigit)
    | r => ([], r)
  if whole ++ fraction = [] then none
  else
    let power := match rest with
      | [] => some 0
      | c :: r => if c = 'e' ∨ c = 'E' then power? r else none
    power.map fun p => nearest negative (ofDigits (whole ++ fraction)) (p - fraction.length)

/-- The words for the numbers that have no digits, in any letter case. -/
def word? (negative : Bool) (cs : List Char) : Option Binary64 :=
  let w := String.ofList (cs.map Char.toLower)
  if w = "inf" ∨ w = "infinity" then some (.infinite negative)
  else if w = "nan" then some .nan
  else none

/-- A real number. -/
def real? (cs : List Char) : Option Binary64 :=
  let (negative, r) := match cs with
    | '-' :: r => (true, r)
    | '+' :: r => (false, r)
    | r => (false, r)
  (unsignedReal? negative r).or (word? negative r)

end WireCodec.Decimal
