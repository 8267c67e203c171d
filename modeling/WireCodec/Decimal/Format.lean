import WireCodec.Decimal.Shortest
/-! # Decimal text of a number

A number is written with the fewest digits that read back.  In a middle range it is written
positionally, with at least one digit on either side of the point; outside it as one digit, a
fraction if there is one, and `e` with the power of ten.  `Format` holds what differs from one kind
of text to another. -/

namespace WireCodec

/-- The choices of one kind of decimal text. -/
structure Format where
  /-- The least decimal order that is written positionally. -/
  least : Int
  /-- The least decimal order beyond the positional range. -/
  beyond : Int
  /-- Which of two equally near decimals is written. -/
  tie : Shortest.Tie
  /-- Does a positive power of ten carry a sign? -/
  plus : Bool
  deriving Repr

namespace Format

/-- Numbers in literals of generated code are positional from `1e-4` to below `1e16`. -/
def literal : Format := ⟨-4, 16, .up, false⟩

/-- Numbers in compact documents are positional from `1e-5` to below `1e16`. -/
def document : Format := ⟨-5, 16, .even, true⟩

def zeros (n : Nat) : List Char := List.replicate n '0'

/-- The positional text of the digits `ds` with the point after the first `point` places. -/
def positional (ds : List Char) (point : Int) : List Char :=
  if point ≤ 0 then ['0', '.'] ++ zeros (-point).toNat ++ ds
  else if ds.length ≤ point.toNat then ds ++ zeros (point.toNat - ds.length) ++ ['.', '0']
  else ds.take point.toNat ++ ['.'] ++ ds.drop point.toNat

/-- One digit, the others as a fraction, and the power of ten. -/
def scientific (f : Format) (ds : List Char) (order : Int) : List Char :=
  let fraction := if ds.length ≤ 1 then [] else '.' :: ds.drop 1
  let sign := if f.plus ∧ 0 ≤ order then ['+'] else []
  ds.take 1 ++ fraction ++ ['e'] ++ sign ++ (toString order).toList

/-- The text of the magnitude `m * 2 ^ e`. -/
def magnitude (f : Format) (m : Nat) (e : Int) : List Char :=
  if m = 0 then ['0', '.', '0']
  else
    let (d, k) := Shortest.digits f.tie m e
    let ds := Shortest.digitsOf d
    let order := k + ds.length - 1
    if f.least ≤ order ∧ order < f.beyond then positional ds (order + 1)
    else f.scientific ds order

/-- The text of a number. -/
def text (f : Format) : Binary64 → String
  | .nan => "NaN"
  | .infinite false => "inf"
  | .infinite true => "-inf"
  | .finite false m e => String.ofList (f.magnitude m e)
  | .finite true m e => String.ofList ('-' :: f.magnitude m e)

end Format
end WireCodec
