import WireCodec.Decimal.Binary64
/-! # The fewest digits that read back

Every real in an interval around a double precision number rounds to that number; the ends belong to
it when the significand is even.  `Shortest.digits` looks for the shortest decimal in the interval:
for one, two, ... seventeen digits it tests the two neighbours of the number on the grid of that
many digits, and of two that hit it takes the nearer.  A tie is decided by the caller. -/

namespace WireCodec.Shortest

/-- Which of two equally near decimals is taken. -/
inductive Tie
  | up
  | even
  deriving DecidableEq, Repr

/-- The reals that round to a number, in units of `1 / den`: the number itself, the ends of the
interval, and whether the ends belong to it. -/
structure Interval where
  value : Nat
  low : Nat
  high : Nat
  den : Nat
  closed : Bool
  deriving Repr

/-- The interval of `m * 2 ^ e`.  Below a power of two the neighbours lie half as far apart. -/
def Interval.around (m : Nat) (e : Int) : Interval :=
  let below := if m = 2 ^ 52 ∧ Binary64.leastExponent < e then 1 else 2
  let (unit, den) := Binary64.ratio 1 (e - 2)
  ⟨4 * m * unit, (4 * m - below) * unit, (4 * m + 2) * unit, den, m % 2 == 0⟩

/-- Is `d * 10 ^ k` in the interval? -/
def Interval.contains (i : Interval) (d : Nat) (k : Int) : Bool :=
  let (a, b) := if 0 ≤ k then (d * 10 ^ k.toNat * i.den, 1) else (d * i.den, 10 ^ (-k).toNat)
  if i.closed then i.low * b ≤ a && a ≤ i.high * b else i.low * b < a && a < i.high * b

/-- The greatest `k` with `10 ^ k ≤ n / d`, for positive `n` and `d`. -/
def decimalOrder (n d : Nat) : Int :=
  let reaches (k : Int) : Bool :=
    if 0 ≤ k then d * 10 ^ k.toNat ≤ n else d ≤ n * 10 ^ (-k).toNat
  let k := Binary64.binaryOrder n d * 30103 / 100000 - 1
  if reaches (k + 3) then k + 3 else if reaches (k + 2) then k + 2
  else if reaches (k + 1) then k + 1 else k

/-- The decimal taken on the grid of multiples of `10 ^ k`, if one of the value's neighbours on it
lies in the interval. -/
def onGrid (tie : Tie) (i : Interval) (k : Int) : Option Nat :=
  let (n, d) := if 0 ≤ k then (i.value, i.den * 10 ^ k.toNat) else (i.value * 10 ^ (-k).toNat, i.den)
  let lower := n / d
  let rest := n % d
  match i.contains lower k, i.contains (lower + 1) k with
  | true, true =>
    if 2 * rest < d then some lower
    else if d < 2 * rest then some (lower + 1)
    else match tie with
      | .up => some (lower + 1)
      | .even => some (lower + lower % 2)
  | true, false => some lower
  | false, true => some (lower + 1)
  | false, false => none

/-- Grids from coarse to fine: the first hit, with its grid. -/
def search (tie : Tie) (i : Interval) (k : Int) : Nat → Nat × Int
  | 0 => (i.value / i.den, 0)
  | fuel + 1 =>
    match onGrid tie i k with
    | some d => (d, k)
    | none => search tie i (k - 1) fuel

/-- The decimal digits of a natural, most significant first. -/
def digitsOf (n : Nat) : List Char := (toString n).toList

/-- Trailing zeros moved into the power of ten. -/
def strip (d : Nat) (k : Int) : Nat → Nat × Int
  | 0 => (d, k)
  | fuel + 1 => if d ≠ 0 ∧ d % 10 = 0 then strip (d / 10) (k + 1) fuel else (d, k)

/-- The shortest decimal `d * 10 ^ k` that reads back as `m * 2 ^ e`, with `m` positive. -/
def digits (tie : Tie) (m : Nat) (e : Int) : Nat × Int :=
  let i := Interval.around m e
  let (d, k) := search tie i (decimalOrder i.value i.den) 17
  strip d k 400

end WireCodec.Shortest
