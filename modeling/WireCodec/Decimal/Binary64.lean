/-! # Numbers of double precision, exactly

A double precision number is kept as its sign, a significand below `2 ^ 53` and a power of two not
below `-1074`, so that every operation is exact arithmetic on naturals followed by one rounding:

* `Binary64.ofRatio` rounds a quotient of naturals to the nearest number, halves to even;
* `Binary64.mul` and `Binary64.div` are the exact product and quotient, rounded by `ofRatio`;
* `Binary64.equals` is the comparison of the arithmetic: not-a-number differs from itself and the
  two zeros are equal. -/

namespace WireCodec

-- Powers of numbers are those of the core library, whatever else gives meaning to `^`.
attribute [instance (high), default_instance (high + 1)] instPowNat

/-- A double precision number; `finite n m e` stands for `m * 2 ^ e`, negated when `n`. -/
inductive Binary64
  | nan
  | infinite (negative : Bool)
  | finite (negative : Bool) (significand : Nat) (exponent : Int)
  deriving DecidableEq, Repr

namespace Binary64

/-- The power of two of the smallest positive number. -/
def leastExponent : Int := -1074

/-- The power of two of the largest finite number. -/
def greatestExponent : Int := 971

/-- The zero of a given sign. -/
def zero (negative : Bool) : Binary64 := .finite negative 0 leastExponent

/-! ### Rounding -/

/-- The quotient of two naturals rounded to the nearest natural, halves to even. -/
def divideToEven (n d : Nat) : Nat :=
  let q := n / d
  let r := n % d
  if 2 * r < d then q else if d < 2 * r then q + 1 else q + q % 2

/-- The quotient `n / d` divided by `2 ^ e`, again as a quotient of naturals. -/
def scale (n d : Nat) (e : Int) : Nat × Nat :=
  if 0 ≤ e then (n, d * 2 ^ e.toNat) else (n * 2 ^ (-e).toNat, d)

/-- The greatest `k` with `2 ^ k ≤ n / d`, for positive `n` and `d`. -/
def binaryOrder (n d : Nat) : Int :=
  let k : Int := (n.log2 : Int) - d.log2
  let (a, b) := scale n d k
  if b ≤ a then k else k - 1

/-- The number nearest to `n / d`, a half going to the even significand, and the infinity of the
sign where the nearest significand would need a power of two beyond the greatest. -/
def ofRatio (negative : Bool) (n d : Nat) : Binary64 :=
  if n = 0 then zero negative
  else
    let e := max (binaryOrder n d - 52) leastExponent
    let (a, b) := scale n d e
    let s := divideToEven a b
    let (s, e) := if s = 2 ^ 53 then (2 ^ 52, e + 1) else (s, e)
    if greatestExponent < e then .infinite negative
    else if s = 0 then zero negative
    else .finite negative s e

/-- The number nearest to a natural. -/
def ofNat (n : Nat) : Binary64 := ofRatio false n 1

/-- The number nearest to `d * 10 ^ k`. -/
def ofDecimal (negative : Bool) (d : Nat) (k : Int) : Binary64 :=
  if 0 ≤ k then ofRatio negative (d * 10 ^ k.toNat) 1
  else ofRatio negative d (10 ^ (-k).toNat)

/-! ### Arithmetic -/

/-- The negative of a number. -/
def neg : Binary64 → Binary64
  | nan => nan
  | infinite n => .infinite !n
  | finite n m e => .finite (!n) m e

/-- The sign bit; not-a-number counts as positive. -/
def isNegative : Binary64 → Bool
  | nan => false
  | infinite n => n
  | finite n _ _ => n

def isNaN : Binary64 → Bool
  | nan => true
  | _ => false

def isInfinite : Binary64 → Bool
  | infinite _ => true
  | _ => false

/-- True of both zeros and of nothing else. -/
def isZero : Binary64 → Bool
  | finite _ m _ => m == 0
  | _ => false

/-- The quotient of naturals that the product `m * 2 ^ e` is. -/
def ratio (m : Nat) (e : Int) : Nat × Nat :=
  if 0 ≤ e then (m * 2 ^ e.toNat, 1) else (m, 2 ^ (-e).toNat)

/-- The rounded product. -/
def mul (x y : Binary64) : Binary64 :=
  let sign := x.isNegative != y.isNegative
  match x, y with
  | finite _ m e, finite _ n f => let (a, b) := ratio (m * n) (e + f); ofRatio sign a b
  | nan, _ => .nan
  | _, nan => .nan
  | _, _ => if x.isZero || y.isZero then .nan else .infinite sign

/-- The rounded quotient. -/
def div (x y : Binary64) : Binary64 :=
  let sign := x.isNegative != y.isNegative
  match x, y with
  | finite _ m e, finite _ n f =>
    if n = 0 then (if m = 0 then .nan else .infinite sign)
    else let (a, b) := ratio m (e - f); ofRatio sign a (b * n)
  | infinite _, finite .. => .infinite sign
  | finite .., infinite _ => zero sign
  | _, _ => .nan

/-- The comparison of the arithmetic. -/
def equals (x y : Binary64) : Bool :=
  !x.isNaN && !y.isNaN && (x == y || (x.isZero && y.isZero))

end Binary64
end WireCodec
