import WireCodec.Decimal.Reader
import WireCodec.Fault
import WireCodec.Json.Basic
/-! # Numbers in documents

A number without point and power is an integer as long as 64 bits hold it, a zero with a minus sign
apart.  Every other number is a double precision number, found by one multiplication or division of
its leading digits by a power of ten: fast, but at times next to the nearest number.  A number that
is too large breaks the grammar.  This is how `serde_json` reads numbers unless it is asked for exact
ones. -/

namespace WireCodec.Json

/-- The largest value of the leading digits. -/
def greatestLead : Nat := 2 ^ 64 - 1

/-- Reads digits into `n` as long as it stays below the bound; says how many were read. -/
def lead (n read : Nat) : List Char → Nat × Nat × List Char
  | [] => (n, read, [])
  | c :: cs =>
    match Decimal.digit? c with
    | some d => if greatestLead < 10 * n + d then (n, read, c :: cs) else lead (10 * n + d) (read + 1) cs
    | none => (n, read, c :: cs)

/-- A power of ten, rounded. -/
def tenTo (k : Nat) : Binary64 := .ofNat (10 ^ k)

/-- The number `x * 10 ^ k`, by steps of at most `10 ^ 308`; nothing if it is too large. -/
def scaleTen : Nat → Binary64 → Int → Option Binary64
  | 0, x, _ => some x
  | fuel + 1, x, k =>
    if k.natAbs ≤ 308 then
      if 0 ≤ k then
        let y := x.mul (tenTo k.natAbs)
        if y.isInfinite then none else some y
      else some (x.div (tenTo k.natAbs))
    else if x.isZero then some x
    else if 0 ≤ k then none
    else scaleTen fuel (x.div (tenTo 308)) (k + 308)

/-- The number that leading digits and a power of ten stand for. -/
def approximate (negative : Bool) (n : Nat) (k : Int) : Except Flaw Json :=
  match scaleTen 4 (.ofNat n) k with
  | some x => .ok (.real (if negative then x.neg else x))
  | none => .error .grammar

/-- The part of a number from the `e` on. -/
def exponent (negative : Bool) (n : Nat) (k : Int) (cs : List Char) :
    Except Flaw (Json × List Char) :=
  let (minus, cs) := match cs with
    | '+' :: r => (false, r)
    | '-' :: r => (true, r)
    | r => (false, r)
  match cs with
  | [] => .error .ending
  | c :: _ =>
    if Decimal.isDigit c then
      let ds := cs.takeWhile Decimal.isDigit
      let rest := cs.dropWhile Decimal.isDigit
      let p := ds.foldl (fun p c => if p < 2 ^ 31 then 10 * p + (Decimal.digit? c).getD 0 else p) 0
      if p < 2 ^ 31 then
        (approximate negative n (if minus then k - p else k + p)).map (·, rest)
      else if n ≠ 0 ∧ !minus then .error .grammar
      else .ok (.real (.zero negative), rest)
    else .error .grammar

/-- The end of a number that is no integer: a power of ten, or nothing more. -/
def finish (negative : Bool) (n : Nat) (k : Int) : List Char → Except Flaw (Json × List Char)
  | [] => (approximate negative n k).map (·, [])
  | c :: cs =>
    if c = 'e' ∨ c = 'E' then exponent negative n k cs
    else (approximate negative n k).map (·, c :: cs)

/-- The part of a number after the point. -/
def fraction (negative : Bool) (n : Nat) (k : Int) (cs : List Char) :
    Except Flaw (Json × List Char) :=
  match cs with
  | [] => .error .ending
  | c :: _ =>
    if Decimal.isDigit c then
      let (n, read, rest) := lead n 0 cs
      finish negative n (k - read) (rest.dropWhile Decimal.isDigit)
    else .error .grammar

/-- A number without its minus sign, from its first digit on. -/
def unsignedNumber (negative : Bool) (cs : List Char) : Except Flaw (Json × List Char) :=
  match cs with
  | [] => .error .ending
  | c :: r =>
    if !Decimal.isDigit c then .error .grammar
    else if c = '0' ∧ r.head?.any Decimal.isDigit then .error .grammar
    else
      let (n, _, rest) := lead 0 0 cs
      let extra := rest.takeWhile Decimal.isDigit
      let rest := rest.dropWhile Decimal.isDigit
      match rest with
      | '.' :: r => fraction negative n extra.length r
      | rest =>
        if extra ≠ [] ∨ rest.head?.any (fun c => c = 'e' ∨ c = 'E') then
          finish negative n extra.length rest
        else if !negative then .ok (.integer n, rest)
        else if n = 0 ∨ 2 ^ 63 < n then .ok (.real (Binary64.ofNat n).neg, rest)
        else .ok (.integer (-n), rest)

/-- A number. -/
def number (cs : List Char) : Except Flaw (Json × List Char) :=
  match cs with
  | '-' :: r => unsignedNumber true r
  | r => unsignedNumber false r

end WireCodec.Json
