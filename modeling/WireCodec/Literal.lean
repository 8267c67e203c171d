import WireCodec.Decimal.Format
import WireCodec.Decimal.Reader
import WireCodec.Fault
import WireCodec.Primitive
import WireCodec.Text.Blank
import WireCodec.Text.Casing
import WireCodec.Text.Quoted
/-! # Literals

Literals are read from a schema in the context of their primitive type (`Value.parse`), and written
into generated code as typed literals (`Value.literal`).  A declared character encoding is either one
of two that can be expressed or a fault (`TextEncoding.ofDeclared`). -/

namespace WireCodec

/-! ### Reading -/

namespace Value

def isNaN : Value → Bool
  | float x => x.isNaN
  | _ => false

/-- The comparison of values: not-a-number differs from itself and the two zeros are equal. -/
def equals : Value → Value → Bool
  | int m, int n => m == n
  | float x, float y => x.equals y
  | text s, text t => s == t
  | _, _ => false

/-- Words that are read as numbers without digits. -/
def floatWord? (s : String) : Option Binary64 :=
  if s = "NaN" ∨ s = "nan" then some .nan
  else if s = "Infinity" ∨ s = "inf" then some (.infinite false)
  else if s = "-Infinity" ∨ s = "-inf" then some (.infinite true)
  else none

/-- The fault that an unreadable literal is. -/
def invalid (p : Primitive) (raw : String) : Fault := .invalidLiteral p.name raw

/-- A literal of an integer type, blank characters around it ignored.  Where no integer can be read
at all, characters stand for themselves and every other type refuses. -/
def parseInteger (p : Primitive) (raw : String) : Except Fault Value :=
  match Decimal.integer? (Text.trim raw.toList), p.range with
  | some n, some (least, greatest) =>
    if n < least ∨ greatest < n then .error (invalid p raw) else .ok (.int n)
  | some _, none => .error (invalid p raw)
  | none, _ => if p = .char then .ok (.text raw) else .error (invalid p raw)

/-- A literal in the context of its type.  A single character given for a character is its byte. -/
def parse (p : Primitive) (raw : String) : Except Fault Value :=
  if p.isFloat then
    let trimmed := Text.trim raw.toList
    match (floatWord? (String.ofList trimmed)).or (Decimal.real? trimmed) with
    | some x => .ok (.float x)
    | none => .error (invalid p raw)
  else if p = .char then
    match raw.toList with
    | [c] => if c.toNat < 0x80 then .ok (.int c.toNat) else .error (invalid p raw)
    | _ => parseInteger p raw
  else parseInteger p raw

/-- The text of a value. -/
def display : Value → String
  | int n => toString n
  | float x => Format.literal.text x
  | text s => s

end Value

/-! ### Writing -/

/-- The name of a primitive type in generated code. -/
def Primitive.typeName : Primitive → String
  | char | uint8 => "u8"
  | int8 => "i8"
  | int16 => "i16"
  | int32 => "i32"
  | int64 => "i64"
  | uint16 => "u16"
  | uint32 => "u32"
  | uint64 => "u64"
  | float => "f32"
  | double => "f64"

namespace Value

/-- The typed literal of a value.  A type refuses values of another kind, except that a floating type
takes integers. -/
def literal (p : Primitive) (v : Value) : Except Fault String :=
  let type := p.typeName
  match v with
  | int n => .ok (if p.isFloat then s!"{n}.0_{type}" else s!"{n}_{type}")
  | float x =>
    if p.isFloat then
      .ok (match x with
        | .nan => s!"{type}::NAN"
        | .infinite false => s!"{type}::INFINITY"
        | .infinite true => s!"{type}::NEG_INFINITY"
        | .finite .. => s!"{Format.literal.text x}_{type}")
    else .error (.invalidLiteral p.name v.display)
  | text _ => .error (.invalidLiteral p.name v.display)

/-- The condition that an expression holds the null value. -/
def nullCheck (p : Primitive) (expression : String) (null : Value) : Except Fault String :=
  if null.isNaN then .ok s!"{expression}.is_nan()"
  else do
    let value ← null.literal p
    return s!"{expression} == {value}"

end Value

/-! ### Character encodings -/

/-- How text is exposed: as raw bytes, or as validated text. -/
inductive TextEncoding
  | ascii
  | utf8
  deriving DecidableEq, Repr

namespace TextEncoding

/-- The names under which an encoding is declared, in any letter case. -/
def names : TextEncoding → List String
  | ascii => ["US-ASCII", "ASCII"]
  | utf8 => ["UTF-8", "UTF8"]

/-- The encoding that a member declares, if it declares one. -/
def ofDeclared (member : String) : Option String → Except Fault (Option TextEncoding)
  | none => .ok none
  | some declared =>
    if ascii.names.any (Casing.equalsAscii declared) then .ok (some ascii)
    else if utf8.names.any (Casing.equalsAscii declared) then .ok (some utf8)
    else .error (.unsupportedEncoding member declared)

end TextEncoding
end WireCodec
