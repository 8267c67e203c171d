import WireCodec.Text.Printable
/-! # Quoted text

Two spellings of a text between double quotes, both of printable characters only:

* `Quoted.bytes` spells the UTF-8 bytes: a byte outside printable ASCII is `\xNN`;
* `Quoted.text` spells the characters: one that cannot be shown is `\u{...}`. -/

namespace WireCodec.Quoted

/-- The lower case hexadecimal digit of a number below sixteen. -/
def hexDigit (n : Nat) : Char :=
  if n < 10 then Char.ofNat (48 + n) else Char.ofNat (87 + n)

/-- The lower case hexadecimal digits of a number, without leading zeros. -/
def hex (n : Nat) : List Char := Nat.toDigits 16 n

/-- The spelling of one byte. -/
def byte (b : UInt8) : List Char :=
  let n := b.toNat
  if n = 9 then ['\\', 't']
  else if n = 10 then ['\\', 'n']
  else if n = 13 then ['\\', 'r']
  else if n = 34 then ['\\', '"']
  else if n = 39 then ['\\', '\'']
  else if n = 92 then ['\\', '\\']
  else if 32 ≤ n ∧ n < 127 then [Char.ofNat n]
  else ['\\', 'x', hexDigit (n / 16), hexDigit (n % 16)]

/-- The UTF-8 bytes of a text as a byte string literal. -/
def bytes (s : String) : String :=
  String.ofList (['b', '"'] ++ s.toUTF8.toList.flatMap byte ++ ['"'])

/-- The spelling of one character. -/
def char (c : Char) : List Char :=
  if c = '\x00' then ['\\', '0']
  else if c = '\t' then ['\\', 't']
  else if c = '\n' then ['\\', 'n']
  else if c = '\r' then ['\\', 'r']
  else if c = '"' then ['\\', '"']
  else if c = '\\' then ['\\', '\\']
  else if Printable.isShown c then [c]
  else ['\\', 'u', '\x7b'] ++ hex c.toNat ++ ['\x7d']

/-- A text as a string literal. -/
def text (s : String) : String :=
  String.ofList (['"'] ++ s.toList.flatMap char ++ ['"'])

end WireCodec.Quoted
