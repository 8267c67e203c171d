import WireCodec.Decimal.Format
import WireCodec.Text.Quoted
/-! # Documents

A document value keeps the members of an object in a list.  `Json.compact` writes a value without
blanks, `Json.pretty` with two blanks of indentation to each level; both keep the order of the
members.  They write as the two printers of `serde_json` are documented to. -/

namespace WireCodec

/-- A document value. -/
inductive Json
  | null
  | bool (b : Bool)
  | integer (n : Int)
  | real (x : Binary64)
  | string (s : String)
  | array (items : List Json)
  | object (members : List (String × Json))
  deriving Repr

namespace Json

/-! ### Text -/

/-- A character inside a quoted text: quotes, backslashes and control characters are escaped. -/
def escapeChar (c : Char) : List Char :=
  if c = '"' then ['\\', '"']
  else if c = '\\' then ['\\', '\\']
  else if c = '\n' then ['\\', 'n']
  else if c = '\r' then ['\\', 'r']
  else if c = '\t' then ['\\', 't']
  else if c.toNat = 8 then ['\\', 'b']
  else if c.toNat = 12 then ['\\', 'f']
  else if c.toNat < 32 then
    ['\\', 'u', '0', '0', Quoted.hexDigit (c.toNat / 16), Quoted.hexDigit (c.toNat % 16)]
  else [c]

/-- A text in quotes. -/
def quote (s : String) : List Char := ['"'] ++ s.toList.flatMap escapeChar ++ ['"']

/-- The text of a number, a truth value or nothing. -/
def scalar : Json → List Char
  | bool true => "true".toList
  | bool false => "false".toList
  | integer n => (toString n).toList
  | real x => (Format.document.text x).toList
  | string s => quote s
  | _ => "null".toList

/-- Lists of characters with a separator between them. -/
def separated (separator : List Char) : List (List Char) → List Char
  | [] => []
  | [x] => x
  | x :: xs => x ++ separator ++ separated separator xs

mutual
/-- The text of a value without blanks. -/
def compact : Json → List Char
  | array items => ['['] ++ separated [','] (compactItems items) ++ [']']
  | object members => ['\x7b'] ++ separated [','] (compactMembers members) ++ ['\x7d']
  | v => scalar v

def compactItems : List Json → List (List Char)
  | [] => []
  | v :: vs => compact v :: compactItems vs

def compactMembers : List (String × Json) → List (List Char)
  | [] => []
  | (k, v) :: ms => (quote k ++ [':'] ++ compact v) :: compactMembers ms
end

/-- The line break in front of an element at some level. -/
def newline (level : Nat) : List Char := '\n' :: List.replicate (2 * level) ' '

mutual
/-- The text of a value that stands at some level, with every element on lines of its own. -/
def prettyAt (level : Nat) : Json → List Char
  | array [] => ['[', ']']
  | array items =>
    ['['] ++ separated [','] (prettyItems (level + 1) items) ++ newline level ++ [']']
  | object [] => ['\x7b', '\x7d']
  | object members =>
    ['\x7b'] ++ separated [','] (prettyMembers (level + 1) members) ++ newline level ++ ['\x7d']
  | v => scalar v

def prettyItems (level : Nat) : List Json → List (List Char)
  | [] => []
  | v :: vs => (newline level ++ prettyAt level v) :: prettyItems level vs

def prettyMembers (level : Nat) : List (String × Json) → List (List Char)
  | [] => []
  | (k, v) :: ms =>
    (newline level ++ quote k ++ [':', ' '] ++ prettyAt level v) :: prettyMembers level ms
end

/-- The text of a value, indented. -/
def pretty (v : Json) : String := String.ofList (prettyAt 0 v)

/-! ### Members -/

/-- Adds a member in the order of names, in place of one of the same name. -/
def insert (name : String) (value : Json) : List (String × Json) → List (String × Json)
  | [] => [(name, value)]
  | (k, v) :: ms =>
    if name < k then (name, value) :: (k, v) :: ms
    else if name = k then (name, value) :: ms
    else (k, v) :: insert name value ms

/-- The value of a member, for those who look into a document by hand; schemas are read by
readers. -/
def get? (name : String) : Json → Option Json
  | object members => (members.find? (·.1 == name)).map (·.2)
  | _ => none

end Json
end WireCodec
