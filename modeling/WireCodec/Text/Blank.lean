/-! # Blank characters and lines

Blank is the property White_Space of Unicode.  `trim` takes blank characters off both ends of a text.
`split` cuts a text at every occurrence of a character.  `lines` cuts a text after each line feed; a
carriage return before the line feed goes with it, and nothing follows a line feed at the end. -/

namespace WireCodec.Text

/-- The property White_Space. -/
def isBlank (c : Char) : Bool :=
  let n := c.toNat
  (9 ≤ n && n ≤ 13) || n == 0x20 || n == 0x85 || n == 0xA0 || n == 0x1680
    || (0x2000 ≤ n && n ≤ 0x200A) || n == 0x2028 || n == 0x2029 || n == 0x202F || n == 0x205F
    || n == 0x3000

def trimLeft (cs : List Char) : List Char := cs.dropWhile isBlank

def trimRight (cs : List Char) : List Char := (cs.reverse.dropWhile isBlank).reverse

def trim (cs : List Char) : List Char := trimRight (trimLeft cs)

/-- The pieces of a text between the occurrences of a character. -/
def split (separator : Char) : List Char → List (List Char)
  | [] => [[]]
  | c :: cs =>
    match split separator cs with
    | [] => [[c]]
    | word :: words => if c = separator then [] :: word :: words else (c :: word) :: words

/-- A line without the carriage return at its end. -/
def withoutReturn (cs : List Char) : List Char :=
  if cs.getLast? = some '\r' then cs.dropLast else cs

/-- The lines of a text; `line` is the one being read, last character first. -/
def linesFrom (line : List Char) : List Char → List (List Char)
  | [] => if line = [] then [] else [line.reverse]
  | c :: cs =>
    if c = '\n' then withoutReturn line.reverse :: linesFrom [] cs
    else linesFrom (c :: line) cs

/-- The lines of a text. -/
def lines (s : String) : List String := (linesFrom [] s.toList).map String.ofList

/-- Is every character an ASCII one? -/
def isAscii (s : String) : Bool := s.toList.all fun c => c.toNat < 0x80

end WireCodec.Text
