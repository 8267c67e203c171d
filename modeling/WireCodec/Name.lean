import WireCodec.Text.Blank
import WireCodec.Text.Casing
/-! # Names in generated code

A schema name becomes the name of a type by capitalising its words (`Name.type`), the name of a
function by separating its words with underscores (`Name.function`), and the name of a module in the
same way (`Name.typeModule`, `Name.codecModule`).  Where a name would be a reserved word of the
generated language an underscore is added. -/

namespace WireCodec.Name

/-! ### Type names -/

/-- A word with a capital first letter and, if asked for, small letters after it. -/
def capitalize (lowerRest : Bool) : List Char → List Char
  | [] => []
  | c :: cs => Casing.upperChar c ++ (if lowerRest then Casing.lower cs else cs)

/-- Does capitalising every letter leave the word as it is? -/
def isAllUpper (word : List Char) : Bool := word == Casing.upper word

/-- Words between underscores are capitalised and joined; a word in capitals keeps only its first. -/
def pascal (cs : List Char) : List Char :=
  if cs.contains '_' then
    ((Text.split '_' cs).filter (· ≠ [])).flatMap fun word => capitalize (isAllUpper word) word
  else capitalize (isAllUpper cs) cs

/-! ### Function and module names -/

/-- Does a new word begin at a capital letter after `before` and in front of `after`?  It does after
a small letter or a digit, and where the last letter of a row of capitals begins a word. -/
def startsWord (before : Char) (after : List Char) : Bool :=
  Letter.isLower before || Letter.isAsciiDigit before
    || (Letter.isUpper before && match after with
      | next :: _ => Letter.isLower next
      | [] => false)

/-- The small form of the characters that follow `before`, words separated by underscores. -/
def snakeAfter (before : Option Char) : List Char → List Char
  | [] => []
  | c :: cs =>
    let image :=
      if Letter.isUpper c then
        let mark := match before with
          | some b => if startsWord b cs then ['_'] else []
          | none => []
        mark ++ Casing.lowerChar c
      else [c]
    image ++ snakeAfter (some c) cs

/-- Words in small letters, separated by underscores. -/
def snake (cs : List Char) : List Char := snakeAfter none cs

/-- The words that the generated language reserves. -/
def keywords : List String :=
  ["as", "async", "await", "break", "const", "continue", "crate", "dyn", "else", "enum",
   "extern", "false", "fn", "for", "if", "impl", "in", "let", "loop", "match", "mod", "move",
   "mut", "pub", "ref", "return", "self", "Self", "static", "struct", "super", "trait", "true",
   "type", "unsafe", "use", "where", "while", "abstract", "become", "box", "do", "final",
   "macro", "override", "priv", "try", "typeof", "unsized", "virtual", "yield"]

/-- A reserved word takes an underscore at its end. -/
def escape (s : String) : String := if keywords.contains s then s ++ "_" else s

def toPascal (s : String) : String := String.ofList (pascal s.toList)

def toSnake (s : String) : String := String.ofList (snake s.toList)

/-- The name of a generated type. -/
def type (s : String) : String := toPascal s

/-- The name of a generated function. -/
def function (s : String) : String := escape (toSnake s)

/-- The module that holds the codecs of a message or a composite. -/
def codecModule (s : String) : String := toSnake s ++ "_codec"

/-- The module that holds an enum or a bit set. -/
def typeModule (s : String) : String := escape (toSnake s)

/-! ### Module identifiers -/

def isModuleStart (c : Char) : Bool := Letter.isAsciiLower c || c == '_'

def isModuleRest (c : Char) : Bool :=
  Letter.isAsciiLower c || Letter.isAsciiDigit c || c == '_'

/-- A plain identifier in small letters: fit for a module and for the stem of its file. -/
def isModule (s : String) : Bool :=
  match s.toList with
  | c :: cs => isModuleStart c && cs.all isModuleRest
  | [] => false

end WireCodec.Name
