import WireCodec.Json.Number
/-! # Reading documents

A reader takes the text from some place on, and yields what it has read with the text behind it, or
the first flaw from left to right.  There are readers for the scalars, for words of an enumeration,
for lists, for records with named fields, for values of any shape (`Reader.value`) and for values of
no interest (`Reader.skipValue`), which are only checked to be values.  What they accept, and the words
and places of their flaws, follow `serde_json` and the record readers derived for it.

* A record is read from an object, where fields come in any order, at most once, and unknown ones are
  passed over; or from an array, where they come in their own order and the last may be left out.
* A loop takes the text at its start as a bound: each round reads a character, so there are no more
  rounds than characters. -/

namespace WireCodec

/-- What reads an `α` off the front of a text. -/
abbrev Reader (α : Type) := List Char → Except Flaw (α × List Char)

namespace Reader

def isBlank (c : Char) : Bool := c == ' ' || c == '\n' || c == '\t' || c == '\r'

def dropBlank (cs : List Char) : List Char := cs.dropWhile isBlank

/-- Reads the given characters. -/
def expect : List Char → List Char → Except Flaw (List Char)
  | [], cs => .ok cs
  | _ :: _, [] => .error .ending
  | w :: ws, c :: cs => if c = w then expect ws cs else .error .grammar

/-! ### Strings -/

def hexValue? (c : Char) : Option Nat :=
  if '0' ≤ c ∧ c ≤ '9' then some (c.toNat - 48)
  else if 'a' ≤ c ∧ c ≤ 'f' then some (c.toNat - 87)
  else if 'A' ≤ c ∧ c ≤ 'F' then some (c.toNat - 55)
  else none

/-- The number of bytes of a text, counted up to four. -/
def bytesUpToFour : List Char → Nat
  | [] => 0
  | [a] => min 4 a.utf8Size
  | [a, b] => min 4 (a.utf8Size + b.utf8Size)
  | [a, b, c] => min 4 (a.utf8Size + b.utf8Size + c.utf8Size)
  | _ => 4

/-- Four hexadecimal digits.  A text of fewer than four bytes ends too early. -/
def hexUnit (cs : List Char) : Except Flaw (Nat × List Char) :=
  match cs with
  | a :: b :: c :: d :: rest =>
    match hexValue? a, hexValue? b, hexValue? c, hexValue? d with
    | some a, some b, some c, some d => .ok (((a * 16 + b) * 16 + c) * 16 + d, rest)
    | _, _, _, _ => .error .grammar
  | cs => if bytesUpToFour cs < 4 then .error .ending else .error .grammar

/-- Reads one given character. -/
def single (w : Char) : List Char → Except Flaw (List Char)
  | [] => .error .ending
  | c :: cs => if c = w then .ok cs else .error .grammar

/-- The character of a numeric escape: a code unit, or two that form a surrogate pair. -/
def unicodeEscape (cs : List Char) : Except Flaw (Char × List Char) := do
  let (n, cs) ← hexUnit cs
  if 0xDC00 ≤ n ∧ n ≤ 0xDFFF then throw .grammar
  else if 0xD800 ≤ n ∧ n ≤ 0xDBFF then
    let cs ← single '\\' cs
    let cs ← single 'u' cs
    let (m, cs) ← hexUnit cs
    if 0xDC00 ≤ m ∧ m ≤ 0xDFFF then
      return (Char.ofNat (0x10000 + (n - 0xD800) * 0x400 + (m - 0xDC00)), cs)
    else throw .grammar
  else return (Char.ofNat n, cs)

/-- The character of an escape, from behind its backslash on. -/
def escaped : List Char → Except Flaw (Char × List Char)
  | [] => .error .ending
  | c :: cs =>
    if c = '"' ∨ c = '\\' ∨ c = '/' then .ok (c, cs)
    else if c = 'b' then .ok ('\x08', cs)
    else if c = 'f' then .ok ('\x0c', cs)
    else if c = 'n' then .ok ('\n', cs)
    else if c = 'r' then .ok ('\r', cs)
    else if c = 't' then .ok ('\t', cs)
    else if c = 'u' then unicodeEscape cs
    else .error .grammar

/-- The characters of a string up to its closing quote. -/
def stringRest : List Char → List Char → Except Flaw (List Char × List Char)
  | _, [] => .error .ending
  | [], _ => .error .ending
  | _ :: bound, c :: cs =>
    if c = '"' then .ok ([], cs)
    else if c = '\\' then do
      let (e, cs) ← escaped cs
      let (s, cs) ← stringRest bound cs
      return (e :: s, cs)
    else if c.toNat < 32 then .error .grammar
    else do
      let (s, cs) ← stringRest bound cs
      return (c :: s, cs)

/-- A string, from behind its opening quote on. -/
def stringBody (cs : List Char) : Except Flaw (String × List Char) :=
  (stringRest cs cs).map fun (s, rest) => (String.ofList s, rest)

/-- Passes over a string, from behind its opening quote on.  Escapes only have to be well formed. -/
def skipString : List Char → List Char → Except Flaw (List Char)
  | _, [] => .error .ending
  | [], _ => .error .ending
  | _ :: bound, c :: cs =>
    if c = '"' then .ok cs
    else if c = '\\' then
      match cs with
      | [] => .error .ending
      | e :: rest =>
        if e = 'u' then do
          let (_, rest) ← hexUnit rest
          skipString bound rest
        else if ['"', '\\', '/', 'b', 'f', 'n', 'r', 't'].contains e then skipString bound rest
        else .error .grammar
    else if c.toNat < 32 then .error .grammar
    else skipString bound cs

/-! ### Values of no interest -/

/-- Passes over digits, of which there must be one at least. -/
def skipDigits (cs : List Char) : Except Flaw (List Char) :=
  if cs.head?.any Decimal.isDigit then .ok (cs.dropWhile Decimal.isDigit) else .error .grammar

/-- Passes over a number without its minus sign. -/
def skipNumber (cs : List Char) : Except Flaw (List Char) := do
  let whole := cs.takeWhile Decimal.isDigit
  let cs ← skipDigits cs
  if whole.length > 1 ∧ whole.head? = some '0' then throw .grammar
  let cs ← match cs with
    | '.' :: r => skipDigits r
    | r => pure r
  match cs with
  | c :: r =>
    if c = 'e' ∨ c = 'E' then
      match r with
      | '+' :: r => skipDigits r
      | '-' :: r => skipDigits r
      | r => skipDigits r
    else return cs
  | [] => return []

/-- What is open around a place in a document. -/
inductive Frame
  | array
  | object
  deriving DecidableEq, Repr

/-- What comes next: a value, the name of a member, or what follows a value. -/
inductive Await
  | value
  | name
  | rest
  deriving DecidableEq, Repr

/-- Passes over a value and all that is open around it. -/
def skipFrom : Nat → Await → List Frame → List Char → Except Flaw (List Char)
  | 0, _, _, _ => .error .ending
  | fuel + 1, .value, open_, cs =>
    match dropBlank cs with
    | [] => .error .ending
    | c :: r =>
      if c = 'n' then do skipFrom fuel .rest open_ (← expect "ull".toList r)
      else if c = 't' then do skipFrom fuel .rest open_ (← expect "rue".toList r)
      else if c = 'f' then do skipFrom fuel .rest open_ (← expect "alse".toList r)
      else if c = '-' then do skipFrom fuel .rest open_ (← skipNumber r)
      else if Decimal.isDigit c then do skipFrom fuel .rest open_ (← skipNumber (c :: r))
      else if c = '"' then do skipFrom fuel .rest open_ (← skipString r r)
      else if c = '[' then
        match dropBlank r with
        | [] => .error .ending
        | ']' :: r => skipFrom fuel .rest open_ r
        | r => skipFrom fuel .value (.array :: open_) r
      else if c = '\x7b' then
        match dropBlank r with
        | [] => .error .ending
        | '\x7d' :: r => skipFrom fuel .rest open_ r
        | r => skipFrom fuel .name (.object :: open_) r
      else .error .grammar
  | fuel + 1, .name, open_, cs =>
    match dropBlank cs with
    | [] => .error .ending
    | '"' :: r => do
      let r ← skipString r r
      let r ← single ':' (dropBlank r)
      skipFrom fuel .value open_ r
    | _ => .error .grammar
  | _, .rest, [], cs => .ok cs
  | fuel + 1, .rest, frame :: open_, cs =>
    match dropBlank cs, frame with
    | [], _ => .error .ending
    | ',' :: r, .array => skipFrom fuel .value (frame :: open_) r
    | ',' :: r, .object => skipFrom fuel .name (frame :: open_) r
    | ']' :: r, .array => skipFrom fuel .rest open_ r
    | '\x7d' :: r, .object => skipFrom fuel .rest open_ r
    | _, _ => .error .grammar

/-- Passes over a value of any shape. -/
def skipValue (cs : List Char) : Except Flaw (List Char) :=
  skipFrom (2 * cs.length + 2) .value [] cs

/-! ### Lists and records -/

/-- Reads up to the next element of an array; nothing where the array ends. -/
def nextItem (first : Bool) (cs : List Char) : Except Flaw (Option (List Char)) :=
  match dropBlank cs with
  | [] => .error .ending
  | ']' :: _ => .ok none
  | ',' :: r =>
    if first then .ok (some (',' :: r))
    else match dropBlank r with
      | [] => .error .ending
      | ']' :: _ => .error .grammar
      | r => .ok (some r)
  | r => if first then .ok (some r) else .error .grammar

/-- Reads the end of an array. -/
def endItems (cs : List Char) : Except Flaw (List Char) := single ']' (dropBlank cs)

/-- The elements of an array up to its end. -/
def items {α : Type} (item : Reader α) : List Char → Bool → Reader (List α)
  | [], _, _ => .error .ending
  | _ :: bound, first, cs => do
    match ← nextItem first cs with
    | none => return ([], ← endItems cs)
    | some cs =>
      let (x, cs) ← item cs
      let (xs, cs) ← items item bound false cs
      return (x :: xs, cs)

/-- Reads up to the next name of an object, from behind its opening quote; nothing where the object
ends. -/
def nextMember (first : Bool) (cs : List Char) : Except Flaw (Option (List Char)) :=
  match dropBlank cs with
  | [] => .error .ending
  | '\x7d' :: _ => .ok none
  | '"' :: r => if first then .ok (some r) else .error .grammar
  | ',' :: r =>
    if first then .error .grammar
    else match dropBlank r with
      | [] => .error .ending
      | '"' :: r => .ok (some r)
      | _ => .error .grammar
  | _ => .error .grammar

/-- Reads the end of an object. -/
def endMembers (cs : List Char) : Except Flaw (List Char) := single '\x7d' (dropBlank cs)

/-- Reads the colon between the name of a member and its value. -/
def colon (cs : List Char) : Except Flaw (List Char) := single ':' (dropBlank cs)

/-- The flaw of a value that is not of the expected shape: its own, if it is not even a value. -/
def mismatch (cs : List Char) : Flaw :=
  let flawOf {α : Type} (r : Except Flaw α) : Flaw := match r with
    | .ok _ => .data
    | .error f => f
  match cs with
  | [] => .ending
  | c :: r =>
    if c = 'n' then flawOf (expect "ull".toList r)
    else if c = 't' then flawOf (expect "rue".toList r)
    else if c = 'f' then flawOf (expect "alse".toList r)
    else if c = '-' ∨ Decimal.isDigit c then flawOf (Json.number cs)
    else if c = '"' then flawOf (stringBody r)
    else if c = '[' ∨ c = '\x7b' then .data
    else .grammar

/-- A list. -/
def list {α : Type} (item : Reader α) : Reader (List α) := fun cs =>
  match dropBlank cs with
  | '[' :: r => items item r true r
  | r => .error (mismatch r)

/-- A named field of a record: how its value is read into the record, and whether it may be absent. -/
structure Field (σ : Type) where
  name : String
  required : Bool
  read : σ → Reader σ

/-- The fields of a record in an object.  `seen` holds the names that have been read. -/
def members {σ : Type} (fields : List (Field σ)) :
    List Char → Bool → List String → σ → Reader σ
  | [], _, _, _, _ => .error .ending
  | _ :: bound, first, seen, record, cs => do
    match ← nextMember first cs with
    | none =>
      if fields.any fun f => f.required && !seen.contains f.name then throw .data
      else return (record, ← endMembers cs)
    | some cs =>
      let (name, cs) ← stringBody cs
      match fields.find? (·.name == name) with
      | some field =>
        if seen.contains name then throw .data
        else
          let cs ← colon cs
          let (record, cs) ← field.read record cs
          members fields bound false (name :: seen) record cs
      | none =>
        let cs ← colon cs
        let cs ← skipValue cs
        members fields bound false seen record cs

/-- The fields of a record in an array. -/
def elements {σ : Type} : List (Field σ) → Bool → σ → Reader σ
  | [], _, record, cs => do return (record, ← endItems cs)
  | field :: fields, first, record, cs => do
    match ← nextItem first cs with
    | none => if field.required then throw .data else elements fields first record cs
    | some cs =>
      let (record, cs) ← field.read record cs
      elements fields false record cs

/-- A record, from `empty` on. -/
def record {σ : Type} (fields : List (Field σ)) (empty : σ) : Reader σ := fun cs =>
  match dropBlank cs with
  | '\x7b' :: r => members fields r true [] empty r
  | '[' :: r => elements fields true empty r
  | r => .error (mismatch r)

/-! ### Scalars -/

/-- A text. -/
def text : Reader String := fun cs =>
  match dropBlank cs with
  | '"' :: r => stringBody r
  | r => .error (mismatch r)

/-- An integer from `least` to `greatest`. -/
def integer (least greatest : Int) : Reader Int := fun cs =>
  match dropBlank cs with
  | [] => .error .ending
  | c :: r =>
    if c = '-' ∨ Decimal.isDigit c then do
      match ← Json.number (c :: r) with
      | (.integer n, rest) => if n < least ∨ greatest < n then throw .data else return (n, rest)
      | _ => throw .data
    else .error (mismatch (c :: r))

/-- A value, or `null` for its absence. -/
def optional {α : Type} (reader : Reader α) : Reader (Option α) := fun cs =>
  match dropBlank cs with
  | 'n' :: r => do return (none, ← expect "ull".toList r)
  | r => do
    let (x, rest) ← reader r
    return (some x, rest)

/-- The name of a member.  What does not start as a text is no name, whatever value it may be. -/
def memberName : Reader String := fun cs =>
  match dropBlank cs with
  | [] => .error .ending
  | '"' :: r => stringBody r
  | _ => .error .grammar

/-- A word of an enumeration, as a text or as the only member of an object, with the value `null`. -/
def word {α : Type} (ofWord? : String → Option α) : Reader α := fun cs =>
  match dropBlank cs with
  | [] => .error .ending
  | '"' :: r => do
    let (w, r) ← stringBody r
    match ofWord? w with
    | some x => return (x, r)
    | none => throw .data
  | '\x7b' :: r => do
    let (w, r) ← memberName r
    match ofWord? w with
    | none => throw .data
    | some x =>
      match dropBlank (← colon r) with
      | 'n' :: r =>
        let r ← expect "ull".toList r
        return (x, ← endMembers r)
      | r => throw (mismatch r)
  | _ => .error .grammar

/-! ### Values of any shape -/

/-- The members of an object up to its end, in the order of their names; of two members with one name
the later counts. -/
def valueMembers (item : Reader Json) :
    List Char → Bool → List (String × Json) → Reader (List (String × Json))
  | [], _, _, _ => .error .ending
  | _ :: bound, first, ms, cs => do
    match ← nextMember first cs with
    | none => return (ms, ← endMembers cs)
    | some cs =>
      let (name, cs) ← stringBody cs
      let (v, cs) ← item (← colon cs)
      valueMembers item bound false (Json.insert name v ms) cs

/-- A value of any shape, of which at most `levels` arrays and objects lie within each other. -/
def value : Nat → Reader Json
  | levels, cs =>
    match dropBlank cs with
    | [] => .error .ending
    | c :: r =>
      if c = 'n' then do return (.null, ← expect "ull".toList r)
      else if c = 't' then do return (.bool true, ← expect "rue".toList r)
      else if c = 'f' then do return (.bool false, ← expect "alse".toList r)
      else if c = '-' ∨ Decimal.isDigit c then Json.number (c :: r)
      else if c = '"' then do
        let (s, r) ← stringBody r
        return (.string s, r)
      else if c = '[' then
        match levels with
        | 0 => .error .grammar
        | levels + 1 => do
          let (vs, r) ← items (value levels) r true r
          return (.array vs, r)
      else if c = '\x7b' then
        match levels with
        | 0 => .error .grammar
        | levels + 1 => do
          let (ms, r) ← valueMembers (value levels) r true [] r
          return (.object ms, r)
      else .error .grammar

/-- How many arrays and objects may lie within each other in a document. -/
def greatestDepth : Nat := 127

/-- A whole text: nothing but blanks may follow what the reader reads. -/
def whole {α : Type} (reader : Reader α) (s : String) : Except Flaw α := do
  let (x, rest) ← reader s.toList
  match dropBlank rest with
  | [] => return x
  | _ => throw .grammar

end Reader

/-- The value that a text writes. -/
def Json.ofText (s : String) : Except Flaw Json := Reader.whole (Reader.value Reader.greatestDepth) s

end WireCodec
