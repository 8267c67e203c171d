import WireCodec.Piece
import WireCodec.Text.Blank
/-! # Writing code

Code is emitted by calls on a writer, which indents every line by its level.  A block is opened and
closed by calls of its own, and these need not come from the same emitter.  There is no level below zero:
a writer that is dedented there stays at level zero.

Documentation is written or left out as a whole. -/

namespace WireCodec

/-- How code is written. -/
structure Style where
  indent : String := "    "
  docs : Bool := true
  deriving DecidableEq, Repr

namespace Style

/-- A line at some depth; an empty one is not indented. -/
def indented (style : Style) (depth : Nat) (s : String) : String :=
  if s = "" then "" else String.join (List.replicate depth style.indent) ++ s

end Style

/-- A call on a writer. -/
inductive Call
  /-- Writes a line. -/
  | write (pieces : List Piece)
  /-- Writes every line of a text. -/
  | lines (text : String)
  | blank
  /-- Writes documentation. -/
  | doc (text : String)
  /-- Writes a heading and the brace that opens its block, and indents. -/
  | begin (heading : List Piece)
  /-- Dedents, and writes the brace that closes a block. -/
  | close
  | indent
  | dedent
  deriving DecidableEq, Repr

namespace Call

/-- Writes a line of text. -/
def line (s : String) : Call := write [.text s]

/-- Opens a block behind a heading of text. -/
def enter (heading : String) : Call := begin [.text heading]

instance : Coe String Call := ⟨line⟩

end Call

/-- What has been written, and the level of what will be. -/
structure Writer where
  out : String := ""
  level : Nat := 0
  deriving DecidableEq, Repr

namespace Writer

/-- Writes a line at the writer's level. -/
def writeln (style : Style) (w : Writer) (line : String) : Writer :=
  { w with out := w.out ++ style.indented w.level line ++ "\n" }

/-- The lines of a comment that documents the item below it. -/
def docLines (text : String) : List String :=
  if Text.trim text.toList = [] then ["///"]
  else (Text.lines text).map fun line =>
    let trimmed := String.ofList (Text.trimRight line.toList)
    if trimmed = "" then "///" else "/// " ++ trimmed

/-- What a call does. -/
def step (style : Style) (w : Writer) : Call → Writer
  | .write pieces => w.writeln style (renderPieces pieces)
  | .lines text => (Text.lines text).foldl (writeln style) w
  | .blank => w.writeln style ""
  | .doc text => if style.docs then (docLines text).foldl (writeln style) w else w
  | .begin heading =>
    let w := w.writeln style (renderPieces heading ++ " \x7b")
    { w with level := w.level + 1 }
  | .close => writeln style { w with level := w.level - 1 } "\x7d"
  | .indent => { w with level := w.level + 1 }
  | .dedent => { w with level := w.level - 1 }

/-- What a number of calls do. -/
def run (style : Style) (w : Writer) (calls : List Call) : Writer := calls.foldl (step style) w

/-- What a new writer has written after some calls. -/
def written (style : Style) (calls : List Call) : String := (run style {} calls).out

end Writer
end WireCodec
