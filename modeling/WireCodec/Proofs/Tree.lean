import WireCodec.Writer
/-! # Code as a tree

The lines that a writer writes stand in blocks, so the code can be looked at as a tree of lines and
blocks.  `Code.source` prints a tree: every line is indented by the depth of its block. -/

namespace WireCodec

@[simp] theorem renderPieces_text (s : String) : renderPieces [.text s] = s := by
  show String.join [s] = s
  rw [String.join_cons, String.join_nil, String.append_empty]

theorem renderPieces_cons (p : Piece) (ps : List Piece) :
    renderPieces (p :: ps) = p.render ++ renderPieces ps := by
  simp only [renderPieces, List.map_cons, String.join_cons]

/-! ### The tree -/

/-- Generated code. -/
inductive Code
  | blank
  | line (pieces : List Piece)
  | doc (text : String)
  /-- Returns `absent` when the acting version is below `since`. -/
  | gate (since : Nat) (absent : String)
  | block (opening : List Piece) (body : List Code) (closing : String)
  /-- Two blocks of which one is taken. -/
  | choice (opening : List Piece) (first : List Code) (second : List Code)
  deriving Repr

instance : Coe String Code := ⟨fun s => .line [.text s]⟩

namespace Code

/-- A line of text. -/
def text (s : String) : Code := .line [.text s]

/-- A block in braces behind a heading. -/
def braces (heading : String) (body : List Code) : Code :=
  .block [.text (heading ++ " \x7b")] body "\x7d"

/-- A block in braces on lines of their own. -/
def bare (body : List Code) : Code := .block [.text "\x7b"] body "\x7d"

/-- Pieces of code with a blank line between them. -/
def spaced (parts : List (List Code)) : List Code := [Code.blank].intercalate parts

/-- The lines of a text as code. -/
def ofText (s : String) : List Code := (Text.lines s).map text

/-! ### Blank lines in between -/

@[simp] theorem spaced_singleton (part : List Code) : spaced [part] = part := by
  simp [spaced]

@[simp] theorem spaced_cons_cons (part next : List Code) (parts : List (List Code)) :
    spaced (part :: next :: parts) = part ++ blank :: spaced (next :: parts) := by
  simp [spaced, List.intercalate]

theorem spaced_cons (part : List Code) (parts : List (List Code)) :
    spaced (part :: parts) = part ++ parts.flatMap (blank :: ·) := by
  induction parts generalizing part with
  | nil => simp
  | cons next parts ih => rw [spaced_cons_cons, ih, List.flatMap_cons, List.cons_append]

/-! ### Printing -/

mutual
/-- The lines of code that stands at some depth. -/
def lines (style : Style) (depth : Nat) : Code → List String
  | blank => [""]
  | line pieces => [style.indented depth (renderPieces pieces)]
  | doc text => if style.docs then (Writer.docLines text).map (style.indented depth) else []
  | gate since absent =>
    [style.indented depth s!"if self.acting_version() < {since} \x7b",
     style.indented (depth + 1) s!"return {absent};", style.indented depth "\x7d", ""]
  | block opening body closing =>
    style.indented depth (renderPieces opening)
      :: (linesAll style (depth + 1) body ++ [style.indented depth closing])
  | choice opening first second =>
    style.indented depth (renderPieces opening)
      :: (linesAll style (depth + 1) first
        ++ style.indented depth "\x7d else \x7b"
          :: (linesAll style (depth + 1) second ++ [style.indented depth "\x7d"]))

/-- The lines of codes that follow each other. -/
def linesAll (style : Style) (depth : Nat) : List Code → List String
  | [] => []
  | c :: cs => lines style depth c ++ linesAll style depth cs
end

/-- The text of code: every line with a line feed. -/
def source (style : Style) (code : List Code) : String :=
  String.join ((linesAll style 0 code).map (· ++ "\n"))

end Code
end WireCodec
