import WireCodec.Literal
/-! # Addresses and lines

A line of generated code is made of pieces, so that what matters about it can be read off it: reading and
writing a value at an address, handing an address to a nested codec, moving the limit, and asking for the
acting version are pieces of their own. -/

namespace WireCodec

/-- A place in a buffer: a base expression plus a displacement, and for the elements of an array plus
the index `i` times a stride. -/
structure Address where
  base : String
  displacement : Nat := 0
  stride : Option Nat := none
  deriving DecidableEq, Repr

/-- An address as an expression; nothing is added for a displacement of zero or multiplied by one. -/
def Address.text (a : Address) : String :=
  let start := if a.displacement = 0 then a.base else s!"{a.base} + {a.displacement}"
  match a.stride with
  | none => start
  | some 1 => s!"{start} + i"
  | some n => s!"{start} + i * {n}"

/-- A part of a line. -/
inductive Piece
  | text (s : String)
  /-- The condition that the acting version is below one. -/
  | hidden (since : Nat)
  /-- Reads a value from a buffer. -/
  | get (type : Primitive) (at_ : Address)
  /-- Writes a value to a buffer. -/
  | put (type : Primitive) (at_ : Address) (value : String)
  /-- Reads the bytes at an address. -/
  | getSlice (at_ : Address) (length : String)
  /-- Writes bytes at an address. -/
  | putSlice (at_ : Address) (bytes : String)
  /-- Hands an address to a nested codec or value. -/
  | nest (callee subject : String) (at_ : Address)
  /-- Calls an address `offset` from here on. -/
  | bind (at_ : Address)
  /-- Moves the limit of a codec to some distance from a base. -/
  | moveLimit (owner base distance : String)
  deriving DecidableEq, Repr

instance : Coe String Piece := ⟨.text⟩

namespace Piece

def render : Piece → String
  | text s => s
  | hidden since => s!"self.acting_version() < {since}"
  | get type a => s!"get_{type.typeName}_at({a.text})"
  | put type a value => s!"put_{type.typeName}_at({a.text}, {value})"
  | getSlice a length => s!"get_slice_at({a.text}, {length})"
  | putSlice a bytes => s!"put_slice_at({a.text}, {bytes})"
  | nest callee subject a => s!"{callee}({subject}, {a.text})"
  | bind a => s!"let offset = {a.text};"
  | moveLimit owner base distance => s!"{owner}.set_limit({base} + {distance})"

end Piece

/-- The text of a line. -/
def renderPieces (ps : List Piece) : String := String.join (ps.map Piece.render)

/-- A line with text behind it. -/
def withText : List Piece → String → List Piece
  | [], s => [.text s]
  | [.text t], s => [.text (t ++ s)]
  | p :: ps, s => p :: withText ps s

end WireCodec
