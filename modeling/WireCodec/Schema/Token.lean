import WireCodec.Literal
/-! # Tokens

A schema is a flat list of tokens for every type and every message.  A construct is a run of tokens
from its opening signal to its closing one, and the opening token carries the length of the run.
Numbers that do not apply are `-1`. -/

namespace WireCodec

/-- Does a value occupy bytes, and can it be absent? -/
inductive Presence
  | required
  /-- Absent when equal to the null value. -/
  | optional
  /-- A fixed literal that occupies no bytes. -/
  | constant
  deriving DecidableEq, Repr

namespace Presence

def all : List Presence := [required, optional, constant]

def word : Presence → String
  | required => "REQUIRED"
  | optional => "OPTIONAL"
  | constant => "CONSTANT"

def ofWord? (s : String) : Option Presence := all.find? (·.word == s)

theorem ofWord?_word (p : Presence) : ofWord? p.word = some p := by
  cases p <;> rfl

end Presence

/-- The encoding attributes of a token; literals are kept as they were written. -/
structure Encoding where
  presence : Presence := .required
  primitive : Option Primitive := none
  minimum : Option String := none
  maximum : Option String := none
  null : Option String := none
  /-- A constant, the value of an enum member or the bit of a choice. -/
  constant : Option String := none
  characterEncoding : Option String := none
  semanticType : Option String := none
  deriving DecidableEq, Repr

namespace Encoding

/-- The literal that is stated, or else the value that holds by convention. -/
def applicable (stated : Option String) (p : Primitive) (convention : Value) :
    Except Fault Value :=
  match stated with
  | some raw => Value.parse p raw
  | none => .ok convention

def applicableNull (e : Encoding) (p : Primitive) : Except Fault Value := applicable e.null p p.null

def applicableMinimum (e : Encoding) (p : Primitive) : Except Fault Value :=
  applicable e.minimum p p.minimum

def applicableMaximum (e : Encoding) (p : Primitive) : Except Fault Value :=
  applicable e.maximum p p.maximum

end Encoding

/-- One token. -/
structure Token where
  signal : Signal
  name : String
  /-- The type that a member of a composite refers to, if it is declared by reference. -/
  referencedName : Option String := none
  description : Option String := none
  id : Int := -1
  /-- The schema version that introduced the element. -/
  version : Nat := 0
  /-- The place within the enclosing block. -/
  offset : Int := -1
  encodedLength : Int := -1
  /-- The length of the run that the token opens; one for a token on its own. -/
  span : Nat := 1
  encoding : Encoding := {}
  deriving DecidableEq, Repr

namespace Token

/-- The name of the token's type. -/
def typeName (t : Token) : String := t.referencedName.getD t.name

/-- How many primitive values the token encodes. -/
def arrayLength (t : Token) : Nat :=
  match t.encoding.primitive with
  | some p => if 0 < t.encodedLength then max 1 (t.encodedLength.toNat / p.size) else 1
  | none => 1

def isConstant (t : Token) : Bool := t.encoding.presence == .constant

def isOptional (t : Token) : Bool := t.encoding.presence == .optional

/-- The place within the enclosing block, zero where none is given. -/
def blockOffset (t : Token) : Nat := t.offset.toNat

/-- The primitive type, which the token must have. -/
def primitive (t : Token) : Except Fault Primitive :=
  match t.encoding.primitive with
  | some p => .ok p
  | none => .error (.malformedRange t.name .noPrimitive)

end Token
end WireCodec
