import WireCodec.Name
import WireCodec.Registry
import WireCodec.Writer
/-! # Bit sets

A bit set becomes a type around its primitive type, with a getter and a setter for every choice and
a debugging text that lists all of them.  A choice is a bit that the primitive type has. -/

namespace WireCodec.Codec

open Call (line enter)

/-- A bit set as it is generated: choices and their bits. -/
structure BitSet where
  schemaName : String
  name : String
  primitive : Primitive
  description : Option String
  choices : List (String × Nat)
  deriving DecidableEq, Repr

namespace BitSet

/-- The bit of a choice, blank characters around it ignored. -/
def bit? (p : Primitive) (raw : String) : Option Nat :=
  (Decimal.unsigned? (2 ^ 32 - 1) (Text.trim raw.toList)).filter (· < p.size * 8)

/-- The choice that a token states. -/
def choice (p : Primitive) (t : Token) : Except Fault (String × Nat) :=
  match t.encoding.constant with
  | none => .error (.malformedRange t.name .choiceWithoutIndex)
  | some raw =>
    match bit? p raw with
    | some bit => .ok (Name.function t.name, bit)
    | none => .error (.invalidLiteral p.name raw)

/-- The bit set of a registered type. -/
def ofType (t : NamedType) (first : Token) : Except Fault BitSet := do
  let primitive ← first.primitive
  let choices ← (t.run.filter (·.signal == .choice)).mapM (choice primitive)
  return {
    schemaName := t.name
    name := Name.type t.name
    primitive
    description := first.description
    choices }

/-- The statement that writes the debugging text. -/
def debugging (s : BitSet) : String :=
  let pattern := ", ".intercalate (s.choices.map fun (choice, bit) => s!"{choice}({bit})=\x7b\x7d")
  let arguments := String.join (s.choices.map fun (choice, _) => s!", self.get_{choice}()")
  s!"write!(fmt, \"{s.name}[{pattern}]\"{arguments})"

/-- The getter and the setter of a choice. -/
def emitChoice (choice : String) (bit : Nat) : List Call :=
  [.blank,
   "#[inline]",
   enter s!"pub fn get_{choice}(&self) -> bool",
   line s!"(self.0 & (1 << {bit})) != 0",
   .close,
   .blank,
   "#[inline]",
   enter s!"pub fn set_{choice}(&mut self, value: bool) -> &mut Self",
   line <|
    s!"self.0 = if value \x7b self.0 | (1 << {bit}) \x7d else "
      ++ s!"\x7b self.0 & !(1 << {bit}) \x7d;",
   "self",
   .close]

/-- The unit of a bit set. -/
def render (s : BitSet) : List Call :=
  let type := s.primitive.typeName
  [Call.doc (s.description.getD s!"\x60{s.schemaName}\x60 choices packed into a \x60{type}\x60"),
   "#[derive(Default, Clone, Copy, PartialEq, Eq, PartialOrd, Ord, Hash)]",
   line s!"pub struct {s.name}(pub {type});",
   .blank,
   enter s!"impl {s.name}",
   "#[inline]",
   enter s!"pub fn new(value: {type}) -> Self",
   line s!"{s.name}(value)",
   .close,
   .blank,
   "#[inline]",
   enter "pub fn clear(&mut self) -> &mut Self",
   "self.0 = 0;",
   "self",
   .close]
  ++ (s.choices.flatMap fun (choice, bit) => emitChoice choice bit)
  ++ [Call.close,
      .blank,
      enter s!"impl core::fmt::Debug for {s.name}",
      "#[inline]",
      enter "fn fmt(&self, fmt: &mut core::fmt::Formatter<'_>) -> core::fmt::Result",
      line s.debugging,
      .close,
      .close]

end BitSet
end WireCodec.Codec
