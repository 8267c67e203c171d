import WireCodec.Name
import WireCodec.Registry
import WireCodec.Writer
/-! # Enums

An enum becomes an enum of its primitive type with one more variant, `NullVal`, for the null value.
Every value that is not listed is read as `NullVal`.  Values must differ from each other and from the
null value. -/

namespace WireCodec.Codec

open Call (line enter)

/-- An enum as it is generated: variants and their literals. -/
structure Enumeration where
  schemaName : String
  name : String
  primitive : Primitive
  description : Option String
  variants : List (String × String)
  null : String
  deriving DecidableEq, Repr

namespace Enumeration

/-- Adds the variant of a value, which must be neither null nor listed. -/
def addVariant (schemaName : String) (p : Primitive) (null : Value)
    (variants : List (String × String)) (t : Token) : Except Fault (List (String × String)) := do
  let raw ← match t.encoding.constant with
    | some raw => pure raw
    | none => throw (.malformedRange t.name .enumValueWithoutLiteral)
  let value ← Value.parse p raw
  if value.equals null then
    throw (.invalidLiteral p.name s!"{raw} (collides with the null value of '{schemaName}')")
  let literal ← value.literal p
  if variants.any (·.2 == literal) then
    throw (.invalidLiteral p.name s!"{raw} (repeated in '{schemaName}')")
  return variants ++ [(Name.type t.name, literal)]

/-- The enum of a registered type. -/
def ofType (t : NamedType) (first : Token) : Except Fault Enumeration := do
  let primitive ← first.primitive
  let null ← first.encoding.applicableNull primitive
  let nullLiteral ← null.literal primitive
  let values := t.run.filter (·.signal == .validValue)
  let variants ← values.foldlM (addVariant t.name primitive null) []
  if variants = [] then throw (.emptyEnum t.name)
  return {
    schemaName := t.name
    name := Name.type t.name
    primitive
    description := first.description
    variants
    null := nullLiteral }

/-- The unit of an enum. -/
def render (e : Enumeration) : List Call :=
  let type := e.primitive.typeName
  [Call.doc (e.description.getD s!"\x60{e.schemaName}\x60 encoded as \x60{type}\x60"),
   "#[derive(Clone, Copy, Debug, PartialEq, Eq, PartialOrd, Ord, Hash)]",
   line s!"#[repr({type})]",
   enter s!"pub enum {e.name}"]
  ++ (e.variants.map fun (variant, literal) => line s!"{variant} = {literal},")
  ++ [line s!"NullVal = {e.null},",
      .close,
      .blank,
      enter s!"impl Default for {e.name}",
      "#[inline]",
      enter "fn default() -> Self",
      line s!"{e.name}::NullVal",
      .close,
      .close,
      .blank,
      enter s!"impl From<{type}> for {e.name}",
      "#[inline]",
      enter s!"fn from(v: {type}) -> Self",
      enter "match v"]
  ++ (e.variants.map fun (variant, literal) => line s!"{literal} => Self::{variant},")
  ++ [line "_ => Self::NullVal,",
      .close,
      .close,
      .close,
      .blank,
      enter s!"impl From<{e.name}> for {type}",
      "#[inline]",
      enter s!"fn from(v: {e.name}) -> Self",
      enter "match v"]
  ++ (e.variants.map fun (variant, literal) => line s!"{e.name}::{variant} => {literal},")
  ++ [line s!"{e.name}::NullVal => {e.null},",
      .close,
      .close,
      .close]

end Enumeration
end WireCodec.Codec
