import WireCodec.Codec.BitSet
import WireCodec.Codec.Enumeration
import WireCodec.Codec.Message
import WireCodec.Codec.Root
/-! # Units

`Generator.ofSchema` finds the structural faults of a schema, before any code is made;
`Generator.modules` makes the code of every named type and every message, and `Generator.units`
prints it, together with the root, as files of their own or as a single file. -/

namespace WireCodec

/-- A unit of generated source. -/
structure SourceUnit where
  /-- The module, and the stem of its file. -/
  module : String
  kind : UnitKind
  source : String
  deriving DecidableEq, Repr

def SourceUnit.fileName (u : SourceUnit) : String := u.module ++ ".rs"

/-- How units are laid out in files. -/
inductive Arrangement
  | moduleFiles
  | singleFile
  deriving DecidableEq, Repr

/-- How a schema's codecs are printed. -/
structure Configuration where
  style : Style := {}
  arrangement : Arrangement := .moduleFiles
  deriving DecidableEq, Repr

/-- A schema whose named types and messages are known. -/
structure Generator where
  schema : Schema
  registry : Registry
  messages : List Codec.Message
  deriving Repr

/-- The calls that write a unit. -/
structure CodeUnit where
  entry : Codec.Entry
  calls : List Call
  deriving Repr

/-- A unit as it is written. -/
def CodeUnit.print (style : Style) (u : CodeUnit) : SourceUnit :=
  ⟨u.entry.module, u.entry.kind, Writer.written style u.calls⟩

namespace Generator

/-- Registers the types of a schema and finds the members of its messages. -/
def ofSchema (s : Schema) : Except Fault Generator := do
  let registry ← Registry.ofSchema s
  let messages ← s.messages.mapM fun tokens => do
    let (token, body) ← Body.ofMessage tokens
    return { token, body : Codec.Message }
  return ⟨s, registry, messages⟩

/-- The unit of a named type. -/
def typeUnit (t : NamedType) : Except Fault CodeUnit := do
  let first := t.run.head?.getD { signal := .encoding, name := t.name }
  let typeName := Name.type t.name
  match t.kind with
  | .enumeration =>
    let e ← Codec.Enumeration.ofType t first
    return ⟨⟨Name.typeModule t.name, .enumeration, typeName⟩, e.render⟩
  | .bitSet =>
    let s ← Codec.BitSet.ofType t first
    return ⟨⟨Name.typeModule t.name, .bitSet, typeName⟩, s.render⟩
  | .composite =>
    let c ← Codec.Composite.ofType t first
    return ⟨⟨Name.codecModule t.name, .composite, typeName⟩, ← c.render⟩

/-- The unit of a message. -/
def messageUnit (g : Generator) (m : Codec.Message) : Except Fault CodeUnit := do
  let calls ← m.render g.schema g.registry
  return ⟨⟨Name.codecModule m.token.name, .message, Name.type m.token.name⟩, calls⟩

/-- The units of all named types and then of all messages. -/
def modules (g : Generator) : Except Fault (List CodeUnit) := do
  let types ← g.registry.types.mapM typeUnit
  let messages ← g.messages.mapM g.messageUnit
  return types ++ messages

/-- The root, which declares the other units or contains them as they are written. -/
def renderRoot (s : Schema) (c : Configuration) (units : List CodeUnit) : List Call :=
  match c.arrangement with
  | .moduleFiles => Codec.renderDeclaringRoot s (units.map (·.entry))
  | .singleFile =>
    Codec.renderContainingRoot s (units.map fun u => (u.entry, (u.print c.style).source))

/-- The written units with the root: behind them, or around them in one file named for the schema. -/
def arrange (s : Schema) (c : Configuration) (units : List CodeUnit) : List SourceUnit :=
  let root := Writer.written c.style (renderRoot s c units)
  match c.arrangement with
  | .moduleFiles => units.map (CodeUnit.print c.style) ++ [⟨"lib", .root, root⟩]
  | .singleFile => [⟨s.qualifiedName, .root, root⟩]

/-- All units of a schema. -/
def units (g : Generator) (c : Configuration) : Except Fault (List SourceUnit) := do
  return arrange g.schema c (← g.modules)

end Generator
end WireCodec
