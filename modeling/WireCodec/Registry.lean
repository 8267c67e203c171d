import WireCodec.Schema.Basic
/-! # Registry of named types

Every enum, bit set and composite of a schema is registered once, under the name of its type: the
first definition of a name counts, types before messages.  `Registry.ofSchema` orders the types so
that each comes after the registered types that its members refer to, and otherwise as they first
appear; where no such order exists the types are in a cycle. -/

namespace WireCodec

inductive TypeKind
  | enumeration
  | bitSet
  | composite
  deriving DecidableEq, Repr

/-- The kind of type that a signal opens. -/
def Signal.typeKind? : Signal → Option TypeKind
  | beginEnum => some .enumeration
  | beginSet => some .bitSet
  | beginComposite => some .composite
  | _ => none

/-- A named type and its run. -/
structure NamedType where
  name : String
  kind : TypeKind
  run : List Token
  /-- The types that the members of a composite refer to. -/
  dependencies : List String
  deriving DecidableEq, Repr

/-- The named types of a schema, each after the ones it depends on. -/
structure Registry where
  types : List NamedType
  deriving DecidableEq, Repr

namespace Registry

/-! ### Collecting -/

/-- The names of the types that open in the tokens of a composite's members, each name once.  What
lies within the run of such a type is passed over: `skip` tokens are still to be passed.  Spans have no
bound, so that one which reaches past the end passes over the rest. -/
def references (found : List String) : Nat → List Token → List String
  | _, [] => found
  | skip + 1, _ :: rest => references found skip rest
  | 0, t :: rest =>
    if t.signal.typeKind?.isSome then
      let found := if found.contains t.typeName then found else found ++ [t.typeName]
      references found (t.span - 1) rest
    else references found 0 rest

/-- The types that the members of a composite refer to, from the composite's run. -/
def directDependencies (run : List Token) : List String := references [] 0 run.tail.dropLast

/-- The types registered so far, in the order of their first appearance. -/
abbrev Collected := List NamedType

/-- Registers a run under the name of its type, unless the name is taken. -/
def register (types : Collected) (kind : TypeKind) (first : Token) (run : List Token) : Collected :=
  if types.any (·.name == first.typeName) then types
  else
    let dependencies := if kind = .composite then directDependencies run else []
    types ++ [{ name := first.typeName, kind, run, dependencies }]

/-- Registers the types that open in a token list; `before` is the signal in front of it, and `skip`
tokens are to be passed over.  The runs of enums and bit sets are passed over, and so are composites
of variable length and those that belong to a group or a var data member; within other composites
types are looked for.  As for members, a span for which 64 bits are too few is longer than the list. -/
def scan (types : Collected) (before : Option Signal) : Nat → List Token → Except Fault Collected
  | _, [] => .ok types
  | skip + 1, t :: rest => scan types (some t.signal) skip rest
  | 0, t :: rest =>
    match t.signal.typeKind? with
    | none => scan types (some t.signal) 0 rest
    | some kind =>
      if t.span < 2 ∨ rest.length + 1 < t.span then
        .error (.malformedRange t.name (.typeRunTooLong t.span))
      else if before = some .beginGroup ∨ before = some .beginVarData then
        scan types (some t.signal) (t.span - 1) rest
      else if kind = .composite ∧ t.encodedLength < 0 then
        scan types (some t.signal) (t.span - 1) rest
      else
        let types := register types kind t ((t :: rest).take t.span)
        let skip := if kind = .composite then 0 else t.span - 1
        scan types (some t.signal) skip rest

/-- The types of a schema in the order of their first appearance. -/
def collect (s : Schema) : Except Fault Collected :=
  (s.types ++ s.messages).foldlM (fun types tokens => scan types none 0 tokens) []

/-! ### Ordering -/

/-- Are all types that `t` depends on among the ones placed, as far as they are registered? -/
def isReady (types placed : List NamedType) (t : NamedType) : Bool :=
  t.dependencies.all fun d => !types.any (·.name == d) || placed.any (·.name == d)

/-- Places, time after time, the first of the waiting types that is ready. -/
def order (types : List NamedType) : Nat → List NamedType → List NamedType →
    Except Fault (List NamedType)
  | _, placed, [] => .ok placed
  | 0, placed, _ => .ok placed
  | fuel + 1, placed, t :: waiting =>
    match (t :: waiting).find? (isReady types placed) with
    | some next =>
      order types fuel (placed ++ [next]) ((t :: waiting).eraseP (·.name == next.name))
    | none => .error (.typeCycle t.name)

/-- The registry of a schema. -/
def ofSchema (s : Schema) : Except Fault Registry := do
  let types ← collect s
  return ⟨← order types types.length [] types⟩

/-! ### Looking up

Codecs are written for `types` in their order.  The lookups are for those who ask about one type, and
of them only `get?` serves the generator, to find the message header. -/

/-- The type of a name. -/
def get? (r : Registry) (name : String) : Option NamedType := r.types.find? (·.name == name)

/-- The type of a name, which must be known. -/
def require (r : Registry) (name : String) : Except Fault NamedType :=
  match r.get? name with
  | some t => .ok t
  | none => .error (.missingType name)

def size (r : Registry) : Nat := r.types.length

def isEmpty (r : Registry) : Bool := r.types.isEmpty

end Registry
end WireCodec
