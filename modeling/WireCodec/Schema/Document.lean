import WireCodec.Json.Reader
import WireCodec.Schema.Basic
/-! # Schemas as documents

`Schema.toJson` writes every field of a schema in a fixed order and leaves out options that are not
set; `Schema.ofText` reads a schema, with the conventional value for each field that may be left
out.  A literal may be written as any value: a text stands for itself, anything else for its compact
text, and `null` for its absence. -/

namespace WireCodec

/-! ### Writing -/

namespace Json

/-- A member that is left out when there is nothing to write. -/
def member? (name : String) (text : Option String) : List (String × Json) :=
  match text with
  | some s => [(name, .string s)]
  | none => []

end Json

namespace Encoding

def toJson (e : Encoding) : Json :=
  .object <|
    [("presence", .string e.presence.word)]
    ++ Json.member? "primitiveType" (e.primitive.map Primitive.name)
    ++ Json.member? "minValue" e.minimum
    ++ Json.member? "maxValue" e.maximum
    ++ Json.member? "nullValue" e.null
    ++ Json.member? "constValue" e.constant
    ++ Json.member? "characterEncoding" e.characterEncoding
    ++ Json.member? "semanticType" e.semanticType

end Encoding

namespace Token

def toJson (t : Token) : Json :=
  .object <|
    [("signal", .string t.signal.word), ("name", .string t.name)]
    ++ Json.member? "referencedName" t.referencedName
    ++ Json.member? "description" t.description
    ++ [("id", .integer t.id), ("version", .integer t.version), ("offset", .integer t.offset),
        ("encodedLength", .integer t.encodedLength), ("componentTokenCount", .integer t.span),
        ("encoding", t.encoding.toJson)]

end Token

namespace HeaderTypes

def toJson (h : HeaderTypes) : Json :=
  .object
    [("blockLengthType", .string h.blockLength.name), ("templateIdType", .string h.templateId.name),
     ("schemaIdType", .string h.schemaId.name), ("schemaVersionType", .string h.schemaVersion.name)]

end HeaderTypes

namespace Schema

/-- Token lists as lists of documents. -/
def runsToJson (runs : List (List Token)) : Json :=
  .array (runs.map fun run => .array (run.map Token.toJson))

def toJson (s : Schema) : Json :=
  .object <|
    [("packageName", .string s.packageName)]
    ++ Json.member? "namespaceName" s.namespaceName
    ++ [("id", .integer s.id), ("version", .integer s.version)]
    ++ Json.member? "semanticVersion" s.semanticVersion
    ++ Json.member? "description" s.description
    ++ [("byteOrder", .string s.byteOrder.word), ("headerStructure", s.header.toJson),
        ("types", runsToJson s.types), ("messages", runsToJson s.messages)]

/-- The schema as an indented document. -/
def pretty (s : Schema) : String := s.toJson.pretty

end Schema

/-! ### Reading -/

namespace Reader

/-- A field that must be there. -/
def required {σ α : Type} (name : String) (reader : Reader α) (set : σ → α → σ) : Field σ :=
  ⟨name, true, fun s cs => (reader cs).map fun (x, rest) => (set s x, rest)⟩

/-- A field that may be left out. -/
def field {σ α : Type} (name : String) (reader : Reader α) (set : σ → α → σ) : Field σ :=
  { required name reader set with required := false }

/-- A signed number of 32 bits. -/
def signed32 : Reader Int := integer (-2 ^ 31) (2 ^ 31 - 1)

/-- A natural number below `2 ^ bits`. -/
def natural (bits : Nat) : Reader Nat := fun cs =>
  (integer 0 (2 ^ bits - 1) cs).map fun (n, rest) => (n.toNat, rest)

def primitive : Reader Primitive := word Primitive.ofName?

/-- A literal, written as any value. -/
def literal (levels : Nat) : Reader (Option String) := fun cs =>
  (value levels cs).map fun (v, rest) =>
    match v with
    | .null => (none, rest)
    | .string s => (some s, rest)
    | v => (some (String.ofList v.compact), rest)

/-- An encoding, whose literals may have `levels` levels less one. -/
def encoding (levels : Nat) : Reader Encoding :=
  let literal := literal (levels - 1)
  record
    [field "presence" (word Presence.ofWord?) fun e x => { e with presence := x },
     field "primitiveType" (optional primitive) fun e x => { e with primitive := x },
     field "minValue" literal fun e x => { e with minimum := x },
     field "maxValue" literal fun e x => { e with maximum := x },
     field "nullValue" literal fun e x => { e with null := x },
     field "constValue" literal fun e x => { e with constant := x },
     field "characterEncoding" (optional text) fun e x => { e with characterEncoding := x },
     field "semanticType" (optional text) fun e x => { e with semanticType := x }]
    {}

/-- A token, within which `levels` levels may be opened. -/
def token (levels : Nat) : Reader Token :=
  record
    [required "signal" (word Signal.ofWord?) fun t x => { t with signal := x },
     required "name" text fun t x => { t with name := x },
     field "referencedName" (optional text) fun t x => { t with referencedName := x },
     field "description" (optional text) fun t x => { t with description := x },
     field "id" signed32 fun t x => { t with id := x },
     field "version" (natural 32) fun t x => { t with version := x },
     field "offset" signed32 fun t x => { t with offset := x },
     field "encodedLength" signed32 fun t x => { t with encodedLength := x },
     field "componentTokenCount" (natural 64) fun t x => { t with span := x },
     field "encoding" (encoding (levels - 1)) fun t x => { t with encoding := x }]
    { signal := .encoding, name := "" }

def headerTypes : Reader HeaderTypes :=
  record
    [required "blockLengthType" primitive fun h x => { h with blockLength := x },
     required "templateIdType" primitive fun h x => { h with templateId := x },
     required "schemaIdType" primitive fun h x => { h with schemaId := x },
     required "schemaVersionType" primitive fun h x => { h with schemaVersion := x }]
    {}

/-- A schema, within which `levels` levels may be opened. -/
def schema (levels : Nat) : Reader Schema :=
  let runs := list (list (token (levels - 3)))
  record
    [required "packageName" text fun s x => { s with packageName := x },
     field "namespaceName" (optional text) fun s x => { s with namespaceName := x },
     field "id" (natural 32) fun s x => { s with id := x },
     field "version" (natural 32) fun s x => { s with version := x },
     field "semanticVersion" (optional text) fun s x => { s with semanticVersion := x },
     field "description" (optional text) fun s x => { s with description := x },
     field "byteOrder" (word ByteOrder.ofWord?) fun s x => { s with byteOrder := x },
     field "headerStructure" headerTypes fun s x => { s with header := x },
     field "types" runs fun s x => { s with types := x },
     field "messages" runs fun s x => { s with messages := x }]
    { packageName := "" }

end Reader

/-- The schema that a text writes. -/
def Schema.ofText (s : String) : Except Fault Schema :=
  (Reader.whole (Reader.schema Reader.greatestDepth) s).mapError .document

/-- The token that a text writes. -/
def Token.ofText (s : String) : Except Fault Token :=
  (Reader.whole (Reader.token Reader.greatestDepth) s).mapError .document

end WireCodec
