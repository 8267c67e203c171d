import WireCodec.Schema.Signal
/-! # Faults

What can go wrong, as causes; `Fault.message` holds the wording.  A fault is structural
(`Fault.isStructural`) when the schema itself is defective. -/

namespace WireCodec

/-- Why the system refuses an operation on a file or a directory. -/
inductive Denial
  | missing
  | notDirectory
  | isDirectory
  | occupied
  | nameTooLong
  /-- The path holds a zero, which no path may. -/
  | zeroInPath
  /-- The bytes of a file are no UTF-8 text. -/
  | notText
  /-- A reason given in words. -/
  | stated (reason : String)
  deriving DecidableEq, Repr

def Denial.message : Denial → String
  | missing => "No such file or directory (os error 2)"
  | occupied => "File exists (os error 17)"
  | notDirectory => "Not a directory (os error 20)"
  | isDirectory => "Is a directory (os error 21)"
  | zeroInPath => "file name contained an unexpected NUL byte"
  | nameTooLong => "File name too long (os error 36)"
  | notText => "stream did not contain valid UTF-8"
  | stated reason => reason

/-- How a document fails to be one: it breaks the grammar, ends too early, or holds the wrong data. -/
inductive Flaw
  | grammar
  | ending
  | data
  deriving DecidableEq, Repr

/-- The place of a flaw is not reported; a placeholder stands for its description. -/
def Flaw.message (_ : Flaw) : String := "<parser message>"

/-- The three kinds of members, in the order in which a body holds them. -/
inductive Stage
  | field
  | group
  | varData
  deriving DecidableEq, Repr

namespace Stage

def rank : Stage → Nat
  | field => 0
  | group => 1
  | varData => 2

def describe : Stage → String
  | field => "field"
  | group => "group"
  | varData => "var data"

end Stage

/-- What a token list was expected to hold at some place. -/
inductive Expectation
  | signal (s : Signal)
  | member
  | fieldType
  deriving DecidableEq, Repr

def Expectation.describe : Expectation → String
  | signal s => s.word
  | member =>
    "BEGIN_FIELD, ENCODING, BEGIN_ENUM, BEGIN_SET, BEGIN_COMPOSITE, BEGIN_GROUP or BEGIN_VAR_DATA"
  | fieldType => "ENCODING, BEGIN_ENUM, BEGIN_SET or BEGIN_COMPOSITE"

/-- How a token list contradicts its own counts or offsets. -/
inductive Malformation
  | spanTooLong (name : String) (span remaining : Nat)
  | wrongClosing (name : String) (span : Nat) (found expected : Signal)
  | fieldWithoutType (name : String)
  | outOfOrder (stage : Stage) (name : String) (after : Stage)
  | shortVarData (span : Nat)
  | variableComposite
  | missingToken (expected : Expectation) (index : Nat)
  | noPrimitive
  | constantWithoutValue
  | enumValueWithoutLiteral
  | choiceWithoutIndex
  | overlap (field : String) (start : Nat) (previous : String) (ending : Nat)
  | pastBlock (field : String) (ending limit : Nat)
  | groupWithoutLength
  | messageWithoutLength
  | typeRunTooLong (span : Nat)
  /-- A contradiction given in words. -/
  | stated (details : String)
  deriving DecidableEq, Repr

def Malformation.message : Malformation → String
  | spanTooLong name span remaining =>
    s!"'{name}' spans {span} tokens but only {remaining} remain"
  | wrongClosing name span found expected =>
    s!"'{name}' run of {span} tokens ends with {found.title} instead of {expected.title}"
  | fieldWithoutType name => s!"field '{name}' has no type"
  | outOfOrder stage name after => s!"{stage.describe} '{name}' follows a {after.describe}"
  | shortVarData span => s!"var data spans {span} tokens, expected 6"
  | variableComposite => "composite contains a group or var data member"
  | missingToken expected index => s!"missing {expected.describe} at token {index}"
  | noPrimitive => "token carries no primitive type"
  | constantWithoutValue => "constant without a value"
  | enumValueWithoutLiteral => "valid value without a literal"
  | choiceWithoutIndex => "choice without a bit index"
  | overlap field start previous ending =>
    s!"field '{field}' at offset {start} overlaps '{previous}' ending at {ending}"
  | pastBlock field ending limit =>
    s!"field '{field}' ends at {ending} past the block length {limit}"
  | groupWithoutLength => "group has no block length"
  | messageWithoutLength => "message has no block length"
  | typeRunTooLong span => s!"type run of {span} tokens exceeds its token list"
  | stated details => details

/-- What can go wrong. -/
inductive Fault
  | fileRead (path : String) (reason : Denial)
  | fileWrite (path : String) (reason : Denial)
  | directoryCreate (path : String) (reason : Denial)
  /-- A file is in the way and may not be replaced. -/
  | fileExists (path : String)
  /-- A module name would lead out of the output directory. -/
  | pathTraversal (path : String)
  | document (flaw : Flaw)
  | unexpectedSignal (expected : Expectation) (found : Signal) (name : String) (index : Nat)
  | malformedRange (name : String) (details : Malformation)
  /-- A group's header is not of the fixed shape. -/
  | groupHeader (group : String) (found : Nat)
  | emptyEnum (name : String)
  | typeCycle (name : String)
  | missingType (name : String)
  | unsupportedEncoding (name encoding : String)
  | invalidLiteral (primitive value : String)
  | internal (details : String)
  deriving DecidableEq, Repr

namespace Fault

def message : Fault → String
  | fileRead path reason => s!"failed to read file '{path}': {reason.message}"
  | fileWrite path reason => s!"failed to write file '{path}': {reason.message}"
  | directoryCreate path reason => s!"failed to create directory '{path}': {reason.message}"
  | fileExists path => s!"refusing to overwrite existing file '{path}'"
  | pathTraversal path => s!"path traversal detected: '{path}' would escape output directory"
  | document flaw => s!"failed to parse IR: {flaw.message}"
  | unexpectedSignal expected found name index =>
    s!"expected {expected.describe} at token {index} but found {found.title} ('{name}')"
  | malformedRange name details => s!"malformed token range for '{name}': {details.message}"
  | groupHeader group found =>
    s!"group '{group}' header spans {found} tokens, expected 4 with blockLength and numInGroup"
  | emptyEnum name => s!"no valid values provided for enum '{name}'"
  | typeCycle name => s!"composite '{name}' is part of a reference cycle"
  | missingType name => s!"type '{name}' is referenced but never defined"
  | unsupportedEncoding name encoding => s!"unsupported character encoding '{encoding}' on '{name}'"
  | invalidLiteral primitive value => s!"invalid literal '{value}' for {primitive}"
  | internal details => s!"internal error: {details}"

/-- The message, and behind it the reason that the fault itself was given. -/
def chain (f : Fault) : List String :=
  match f with
  | fileRead _ reason | fileWrite _ reason | directoryCreate _ reason => [f.message, reason.message]
  | document flaw => [f.message, flaw.message]
  | _ => [f.message]

/-- Is the schema itself defective? -/
def isStructural : Fault → Bool
  | unexpectedSignal .. | malformedRange .. | groupHeader .. | emptyEnum .. | typeCycle ..
  | missingType .. => true
  | _ => false

end Fault
end WireCodec
