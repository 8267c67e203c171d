/-! # Signals

A signal says what a token is for.  Seven signals open a run of tokens, and each of them names the
signal that closes the run. -/

namespace WireCodec

inductive Signal
  | beginMessage | endMessage
  | beginComposite | endComposite
  | beginField | endField
  | beginGroup | endGroup
  | beginEnum | validValue | endEnum
  | beginSet | choice | endSet
  | beginVarData | endVarData
  | encoding
  deriving DecidableEq, Repr

namespace Signal

def all : List Signal :=
  [beginMessage, endMessage, beginComposite, endComposite, beginField, endField, beginGroup,
   endGroup, beginEnum, validValue, endEnum, beginSet, choice, endSet, beginVarData, endVarData,
   encoding]

/-- The word in documents. -/
def word : Signal → String
  | beginMessage => "BEGIN_MESSAGE"
  | endMessage => "END_MESSAGE"
  | beginComposite => "BEGIN_COMPOSITE"
  | endComposite => "END_COMPOSITE"
  | beginField => "BEGIN_FIELD"
  | endField => "END_FIELD"
  | beginGroup => "BEGIN_GROUP"
  | endGroup => "END_GROUP"
  | beginEnum => "BEGIN_ENUM"
  | validValue => "VALID_VALUE"
  | endEnum => "END_ENUM"
  | beginSet => "BEGIN_SET"
  | choice => "CHOICE"
  | endSet => "END_SET"
  | beginVarData => "BEGIN_VAR_DATA"
  | endVarData => "END_VAR_DATA"
  | encoding => "ENCODING"

def ofWord? (s : String) : Option Signal := all.find? (·.word == s)

theorem ofWord?_word (s : Signal) : ofWord? s.word = some s := by
  cases s <;> rfl

/-- The name in messages. -/
def title : Signal → String
  | beginMessage => "BeginMessage"
  | endMessage => "EndMessage"
  | beginComposite => "BeginComposite"
  | endComposite => "EndComposite"
  | beginField => "BeginField"
  | endField => "EndField"
  | beginGroup => "BeginGroup"
  | endGroup => "EndGroup"
  | beginEnum => "BeginEnum"
  | validValue => "ValidValue"
  | endEnum => "EndEnum"
  | beginSet => "BeginSet"
  | choice => "Choice"
  | endSet => "EndSet"
  | beginVarData => "BeginVarData"
  | endVarData => "EndVarData"
  | encoding => "Encoding"

/-- The signal that closes a run opened by this one. -/
def closing : Signal → Option Signal
  | beginMessage => some endMessage
  | beginComposite => some endComposite
  | beginField => some endField
  | beginGroup => some endGroup
  | beginEnum => some endEnum
  | beginSet => some endSet
  | beginVarData => some endVarData
  | _ => none

end Signal
end WireCodec
