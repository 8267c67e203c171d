import WireCodec.Schema.Token
/-! # Members

The tokens of a message, a group or a composite are the runs of its members, one after the other:
first the fields, then the groups, then the var data.  `Member.range` cuts a token list into runs by
their stated lengths and describes each as a `Member`; a group is cut up in the same way.

A run that opens must close with the signal that belongs to its opening one. -/

namespace WireCodec

/-- A member at a fixed offset. -/
structure Field where
  /-- The token that names the field: that of its type, unless the type is wrapped. -/
  token : Token
  /-- The first token of the type. -/
  type : Token
  /-- The run of the type. -/
  run : List Token
  deriving DecidableEq, Repr

namespace Field

def name (f : Field) : String := f.token.name

/-- The version that introduced the field or its type, whichever is later. -/
def version (f : Field) : Nat := max f.token.version f.type.version

/-- Is the field or its type a constant? -/
def isConstant (f : Field) : Bool := f.token.isConstant || f.type.isConstant

end Field

/-- The opening token of a group and the encodings of its header. -/
structure GroupHead where
  token : Token
  blockLength : Token
  numInGroup : Token
  deriving DecidableEq, Repr

/-- Where an encoding of a header ends. -/
def Token.headerEnd (t : Token) : Except Fault Nat := do
  return t.blockOffset + (← t.primitive).size

/-- The number of bytes of a group's header. -/
def GroupHead.size (h : GroupHead) : Except Fault Nat := do
  let blockLengthEnd ← h.blockLength.headerEnd
  let numInGroupEnd ← h.numInGroup.headerEnd
  return max blockLengthEnd numInGroupEnd

/-- A member of variable length: a length and the bytes it counts. -/
structure VarData where
  token : Token
  length : Token
  data : Token
  deriving DecidableEq, Repr

/-- A member of a message, a group or a composite. -/
inductive Member
  | field (f : Field)
  | group (head : GroupHead) (members : List Member)
  | varData (v : VarData)
  deriving Repr

/-- The members of a message, a group or a composite, in their order. -/
abbrev Body := List Member

namespace Body

def fields (b : Body) : List Field := b.filterMap fun
  | .field f => some f
  | _ => none

def groups (b : Body) : List (GroupHead × Body) := b.filterMap fun
  | .group h ms => some (h, ms)
  | _ => none

def varData (b : Body) : List VarData := b.filterMap fun
  | .varData v => some v
  | _ => none

/-- Is there a member of variable length? -/
def isVariable (b : Body) : Bool := b.any fun
  | .field _ => false
  | _ => true

end Body

/-! ### Runs -/

/-- The token at a place, which must have the given signal. -/
def tokenAt (tokens : List Token) (index : Nat) (signal : Signal) : Except Fault Token :=
  match tokens[index]? with
  | some t =>
    if t.signal = signal then .ok t
    else .error (.unexpectedSignal (.signal signal) t.signal t.name index)
  | none =>
    let owner := (tokens.head?.map Token.name).getD "<empty>"
    .error (.malformedRange owner (.missingToken (.signal signal) index))

namespace Token

/-- The tokens of the run that a token opens, from behind that token on. -/
def runAfter (t : Token) (rest : List Token) : List Token := rest.take (t.span - 1)

/-- Checks the run that a token opens against the tokens that follow it: there must be enough of
them, and an opening signal must be closed by its own closing signal. -/
def checkRun (owner : String) (t : Token) (rest : List Token) : Except Fault Unit :=
  if t.span = 0 ∨ rest.length + 1 < t.span then
    .error (.malformedRange owner (.spanTooLong t.name t.span (rest.length + 1)))
  else
    match t.signal.closing with
    | none => .ok ()
    | some closing =>
      let last := (t.runAfter rest).getLast?.getD t
      if t.span < 2 ∨ last.signal ≠ closing then
        .error (.malformedRange owner (.wrongClosing t.name t.span last.signal closing))
      else .ok ()

end Token

namespace Member

def stage : Member → Stage
  | field _ => .field
  | group .. => .group
  | varData _ => .varData

/-- The opening token and the header of a group, from the group's run.  The header takes four tokens,
among them encodings of the two names. -/
def groupHead (run : List Token) : Except Fault GroupHead := do
  let token ← tokenAt run 0 .beginGroup
  let header ← tokenAt run 1 .beginComposite
  let fault := Fault.groupHeader token.name header.span
  if header.span ≠ 4 ∨ run.length ≤ 1 + header.span then throw fault
  let find (name : String) : Except Fault Token :=
    match ((run.drop 1).take 4).find? fun t => t.signal == .encoding && t.name == name with
    | some t => .ok t
    | none => .error fault
  let blockLength ← find "blockLength"
  let numInGroup ← find "numInGroup"
  return { token, blockLength, numInGroup }

/-- The tokens of a group's members, from the group's run: those behind the header. -/
def groupInner (run : List Token) : List Token := (run.drop 5).dropLast

/-- A var data member, from its run. -/
def varDataOfRun (run : List Token) : Except Fault VarData := do
  let token ← tokenAt run 0 .beginVarData
  if run.length < 6 then throw (.malformedRange token.name (.shortVarData run.length))
  let _ ← tokenAt run 1 .beginComposite
  let length ← tokenAt run 2 .encoding
  let data ← tokenAt run 3 .encoding
  let _ ← length.primitive
  return { token, length, data }

/-- A field that wraps its type, from the field's run. -/
def wrappedField (owner : String) (token : Token) (inner : List Token) : Except Fault Field :=
  match inner.dropLast with
  | type :: run => .ok { token, type, run := type :: run }
  | [] => .error (.malformedRange owner (.fieldWithoutType token.name))

/-- The members of the tokens from some place on, with the place behind them.  No member may be of an
earlier stage than the one before it.  Places and spans have no bound here.  Words of 64 bits hold them
unless a span, added to its place, reaches 2⁶⁴; it is refused as longer than the list. -/
def range (owner : String) (stage : Stage) (index : Nat) :
    List Token → Except Fault (List Member × Nat)
  | [] => .ok ([], index)
  | token :: rest => do
    token.checkRun owner rest
    let inner := token.runAfter rest
    let member ← match token.signal with
      | .beginField => field <$> wrappedField owner token inner
      | .encoding | .beginEnum | .beginSet | .beginComposite =>
        pure (field { token, type := token, run := token :: inner })
      | .beginGroup => do
        let head ← groupHead (token :: inner)
        let (members, _) ← range token.name .field 0 (groupInner (token :: inner))
        pure (group head members)
      | .beginVarData => varData <$> varDataOfRun (token :: inner)
      | found => throw (.unexpectedSignal .member found token.name index)
    if member.stage.rank < stage.rank then
      throw (.malformedRange owner (.outOfOrder member.stage token.name stage))
    let (members, next) ←
      range owner member.stage (index + token.span) (rest.drop (token.span - 1))
    return (member :: members, next)
termination_by tokens => tokens.length
decreasing_by
  · rw [List.length_drop, List.length_cons]; omega
  · rw [groupInner, List.length_dropLast, List.length_drop, List.length_cons, Token.runAfter,
      List.length_take, List.length_cons]
    omega

end Member

namespace Body

/-- The members of the tokens from `start` on, and the place behind them. -/
def ofRange (owner : String) (tokens : List Token) (start : Nat) : Except Fault (Body × Nat) :=
  Member.range owner .field start (tokens.drop start)

/-- The members of a whole token list. -/
def ofTokens (owner : String) (tokens : List Token) : Except Fault Body :=
  (ofRange owner tokens 0).map (·.1)

/-- The tokens between the first and the last of the run that a token list begins with. -/
def innerTokens (tokens : List Token) (first : Token) : List Token :=
  (tokens.take first.span).tail.dropLast

/-- The members of a composite, from its run: fields only. -/
def ofComposite (run : List Token) : Except Fault Body := do
  let token ← tokenAt run 0 .beginComposite
  token.checkRun token.name run.tail
  let body ← ofTokens token.name (innerTokens run token)
  if body.isVariable then throw (.malformedRange token.name .variableComposite)
  return body

/-- The members of a message, from its tokens, and its opening token. -/
def ofMessage (tokens : List Token) : Except Fault (Token × Body) := do
  let token ← tokenAt tokens 0 .beginMessage
  token.checkRun token.name tokens.tail
  let body ← ofTokens token.name (innerTokens tokens token)
  return (token, body)

/-- A group with its members, from its run alone; within a range it is read in the same way. -/
def ofGroup (run : List Token) : Except Fault (GroupHead × Body) := do
  let head ← Member.groupHead run
  let body ← ofTokens head.token.name (Member.groupInner run)
  return (head, body)

end Body
end WireCodec
