import WireCodec.Writer
/-! # The two sides of a codec

A codec comes as an encoder and a decoder.  A codec that is nested in another owns the enclosing one
as its parent as long as it is in use: it forwards access to the buffer and to the limit, and hands
the enclosing codec back at the end. -/

namespace WireCodec.Codec

inductive Side
  | encode
  | decode
  deriving DecidableEq, Repr

namespace Side

def all : List Side := [encode, decode]

/-- The module of the side's codecs. -/
def module : Side → String
  | encode => "encoder"
  | decode => "decoder"

/-- The end of the names of the side's codecs. -/
def suffix : Side → String
  | encode => "Encoder"
  | decode => "Decoder"

/-- The trait that gives access to the buffer. -/
def bufferTrait : Side → String
  | encode => "Writer"
  | decode => "Reader"

/-- The trait that gives access to the limit. -/
def limitTrait : Side → String
  | encode => "Encoder"
  | decode => "Decoder"

end Side

open Call (line enter)

/-! ### Parents -/

/-- Opens the implementation of a trait that the parent has, too. -/
def openImpl (trait codec : String) : List Call :=
  [line s!"impl<'a, P> {trait}<'a> for {codec}<P>", "where", line s!"    P: {trait}<'a>,", "\x7b",
   .indent]

/-- Forwards a call to the parent. -/
def emitForward (borrow call : String) : List Call :=
  [enter s!"match self.parent.{borrow}()", line s!"Some(parent) => {call},",
   "None => parent_missing(),", .close]

/-- Access to the buffer and to the limit through the parent. -/
def renderLinks (codec : String) (side : Side) : List Call :=
  (match side with
    | .encode =>
      openImpl "Writer" codec
        ++ [line "#[inline]", enter "fn get_buf_mut(&mut self) -> &mut WriteBuf<'a>"]
        ++ emitForward "as_mut" "parent.get_buf_mut()" ++ [.close, .close]
    | .decode =>
      openImpl "Reader" codec
        ++ [line "#[inline]", enter "fn get_buf(&self) -> &ReadBuf<'a>"]
        ++ emitForward "as_ref" "parent.get_buf()"
        ++ [Call.close, .blank, "#[inline]", enter "fn acting_version(&self) -> SchemaVersion"]
        ++ emitForward "as_ref" "parent.acting_version()" ++ [.close, .close])
  ++ [.blank]
  ++ openImpl side.limitTrait codec
  ++ [line "#[inline]", enter "fn get_limit(&self) -> usize"]
  ++ emitForward "as_ref" "parent.get_limit()"
  ++ [Call.close, .blank, "#[inline]", enter "fn set_limit(&mut self, limit: usize)"]
  ++ emitForward "as_mut" "parent.set_limit(limit)" ++ [.close, .close]

/-- The default of a nested codec, without a parent and without a bound on its type. -/
def renderDefault (codec : String) (fields : List (String × String)) : List Call :=
  [enter s!"impl<P> Default for {codec}<P>", "#[inline]", enter "fn default() -> Self", enter "Self",
   "parent: None,"]
  ++ (fields.map fun (name, value) => line s!"{name}: {value},") ++ [.close, .close, .close]

/-- Opens the block of a nested codec's own functions. -/
def openInherent (codec bound : String) : List Call :=
  [line s!"impl<'a, P> {codec}<P>", "where", line s!"    P: {bound}<'a>,", "\x7b", .indent]

/-- Hands the enclosing codec back. -/
def renderParent : List Call :=
  ["#[inline]", enter "pub fn parent(&mut self) -> SbeResult<P>",
   "self.parent.take().ok_or(SbeErr::ParentNotSet)", .close]

end WireCodec.Codec
