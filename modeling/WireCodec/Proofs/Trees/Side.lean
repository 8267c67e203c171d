import WireCodec.Codec.Side
import WireCodec.Proofs.Transcript
/-! # The trees of what nested codecs share

The code that `Codec.renderLinks` and its companions write, as trees. -/

namespace WireCodec.Codec

open Code (braces bare spaced Reads)

/-- A function that is expanded in place. -/
def inlined (heading : String) (body : List Code) : List Code :=
  ["#[inline]", braces heading body]

/-- A block for a nested codec, whose parent has the given trait. -/
def nestedImpl (heading bound : String) (body : List Code) : List Code :=
  [Code.text heading, "where", Code.text s!"    P: {bound}<'a>,", bare body]

/-! ### Parents -/

/-- Forwards a call to the parent. -/
def forward (borrow call : String) : List Code :=
  [braces s!"match self.parent.{borrow}()"
    [Code.text s!"Some(parent) => {call},", "None => parent_missing(),"]]

/-- The implementation of a trait by forwarding to the parent. -/
def forwardingImpl (trait codec : String) (functions : List Code) : List Code :=
  nestedImpl s!"impl<'a, P> {trait}<'a> for {codec}<P>" trait functions

/-- Access to the buffer and to the limit through the parent. -/
def linkImpls (codec : String) (side : Side) : List Code :=
  let buffer := match side with
    | .encode =>
      forwardingImpl "Writer" codec
        (inlined "fn get_buf_mut(&mut self) -> &mut WriteBuf<'a>"
          (forward "as_mut" "parent.get_buf_mut()"))
    | .decode =>
      forwardingImpl "Reader" codec <| spaced
        [inlined "fn get_buf(&self) -> &ReadBuf<'a>" (forward "as_ref" "parent.get_buf()"),
         inlined "fn acting_version(&self) -> SchemaVersion"
          (forward "as_ref" "parent.acting_version()")]
  let limit := forwardingImpl side.limitTrait codec <| spaced
    [inlined "fn get_limit(&self) -> usize" (forward "as_ref" "parent.get_limit()"),
     inlined "fn set_limit(&mut self, limit: usize)" (forward "as_mut" "parent.set_limit(limit)")]
  spaced [buffer, limit]

/-- The default of a nested codec, without a parent and without a bound on its type. -/
def defaultImpl (codec : String) (fields : List (String × String)) : List Code :=
  [braces s!"impl<P> Default for {codec}<P>"
    (inlined "fn default() -> Self"
      [braces "Self"
        ("parent: None," :: fields.map fun (name, value) => Code.text s!"{name}: {value},")])]

/-- The block of a nested codec's own functions. -/
def inherentImpl (codec bound : String) (body : List Code) : List Code :=
  nestedImpl s!"impl<'a, P> {codec}<P>" bound body

/-- Hands the enclosing codec back. -/
def parentFunction : List Code :=
  inlined "pub fn parent(&mut self) -> SbeResult<P>"
    ["self.parent.take().ok_or(SbeErr::ParentNotSet)"]

theorem reads_links (codec : String) (side : Side) :
    Reads (renderLinks codec side) (linkImpls codec side) := by
  intro front frames
  cases side <;>
    simp [renderLinks, openImpl, emitForward, linkImpls, forwardingImpl, nestedImpl, forward, inlined,
      Side.limitTrait, spaced, bare, braces, Code.text]

theorem reads_default (codec : String) (fields : List (String × String)) :
    Reads (renderDefault codec fields) (defaultImpl codec fields) := by
  intro front frames
  simp [renderDefault, defaultImpl, inlined, braces, Code.text, Reads.lines _ fields _ _]

theorem reads_parent : Reads renderParent parentFunction := by
  intro front frames
  simp [renderParent, parentFunction, inlined, braces]

end WireCodec.Codec
