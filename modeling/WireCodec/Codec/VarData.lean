import WireCodec.Codec.Accessor
/-! # Accessors of var data

Var data lies behind the fixed block and the groups, at the running limit of its codec: a length, and
as many bytes.  A setter refuses more bytes than the length can count; a getter returns no bytes
where the acting version does not have the member.  Both move the limit past what they have
accessed. -/

namespace WireCodec.Codec

open Call (line enter)

/-- The documentation of a var data member. -/
def documentVarData (v : VarDataLayout) : List String :=
  [s!"var data '{v.name}'"]
  ++ (v.characterEncoding.toList.map fun e => s!"- characterEncoding: {e}")
  ++ [s!"- lengthPrefix: {v.lengthType.typeName}", s!"- version: {v.gate.since}"]

/-- Moves the limit past the length and the bytes. -/
def passVarData (v : VarDataLayout) : List Piece :=
  [.moveLimit "self" "limit" s!"{v.prefixSize} + data_length", ";"]

/-- The address of the bytes. -/
def bytesAddress (v : VarDataLayout) : Address := ⟨"limit", v.prefixSize, none⟩

/-- The type of the value that a setter takes, and the bytes of the value. -/
def valueParameter (v : VarDataLayout) : String × String :=
  match v.text with
  | some .utf8 => ("&str", "value.as_bytes()")
  | _ => ("&[u8]", "value")

/-- The documented accessor of a var data member. -/
def emitVarData (side : Side) (v : VarDataLayout) : List Call :=
  let type := v.lengthType.typeName
  .blank :: ((documentVarData v).map .doc ++ line "#[inline]" :: match side with
    | .encode =>
      let (valueType, bytes) := valueParameter v
      [enter s!"pub fn {v.accessor}(&mut self, value: {valueType}) -> SbeResult<()>",
       "let data_length = value.len();",
       enter s!"if data_length > {type}::MAX as usize",
       line <|
         s!"return Err(SbeErr::VarDataTooLong \x7b length: data_length, max: {type}::MAX as usize "
           ++ "\x7d);",
       .close,
       "let limit = self.get_limit();",
       .write (passVarData v),
       .write ["self.get_buf_mut().", .put v.lengthType ⟨"limit", 0, none⟩ s!"data_length as {type}",
         ";"],
       .write ["self.get_buf_mut().", .putSlice (bytesAddress v) bytes, ";"],
       "Ok(())",
       .close]
    | .decode =>
      [enter s!"pub fn {v.accessor}(&mut self) -> &'a [u8]"]
      ++ emitGate v.gate "&[]"
      ++ [line "let limit = self.get_limit();",
          .write ["let data_length = self.get_buf().", .get v.lengthType ⟨"limit", 0, none⟩,
            " as usize;"],
          .write (passVarData v),
          .write ["self.get_buf().", .getSlice (bytesAddress v) "data_length"],
          .close])

end WireCodec.Codec
