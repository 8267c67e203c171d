import WireCodec.Codec.VarData
import WireCodec.Proofs.Trees.Side
/-! # The trees of accessors

The code that `Codec.emitField` and `Codec.emitVarData` write, as trees.  The gate in front of a member
that older schema versions do not have is one node of the tree. -/

namespace WireCodec.Codec

open Code (braces Reads)

/-! ### Setters -/

/-- A setter that writes one value. -/
def setOne (f : FieldLayout) (p : Primitive) (type value : String) : List Code :=
  inlined s!"pub fn {f.accessor}(&mut self, value: {type})"
    [.line [.bind f.address],
     .line ["self.get_buf_mut().", .put p ⟨"offset", 0, none⟩ value, ";"]]

def setter (f : FieldLayout) : List Code :=
  match f.kind with
  | .scalar s => setOne f s.primitive s.primitive.typeName "value"
  | .array element length =>
    let p := element.primitive
    inlined s!"pub fn {f.accessor}(&mut self, value: [{p.typeName}; {length}])"
      [.line [.bind f.address],
       "let buf = self.get_buf_mut();",
       braces "for (i, v) in value.iter().enumerate()"
         [.line ["buf.", .put p (elementAddress p) "*v", ";"]]]
  | .constant _ => [Code.text s!"// skipping CONSTANT {f.name}"]
  | .enumeration typeName p => setOne f p typeName s!"{p.typeName}::from(value)"
  | .bitSet typeName p => setOne f p typeName "value.0"
  | .composite typeName _ =>
    inlined s!"pub fn {f.accessor}_encoder(self) -> {typeName}Encoder<Self>"
      [.line [.bind f.address],
       .line [.nest s!"{typeName}Encoder::default().wrap" "self" ⟨"offset", 0, none⟩]]

/-! ### Getters -/

/-- Returns the absent value where the acting version does not have the member. -/
def gateOf (g : Gate) (absent : String) : List Code :=
  if g.isGated then [.gate g.since absent] else []

/-- Returns the absent value where the acting version does not have the field. -/
def gate (f : FieldLayout) : Except Fault (List Code) := do
  match ← f.absent with
  | some absent => return gateOf f.gate absent
  | none => return []

/-- A getter that returns a literal. -/
def getLiteral (f : FieldLayout) (type literal : String) : List Code :=
  inlined s!"pub fn {f.accessor}(&self) -> {type}" [Code.text literal]

def getConstant (f : FieldLayout) : Constant → Except Fault (List Code)
  | .number p v => do return getLiteral f p.typeName (← v.literal p)
  | .bytes s => .ok (getLiteral f "&'static [u8]" (Quoted.bytes s))
  | .text s => .ok (getLiteral f "&'static str" (Quoted.text s))
  | .variant enumType variant => .ok (getLiteral f enumType s!"{enumType}::{variant}")

def getScalar (f : FieldLayout) (s : Scalar) : Except Fault (List Code) := do
  let type := s.primitive.typeName
  let read := Piece.get s.primitive f.address
  let gate ← gate f
  if s.isOptional then
    let isNull ← s.null.nullCheck s.primitive "value"
    return inlined s!"pub fn {f.accessor}(&self) -> Option<{type}>"
      (gate ++ [.line ["let value = self.get_buf().", read, ";"],
        .choice [.text s!"if {isNull} \x7b"] ["None"] ["Some(value)"]])
  else
    return inlined s!"pub fn {f.accessor}(&self) -> {type}"
      (gate ++ [.line ["self.get_buf().", read]])

def getComposite (f : FieldLayout) (typeName : String) : Except Fault (List Code) := do
  let wrap := Piece.nest s!"{typeName}Decoder::default().wrap" "self" ⟨"offset", 0, none⟩
  if f.gate.isGated then
    return inlined s!"pub fn {f.accessor}_decoder(self) -> Either<Self, {typeName}Decoder<Self>>"
      ((← gate f) ++ [.line [.bind f.address], .line ["Either::Right(", wrap, ")"]])
  else
    return inlined s!"pub fn {f.accessor}_decoder(self) -> {typeName}Decoder<Self>"
      [.line [.bind f.address], .line [wrap]]

def getter (f : FieldLayout) : Except Fault (List Code) := do
  match f.kind with
  | .scalar s => getScalar f s
  | .array element length =>
    let p := element.primitive
    return inlined s!"pub fn {f.accessor}(&self) -> [{p.typeName}; {length}]"
      ((← gate f) ++
        [Code.text "let buf = self.get_buf();", .line [.bind f.address],
         .line ["core::array::from_fn(|i| buf.", .get p (elementAddress p), ")"]])
  | .constant c => getConstant f c
  | .enumeration typeName p =>
    return inlined s!"pub fn {f.accessor}(&self) -> {typeName}"
      ((← gate f) ++ [.line ["self.get_buf().", .get p f.address, ".into()"]])
  | .bitSet typeName p =>
    return inlined s!"pub fn {f.accessor}(&self) -> {typeName}"
      ((← gate f) ++
        [.line [.text s!"{typeName}::new(self.get_buf().", .get p f.address, ")"]])
  | .composite typeName _ => getComposite f typeName

/-! ### Var data -/

def setVarData (v : VarDataLayout) : List Code :=
  let type := v.lengthType.typeName
  let (valueType, bytes) := valueParameter v
  inlined s!"pub fn {v.accessor}(&mut self, value: {valueType}) -> SbeResult<()>"
    ["let data_length = value.len();",
     braces s!"if data_length > {type}::MAX as usize"
       [Code.text <|
         s!"return Err(SbeErr::VarDataTooLong \x7b length: data_length, max: {type}::MAX as usize "
           ++ "\x7d);"],
     "let limit = self.get_limit();",
     .line (passVarData v),
     .line ["self.get_buf_mut().", .put v.lengthType ⟨"limit", 0, none⟩ s!"data_length as {type}", ";"],
     .line ["self.get_buf_mut().", .putSlice (bytesAddress v) bytes, ";"],
     "Ok(())"]

def getVarData (v : VarDataLayout) : List Code :=
  inlined s!"pub fn {v.accessor}(&mut self) -> &'a [u8]"
    (gateOf v.gate "&[]"
      ++ [Code.text "let limit = self.get_limit();",
        .line ["let data_length = self.get_buf().", .get v.lengthType ⟨"limit", 0, none⟩, " as usize;"],
        .line (passVarData v),
        .line ["self.get_buf().", .getSlice (bytesAddress v) "data_length"]])

/-! ### Reading -/

theorem reads_gate (g : Gate) (absent : String) : Reads (emitGate g absent) (gateOf g absent) := by
  intro front frames
  unfold emitGate gateOf Gate.condition?
  cases g.isGated <;> simp [withText]

theorem alike_fieldGate (f : FieldLayout) : Alike Reads (emitFieldGate f) (gate f) := by
  refine .same _ fun absent => ?_
  cases absent with
  | none => exact .ok .nil
  | some absent => exact .ok (reads_gate f.gate absent)

theorem reads_put (f : FieldLayout) (p : Primitive) (type value : String) :
    Reads (emitPut f p type value) (setOne f p type value) := by
  intro front frames
  simp [emitPut, setOne, inlined, braces]

theorem reads_setter (f : FieldLayout) : Reads (emitSetter f) (setter f) := by
  unfold emitSetter setter
  cases f.kind with
  | scalar s => exact reads_put f s.primitive _ _
  | enumeration type p => exact reads_put f p _ _
  | bitSet type p => exact reads_put f p _ _
  | array element length | constant c | composite type schema =>
      intro front frames
      simp [inlined, braces, Code.text]

theorem reads_literal (f : FieldLayout) (type literal : String) :
    Reads (emitLiteral f type literal) (getLiteral f type literal) := by
  intro front frames
  simp [emitLiteral, getLiteral, inlined, braces, Code.text]

theorem alike_constant (f : FieldLayout) (c : Constant) :
    Alike Reads (emitConstant f c) (getConstant f c) := by
  cases c with
  | number p v => exact .same _ fun _ => .ok (reads_literal f _ _)
  | bytes s | text s | variant type name => exact .ok (reads_literal f _ _)

theorem alike_scalar (f : FieldLayout) (s : Scalar) :
    Alike Reads (emitScalarGetter f s) (getScalar f s) := by
  refine (alike_fieldGate f).bind fun gate tree hgate => ?_
  cases s.isOptional with
  | true =>
      refine .same _ fun isNull => .ok fun front frames => ?_
      simp [inlined, braces, toString, hgate _ _]
  | false =>
      refine .ok fun front frames => ?_
      simp [inlined, braces, hgate _ _]

theorem alike_composite (f : FieldLayout) (typeName : String) :
    Alike Reads (emitCompositeGetter f typeName) (getComposite f typeName) := by
  unfold emitCompositeGetter getComposite
  cases f.gate.isGated with
  | true =>
      refine (alike_fieldGate f).bind fun gate tree hgate => .ok fun front frames => ?_
      simp [inlined, braces, hgate _ _]
  | false =>
      refine .ok fun front frames => ?_
      simp [inlined, braces]

theorem alike_getter (f : FieldLayout) : Alike Reads (emitGetter f) (getter f) := by
  unfold emitGetter getter
  cases f.kind with
  | scalar s => exact alike_scalar f s
  | constant c => exact alike_constant f c
  | composite type schema => exact alike_composite f type
  | array element length | enumeration type p | bitSet type p =>
      refine (alike_fieldGate f).bind fun gate tree hgate => .ok fun front frames => ?_
      simp [inlined, braces, Code.text, hgate _ _]

/-! ### Accessors -/

/-- The documented accessor of a field, as it is written. -/
def fieldAccessor (side : Side) (f : FieldLayout) : Except Fault (List Code) :=
  Code.ofCalls <$> emitField side f

/-- The accessors of the fields of a block. -/
def fieldAccessors (side : Side) (fields : List FieldLayout) : Except Fault (List Code) := do
  return (← fields.mapM (fieldAccessor side)).flatten

/-- The documented accessor of a var data member, as it is written. -/
def varDataAccessor (side : Side) (v : VarDataLayout) : List Code :=
  Code.ofCalls (emitVarData side v)

/-- The accessor of a field as a tree. -/
def fieldTree (side : Side) (f : FieldLayout) : Except Fault (List Code) := do
  match side with
  | .encode => return .blank :: ((if f.kind.isConstant then [] else (document f).map .doc) ++ setter f)
  | .decode => return .blank :: ((document f).map .doc ++ (← getter f))

/-- The accessor of a var data member as a tree. -/
def varDataTree (side : Side) (v : VarDataLayout) : List Code :=
  .blank :: ((documentVarData v).map .doc ++ match side with
    | .encode => setVarData v
    | .decode => getVarData v)

theorem fieldAccessor_alike (side : Side) (f : FieldLayout) :
    Alike Reads (emitField side f) (fieldTree side f) := by
  cases side with
  | encode =>
      refine .ok (.blank (.append ?_ (reads_setter f)))
      cases f.kind.isConstant with
      | true => exact .nil
      | false => exact .docs _
  | decode => exact (alike_getter f).bind fun _ _ h => .ok (.blank (.append (.docs _) h))

theorem fieldAccessor_eq (side : Side) (f : FieldLayout) : fieldAccessor side f = fieldTree side f :=
  Code.ofCalls_of_alike (fieldAccessor_alike side f)

theorem alike_field (side : Side) (f : FieldLayout) :
    Alike Reads (emitField side f) (fieldAccessor side f) := by
  rw [fieldAccessor_eq]
  exact fieldAccessor_alike side f

theorem alike_fields (side : Side) (fields : List FieldLayout) :
    Alike Reads (emitFields side fields) (fieldAccessors side fields) :=
  (Alike.mapM (alike_field side) fields).bind fun _ _ h => .ok (.flatten h)

theorem varDataAccessor_reads (side : Side) (v : VarDataLayout) :
    Reads (emitVarData side v) (varDataTree side v) := by
  refine .blank (.append (.docs _) ?_)
  cases side with
  | encode =>
      intro front frames
      simp [setVarData, inlined, braces, Code.text]
  | decode =>
      intro front frames
      simp [getVarData, inlined, braces, Code.text, reads_gate _ _ _ _]

theorem varDataAccessor_eq (side : Side) (v : VarDataLayout) :
    varDataAccessor side v = varDataTree side v :=
  (varDataAccessor_reads side v).ofCalls

theorem reads_varData (side : Side) (v : VarDataLayout) :
    Reads (emitVarData side v) (varDataAccessor side v) := by
  rw [varDataAccessor_eq]
  exact varDataAccessor_reads side v

end WireCodec.Codec
