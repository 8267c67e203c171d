import WireCodec.Codec.BitSet
import WireCodec.Codec.Enumeration
import WireCodec.Proofs.Trees.Side
/-! # The trees of enums and bit sets

The code that `Codec.Enumeration.render` and `Codec.BitSet.render` write, as trees. -/

namespace WireCodec.Codec

open Code (braces spaced Reads)

/-! ### Enums -/

namespace Enumeration

/-- The code of an enum, as it is written. -/
def code (e : Enumeration) : List Code := Code.ofCalls e.render

/-- The definition of the enum. -/
def definition (e : Enumeration) : List Code :=
  let type := e.primitive.typeName
  [.doc (e.description.getD s!"\x60{e.schemaName}\x60 encoded as \x60{type}\x60"),
   "#[derive(Clone, Copy, Debug, PartialEq, Eq, PartialOrd, Ord, Hash)]",
   Code.text s!"#[repr({type})]",
   braces s!"pub enum {e.name}"
     ((e.variants.map fun (variant, literal) => Code.text s!"{variant} = {literal},")
       ++ [Code.text s!"NullVal = {e.null},"])]

/-- The reading of a value: the listed ones from top to bottom, then `NullVal`. -/
def reading (e : Enumeration) : List Code :=
  (e.variants.map fun (variant, literal) => Code.text s!"{literal} => Self::{variant},")
    ++ [Code.text "_ => Self::NullVal,"]

/-- The writing of a variant. -/
def writing (e : Enumeration) : List Code :=
  (e.variants.map fun (variant, literal) => Code.text s!"{e.name}::{variant} => {literal},")
    ++ [Code.text s!"{e.name}::NullVal => {e.null},"]

/-- The code of an enum as a tree. -/
def tree (e : Enumeration) : List Code :=
  let type := e.primitive.typeName
  spaced
    [e.definition,
     [braces s!"impl Default for {e.name}"
       (inlined "fn default() -> Self" [Code.text s!"{e.name}::NullVal"])],
     [braces s!"impl From<{type}> for {e.name}"
       (inlined s!"fn from(v: {type}) -> Self" [braces "match v" e.reading])],
     [braces s!"impl From<{e.name}> for {type}"
       (inlined s!"fn from(v: {e.name}) -> Self" [braces "match v" e.writing])]]

theorem reads_render (e : Enumeration) : Reads e.render e.tree := by
  intro front frames
  have hdefinition := Reads.lines (fun v : String × String => s!"{v.1} = {v.2},") e.variants
  have hreading := Reads.lines (fun v : String × String => s!"{v.2} => Self::{v.1},") e.variants
  have hwriting := Reads.lines (fun v : String × String => s!"{e.name}::{v.1} => {v.2},") e.variants
  simp [render, tree, definition, reading, writing, inlined, braces, Code.text, hdefinition _ _,
    hreading _ _, hwriting _ _]

theorem code_eq (e : Enumeration) : e.code = e.tree := e.reads_render.ofCalls

end Enumeration

/-! ### Bit sets -/

namespace BitSet

/-- The code of a bit set, as it is written. -/
def code (s : BitSet) : List Code := Code.ofCalls s.render

/-- The getter of a choice. -/
def getter (choice : String) (bit : Nat) : List Code :=
  inlined s!"pub fn get_{choice}(&self) -> bool" [Code.text s!"(self.0 & (1 << {bit})) != 0"]

/-- The setter of a choice. -/
def setter (choice : String) (bit : Nat) : List Code :=
  inlined s!"pub fn set_{choice}(&mut self, value: bool) -> &mut Self"
    [Code.text <|
      s!"self.0 = if value \x7b self.0 | (1 << {bit}) \x7d else "
        ++ s!"\x7b self.0 & !(1 << {bit}) \x7d;",
     "self"]

/-- The code of a bit set as a tree. -/
def tree (s : BitSet) : List Code :=
  let type := s.primitive.typeName
  spaced
    [[.doc (s.description.getD s!"\x60{s.schemaName}\x60 choices packed into a \x60{type}\x60"),
      "#[derive(Default, Clone, Copy, PartialEq, Eq, PartialOrd, Ord, Hash)]",
      Code.text s!"pub struct {s.name}(pub {type});"],
     [braces s!"impl {s.name}" <| spaced <|
       [inlined s!"pub fn new(value: {type}) -> Self" [Code.text s!"{s.name}(value)"],
        inlined "pub fn clear(&mut self) -> &mut Self" ["self.0 = 0;", "self"]]
       ++ s.choices.flatMap fun (choice, bit) => [getter choice bit, setter choice bit]],
     [braces s!"impl core::fmt::Debug for {s.name}"
       (inlined "fn fmt(&self, fmt: &mut core::fmt::Formatter<'_>) -> core::fmt::Result"
         [Code.text s.debugging])]]

theorem reads_choice (choice : String) (bit : Nat) :
    Reads (emitChoice choice bit) (.blank :: (getter choice bit ++ .blank :: setter choice bit)) := by
  intro front frames
  simp [emitChoice, getter, setter, inlined, braces, Code.text]

theorem reads_render (s : BitSet) : Reads s.render s.tree := by
  intro front frames
  have hchoices := Reads.flatMap fun (c : String × Nat) (_ : c ∈ s.choices) => reads_choice c.1 c.2
  simp [render, tree, inlined, braces, Code.text, Code.spaced_cons, List.flatMap_assoc, hchoices _ _]

theorem code_eq (s : BitSet) : s.code = s.tree := s.reads_render.ofCalls

end BitSet
end WireCodec.Codec
