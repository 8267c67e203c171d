import Mathlib.Data.List.Nodup
import WireCodec.Proofs.Expressions
import WireCodec.Proofs.Trees.Table
/-! # The choices of a bit set

The getters and setters of a bit set are the methods in its code whose names begin with `get_` and
`set_`, one of each for every choice and in the order of the choices.  What they do to the stored integer
is read off their bodies (`Codec.BitSet.read`, `Codec.BitSet.write`, `Codec.BitSet.shifts`).

Every accessor operates on the bit of its choice (`Codec.BitSet.Operates`): its shifts stay below the
width, a getter returns what the setter of the choice was given, and a setter changes what exactly those
getters return whose choices are the same bit.  Nothing keeps two choices from being the same bit, so
choices are independent of each other exactly if their bits are distinct
(`Codec.BitSet.independent_iff_nodup`). -/

namespace WireCodec

/-! ### Blocks -/

namespace Code

mutual

/-- The blocks of a code and the texts that open them, from the outside in. -/
def blocksOf : Code → List (String × List Code)
  | block opening body _ => (renderPieces opening, body) :: blocks body
  | choice opening first second =>
    (renderPieces opening, first) :: (blocks first ++ ("\x7d else \x7b", second) :: blocks second)
  | blank | line _ | doc _ | gate .. => []

def blocks : List Code → List (String × List Code)
  | [] => []
  | c :: cs => blocksOf c ++ blocks cs

end

theorem blocks_append (xs ys : List Code) : blocks (xs ++ ys) = blocks xs ++ blocks ys := by
  induction xs with
  | nil => rfl
  | cons x xs ih => rw [List.cons_append, blocks, blocks, ih, List.append_assoc]

theorem blocks_spaced (parts : List (List Code)) : blocks (spaced parts) = parts.flatMap blocks := by
  induction parts with
  | nil => rfl
  | cons p parts ih =>
      cases parts with
      | nil => simp
      | cons q parts =>
          rw [spaced_cons_cons, blocks_append, blocks, ih]
          rfl

theorem blocks_braces (heading : String) (body : List Code) :
    blocks [braces heading body] = (heading ++ " \x7b", body) :: blocks body := by
  rw [blocks, braces, blocksOf, renderPieces_text, blocks, List.append_nil]

theorem blocks_inlined (heading : String) (body : List Code) :
    blocks (Codec.inlined heading body) = (heading ++ " \x7b", body) :: blocks body :=
  blocks_braces heading body

/-- The blocks that are opened by a text with some beginning. -/
def methods (front : String) (code : List Code) : List (String × List Code) :=
  (blocks code).filter fun m => front.toList <+: m.1.toList

variable {front heading : String} {body : List Code}

theorem methods_spaced (front : String) (parts : List (List Code)) :
    methods front (spaced parts) = parts.flatMap (methods front) := by
  unfold methods
  rw [blocks_spaced, List.filter_flatMap]

/-- A block with another beginning is not meant. -/
theorem methods_braces (h : ¬ front.toList <+: (heading ++ " \x7b").toList) :
    methods front [braces heading body] = methods front body := by
  unfold methods
  rw [blocks_braces, List.filter_cons_of_neg]
  simpa using h

theorem methods_inlined (hbody : blocks body = []) :
    methods front (Codec.inlined heading body)
      = if front.toList <+: (heading ++ " \x7b").toList then [(heading ++ " \x7b", body)] else [] := by
  unfold methods
  rw [blocks_inlined, hbody, List.filter_singleton]
  split <;> simp_all

end Code

/-! ### Widths -/

namespace Primitive

/-- The number of bits of an integer type. -/
def width? (p : Primitive) : Option Nat := if p.isFloat then none else some (p.size * 8)

theorem width?_eq_some {p : Primitive} {w : Nat} (h : p.width? = some w) :
    w = p.size * 8 ∧ 1 < w := by
  cases p <;> cases h <;> exact ⟨rfl, by decide⟩

end Primitive

namespace Codec.BitSet

open Code (methods)

variable {t : NamedType} {opening : Token} {s : BitSet} {w : Nat}

/-! ### What the accessors do -/

/-- The getters in the code of a bit set. -/
def getters (s : BitSet) : List (String × List Code) := methods "pub fn get_" s.code

/-- The setters in the code of a bit set. -/
def setters (s : BitSet) : List (String × List Code) := methods "pub fn set_" s.code

/-- The getter of the choice at a place. -/
def getter? (s : BitSet) (i : Nat) : Option Getter := s.getters[i]?.bind fun m => Getter.ofBody? m.2

/-- The setter of the choice at a place. -/
def setter? (s : BitSet) (i : Nat) : Option Setter := s.setters[i]?.bind fun m => Setter.ofBody? m.2

/-- What the getter of the choice at a place returns where `v` is stored. -/
def read (s : BitSet) (i : Nat) (v : BitVec w) : Option Bool := (s.getter? i).bind (·.run v)

/-- What the setter of the choice at a place stores in the place of `v`. -/
def write (s : BitSet) (i : Nat) (value : Bool) (v : BitVec w) : Option (BitVec w) :=
  (s.setter? i).bind (·.run value v)

/-- By how much the accessors of the choice at a place shift. -/
def shifts (s : BitSet) (i : Nat) : Option (List Nat) :=
  return (← s.getter? i).shifts ++ (← s.setter? i).shifts

/-- The choice at a place can be set to any value, and no other choice changes when it is. -/
structure IsIndependent (w : Nat) (s : BitSet) (i : Nat) : Prop where
  shifts : ∃ counts, s.shifts i = some counts ∧ ∀ n ∈ counts, n < w
  writes : ∀ (value : Bool) (v : BitVec w), ∃ v', s.write i value v = some v' ∧
    s.read i v' = some value ∧ ∀ j < s.choices.length, j ≠ i → s.read j v' = s.read j v

/-- The choices of a bit set of some width are independent of each other. -/
def Independent (w : Nat) (s : BitSet) : Prop := ∀ i < s.choices.length, s.IsIndependent w i

/-- The accessors of a bit set operate on the bits of their choices. -/
structure Operates (w : Nat) (s : BitSet) : Prop where
  getters : s.getters.map Prod.fst = s.choices.map fun c => s!"pub fn get_{c.1}(&self) -> bool \x7b"
  setters : s.setters.map Prod.fst
    = s.choices.map fun c => s!"pub fn set_{c.1}(&mut self, value: bool) -> &mut Self \x7b"
  shifts : ∀ i c, s.choices[i]? = some c → s.shifts i = some [c.2, c.2, c.2] ∧ c.2 < w
  reads : ∀ i c, s.choices[i]? = some c → ∀ v : BitVec w, s.read i v = some (v.getLsbD c.2)
  writes : ∀ i c, s.choices[i]? = some c → ∀ (value : Bool) (v : BitVec w), ∃ v',
    s.write i value v = some v' ∧ ∀ j d, s.choices[j]? = some d →
      s.read j v' = if d.2 = c.2 then some value else s.read j v

/-! ### The accessors in the code -/

theorem methods_code {front : String} (hfront : front = "pub fn get_" ∨ front = "pub fn set_")
    (s : BitSet) : methods front s.code
      = s.choices.flatMap fun c => methods front (getter c.1 c.2) ++ methods front (setter c.1 c.2) := by
  have hnew : methods front (inlined s!"pub fn new(value: {s.primitive.typeName}) -> Self"
      [Code.text s!"{s.name}(value)"]) = [] := by
    rw [Code.methods_inlined rfl, if_neg]
    rcases hfront with rfl | rfl <;> simp [toString]
  have hclear : methods front (inlined "pub fn clear(&mut self) -> &mut Self" ["self.0 = 0;", "self"])
      = [] := by
    rw [Code.methods_inlined rfl, if_neg]
    rcases hfront with rfl | rfl <;> simp
  have hdebug : methods front [Code.braces s!"impl core::fmt::Debug for {s.name}"
      (inlined "fn fmt(&self, fmt: &mut core::fmt::Formatter<'_>) -> core::fmt::Result"
        [Code.text s.debugging])] = [] := by
    rw [Code.methods_braces, Code.methods_inlined rfl, if_neg]
    · rcases hfront with rfl | rfl <;> simp
    · rcases hfront with rfl | rfl <;> simp [toString]
  rw [code_eq, tree, Code.methods_spaced, List.flatMap_cons, List.flatMap_cons, List.flatMap_singleton,
    hdebug, Code.methods_braces, Code.methods_spaced, List.flatMap_append, List.flatMap_cons,
    List.flatMap_singleton, hnew, hclear, List.flatMap_assoc]
  · simp only [List.flatMap_cons, List.flatMap_nil, List.append_nil, List.nil_append]
    rfl
  · rcases hfront with rfl | rfl <;> simp [toString]

theorem getters_eq (s : BitSet) :
    s.getters = s.choices.map fun c =>
      (s!"pub fn get_{c.1}(&self) -> bool" ++ " \x7b",
        [Code.text s!"(self.0 & (1 << {c.2})) != 0"]) := by
  have hgetter : ∀ choice bit, methods "pub fn get_" (getter choice bit)
      = [(s!"pub fn get_{choice}(&self) -> bool" ++ " \x7b",
          [Code.text s!"(self.0 & (1 << {bit})) != 0"])] := by
    intro choice bit
    rw [getter, Code.methods_inlined rfl, if_pos]
    simp [toString]
  have hsetter : ∀ choice bit, methods "pub fn get_" (setter choice bit) = [] := by
    intro choice bit
    rw [setter, Code.methods_inlined rfl, if_neg]
    simp [toString]
  unfold getters
  rw [methods_code (.inl rfl), List.map_eq_flatMap]
  simp only [hgetter, hsetter, List.append_nil]

theorem setters_eq (s : BitSet) :
    s.setters = s.choices.map fun c =>
      (s!"pub fn set_{c.1}(&mut self, value: bool) -> &mut Self" ++ " \x7b",
        [Code.text (Setter.line c.2), "self"]) := by
  have hgetter : ∀ choice bit, methods "pub fn set_" (getter choice bit) = [] := by
    intro choice bit
    rw [getter, Code.methods_inlined rfl, if_neg]
    simp [toString]
  have hsetter : ∀ choice bit, methods "pub fn set_" (setter choice bit)
      = [(s!"pub fn set_{choice}(&mut self, value: bool) -> &mut Self" ++ " \x7b",
          [Code.text (Setter.line bit), "self"])] := by
    intro choice bit
    rw [setter, Code.methods_inlined rfl, if_pos]
    · rfl
    · simp [toString]
  unfold setters
  rw [methods_code (.inr rfl), List.map_eq_flatMap]
  simp only [hgetter, hsetter, List.nil_append]

theorem getter?_eq (s : BitSet) (i : Nat) : s.getter? i = s.choices[i]?.map fun c => .ofBit c.2 := by
  rw [getter?, getters_eq, List.getElem?_map]
  cases s.choices[i]? with
  | none => rfl
  | some c =>
      rw [Option.map_some, Option.bind_some, Option.map_some]
      exact Getter.ofBody?_bit c.2

theorem setter?_eq (s : BitSet) (i : Nat) : s.setter? i = s.choices[i]?.map fun c => .ofBit c.2 := by
  rw [setter?, setters_eq, List.getElem?_map]
  cases s.choices[i]? with
  | none => rfl
  | some c =>
      rw [Option.map_some, Option.bind_some, Option.map_some]
      exact Setter.ofBody?_bit c.2

/-! ### The bits of choices -/

theorem lt_of_bit? {p : Primitive} {raw : String} {n : Nat} (h : bit? p raw = some n) :
    n < p.size * 8 := by
  obtain ⟨-, h⟩ := Option.filter_eq_some_iff.mp h
  exact of_decide_eq_true h

theorem lt_of_ofType (h : ofType t opening = .ok s) : ∀ c ∈ s.choices, c.2 < s.primitive.size * 8 := by
  unfold ofType at h
  simp only [bind_eq_ok, pure_eq_ok] at h
  obtain ⟨primitive, -, choices, hchoices, rfl⟩ := h
  intro c hc
  obtain ⟨u, -, hu⟩ := exists_of_mapM_eq_ok hchoices hc
  unfold choice at hu
  split at hu
  · cases hu
  · split at hu
    next bit hbit =>
      cases hu
      exact lt_of_bit? hbit
    next => cases hu

/-- The accessors of a generated bit set operate on the bits of their choices. -/
theorem operates (h : ofType t opening = .ok s) (hw : s.primitive.width? = some w) : s.Operates w := by
  obtain ⟨hwidth, hone⟩ := Primitive.width?_eq_some hw
  have hbit : ∀ (i : Nat) (c : String × Nat), s.choices[i]? = some c → c.2 < w := by
    intro i c hc
    rw [hwidth]
    exact lt_of_ofType h c (List.mem_of_getElem? hc)
  have hread : ∀ (i : Nat) (c : String × Nat), s.choices[i]? = some c → ∀ v : BitVec w,
      s.read i v = some (v.getLsbD c.2) := by
    intro i c hc v
    rw [read, getter?_eq, hc]
    exact Getter.run_ofBit hone (hbit i c hc) v
  constructor
  · rw [getters_eq, List.map_map]
    refine List.map_congr_left fun c _ => ?_
    simp [← String.toList_inj, toString]
  · rw [setters_eq, List.map_map]
    refine List.map_congr_left fun c _ => ?_
    simp [← String.toList_inj, toString]
  · intro i c hc
    refine ⟨?_, hbit i c hc⟩
    rw [shifts, getter?_eq, setter?_eq, hc]
    rfl
  · exact hread
  · intro i c hc value v
    obtain ⟨v', hv', hbits⟩ := Setter.run_ofBit hone (hbit i c hc) value v
    refine ⟨v', ?_, fun j d hd => ?_⟩
    · rw [write, setter?_eq, hc]
      exact hv'
    · rw [hread j d hd, hread j d hd, hbits d.2 (hbit j d hd)]
      split <;> rfl

/-- Choices are independent of each other exactly if no two are the same bit. -/
theorem Operates.independent_iff_nodup (h : s.Operates w) :
    s.Independent w ↔ (s.choices.map Prod.snd).Nodup := by
  constructor
  · intro hind
    rw [List.nodup_iff_getElem?_ne_getElem?]
    intro i j hij hj heq
    rw [List.length_map] at hj
    have hi : i < s.choices.length := hij.trans hj
    rw [List.getElem?_map, List.getElem?_map, List.getElem?_eq_getElem hi,
      List.getElem?_eq_getElem hj] at heq
    have hsame : s.choices[j].2 = s.choices[i].2 := (Option.some.inj heq).symm
    -- Where nothing is set, the setter of one of the two choices is seen by the getter of the other.
    obtain ⟨v', hv', -, hkept⟩ := (hind i hi).writes true 0#w
    obtain ⟨v'', hv'', hwritten⟩ := h.writes i _ (List.getElem?_eq_getElem hi) true 0#w
    obtain rfl := Option.some.inj (hv'.symm.trans hv'')
    have hclear := h.reads j _ (List.getElem?_eq_getElem hj) 0#w
    have hset := hwritten j _ (List.getElem?_eq_getElem hj)
    rw [if_pos hsame, hkept j hj hij.ne', hclear] at hset
    simp at hset
  · intro hdistinct i hi
    have hchoice : s.choices[i]? = some s.choices[i] := List.getElem?_eq_getElem hi
    obtain ⟨hshifts, hlt⟩ := h.shifts i _ hchoice
    refine ⟨⟨_, hshifts, ?_⟩, fun value v => ?_⟩
    · simpa using hlt
    · obtain ⟨v', hv', hwritten⟩ := h.writes i _ hchoice value v
      refine ⟨v', hv', ?_, fun j hj hji => ?_⟩
      · rw [hwritten i _ hchoice, if_pos rfl]
      · rw [hwritten j _ (List.getElem?_eq_getElem hj), if_neg]
        intro hsame
        have hbits : (s.choices.map Prod.snd)[j]? = (s.choices.map Prod.snd)[i]? := by
          rw [List.getElem?_map, List.getElem?_map, List.getElem?_eq_getElem hj, hchoice,
            Option.map_some, Option.map_some, hsame]
        exact hji ((List.getElem?_inj (by simpa using hj) hdistinct).mp hbits)

/-- **Choices.**  The accessors of a bit set of some width operate on the bits of their choices, with
shifts below the width, and choices are independent of each other exactly if no two are the same bit. -/
theorem independent_iff (h : ofType t opening = .ok s) (hw : s.primitive.width? = some w) :
    s.Operates w ∧ (s.Independent w ↔ (s.choices.map Prod.snd).Nodup) :=
  ⟨operates h hw, (operates h hw).independent_iff_nodup⟩

/-! ### Choices that share a bit -/

namespace Colors

def first : Token :=
  { signal := .beginSet, name := "Colors", encoding := { primitive := some .uint8 } }

def choice (name bit : String) : Token :=
  { signal := .choice, name, encoding := { constant := some bit } }

/-- The type of a set with some choices. -/
def type (choices : List Token) : NamedType where
  name := "Colors"
  kind := .bitSet
  run := first :: choices ++ [{ signal := .endSet, name := "Colors" }]
  dependencies := []

/-- The set of two choices that are generated. -/
def ofBits (red crimson : Nat) : BitSet where
  schemaName := "Colors"
  name := "Colors"
  primitive := .uint8
  description := none
  choices := [("red", red), ("crimson", crimson)]

end Colors

theorem independent_iff_colors :
    ofType (Colors.type [Colors.choice "red" "0", Colors.choice "crimson" " 7"]) Colors.first
        = .ok (Colors.ofBits 0 7) ∧
      Primitive.uint8.width? = some 8 ∧ (Colors.ofBits 0 7).Independent 8 := by
  have h : ofType (Colors.type [Colors.choice "red" "0", Colors.choice "crimson" " 7"]) Colors.first
      = .ok (Colors.ofBits 0 7) := toOption_eq_some.mp (by decide +kernel)
  exact ⟨h, rfl, (independent_iff h rfl).2.mpr (by decide)⟩

/-- Both choices of a set may be bit 0, and then to set one is to set the other. -/
theorem colors_share_a_bit :
    ofType (Colors.type [Colors.choice "red" "0", Colors.choice "crimson" "0"]) Colors.first
        = .ok (Colors.ofBits 0 0) ∧
      Primitive.uint8.width? = some 8 ∧ ¬ (Colors.ofBits 0 0).Independent 8 := by
  have h : ofType (Colors.type [Colors.choice "red" "0", Colors.choice "crimson" "0"]) Colors.first
      = .ok (Colors.ofBits 0 0) := toOption_eq_some.mp (by decide +kernel)
  refine ⟨h, rfl, fun hind => ?_⟩
  have hdistinct := (operates h rfl).independent_iff_nodup.mp hind
  exact absurd hdistinct (by decide)

end Codec.BitSet
end WireCodec
