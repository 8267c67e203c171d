import Mathlib.Data.List.Nodup
import WireCodec.Proofs.Numerals
import WireCodec.Proofs.Printing
import WireCodec.Proofs.Trees.Table
/-! # The tables of an enum

An enum of an integer type is generated exactly if its values are integers that differ from each other
and from the null value (`Codec.Enumeration.States`, `Codec.Enumeration.ofType_eq_ok_iff`).  Its code
has three tables, which are found by the headings of their blocks (`Code.bodies`): the discriminants,
the arms that read a value and the arms that write one.

`Table` reads a table as a compiler does, row by row: `Table.valueAt` is the integer that a row ends
with, and `Table.decode` is the place of the first arm that takes a value.  A row ends with the literal
of a value or begins with it, and literals read back, so the tables are inverse to each other. -/

namespace WireCodec

/-! ### Blocks with a heading -/

namespace Code

mutual

/-- The bodies of the blocks with a heading, from the outside in. -/
def bodiesOf (heading : String) : Code → List (List Code)
  | block opening body _ =>
    (if renderPieces opening = heading ++ " \x7b" then [body] else []) ++ bodies heading body
  | choice _ first second => bodies heading first ++ bodies heading second
  | blank | line _ | doc _ | gate .. => []

def bodies (heading : String) : List Code → List (List Code)
  | [] => []
  | c :: cs => bodiesOf heading c ++ bodies heading cs

end

variable {heading other : String}

theorem bodies_append (xs ys : List Code) :
    bodies heading (xs ++ ys) = bodies heading xs ++ bodies heading ys := by
  induction xs with
  | nil => rw [List.nil_append, bodies, List.nil_append]
  | cons x xs ih => rw [List.cons_append, bodies, bodies, ih, List.append_assoc]

theorem bodies_map_text (ls : List String) : bodies heading (ls.map text) = [] := by
  induction ls with
  | nil => rw [List.map_nil, bodies]
  | cons l ls ih => rw [List.map_cons, bodies, ih, text, bodiesOf, List.append_nil]

theorem bodiesOf_braces_self (body : List Code) (h : bodies heading body = []) :
    bodiesOf heading (braces heading body) = [body] := by
  rw [braces, bodiesOf, renderPieces_text, if_pos rfl, h, List.append_nil]

theorem bodiesOf_braces_of_ne (h : other ≠ heading) (body : List Code) :
    bodiesOf heading (braces other body) = bodies heading body := by
  rw [braces, bodiesOf, renderPieces_text, if_neg, List.nil_append]
  rwa [String.append_left_inj]

end Code

/-! ### Tables -/

namespace Table

/-- The lines of a table. -/
def rows (table : List Code) : List String := Code.linesAll {} 0 table

theorem rows_map_text (ls : List String) : rows (ls.map Code.text) = ls := by
  unfold rows
  rw [Code.linesAll_map_text, List.map_congr_left fun l _ => Style.indented_zero l, List.map_id']

/-- What stands in front of the first blank of a row. -/
def pattern (row : String) : List Char := row.toList.takeWhile (· != ' ')

/-- What stands behind the last blank of a row, up to the comma. -/
def result (row : String) : List Char :=
  (row.toList.reverse.takeWhile (· != ' ')).reverse.dropLast

/-- Does the arm take the value? -/
def takes (p : Primitive) (v : Int) (row : String) : Bool :=
  pattern row == ['_'] || p.integerOf? (pattern row) == some v

/-- The place of the first arm that takes the value. -/
def decode (p : Primitive) (table : List Code) (v : Int) : Option Nat :=
  (rows table).findIdx? (takes p v)

/-- The integer in a row. -/
def valueAt (p : Primitive) (table : List Code) (i : Nat) : Option Int :=
  (rows table)[i]?.bind fun row => p.integerOf? (result row)

theorem pattern_of_toList {row : String} {literal rest : List Char}
    (h : row.toList = literal ++ ' ' :: rest) (hliteral : ∀ c ∈ literal, (c != ' ') = true) :
    pattern row = literal := by
  unfold pattern
  rw [h, List.takeWhile_append_of_pos hliteral, List.takeWhile_cons_of_neg (by decide),
    List.append_nil]

theorem result_of_toList {row : String} {front literal : List Char}
    (h : row.toList = front ++ ' ' :: (literal ++ [',']))
    (hliteral : ∀ c ∈ literal, (c != ' ') = true) : result row = literal := by
  have hreverse : row.toList.reverse = (',' :: literal.reverse) ++ ' ' :: front.reverse := by
    rw [h]
    simp
  have hblank : ∀ c ∈ ',' :: literal.reverse, (c != ' ') = true := by
    intro c hc
    rcases List.mem_cons.mp hc with rfl | hc
    · rfl
    · exact hliteral c (List.mem_reverse.mp hc)
  unfold result
  rw [hreverse, List.takeWhile_append_of_pos hblank, List.takeWhile_cons_of_neg (by decide),
    List.append_nil, List.reverse_cons, List.reverse_reverse, List.dropLast_concat]

theorem valueAt_of_map {p : Primitive} {table : List Code} {values : List Int}
    (h : (rows table).map (fun row => p.integerOf? (result row)) = values.map some) (i : Nat) :
    valueAt p table i = values[i]? := by
  have hrow : ((rows table)[i]?).map (fun row => p.integerOf? (result row))
      = (values[i]?).map some := by
    rw [← List.getElem?_map, h, List.getElem?_map]
  unfold valueAt
  cases hr : (rows table)[i]? <;> cases hv : values[i]? <;> simp_all

/-- Where the last arm takes everything, it takes what no other arm takes. -/
theorem decode_of_map {p : Primitive} {table : List Code} {values : List Int} {v : Int}
    (h : (rows table).map (takes p v) = values.map (· == v) ++ [true]) :
    decode p table v = some ((values.findIdx? (· == v)).getD values.length) := by
  have hfind : decode p table v = ((rows table).map (takes p v)).findIdx? id := by
    rw [List.findIdx?_map]
    rfl
  rw [hfind, h, List.findIdx?_append, List.findIdx?_map, List.length_map]
  show (values.findIdx? (· == v)).or (some (0 + values.length)) = _
  rw [Nat.zero_add]
  cases values.findIdx? (· == v) <;> rfl

/-- The tables of an enum have a row for each of `count` variants and one for `NullVal`, and the rows at
one place pair the same variant with the same literal. -/
structure Pair (name : String) (count : Nat) (discriminants reading writing : List Code) : Prop where
  lengths : (rows discriminants).length = count + 1 ∧ (rows reading).length = count + 1 ∧
    (rows writing).length = count + 1
  listed : ∀ i < count, ∃ variant literal : String,
    (rows discriminants)[i]? = some s!"{variant} = {literal}," ∧
      (rows reading)[i]? = some s!"{literal} => Self::{variant}," ∧
      (rows writing)[i]? = some s!"{name}::{variant} => {literal},"
  null : ∃ literal : String, (rows discriminants)[count]? = some s!"NullVal = {literal}," ∧
    (rows reading)[count]? = some "_ => Self::NullVal," ∧
    (rows writing)[count]? = some s!"{name}::NullVal => {literal},"

end Table

theorem Primitive.ne_blank_of_mem_numeral {p : Primitive} {n : Int} :
    ∀ c ∈ (p.numeral n).toList, (c != ' ') = true := by
  intro c hc
  rw [bne_iff_ne]
  rintro rfl
  rw [toList_numeral] at hc
  rcases List.mem_append.mp hc with hc | hc
  · rcases Decimal.isDigit_of_mem_toString hc with h | h <;> cases h
  · cases p <;> exact absurd hc (by decide)

namespace Codec.Enumeration

variable {p : Primitive} {name : String} {null : Int}

/-! ### What is stated -/

/-- The tokens of the values of an enum. -/
def valueTokens (t : NamedType) : List Token := t.run.filter (·.signal == .validValue)

/-- The token states the integer for a value of the type. -/
def Reads (p : Primitive) (u : Token) (n : Int) : Prop :=
  ∃ raw, u.encoding.constant = some raw ∧ Value.parse p raw = .ok (.int n)

/-- The values that an enum states and its null value, where these are as they must be. -/
structure States (t : NamedType) (first : Token) (p : Primitive) (values : List Int) (null : Int) :
    Prop where
  read : List.Forall₂ (Reads p) (valueTokens t) values
  absent : first.encoding.applicableNull p = .ok (.int null)
  nonempty : values ≠ []
  distinct : values.Nodup
  free : null ∉ values

/-- An enum has a value, no two of its values are the same integer, and none is the null value. -/
structure Unambiguous (t : NamedType) (first : Token) (p : Primitive) : Prop where
  nonempty : valueTokens t ≠ []
  distinct : ∀ (i j : Nat) u w n, i < j → (valueTokens t)[i]? = some u →
    (valueTokens t)[j]? = some w → Reads p u n → ¬ Reads p w n
  free : ∀ u ∈ valueTokens t, ∀ n, Reads p u n → first.encoding.applicableNull p ≠ .ok (.int n)

theorem Reads.holds (hp : p.isFloat = false) {u : Token} {n : Int} (h : Reads p u n) : p.Holds n := by
  obtain ⟨raw, _, hparse⟩ := h
  exact Value.holds_of_parse hp hparse

theorem Reads.unique {u : Token} {m n : Int} (hm : Reads p u m) (hn : Reads p u n) : m = n := by
  obtain ⟨raw, hraw, hm⟩ := hm
  obtain ⟨raw', hraw', hn⟩ := hn
  obtain rfl := Option.some.inj (hraw.symm.trans hraw')
  exact Value.int.inj (Except.ok.inj (hm.symm.trans hn))

theorem holds_of_forall₂ (hp : p.isFloat = false) {tokens : List Token} {values : List Int}
    (h : List.Forall₂ (Reads p) tokens values) : ∀ n ∈ values, p.Holds n := by
  refine forall_of_forall₂ (h.imp ?_)
  intro u n hread
  exact hread.holds hp

theorem States.holds (hp : p.isFloat = false) {t : NamedType} {first : Token} {values : List Int}
    (h : States t first p values null) : ∀ n ∈ values ++ [null], p.Holds n := by
  intro n hn
  rcases List.mem_append.mp hn with hn | hn
  · exact holds_of_forall₂ hp h.read n hn
  · obtain rfl := List.mem_singleton.mp hn
    exact Encoding.holds_of_applicableNull hp h.absent

/-- An enum states its values and its null value once. -/
theorem States.unique {t : NamedType} {first : Token} {values values' : List Int} {null' : Int}
    (h : States t first p values null) (h' : States t first p values' null') :
    values = values' ∧ null = null' := by
  refine ⟨List.right_unique_forall₂' (R := Reads p) (fun _ _ _ => Reads.unique) h.read h'.read, ?_⟩
  exact Value.int.inj (Except.ok.inj (h.absent.symm.trans h'.absent))

/-! ### The variants that are made -/

/-- A variant is added for an integer that is neither null nor listed. -/
theorem addVariant_eq_ok_iff (hp : p.isFloat = false) {variants variants' : List (String × String)}
    {u : Token} :
    addVariant name p (.int null) variants u = .ok variants' ↔
      ∃ n, Reads p u n ∧ n ≠ null ∧ p.numeral n ∉ variants.map Prod.snd ∧
        variants' = variants ++ [(Name.type u.name, p.numeral n)] := by
  have hlisted : ∀ literal, variants.any (fun v => v.2 == literal) ↔
      literal ∈ variants.map Prod.snd := by
    intro literal
    simp
  constructor
  · intro h
    unfold addVariant at h
    split at h
    next raw hraw =>
      obtain ⟨_, hpure, h⟩ := bind_eq_ok.mp h
      obtain rfl := pure_eq_ok.mp hpure
      obtain ⟨value, hparse, h⟩ := bind_eq_ok.mp h
      obtain ⟨hnull, h⟩ := guard_eq_ok.mp h
      obtain ⟨literal, hliteral, h⟩ := bind_eq_ok.mp h
      obtain ⟨hnew, h⟩ := guard_eq_ok.mp h
      obtain ⟨n, rfl, rfl⟩ := (Value.literal_eq_ok hp).mp hliteral
      cases h
      refine ⟨n, ⟨_, hraw, hparse⟩, ?_, mt (hlisted _).mpr hnew, rfl⟩
      rintro rfl
      exact hnull (beq_self_eq_true n)
    next => exact absurd h throw_ne_ok
  · rintro ⟨n, ⟨raw, hraw, hparse⟩, hnull, hnew, rfl⟩
    have hdiffers : ¬ (Value.int n).equals (.int null) := by
      rwa [Value.equals, beq_iff_eq]
    unfold addVariant
    rw [hraw]
    refine bind_eq_ok.mpr ⟨raw, rfl, bind_eq_ok.mpr ⟨.int n, hparse, ?_⟩⟩
    refine guard_eq_ok.mpr ⟨hdiffers, bind_eq_ok.mpr ⟨p.numeral n, ?_, ?_⟩⟩
    · exact (Value.literal_eq_ok hp).mpr ⟨n, rfl, rfl⟩
    · exact guard_eq_ok.mpr ⟨mt (hlisted _).mp hnew, rfl⟩

/-- The variants of an enum: the names of its values and their literals. -/
def variantsOf (p : Primitive) (tokens : List Token) (values : List Int) : List (String × String) :=
  (tokens.map fun u => Name.type u.name).zip (values.map p.numeral)

theorem snd_variantsOf {tokens : List Token} {values : List Int}
    (h : List.Forall₂ (Reads p) tokens values) :
    (variantsOf p tokens values).map Prod.snd = values.map p.numeral := by
  apply List.map_snd_zip
  rw [List.length_map, List.length_map]
  exact Nat.le_of_eq h.length_eq.symm

theorem foldlM_addVariant_eq_ok_iff (hp : p.isFloat = false) :
    ∀ {tokens : List Token} {variants variants' : List (String × String)},
      tokens.foldlM (addVariant name p (.int null)) variants = .ok variants' ↔
        ∃ values, List.Forall₂ (Reads p) tokens values ∧ null ∉ values ∧ values.Nodup ∧
          (∀ n ∈ values, p.numeral n ∉ variants.map Prod.snd) ∧
          variants' = variants ++ variantsOf p tokens values
  | [], variants, variants' => by
      rw [List.foldlM_nil, pure_eq_ok]
      constructor
      · rintro rfl
        exact ⟨[], .nil, List.not_mem_nil, List.nodup_nil, fun _ h => absurd h List.not_mem_nil,
          (List.append_nil _).symm⟩
      · rintro ⟨_, hreads, -, -, -, rfl⟩
        exact (List.append_nil _).symm
  | u :: tokens, variants, variants' => by
      rw [List.foldlM_cons, bind_eq_ok]
      constructor
      · rintro ⟨variants₁, hhead, htail⟩
        obtain ⟨n, hread, hnull, hnew, rfl⟩ := (addVariant_eq_ok_iff hp).mp hhead
        obtain ⟨values, hreads, hfree, hdistinct, hfresh, rfl⟩ :=
          (foldlM_addVariant_eq_ok_iff hp).mp htail
        simp only [List.map_append, List.mem_append, not_or] at hfresh
        refine ⟨n :: values, .cons hread hreads, ?_, ?_, ?_, ?_⟩
        · rw [List.mem_cons, not_or]
          exact ⟨hnull.symm, hfree⟩
        · refine List.nodup_cons.mpr ⟨fun hmem => ?_, hdistinct⟩
          exact (hfresh n hmem).2 List.mem_cons_self
        · intro m hm
          rcases List.mem_cons.mp hm with rfl | hm
          · exact hnew
          · exact (hfresh m hm).1
        · rw [List.append_assoc]
          rfl
      · rintro ⟨_, hall, hfree, hdistinct, hfresh, rfl⟩
        obtain ⟨n, values, hread, hreads, rfl⟩ := List.forall₂_cons_left_iff.mp hall
        rw [List.mem_cons, not_or] at hfree
        obtain ⟨hnew, hdistinct⟩ := List.nodup_cons.mp hdistinct
        obtain ⟨hfirst, hfresh⟩ := List.forall_mem_cons.mp hfresh
        refine ⟨variants ++ [(Name.type u.name, p.numeral n)], ?_, ?_⟩
        · exact (addVariant_eq_ok_iff hp).mpr ⟨n, hread, Ne.symm hfree.1, hfirst, rfl⟩
        · refine (foldlM_addVariant_eq_ok_iff hp).mpr
            ⟨values, hreads, hfree.2, hdistinct, ?_, ?_⟩
          · intro m hm
            rw [List.map_append, List.mem_append, not_or]
            refine ⟨hfresh m hm, fun hsame => ?_⟩
            have hsame := List.mem_singleton.mp hsame
            rw [Primitive.numeral_inj (holds_of_forall₂ hp hreads m hm) (hread.holds hp) hsame] at hm
            exact hnew hm
          · rw [List.append_assoc]
            rfl

/-- The enum of an integer type with these values. -/
def ofValues (t : NamedType) (first : Token) (p : Primitive) (values : List Int) (null : Int) :
    Enumeration where
  schemaName := t.name
  name := Name.type t.name
  primitive := p
  description := first.description
  variants := variantsOf p (valueTokens t) values
  null := p.numeral null

/-- **What is accepted.**  An enum of an integer type is generated from values that are as they must
be, and from nothing else. -/
theorem ofType_eq_ok_iff {t : NamedType} {first : Token} (hfirst : first.primitive = .ok p)
    (hp : p.isFloat = false) {e : Enumeration} :
    ofType t first = .ok e ↔
      ∃ values null, States t first p values null ∧ e = ofValues t first p values null := by
  have hnil : ∀ values, List.Forall₂ (Reads p) (valueTokens t) values →
      (variantsOf p (valueTokens t) values = [] ↔ values = []) := by
    intro values hreads
    rw [← List.map_eq_nil_iff (f := p.numeral), ← snd_variantsOf hreads, List.map_eq_nil_iff]
  unfold ofType
  rw [hfirst]
  constructor
  · intro h
    obtain ⟨_, hsame, h⟩ := bind_eq_ok.mp h
    obtain rfl := Except.ok.inj hsame
    obtain ⟨v, hnull, h⟩ := bind_eq_ok.mp h
    obtain ⟨literal, hliteral, h⟩ := bind_eq_ok.mp h
    obtain ⟨variants, hvariants, h⟩ := bind_eq_ok.mp h
    obtain ⟨hne, h⟩ := guard_eq_ok.mp h
    obtain ⟨null, rfl, rfl⟩ := (Value.literal_eq_ok hp).mp hliteral
    obtain ⟨values, hreads, hfree, hdistinct, -, rfl⟩ :=
      (foldlM_addVariant_eq_ok_iff hp).mp hvariants
    cases h
    exact ⟨values, null, ⟨hreads, hnull, mt (hnil values hreads).mpr hne, hdistinct, hfree⟩, rfl⟩
  · rintro ⟨values, null, h, rfl⟩
    refine bind_eq_ok.mpr ⟨p, rfl, bind_eq_ok.mpr ⟨.int null, h.absent, ?_⟩⟩
    refine bind_eq_ok.mpr ⟨p.numeral null, (Value.literal_eq_ok hp).mpr ⟨null, rfl, rfl⟩, ?_⟩
    refine bind_eq_ok.mpr ⟨variantsOf p (valueTokens t) values, ?_, ?_⟩
    · refine (foldlM_addVariant_eq_ok_iff hp).mpr ⟨values, h.read, h.free, h.distinct, ?_, rfl⟩
      intro n _
      exact List.not_mem_nil
    · exact guard_eq_ok.mpr ⟨mt (hnil values h.read).mp h.nonempty, rfl⟩

/-! ### The tables in the code -/

/-- The table of the discriminants. -/
def discriminants (e : Enumeration) : List Code :=
  (e.variants.map fun (variant, literal) => Code.text s!"{variant} = {literal},")
    ++ [Code.text s!"NullVal = {e.null},"]

theorem discriminants_eq (e : Enumeration) :
    e.discriminants = ((e.variants.map fun v => s!"{v.1} = {v.2},")
      ++ [s!"NullVal = {e.null},"]).map Code.text := by
  unfold discriminants
  rw [List.map_append, List.map_map]
  rfl

theorem reading_eq (e : Enumeration) :
    e.reading = ((e.variants.map fun v => s!"{v.2} => Self::{v.1},")
      ++ ["_ => Self::NullVal,"]).map Code.text := by
  unfold reading
  rw [List.map_append, List.map_map]
  rfl

theorem writing_eq (e : Enumeration) :
    e.writing = ((e.variants.map fun v => s!"{e.name}::{v.1} => {v.2},")
      ++ [s!"{e.name}::NullVal => {e.null},"]).map Code.text := by
  unfold writing
  rw [List.map_append, List.map_map]
  rfl

variable {heading : String}

theorem bodies_reading (e : Enumeration) : Code.bodies heading e.reading = [] := by
  rw [reading_eq, Code.bodies_map_text]

theorem bodies_writing (e : Enumeration) : Code.bodies heading e.writing = [] := by
  rw [writing_eq, Code.bodies_map_text]

theorem bodies_discriminants (e : Enumeration) : Code.bodies heading e.discriminants = [] := by
  rw [discriminants_eq, Code.bodies_map_text]

theorem bodies_inlined {other : String} (h : other ≠ heading) (body : List Code) :
    Code.bodies heading (inlined other body) = Code.bodies heading body := by
  rw [inlined, Code.bodies, Code.bodies, Code.bodies, Code.bodiesOf_braces_of_ne h]
  simp [Code.bodiesOf]

theorem bodies_impl {impl function : String} (himpl : impl ≠ heading) (hfunction : function ≠ heading)
    (body : List Code) :
    Code.bodies heading [Code.braces impl (inlined function body)] = Code.bodies heading body := by
  rw [Code.bodies, Code.bodies, Code.bodiesOf_braces_of_ne himpl, bodies_inlined hfunction,
    List.append_nil]

theorem ne_of_head? {s : String} {c : Char} (hs : s.toList.head? = some c)
    (h : heading.toList.head? ≠ some c) : s ≠ heading := by
  rintro rfl
  exact h hs

theorem bodies_code_of_head? (e : Enumeration) (himpl : heading.toList.head? ≠ some 'i')
    (hfunction : heading.toList.head? ≠ some 'f') :
    Code.bodies heading e.code =
      Code.bodies heading [Code.braces s!"pub enum {e.name}" e.discriminants] ++
        (Code.bodies heading [Code.braces "match v" e.reading] ++
          Code.bodies heading [Code.braces "match v" e.writing]) := by
  have hdefault : s!"impl Default for {e.name}" ≠ heading :=
    ne_of_head? (by simp [toString]) himpl
  have hread : s!"impl From<{e.primitive.typeName}> for {e.name}" ≠ heading :=
    ne_of_head? (by simp [toString]) himpl
  have hwrite : s!"impl From<{e.name}> for {e.primitive.typeName}" ≠ heading :=
    ne_of_head? (by simp [toString]) himpl
  have hdefaultFn : "fn default() -> Self" ≠ heading := ne_of_head? (by simp) hfunction
  have hreadFn : s!"fn from(v: {e.primitive.typeName}) -> Self" ≠ heading :=
    ne_of_head? (by simp [toString]) hfunction
  have hwriteFn : s!"fn from(v: {e.name}) -> Self" ≠ heading :=
    ne_of_head? (by simp [toString]) hfunction
  have hdefinition : Code.bodies heading e.definition
      = Code.bodies heading [Code.braces s!"pub enum {e.name}" e.discriminants] := by
    unfold definition discriminants
    simp only [Code.bodies, Code.bodiesOf, Code.text, List.nil_append]
  rw [code_eq, tree, Code.spaced_cons_cons, Code.spaced_cons_cons, Code.spaced_cons_cons,
    Code.spaced_singleton]
  simp only [Code.bodies_append, Code.bodies.eq_2 heading .blank, Code.bodiesOf]
  rw [hdefinition, bodies_impl hdefault hdefaultFn, bodies_impl hread hreadFn,
    bodies_impl hwrite hwriteFn]
  simp [Code.bodies, Code.bodiesOf, Code.text]

theorem bodies_code (e : Enumeration) :
    Code.bodies s!"pub enum {e.name}" e.code = [e.discriminants] ∧
      Code.bodies "match v" e.code = [e.reading, e.writing] := by
  constructor
  · have hmatch : "match v" ≠ s!"pub enum {e.name}" :=
      ne_of_head? (c := 'm') (by simp) (by simp [toString])
    rw [bodies_code_of_head? e (by simp [toString]) (by simp [toString])]
    simp only [Code.bodies, Code.bodiesOf_braces_of_ne hmatch, bodies_reading, bodies_writing,
      Code.bodiesOf_braces_self _ e.bodies_discriminants, List.append_nil]
  · have henum : s!"pub enum {e.name}" ≠ "match v" :=
      ne_of_head? (c := 'p') (by simp [toString]) (by simp)
    rw [bodies_code_of_head? e (by simp) (by simp)]
    simp only [Code.bodies, Code.bodiesOf_braces_of_ne henum, bodies_discriminants,
      Code.bodiesOf_braces_self _ e.bodies_reading, Code.bodiesOf_braces_self _ e.bodies_writing,
      List.append_nil, List.nil_append, List.singleton_append]

/-! ### Reading the tables -/

/-- What depends on the literals only, and these are the ones of some values. -/
theorem map_eq_of_literals {β : Type} {f : String × String → β} {g : Int → β}
    (hf : ∀ variant n, p.Holds n → f (variant, p.numeral n) = g n) :
    ∀ {variants : List (String × String)} {values : List Int}, (∀ n ∈ values, p.Holds n) →
      variants.map Prod.snd = values.map p.numeral → variants.map f = values.map g
  | [], [], _, _ => rfl
  | [], _ :: _, _, h => nomatch h
  | _ :: _, [], _, h => nomatch h
  | (variant, literal) :: variants, n :: values, hholds, h => by
      obtain ⟨hn, hholds⟩ := List.forall_mem_cons.mp hholds
      rw [List.map_cons, List.map_cons] at h
      obtain ⟨hliteral, h⟩ := List.cons.inj h
      rw [List.map_cons, List.map_cons, map_eq_of_literals hf hholds h]
      rw [show literal = p.numeral n from hliteral, hf variant n hn]

theorem integerOf?_result {row : String} {n : Int} {front : List Char} (hn : p.Holds n)
    (hrow : row.toList = front ++ ' ' :: ((p.numeral n).toList ++ [','])) :
    p.integerOf? (Table.result row) = some n := by
  rw [Table.result_of_toList hrow Primitive.ne_blank_of_mem_numeral]
  exact Primitive.integerOf?_numeral hn

/-- An arm that begins with the literal of an integer takes the integer and no other. -/
theorem takes_literal {row : String} {n : Int} {rest : List Char} (hn : p.Holds n) (v : Int)
    (hrow : row.toList = (p.numeral n).toList ++ ' ' :: rest) : Table.takes p v row = (n == v) := by
  have hliteral : ((p.numeral n).toList == ['_']) = false := by
    rw [beq_eq_false_iff_ne]
    intro h
    have hread := Primitive.integerOf?_numeral hn
    rw [h] at hread
    revert hread
    cases p <;> simp [Primitive.integerOf?, Primitive.typeName]
  unfold Table.takes
  rw [Table.pattern_of_toList hrow Primitive.ne_blank_of_mem_numeral, hliteral,
    Primitive.integerOf?_numeral hn, Bool.false_or]
  rfl

/-- Rows that end with literals hold the values and the null value. -/
theorem map_rows_eq {f : String × String → String} {nullRow : String}
    {variants : List (String × String)} {values : List Int}
    (hf : ∀ variant literal, ∃ front, (f (variant, literal)).toList
      = front ++ ' ' :: (literal.toList ++ [',']))
    (hnull : ∃ front, nullRow.toList = front ++ ' ' :: ((p.numeral null).toList ++ [',']))
    (hholds : ∀ n ∈ values ++ [null], p.Holds n)
    (hvariants : variants.map Prod.snd = values.map p.numeral) :
    (Table.rows ((variants.map f ++ [nullRow]).map Code.text)).map
      (fun row => p.integerOf? (Table.result row)) = (values ++ [null]).map some := by
  obtain ⟨hvalues, hheld⟩ := List.forall_mem_append.mp hholds
  obtain ⟨_, hnull⟩ := hnull
  have hlisted : (variants.map f).map (fun row => p.integerOf? (Table.result row))
      = values.map some := by
    rw [List.map_map]
    refine map_eq_of_literals ?_ hvalues hvariants
    intro variant n hn
    obtain ⟨front, hrow⟩ := hf variant (p.numeral n)
    exact integerOf?_result hn hrow
  rw [Table.rows_map_text, List.map_append, List.map_append, hlisted, List.map_singleton,
    integerOf?_result (hheld null (List.mem_singleton_self null)) hnull]
  rfl

section tables

variable {t : NamedType} {first : Token} {values : List Int}

theorem valueAt_discriminants (hp : p.isFloat = false) (h : States t first p values null) (i : Nat) :
    Table.valueAt p (ofValues t first p values null).discriminants i = (values ++ [null])[i]? := by
  apply Table.valueAt_of_map
  rw [discriminants_eq]
  refine map_rows_eq ?_ ?_ (h.holds hp) (snd_variantsOf h.read)
  · intro variant literal
    exact ⟨variant.toList ++ " =".toList, by simp [toString]⟩
  · exact ⟨"NullVal =".toList, by simp [toString, ofValues]⟩

theorem valueAt_writing (hp : p.isFloat = false) (h : States t first p values null) (i : Nat) :
    Table.valueAt p (ofValues t first p values null).writing i = (values ++ [null])[i]? := by
  apply Table.valueAt_of_map
  rw [writing_eq]
  let enum := (Name.type t.name).toList
  refine map_rows_eq ?_ ?_ (h.holds hp) (snd_variantsOf h.read)
  · intro variant literal
    exact ⟨enum ++ "::".toList ++ variant.toList ++ " =>".toList, by simp [toString, ofValues, enum]⟩
  · exact ⟨enum ++ "::NullVal =>".toList, by simp [toString, ofValues, enum]⟩

theorem decode_reading (hp : p.isFloat = false) (h : States t first p values null) (v : Int) :
    Table.decode p (ofValues t first p values null).reading v
      = some ((values.findIdx? (· == v)).getD values.length) := by
  apply Table.decode_of_map
  obtain ⟨hvalues, -⟩ := List.forall_mem_append.mp (h.holds hp)
  have hlisted : (ofValues t first p values null).variants.map
      (Table.takes p v ∘ fun u => s!"{u.2} => Self::{u.1},") = values.map (· == v) := by
    refine map_eq_of_literals ?_ hvalues (snd_variantsOf h.read)
    intro variant n hn
    have hrow : s!"{p.numeral n} => Self::{variant},".toList
        = (p.numeral n).toList ++ ' ' :: ("=> Self::".toList ++ variant.toList ++ [',']) := by
      simp [toString]
    exact takes_literal hn v hrow
  have hlast : Table.takes p v "_ => Self::NullVal," = true := by
    have hpattern : Table.pattern "_ => Self::NullVal," = ['_'] := by decide
    rw [Table.takes, hpattern]
    rfl
  rw [reading_eq, Table.rows_map_text, List.map_append, List.map_map, hlisted, List.map_singleton,
    hlast]

/-- The rows of the three tables belong together. -/
theorem pair_tables (h : States t first p values null) :
    Table.Pair (ofValues t first p values null).name values.length
      (ofValues t first p values null).discriminants (ofValues t first p values null).reading
      (ofValues t first p values null).writing := by
  have hlength : (ofValues t first p values null).variants.length = values.length := by
    have := congrArg List.length (snd_variantsOf h.read)
    rwa [List.length_map, List.length_map] at this
  generalize ofValues t first p values null = e at hlength
  rw [discriminants_eq, reading_eq, writing_eq]
  refine ⟨?_, ?_, ?_⟩
  · rw [Table.rows_map_text, Table.rows_map_text, Table.rows_map_text]
    simp [hlength]
  · intro i hi
    rw [← hlength] at hi
    refine ⟨e.variants[i].1, e.variants[i].2, ?_⟩
    rw [Table.rows_map_text, Table.rows_map_text, Table.rows_map_text]
    simp [List.getElem?_append_left, hi]
  · refine ⟨e.null, ?_⟩
    rw [Table.rows_map_text, Table.rows_map_text, Table.rows_map_text]
    simp [← hlength]

end tables

theorem findIdx?_eq_of_nodup {values : List Int} (h : values.Nodup) {i : Nat} {n : Int}
    (hn : values[i]? = some n) : values.findIdx? (· == n) = some i := by
  obtain ⟨hi, rfl⟩ := List.getElem?_eq_some_iff.mp hn
  refine List.findIdx?_eq_some_iff_getElem.mpr ⟨hi, beq_self_eq_true _, ?_⟩
  intro j hj heq
  have hsame : j = i := h.getElem_inj_iff.mp (beq_iff_eq.mp heq)
  omega

theorem exists_getElem?_of_forall₂ {α β : Type} {R : α → β → Prop} {xs : List α} {ys : List β}
    (h : List.Forall₂ R xs ys) {i : Nat} {x : α} (hx : xs[i]? = some x) :
    ∃ y, ys[i]? = some y ∧ R x y := by
  induction h generalizing i with
  | nil => cases hx
  | cons hxy _ ih =>
      cases i with
      | zero =>
          obtain rfl := Option.some.inj hx
          exact ⟨_, rfl, hxy⟩
      | succ i => exact ih hx

theorem States.unambiguous {t : NamedType} {first : Token} {values : List Int}
    (h : States t first p values null) : Unambiguous t first p := by
  have hvalue : ∀ (i : Nat) u n, (valueTokens t)[i]? = some u → Reads p u n → values[i]? = some n := by
    intro i u n hu hread
    obtain ⟨m, hm, hread'⟩ := exists_getElem?_of_forall₂ h.read hu
    rw [hm, hread'.unique hread]
  refine ⟨?_, ?_, ?_⟩
  · intro hnil
    have hread := h.read
    rw [hnil] at hread
    exact h.nonempty (List.forall₂_nil_left_iff.mp hread)
  · intro i j u w n hij hu hw hreadu hreadw
    have hi := findIdx?_eq_of_nodup h.distinct (hvalue i u n hu hreadu)
    have hj := findIdx?_eq_of_nodup h.distinct (hvalue j w n hw hreadw)
    rw [hi] at hj
    have := Option.some.inj hj
    omega
  · intro u hu n hread hnull
    obtain ⟨i, hi⟩ := List.mem_iff_getElem?.mp hu
    have habsent := Value.int.inj (Except.ok.inj (h.absent.symm.trans hnull))
    have hmem := List.mem_of_getElem? (hvalue i u n hi hread)
    rw [← habsent] at hmem
    exact h.free hmem

/-- **The tables of an enum.**  An enum of an integer type is generated exactly if its values are
integers that differ from each other and from the null value; a value that is repeated or null is
refused, and so is an enum without values.  The values lie in the range of the type.  The three
tables of the code pair the same variants with the same literals and are inverse to each other: what
is written for a variant or for `NullVal` is its discriminant and is read as this very variant, and
what is not listed is read as `NullVal`. -/
theorem tables_inverse {t : NamedType} {first : Token} (hfirst : first.primitive = .ok p)
    (hp : p.isFloat = false) :
    ((∃ e, ofType t first = .ok e) ↔ ∃ values null, States t first p values null) ∧
      (∀ e, ofType t first = .ok e → Unambiguous t first p) ∧
      ∀ e, ofType t first = .ok e → ∃ values null discriminants reading writing,
        States t first p values null ∧ (∀ n ∈ values ++ [null], p.Holds n) ∧
          Code.bodies s!"pub enum {e.name}" e.code = [discriminants] ∧
          Code.bodies "match v" e.code = [reading, writing] ∧
          Table.Pair e.name values.length discriminants reading writing ∧
          (∀ i n, (values ++ [null])[i]? = some n →
            Table.valueAt p discriminants i = some n ∧ Table.valueAt p writing i = some n ∧
              Table.decode p reading n = some i) ∧
          ∀ v, v ∉ values → Table.decode p reading v = some values.length := by
  refine ⟨?_, ?_, ?_⟩
  · constructor
    · rintro ⟨e, he⟩
      obtain ⟨values, null, h, -⟩ := (ofType_eq_ok_iff hfirst hp).mp he
      exact ⟨values, null, h⟩
    · rintro ⟨values, null, h⟩
      exact ⟨_, (ofType_eq_ok_iff hfirst hp).mpr ⟨values, null, h, rfl⟩⟩
  · intro e he
    obtain ⟨values, null, h, -⟩ := (ofType_eq_ok_iff hfirst hp).mp he
    exact h.unambiguous
  · intro e he
    obtain ⟨values, null, h, rfl⟩ := (ofType_eq_ok_iff hfirst hp).mp he
    have hunlisted : ∀ v, v ∉ values →
        Table.decode p (ofValues t first p values null).reading v = some values.length := by
      intro v hv
      have hnone : values.findIdx? (· == v) = none := by
        refine List.findIdx?_eq_none_iff.mpr fun n hn => beq_eq_false_iff_ne.mpr ?_
        rintro rfl
        exact hv hn
      rw [decode_reading hp h, hnone]
      rfl
    obtain ⟨henum, hmatch⟩ := bodies_code (ofValues t first p values null)
    refine ⟨values, null, _, _, _, h, h.holds hp, henum, hmatch, pair_tables h, ?_, hunlisted⟩
    intro i n hn
    refine ⟨?_, ?_, ?_⟩
    · rw [valueAt_discriminants hp h, hn]
    · rw [valueAt_writing hp h, hn]
    · rcases Nat.lt_or_ge i values.length with hi | hi
      · rw [List.getElem?_append_left hi] at hn
        rw [decode_reading hp h, findIdx?_eq_of_nodup h.distinct hn]
        rfl
      · rw [List.getElem?_append_right hi] at hn
        obtain ⟨hlt, -⟩ := List.getElem?_eq_some_iff.mp hn
        rw [List.length_singleton] at hlt
        obtain rfl : i = values.length := by omega
        rw [Nat.sub_self] at hn
        obtain rfl := Option.some.inj hn
        exact hunlisted null h.free

namespace Models

/-- One model of a car, by its letter or its number. -/
def value (name literal : String) : Token :=
  { signal := .validValue, name, encoding := { primitive := some .char, constant := some literal } }

def first : Token :=
  { signal := .beginEnum, name := "Model", encoding := { primitive := some .char }, span := 4 }

def type : NamedType where
  name := "Model"
  kind := .enumeration
  run := [first, value "sedan" "A", value "coupe" " +067 ", { signal := .endEnum, name := "Model" }]
  dependencies := []

/-- The models that are generated. -/
def models : Enumeration := ofValues type first .char [65, 67] 0

theorem states : States type first .char [65, 67] 0 where
  read := .cons ⟨"A", rfl, rfl⟩ (.cons ⟨" +067 ", rfl, toOption_eq_some.mp (by decide +kernel)⟩ .nil)
  absent := rfl
  nonempty := by decide
  distinct := by decide
  free := by decide

end Models

theorem tables_inverse_model :
    Models.first.primitive = .ok .char ∧ Primitive.isFloat .char = false ∧
      Unambiguous Models.type Models.first .char ∧
      ∃ reading writing, Code.bodies "match v" Models.models.code = [reading, writing] ∧
        Table.valueAt .char writing 1 = some 67 ∧ Table.decode .char reading 67 = some 1 ∧
          Table.decode .char reading 66 = some 2 := by
  have hfirst : Models.first.primitive = .ok .char := rfl
  obtain ⟨-, hsound, htables⟩ := tables_inverse (t := Models.type) hfirst rfl
  have hok : ofType Models.type Models.first = .ok Models.models :=
    (ofType_eq_ok_iff hfirst rfl).mpr ⟨_, _, Models.states, rfl⟩
  obtain ⟨values, null, _, reading, writing, hstates, -, -, hmatch, -, hinverse, hrest⟩ :=
    htables Models.models hok
  obtain ⟨rfl, rfl⟩ := hstates.unique Models.states
  obtain ⟨-, hvalue, hdecode⟩ := hinverse 1 67 rfl
  exact ⟨hfirst, rfl, hsound _ hok, reading, writing, hmatch, hvalue, hdecode, hrest 66 (by decide)⟩

end Codec.Enumeration
end WireCodec
