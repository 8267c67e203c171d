import WireCodec.Proofs.Document
import WireCodec.Proofs.Integers
/-! # Limits are read as they were written

The null value, the minimum and the maximum of an encoding are written in documents as numbers or as
texts, and are read in the context of the type that they limit.

An encoding that is read from the members of an object has the limits that these state, whatever else
is among them (`Limit.stated_of_collects`).  So an integer in the range of the type is read back from
its numeral, with one exception: a single digit that is given for a character is not a number but the
character itself, which stands for its byte (`Limit.applicable_of_written`). -/

namespace WireCodec

namespace Reader

/-- What is read into a field is put into the record, and nothing else. -/
theorem exists_of_reads {σ α : Type} {name : String} {reader : Reader α} {set : σ → α → σ} {s t : σ}
    {value : List Char} (h : Reads ((field name reader set).read s) value t) :
    ∃ x, reader value = .ok (x, []) ∧ set s x = t := by
  have hread := h [] (by simp) [] ends_nil
  rw [List.nil_append, List.append_nil] at hread
  obtain ⟨⟨x, rest⟩, hx, heq⟩ := except_map_eq_ok.mp hread
  obtain ⟨hset, rfl⟩ := Prod.mk.inj heq
  exact ⟨x, hx, hset⟩

/-! ### Literals -/

/-- The value is the integer as a number, or a string that holds its numeral. -/
inductive WritesInteger (n : Int) : List Char → Prop
  | number : WritesInteger n (toString n).toList
  | text {key : List Char} (spells : Spells key (toString n)) : WritesInteger n ('"' :: key)

theorem reads_value_integer (levels : Nat) {n : Int} (hlow : -2 ^ 63 ≤ n) (hhigh : n < 2 ^ 64) :
    Reads (value levels) (toString n).toList (.integer n) := by
  intro blanks hblanks rest hrest
  have hnumber := number_toString hlow hhigh hrest
  obtain ⟨c, ds, hds, hc⟩ := exists_toString_cons n
  have hblank : isBlank c = false := by
    rcases hc with rfl | hc
    · rfl
    · exact isBlank_of_isDigit hc
  have hword : c ≠ 'n' ∧ c ≠ 't' ∧ c ≠ 'f' := by
    refine ⟨?_, ?_, ?_⟩ <;> rintro rfl <;> exact absurd hc (by decide)
  rw [hds, List.cons_append] at hnumber ⊢
  unfold value
  rw [dropBlank_append hblanks, dropBlank_cons hblank]
  simp only [if_neg hword.1, if_neg hword.2.1, if_neg hword.2.2, if_pos hc]
  exact hnumber

/-- A literal is read as the numeral of the integer that is written, in either way. -/
theorem reads_literal_integer (levels : Nat) {n : Int} (hlow : -2 ^ 63 ≤ n) (hhigh : n < 2 ^ 64)
    {v : List Char} (h : WritesInteger n v) : Reads (literal levels) v (some (toString n)) := by
  intro blanks hblanks rest hrest
  unfold literal
  cases h with
  | number =>
      have hcompact : (Json.integer n).compact = (toString n).toList := by
        rw [Json.compact]
        · rfl
        all_goals
          intros
          contradiction
      rw [reads_value_integer levels hlow hhigh blanks hblanks rest hrest]
      simp [Except.map, hcompact]
  | @text key spells =>
      have hstring : value levels (blanks ++ '"' :: (key ++ rest)) = .ok (.string (toString n), rest) := by
        have hdigit : ¬ ('"' = '-' ∨ Decimal.isDigit '"' = true) := by decide
        unfold value
        rw [dropBlank_append hblanks, dropBlank_cons rfl]
        simp only [spells rest, bind, Except.bind, hdigit]
        rfl
      rw [List.cons_append, hstring]
      rfl

end Reader

open Reader

namespace Primitive

/-- The integer that a numeral stands for where a value of the type is stated: a single digit that is
stated for a character is this character. -/
def stands (p : Primitive) (n : Int) : Int := if p = .char ∧ n < 10 then 48 + n else n

end Primitive

/-! ### The limits of an encoding -/

/-- What limits the values of a type, beside the type. -/
inductive Limit
  | null
  | minimum
  | maximum
  deriving DecidableEq, Repr

namespace Limit

/-- The member in which the limit is written. -/
def member : Limit → String
  | null => "nullValue"
  | minimum => "minValue"
  | maximum => "maxValue"

/-- The literal that an encoding states for the limit. -/
def stated (limit : Limit) (e : Encoding) : Option String :=
  match limit with
  | null => e.null
  | minimum => e.minimum
  | maximum => e.maximum

/-- The limit that holds for a type. -/
def applicable (limit : Limit) (e : Encoding) (p : Primitive) : Except Fault Value :=
  match limit with
  | null => e.applicableNull p
  | minimum => e.applicableMinimum p
  | maximum => e.applicableMaximum p

theorem applicable_of_stated {limit : Limit} {e : Encoding} {raw : String}
    (h : limit.stated e = some raw) (p : Primitive) : limit.applicable e p = Value.parse p raw := by
  cases limit with
  | null =>
      have hnull : e.null = some raw := h
      rw [applicable, Encoding.applicableNull, hnull]
      rfl
  | minimum =>
      have hminimum : e.minimum = some raw := h
      rw [applicable, Encoding.applicableMinimum, hminimum]
      rfl
  | maximum =>
      have hmaximum : e.maximum = some raw := h
      rw [applicable, Encoding.applicableMaximum, hmaximum]
      rfl

end Limit

namespace Reader

/-- The fields from which an encoding is read. -/
def encodingFields (levels : Nat) : List (Field Encoding) :=
  let literal := literal (levels - 1)
  [field "presence" (word Presence.ofWord?) fun e x => { e with presence := x },
   field "primitiveType" (optional primitive) fun e x => { e with primitive := x },
   field "minValue" literal fun e x => { e with minimum := x },
   field "maxValue" literal fun e x => { e with maximum := x },
   field "nullValue" literal fun e x => { e with null := x },
   field "constValue" literal fun e x => { e with constant := x },
   field "characterEncoding" (optional text) fun e x => { e with characterEncoding := x },
   field "semanticType" (optional text) fun e x => { e with semanticType := x }]

theorem encoding_eq (levels : Nat) : encoding levels = record (encodingFields levels) {} := rfl

end Reader

namespace Limit

variable {levels : Nat}

/-- The field of a limit reads it as a literal, and no other field changes it. -/
theorem stated_of_reads {f : Reader.Field Encoding} (hf : f ∈ encodingFields levels)
    {s t : Encoding} {v : List Char} (h : Reads (f.read s) v t) (limit : Limit) :
    if f.name = limit.member then literal (levels - 1) v = .ok (limit.stated t, [])
    else limit.stated t = limit.stated s := by
  simp only [encodingFields, List.mem_cons, List.not_mem_nil, or_false] at hf
  rcases hf with rfl | rfl | rfl | rfl | rfl | rfl | rfl | rfl <;>
  · obtain ⟨x, hx, rfl⟩ := exists_of_reads h
    cases limit <;> first | exact hx | rfl

theorem exists_field (levels : Nat) (limit : Limit) :
    ∃ f ∈ encodingFields levels, f.name = limit.member := by
  cases limit <;> simp [encodingFields, Reader.field, Reader.required, member]

/-- The field that is found by the name of a limit reads it; every other one keeps it. -/
theorem stated_of_found {f : Reader.Field Encoding} {name : String}
    (found : (encodingFields levels).find? (·.name == name) = some f) {s t : Encoding}
    {v : List Char} (h : Reads (f.read s) v t) (limit : Limit) :
    if name = limit.member then literal (levels - 1) v = .ok (limit.stated t, [])
    else limit.stated t = limit.stated s := by
  have hname : f.name = name := by simpa using List.find?_some found
  rw [← hname]
  exact stated_of_reads (List.mem_of_find?_eq_some found) h limit

theorem stated_of_seen {seen : List String} {s e : Encoding} {ms : List (String × List Char)}
    (h : Collects (encodingFields levels) seen s ms e) {limit : Limit} (hseen : limit.member ∈ seen) :
    limit.stated e = limit.stated s := by
  induction h with
  | done => rfl
  | @known seen s t e f name v ms found new reads tail ih =>
      have hother : name ≠ limit.member := by
        rintro rfl
        exact new hseen
      have hkept := stated_of_found found reads limit
      rw [if_neg hother] at hkept
      rw [ih (List.mem_cons_of_mem _ hseen), hkept]
  | unknown _ _ _ ih => exact ih hseen

/-- The encoding that is read has the limits that its members state. -/
theorem stated_of_collects {seen : List String} {s e : Encoding} {ms : List (String × List Char)}
    (h : Collects (encodingFields levels) seen s ms e) {limit : Limit} {v : List Char}
    (hmem : (limit.member, v) ∈ ms) {raw : String}
    (hv : literal (levels - 1) v = .ok (some raw, [])) : limit.stated e = some raw := by
  induction h with
  | done => cases hmem
  | @known seen s t e f name w ms found new reads tail ih =>
      rcases List.mem_cons.mp hmem with heq | hmem
      · obtain ⟨rfl, rfl⟩ := Prod.mk.inj heq
        have hread := stated_of_found found reads limit
        rw [if_pos rfl, hv] at hread
        rw [stated_of_seen tail List.mem_cons_self]
        exact (Prod.mk.inj (Except.ok.inj hread)).1.symm
      · exact ih hmem
  | @unknown seen s e name w ms missing _ _ ih =>
      rcases List.mem_cons.mp hmem with heq | hmem
      · obtain ⟨rfl, rfl⟩ := Prod.mk.inj heq
        obtain ⟨f, hf, hname⟩ := exists_field levels limit
        exact absurd (beq_iff_eq.mpr hname) (List.find?_eq_none.mp missing f hf)
      · exact ih hmem

end Limit

/-! ### Integers as limits -/

namespace Value

/-- The numeral of an integer in the range of a type is read as what it stands for. -/
theorem parse_toString {p : Primitive} (hp : p.isFloat = false) {n : Int} (hn : p.Fits n) :
    parse p (toString n) = .ok (.int (p.stands n)) := by
  have hbounds := ((Primitive.holds_iff_fits hp).mpr hn).bounds
  have hinteger : parseInteger p (toString n) = .ok (.int n) :=
    parseInteger_of_writes hp (Decimal.writes_toString hbounds.1 hbounds.2) hn
  by_cases hc : p = .char
  · subst hc
    by_cases hten : n < 10
    · -- the ten numerals of one character
      obtain ⟨hlow, -⟩ : 0 ≤ n ∧ n < 256 := hn
      interval_cases n <;> rfl
    · have hlong := Decimal.toList_toString_ne_singleton (not_lt.mp hten)
      have hstands : Primitive.char.stands n = n := if_neg fun h => hten h.2
      unfold parse
      rw [hstands, hp, if_neg Bool.false_ne_true, if_pos rfl]
      split
      next c hlist => exact absurd hlist (hlong c)
      next => exact hinteger
  · have hstands : p.stands n = n := if_neg fun h => hc h.1
    rw [parse_of_integer hp hc, hstands, hinteger]

end Value

/-- **Limits.**  Let an encoding be read from an object one of whose members states a limit, as a number
or as a text that holds its numeral, and let the integer be in the range of the type.  Then the literal
is kept as the numeral, the encoding is read, and the limit is what the numeral stands for: the integer,
unless it is a single digit that is stated for a character. -/
theorem Limit.applicable_of_written {p : Primitive} (hp : p.isFloat = false) {n : Int} (hn : p.Fits n)
    {levels : Nat} {ms : List (String × List Char)} {text : List Char} {e : Encoding}
    (hobject : Reader.Object true ms text) (hread : Collects (encodingFields levels) [] {} ms e)
    {limit : Limit} {v : List Char} (hv : WritesInteger n v) (hmem : (limit.member, v) ∈ ms) :
    (∀ levels, Reads (literal levels) v (some (toString n))) ∧
      Reads (encoding levels) ('\x7b' :: text) e ∧
      limit.applicable e p = .ok (.int (p.stands n)) := by
  obtain ⟨hlow, hhigh⟩ : -2 ^ 63 ≤ n ∧ n < 2 ^ 64 := by
    unfold Primitive.Fits at hn
    cases p with
    | float | double => cases hp
    | _ => simp [Primitive.isSigned, Primitive.size] at hn; omega
  have hliteral : ∀ levels, Reads (literal levels) v (some (toString n)) :=
    fun levels => reads_literal_integer levels hlow hhigh hv
  have hencoding : Reads (encoding levels) ('\x7b' :: text) e := by
    rw [encoding_eq]
    exact reads_object hread hobject
  refine ⟨hliteral, hencoding, ?_⟩
  have hwhole := hliteral (levels - 1) [] (by simp) [] ends_nil
  rw [List.nil_append, List.append_nil] at hwhole
  rw [applicable_of_stated (stated_of_collects hread hmem hwhole)]
  exact Value.parse_toString hp hn

theorem Limit.applicable_of_written_int8 :
    Primitive.int8.isFloat = false ∧ Primitive.int8.Fits (-128) ∧
      Reads (encoding 8) "\x7b\"nullValue\":-128\x7d".toList {null := some "-128"} ∧
      Limit.null.applicable {null := some "-128"} .int8 = .ok (.int (-128)) := by
  have htext : "\x7b\"nullValue\":-128\x7d".toList = '\x7b' :: ([] ++ '"' ::
      (spelled "nullValue".toList ++ ['"'] ++ ([] ++ ':' :: ([] ++
        ((toString (-128 : Int)).toList ++ ([] ++ ['\x7d'])))))) := by
    decide +kernel
  have hblank : Blank [] := by simp [Blank]
  have hobject : Reader.Object true [("nullValue", (toString (-128 : Int)).toList)] _ :=
    .member (.first hblank) (spells_spelled "nullValue") hblank hblank (.close hblank)
  have hstated : Reads (literal 7) (toString (-128 : Int)).toList (some (toString (-128 : Int))) :=
    reads_literal_integer 7 (by decide) (by decide) .number
  have hread : Collects (encodingFields 8) [] {} [("nullValue", (toString (-128 : Int)).toList)]
      {null := some "-128"} :=
    .known rfl (by simp) (hstated.put (fun (e : Encoding) x => { e with null := x }) {})
      (.done (by simp [encodingFields, Reader.field]))
  have hmem : (Limit.null.member, _) ∈ [("nullValue", (toString (-128 : Int)).toList)] :=
    List.mem_cons_self
  obtain ⟨-, hencoding, hlimit⟩ :=
    Limit.applicable_of_written (p := .int8) rfl (by decide) hobject hread .number hmem
  rw [htext]
  exact ⟨rfl, by decide, hencoding, hlimit⟩

/-- A null value of five that is stated for a character is not read as five. -/
theorem Limit.applicable_digit_of_char :
    Primitive.char.isFloat = false ∧ Primitive.char.Fits 5 ∧
      ∃ e, Reader.whole (encoding 8) "\x7b\"primitiveType\":\"char\",\"nullValue\":5\x7d" = .ok e ∧
        e.applicableNull .char = .ok (.int 53) ∧ e.applicableNull .char ≠ .ok (.int 5) := by
  refine ⟨rfl, by decide, {primitive := some .char, null := some "5"},
    toOption_eq_some.mp (by decide +kernel), rfl, ?_⟩
  intro h
  cases h

end WireCodec
