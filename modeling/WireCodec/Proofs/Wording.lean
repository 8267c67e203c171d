import Mathlib.Data.List.TakeWhile
import WireCodec.Layout
import WireCodec.Proofs.Outcome
import WireCodec.Proofs.Printing
/-! # Words in code

Names, numbers and literals are written into code as words that end no line.  Where the names of a
schema hold no slashes, no word does (`Text.IsWord`): letter case is changed without making any, and so
are digits.  A line of words alone is a line of code. -/

namespace WireCodec

/-! ### Characters of words -/

namespace Text

/-- The character ends no line, and it is no slash unless there may be slashes. -/
structure Fits (slash : Prop) (c : Char) : Prop where
  unbroken : Unbroken c
  slash : c = '/' → slash

/-- All characters of the text fit into a word. -/
def IsWord (slash : Prop) (s : String) : Prop := ∀ c ∈ s.toList, Fits slash c

variable {slash : Prop} {s t : String}

theorem unbroken_of_lt {c : Char} (h : 31 < c.toNat) : Unbroken c := by
  constructor <;> rintro rfl <;> simp at h

theorem fits_of_lt {c : Char} (h : 47 < c.toNat) : Fits slash c := by
  refine ⟨unbroken_of_lt (by omega), ?_⟩
  rintro rfl
  simp at h

theorem fits_of_le {b c : Char} (h : b ≤ c) (hb : 47 < b.toNat) : Fits slash c :=
  fits_of_lt (Nat.lt_of_lt_of_le hb (UInt32.le_iff_toNat_le.mp (Char.le_def.mp h)))

theorem fits_of_ne {c : Char} (h : Unbroken c) (hslash : c ≠ '/') : Fits slash c :=
  ⟨h, fun heq => absurd heq hslash⟩

theorem fits_ofNat {n : Nat} (h : 47 < n) : Fits slash (Char.ofNat n) := by
  by_cases hvalid : n.isValidChar
  · rw [Char.ofNat, dif_pos hvalid]
    exact fits_of_lt h
  · rw [Char.ofNat, dif_neg hvalid]
    exact fits_of_ne (by decide) (by decide)

theorem fits_of_isDigit {c : Char} (h : c.isDigit) : Fits slash c := by
  rw [Char.isDigit, Bool.and_eq_true, decide_eq_true_eq] at h
  exact fits_of_le (Char.le_def.mpr h.1 : '0' ≤ c) (by decide)

theorem fits_minus : Fits slash '-' := fits_of_ne (by decide) (by decide)

theorem fits_point : Fits slash '.' := fits_of_ne (by decide) (by decide)

@[simp] theorem isWord_append : IsWord slash (s ++ t) ↔ IsWord slash s ∧ IsWord slash t := by
  unfold IsWord
  rw [String.toList_append, List.forall_mem_append]

@[simp] theorem isWord_toString : IsWord slash (toString s) ↔ IsWord slash s := Iff.rfl

theorem isWord_ofList {cs : List Char} : IsWord slash (String.ofList cs) ↔ ∀ c ∈ cs, Fits slash c := by
  unfold IsWord
  rw [String.toList_ofList]

/-- The characters of the fixed parts of code, by their numbers: no control characters, and no slash. -/
def isPlain (c : Char) : Bool := Nat.blt 31 c.toNat && !Nat.beq c.toNat 47

theorem fits_of_isPlain {c : Char} (h : isPlain c) : Fits slash c := by
  rw [isPlain, Bool.and_eq_true] at h
  refine ⟨unbroken_of_lt (Nat.le_of_ble_eq_true h.1), ?_⟩
  rintro rfl
  cases h.2

/-- A fixed part of code, from its characters: for a literal they are found by unification, and
`⟨_, rfl, rfl⟩` proves the condition. -/
@[simp low] theorem isWord_literal (h : ∃ cs, s = String.ofList cs ∧ cs.all isPlain = true) :
    IsWord slash s := by
  obtain ⟨cs, rfl, hcs⟩ := h
  rw [isWord_ofList]
  intro c hc
  exact fits_of_isPlain (List.all_eq_true.mp hcs c hc)

/-- A visible character, by its number, that neither begins a comment nor closes a brace. -/
def isStart (c : Char) : Bool := Nat.blt 32 c.toNat && Nat.blt c.toNat 125 && !Nat.beq c.toNat 47

theorem isBlank_of_isStart {c : Char} (h : isStart c) : isBlank c = false := by
  simp only [isStart, Bool.and_eq_true, Nat.blt_eq] at h
  simp only [isBlank, Bool.or_eq_false_iff, Bool.and_eq_false_iff, decide_eq_false_iff_not,
    beq_eq_false_iff_ne]
  omega

/-- A fixed line that documentation can stand in front of, from its characters. -/
@[simp low] theorem isItem_literal (h : ∃ cs, s = String.ofList cs ∧ cs.head?.any isStart = true) :
    isItem s := by
  obtain ⟨cs, rfl, hcs⟩ := h
  cases cs with
  | nil => cases hcs
  | cons c cs =>
      have hstart : isStart c := hcs
      have htrim : trimLeft (String.ofList (c :: cs)).toList = c :: cs := by
        rw [String.toList_ofList]
        exact List.dropWhile_cons_of_neg (by simp [isBlank_of_isStart hstart])
      have hslash : c ≠ '/' := by
        rintro rfl
        cases hstart
      have hclose : c ≠ '\x7d' := by
        rintro rfl
        cases hstart
      unfold isItem
      rw [htrim]
      simp [List.isPrefixOf, beq_eq_false_iff_ne.mpr hslash.symm, beq_eq_false_iff_ne.mpr hclose.symm]

@[simp] theorem isWord_join {ss : List String} :
    IsWord slash (String.join ss) ↔ ∀ s ∈ ss, IsWord slash s := by
  unfold IsWord
  rw [String.toList_join]
  simp only [List.mem_flatMap]
  constructor
  · exact fun h s hs c hc => h c ⟨s, hs, hc⟩
  · rintro h c ⟨s, hs, hc⟩
    exact h s hs c hc

theorem isWord_intercalate {ss : List String} (hs : IsWord slash s) (h : ∀ t ∈ ss, IsWord slash t) :
    IsWord slash (s.intercalate ss) := by
  induction ss with
  | nil => exact List.forall_mem_nil _
  | cons t ss ih =>
      obtain ⟨ht, hss⟩ := List.forall_mem_cons.mp h
      cases ss with
      | nil => rwa [String.intercalate_singleton]
      | cons u ss =>
          rw [String.intercalate_cons_cons, isWord_append, isWord_append]
          exact ⟨⟨ht, hs⟩, ih hss⟩

theorem IsWord.isCodeLine (h : IsWord slash s) : IsCodeLine slash s := by
  refine ⟨fun c hc => (h c hc).unbroken, fun hdoc => ?_⟩
  have hprefix : ['/', '/', '/'] <+: trimLeft s.toList := List.isPrefixOf_iff_prefix.mp hdoc
  have hmem : '/' ∈ trimLeft s.toList := hprefix.subset List.mem_cons_self
  exact (h '/' ((List.dropWhile_suffix _).subset hmem)).slash rfl

theorem IsWord.isCodeLine_append (h : IsWord slash s) {c : Char} (hc : c ∈ s.toList)
    (hblank : isBlank c = false) (ht : ∀ c ∈ t.toList, Unbroken c) :
    IsCodeLine slash (s ++ t) := by
  constructor
  · rw [String.toList_append, List.forall_mem_append]
    exact ⟨fun c hc => (h c hc).unbroken, ht⟩
  · intro hdoc
    have hcut : trimLeft (s ++ t).toList = trimLeft s.toList ++ t.toList := by
      rw [String.toList_append, trimLeft, trimLeft, List.dropWhile_append, if_neg]
      rw [List.isEmpty_iff, List.dropWhile_eq_nil_iff]
      intro hall
      exact absurd (hall c hc) (by simp [hblank])
    unfold isDoc at hdoc
    rw [hcut] at hdoc
    cases hfirst : trimLeft s.toList with
    | nil =>
        rw [trimLeft, List.dropWhile_eq_nil_iff] at hfirst
        exact absurd (hfirst c hc) (by simp [hblank])
    | cons b bs =>
        rw [hfirst, List.cons_append, List.isPrefixOf, Bool.and_eq_true, beq_iff_eq] at hdoc
        have hmem : b ∈ trimLeft s.toList := hfirst ▸ List.mem_cons_self
        exact (h b ((List.dropWhile_suffix _).subset hmem)).slash hdoc.1.symm

theorem isCodeLine_of_head {c : Char} {cs : List Char} (hs : s.toList = c :: cs)
    (hblank : isBlank c = false) (hc : c ≠ '/') (h : ∀ c ∈ s.toList, Unbroken c) :
    IsCodeLine slash s := by
  refine ⟨h, fun hdoc => absurd hdoc ?_⟩
  have htrim : trimLeft s.toList = c :: cs := by
    rw [hs]
    exact List.dropWhile_cons_of_neg (by simp [hblank])
  unfold isDoc
  rw [htrim, List.isPrefixOf, beq_eq_false_iff_ne.mpr (Ne.symm hc)]
  exact Bool.false_ne_true

/-- A comment that is no documentation, whatever it goes on with. -/
theorem isCodeLine_comment {mark : Char} (h : ['/', '/', mark] <+: s.toList) (hmark : mark ≠ '/')
    (hs : ∀ c ∈ s.toList, Unbroken c) (ht : ∀ c ∈ t.toList, Unbroken c) :
    IsCodeLine slash (s ++ t) := by
  obtain ⟨cs, hcs⟩ := h
  have htext : (s ++ t).toList = '/' :: '/' :: mark :: (cs ++ t.toList) := by
    rw [String.toList_append, ← hcs]
    rfl
  refine ⟨?_, fun hdoc => absurd hdoc ?_⟩
  · rw [String.toList_append, List.forall_mem_append]
    exact ⟨hs, ht⟩
  · have htrim : trimLeft (s ++ t).toList = '/' :: '/' :: mark :: (cs ++ t.toList) := by
      rw [htext]
      rfl
    unfold isDoc
    rw [htrim, List.isPrefixOf, List.isPrefixOf, List.isPrefixOf,
      beq_eq_false_iff_ne.mpr (Ne.symm hmark)]
    exact Bool.false_ne_true

/-- A line that is made of words, or a line of code for another reason. -/
def IsLine (slash : Prop) (s : String) : Prop := IsWord slash s ∨ IsCodeLine slash s

theorem IsLine.isCodeLine (h : IsLine slash s) : IsCodeLine slash s := h.elim IsWord.isCodeLine id

end Text

open Text (Fits IsWord Unbroken)

variable {slash : Prop}

/-! ### Letter case -/

namespace Casing

theorem high_lowerShifts : ∀ s ∈ lowerShifts, 47 < (s.first : Int) + s.distance := by decide +kernel

theorem high_upperShifts : ∀ s ∈ upperShifts, 47 < (s.first : Int) + s.distance := by decide +kernel

theorem high_lowerSequences : ∀ p ∈ lowerSequences, ∀ n ∈ p.2, 47 < n := by decide +kernel

theorem high_upperSequences : ∀ p ∈ upperSequences, ∀ n ∈ p.2, 47 < n := by decide +kernel

theorem fits_lookUp {shifts : List Shift} {sequences : List (Nat × List Nat)}
    (hshifts : ∀ s ∈ shifts, 47 < (s.first : Int) + s.distance)
    (hsequences : ∀ p ∈ sequences, ∀ n ∈ p.2, 47 < n) {b : Char} (hb : Fits slash b) :
    ∀ c ∈ lookUp shifts sequences b.toNat, Fits slash c := by
  unfold lookUp
  split
  next ns hfind =>
    intro c hc
    obtain ⟨n, hn, rfl⟩ := List.mem_map.mp hc
    exact Text.fits_ofNat (hsequences _ (List.mem_of_find?_eq_some hfind) n hn)
  next =>
    split
    next s hfind =>
      rw [List.forall_mem_singleton]
      have hhigh := hshifts s (List.mem_of_find?_eq_some hfind)
      have hin : s.contains b.toNat := by simpa using List.find?_some hfind
      simp only [Shift.contains, Bool.and_eq_true, decide_eq_true_eq] at hin
      exact Text.fits_ofNat (by omega)
    next =>
      rw [List.forall_mem_singleton, Char.ofNat_toNat]
      exact hb

theorem fits_lowerChar {b : Char} (hb : Fits slash b) : ∀ c ∈ lowerChar b, Fits slash c := by
  unfold lowerChar
  split
  · rw [List.forall_mem_singleton]
    split
    next hupper =>
      simp only [Letter.isAsciiUpper, Bool.and_eq_true, decide_eq_true_eq, Char.le_def,
        UInt32.le_iff_toNat_le] at hupper
      have hle : (65 : Nat) ≤ b.toNat := hupper.1
      exact Text.fits_ofNat (by omega)
    · exact hb
  · exact fits_lookUp high_lowerShifts high_lowerSequences hb

theorem fits_upperChar {b : Char} (hb : Fits slash b) : ∀ c ∈ upperChar b, Fits slash c := by
  unfold upperChar
  split
  · rw [List.forall_mem_singleton]
    split
    next hlower =>
      simp only [Letter.isAsciiLower, Bool.and_eq_true, decide_eq_true_eq, Char.le_def,
        UInt32.le_iff_toNat_le] at hlower
      have hle : (97 : Nat) ≤ b.toNat := hlower.1
      exact Text.fits_ofNat (by omega)
    · exact hb
  · exact fits_lookUp high_upperShifts high_upperSequences hb

theorem fits_lowerAfter {cs : List Char} (h : ∀ c ∈ cs, Fits slash c) : ∀ before : List Char,
    ∀ c ∈ lowerAfter before cs, Fits slash c := by
  induction cs with
  | nil => exact fun _ => List.forall_mem_nil _
  | cons b cs ih =>
      intro before
      obtain ⟨hb, hcs⟩ := List.forall_mem_cons.mp h
      rw [lowerAfter, List.forall_mem_append]
      refine ⟨?_, ih hcs _⟩
      split
      · split
        all_goals
          rw [List.forall_mem_singleton]
          exact Text.fits_of_lt (by decide)
      · exact fits_lowerChar hb

end Casing

/-! ### Names -/

namespace Name

variable {s : String}

theorem fits_capitalize {lowerRest : Bool} {cs : List Char} (h : ∀ c ∈ cs, Fits slash c) :
    ∀ c ∈ capitalize lowerRest cs, Fits slash c := by
  cases cs with
  | nil => exact List.forall_mem_nil _
  | cons b cs =>
      obtain ⟨hb, hcs⟩ := List.forall_mem_cons.mp h
      rw [capitalize, List.forall_mem_append]
      refine ⟨Casing.fits_upperChar hb, ?_⟩
      split
      · exact Casing.fits_lowerAfter hcs []
      · exact hcs

theorem isWord_type (h : IsWord slash s) : IsWord slash (type s) := by
  unfold type toPascal pascal
  rw [Text.isWord_ofList]
  split
  · intro c hc
    obtain ⟨word, hword, hc⟩ := List.mem_flatMap.mp hc
    refine fits_capitalize (fun b hb => h b ?_) c hc
    exact Text.mem_of_mem_split (List.mem_of_mem_filter hword) b hb
  · exact fits_capitalize h

theorem fits_snakeAfter {cs : List Char} (h : ∀ c ∈ cs, Fits slash c) : ∀ before : Option Char,
    ∀ c ∈ snakeAfter before cs, Fits slash c := by
  have hmark : Fits slash '_' := Text.fits_of_lt (by decide)
  induction cs with
  | nil => exact fun _ => List.forall_mem_nil _
  | cons b cs ih =>
      intro before
      obtain ⟨hb, hcs⟩ := List.forall_mem_cons.mp h
      unfold snakeAfter
      dsimp only
      rw [List.forall_mem_append]
      refine ⟨?_, ih hcs _⟩
      split
      · rw [List.forall_mem_append]
        refine ⟨?_, Casing.fits_lowerChar hb⟩
        split
        · split
          · rwa [List.forall_mem_singleton]
          · exact List.forall_mem_nil _
        · exact List.forall_mem_nil _
      · rwa [List.forall_mem_singleton]

theorem isWord_toSnake (h : IsWord slash s) : IsWord slash (toSnake s) := by
  unfold toSnake snake
  rw [Text.isWord_ofList]
  exact fits_snakeAfter h none

theorem isWord_escape (h : IsWord slash s) : IsWord slash (escape s) := by
  unfold escape
  split
  · rw [Text.isWord_append]
    exact ⟨h, Text.isWord_literal ⟨_, rfl, rfl⟩⟩
  · exact h

theorem isWord_function (h : IsWord slash s) : IsWord slash (function s) :=
  isWord_escape (isWord_toSnake h)

theorem isWord_typeModule (h : IsWord slash s) : IsWord slash (typeModule s) :=
  isWord_escape (isWord_toSnake h)

theorem isWord_codecModule (h : IsWord slash s) : IsWord slash (codecModule s) := by
  unfold codecModule
  rw [Text.isWord_append]
  exact ⟨isWord_toSnake h, Text.isWord_literal ⟨_, rfl, rfl⟩⟩

end Name

/-! ### Numbers and literals -/

theorem fits_toDigits (n : Nat) : ∀ c ∈ Nat.toDigits 10 n, Fits slash c := fun _ hc =>
  Text.fits_of_isDigit (Nat.isDigit_of_mem_toDigits (by decide) (Nat.le_refl 10) hc)

@[simp] theorem isWord_repr (n : Nat) : IsWord slash n.repr := by
  rw [Nat.repr_eq_ofList_toDigits, Text.isWord_ofList]
  exact fits_toDigits n

@[simp] theorem isWord_intRepr (n : Int) : IsWord slash n.repr := by
  cases n with
  | ofNat n => exact isWord_repr n
  | negSucc n =>
      show IsWord slash ("-" ++ n.succ.repr)
      rw [Text.isWord_append]
      exact ⟨Text.isWord_literal ⟨_, rfl, rfl⟩, isWord_repr _⟩

namespace Format

theorem fits_zeros (n : Nat) : ∀ c ∈ zeros n, Fits slash c := by
  intro c hc
  rw [(List.mem_replicate.mp hc).2]
  exact Text.fits_of_lt (by decide)

theorem fits_positional {ds : List Char} (h : ∀ c ∈ ds, Fits slash c) (point : Int) :
    ∀ c ∈ positional ds point, Fits slash c := by
  have hzero : Fits slash '0' := Text.fits_of_lt (by decide)
  unfold positional
  split
  · simp only [List.forall_mem_append, List.forall_mem_cons]
    exact ⟨⟨⟨hzero, Text.fits_point, List.forall_mem_nil _⟩, fits_zeros _⟩, h⟩
  · split
    · simp only [List.forall_mem_append, List.forall_mem_cons]
      exact ⟨⟨h, fits_zeros _⟩, Text.fits_point, hzero, List.forall_mem_nil _⟩
    · simp only [List.forall_mem_append, List.forall_mem_cons]
      exact ⟨⟨fun c hc => h c (List.mem_of_mem_take hc), Text.fits_point, List.forall_mem_nil _⟩,
        fun c hc => h c (List.mem_of_mem_drop hc)⟩

theorem fits_scientific (f : Format) {ds : List Char} (h : ∀ c ∈ ds, Fits slash c) (order : Int) :
    ∀ c ∈ f.scientific ds order, Fits slash c := by
  unfold scientific
  simp only [List.forall_mem_append, List.forall_mem_cons]
  refine ⟨⟨⟨⟨fun c hc => h c (List.mem_of_mem_take hc), ?_⟩, Text.fits_of_lt (by decide),
    List.forall_mem_nil _⟩, ?_⟩, isWord_intRepr order⟩
  · split
    · exact List.forall_mem_nil _
    · rw [List.forall_mem_cons]
      exact ⟨Text.fits_point, fun c hc => h c (List.mem_of_mem_drop hc)⟩
  · split
    · rw [List.forall_mem_singleton]
      exact Text.fits_of_ne (by decide) (by decide)
    · exact List.forall_mem_nil _

theorem fits_magnitude (f : Format) (m : Nat) (e : Int) : ∀ c ∈ f.magnitude m e, Fits slash c := by
  have hzero : Fits slash '0' := Text.fits_of_lt (by decide)
  unfold magnitude
  split
  · simp only [List.forall_mem_cons]
    exact ⟨hzero, Text.fits_point, hzero, List.forall_mem_nil _⟩
  · have hdigits : ∀ d, ∀ c ∈ Shortest.digitsOf d, Fits slash c := isWord_repr
    dsimp only
    split
    · exact fits_positional (hdigits _) _
    · exact fits_scientific f (hdigits _) _

theorem isWord_text (f : Format) (x : Binary64) : IsWord slash (f.text x) := by
  cases x with
  | nan => exact Text.isWord_literal ⟨_, rfl, rfl⟩
  | infinite negative => cases negative <;> exact Text.isWord_literal ⟨_, rfl, rfl⟩
  | finite negative m e =>
      cases negative
      · exact Text.isWord_ofList.mpr (fits_magnitude f m e)
      · exact Text.isWord_ofList.mpr (List.forall_mem_cons.mpr ⟨Text.fits_minus, fits_magnitude f m e⟩)

end Format

@[simp] theorem isWord_typeName (p : Primitive) : IsWord slash p.typeName := by
  cases p <;> exact Text.isWord_literal ⟨_, rfl, rfl⟩

namespace Value

theorem isWord_literal {p : Primitive} {v : Value} {s : String} (h : v.literal p = .ok s) :
    IsWord slash s := by
  cases v with
  | text => cases h
  | int n =>
      cases h
      split <;> simp (disch := exact ⟨_, rfl, rfl⟩)
  | float x =>
      unfold literal at h
      dsimp only at h
      split at h
      · cases h
        split <;> simp (disch := exact ⟨_, rfl, rfl⟩) [Format.isWord_text]
      · cases h

theorem isWord_nullCheck {p : Primitive} {expression : String} {null : Value} {s : String}
    (h : null.nullCheck p expression = .ok s) (he : IsWord slash expression) : IsWord slash s := by
  unfold nullCheck at h
  split at h
  · cases h
    simp (disch := exact ⟨_, rfl, rfl⟩) [he]
  · obtain ⟨value, hvalue, h⟩ := bind_eq_ok.mp h
    rw [pure_eq_ok] at h
    subst h
    simp (disch := exact ⟨_, rfl, rfl⟩) [he, isWord_literal hvalue]

end Value

/-! ### Quoted text -/

namespace Quoted

theorem unbroken_hexDigit : ∀ n < 16, Unbroken (hexDigit n) := by decide

theorem unbroken_digitChar (n : Nat) : Unbroken n.digitChar :=
  ⟨Nat.digitChar_ne '\n' rfl, Nat.digitChar_ne '\r' rfl⟩

theorem unbroken_hex (n : Nat) : ∀ c ∈ hex n, Unbroken c := by
  unfold hex
  induction n using Nat.strongRecOn with
  | ind n ih =>
      rw [Nat.toDigits_eq_if (by decide)]
      split
      · rw [List.forall_mem_singleton]
        exact unbroken_digitChar n
      · rw [List.forall_mem_append, List.forall_mem_singleton]
        exact ⟨ih (n / 16) (by omega), unbroken_digitChar _⟩

theorem unbroken_byte (b : UInt8) : ∀ c ∈ byte b, Unbroken c := by
  have hb : b.toNat < 256 := b.toNat_lt
  unfold byte
  dsimp only
  split_ifs with _ _ _ _ _ _ hshown
  iterate 6 exact Text.unbroken_of_all rfl
  · rw [List.forall_mem_singleton]
    have hvalid : b.toNat.isValidChar := .inl (by omega)
    have hcode : (Char.ofNat b.toNat).toNat = b.toNat := by
      rw [Char.ofNat, dif_pos hvalid]
      rfl
    exact Text.unbroken_of_lt (by omega)
  · simp only [List.forall_mem_cons]
    exact ⟨by decide, by decide, unbroken_hexDigit _ (by omega), unbroken_hexDigit _ (by omega),
      List.forall_mem_nil _⟩

theorem unbroken_char (b : Char) : ∀ c ∈ char b, Unbroken c := by
  unfold char
  split_ifs with _ _ hfeed hreturn
  iterate 6 exact Text.unbroken_of_all rfl
  · rw [List.forall_mem_singleton]
    exact ⟨hfeed, hreturn⟩
  · simp only [List.forall_mem_append, List.forall_mem_singleton]
    exact ⟨⟨Text.unbroken_of_all rfl, unbroken_hex _⟩, by decide⟩

theorem unbroken_bytes (s : String) : ∀ c ∈ (bytes s).toList, Unbroken c := by
  unfold bytes
  simp only [String.toList_ofList, List.forall_mem_append, List.forall_mem_flatMap]
  exact ⟨⟨Text.unbroken_of_all rfl, fun b _ => unbroken_byte b⟩, Text.unbroken_of_all rfl⟩

theorem unbroken_text (s : String) : ∀ c ∈ (text s).toList, Unbroken c := by
  unfold text
  simp only [String.toList_ofList, List.forall_mem_append, List.forall_mem_flatMap]
  exact ⟨⟨Text.unbroken_of_all rfl, fun b _ => unbroken_char b⟩, Text.unbroken_of_all rfl⟩

theorem isCodeLine_bytes (s : String) : Text.IsCodeLine slash (bytes s) :=
  Text.isCodeLine_of_head String.toList_ofList (by decide) (by decide) (unbroken_bytes s)

theorem isCodeLine_text (s : String) : Text.IsCodeLine slash (text s) :=
  Text.isCodeLine_of_head String.toList_ofList (by decide) (by decide) (unbroken_text s)

theorem isCodeLine_definition {heading : String} (h : Text.IsWord slash heading)
    (hvisible : heading.toList.any fun c => !Text.isBlank c) (s : String) :
    Text.IsCodeLine slash (heading ++ text s ++ ";") := by
  obtain ⟨c, hc, hblank⟩ := List.any_eq_true.mp hvisible
  rw [String.append_assoc]
  refine h.isCodeLine_append hc (by simpa using hblank) ?_
  rw [String.toList_append, List.forall_mem_append]
  exact ⟨unbroken_text s, Text.unbroken_of_all (by decide)⟩

end Quoted
end WireCodec
