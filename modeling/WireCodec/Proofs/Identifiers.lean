import WireCodec.Proofs.Modules
/-! # Identifiers in ASCII

Names of ASCII characters are spelled in small letters one character at a time, with underscores put
between (`Name.snakeAfter_cons`), so what they are made of can be read off character by character.  An
identifier becomes an identifier in small letters, which is fit for a module (`Name.isModule_toSnake`).

The name of a schema is made of two names in which points and dashes may stand as well.  Those of the
package become underscores and those of the namespace stay, so the name is fit for a module, and a single
file named for it is not refused, exactly if the namespace has none (`Schema.singleFile_refused_iff`). -/

namespace WireCodec

/-! ### Letter case in ASCII -/

namespace Letter

variable {c : Char}

theorem isAscii_iff : isAscii c ↔ c.toNat < 128 := by rw [isAscii, decide_eq_true_eq]

theorem isAsciiUpper_iff : isAsciiUpper c ↔ 65 ≤ c.toNat ∧ c.toNat ≤ 90 := by
  rw [isAsciiUpper, Bool.and_eq_true, decide_eq_true_eq, decide_eq_true_eq]
  exact Iff.rfl

theorem isAsciiLower_iff : isAsciiLower c ↔ 97 ≤ c.toNat ∧ c.toNat ≤ 122 := by
  rw [isAsciiLower, Bool.and_eq_true, decide_eq_true_eq, decide_eq_true_eq]
  exact Iff.rfl

theorem isAsciiDigit_iff : isAsciiDigit c ↔ 48 ≤ c.toNat ∧ c.toNat ≤ 57 := by
  rw [isAsciiDigit, Bool.and_eq_true, decide_eq_true_eq, decide_eq_true_eq]
  exact Iff.rfl

theorem isUpper_of_isAscii (h : isAscii c) : isUpper c = isAsciiUpper c := if_pos h

end Letter

namespace Casing

open Letter (isAscii)

/-- The capital form of an ASCII letter; other characters stay. -/
def upperAscii (c : Char) : Char :=
  if Letter.isAsciiLower c then Char.ofNat (c.toNat - 32) else c

theorem lowerChar_of_isAscii {c : Char} (h : isAscii c) : lowerChar c = [lowerAscii c] := if_pos h

theorem upperChar_of_isAscii {c : Char} (h : isAscii c) : upperChar c = [upperAscii c] := if_pos h

theorem upper_of_isAscii {cs : List Char} (h : ∀ c ∈ cs, isAscii c) : upper cs = cs.map upperAscii := by
  induction cs with
  | nil => rfl
  | cons c cs ih =>
      obtain ⟨hc, hcs⟩ := List.forall_mem_cons.mp h
      have hrest := ih hcs
      unfold upper at hrest ⊢
      rw [List.flatMap_cons, upperChar_of_isAscii hc, hrest]
      rfl

theorem lowerAfter_of_isAscii {cs : List Char} (h : ∀ c ∈ cs, isAscii c) (before : List Char) :
    lowerAfter before cs = cs.map lowerAscii := by
  induction cs generalizing before with
  | nil => rfl
  | cons c cs ih =>
      obtain ⟨hc, hcs⟩ := List.forall_mem_cons.mp h
      have hsigma : c ≠ 'Σ' := by
        rintro rfl
        exact absurd hc (by decide)
      rw [lowerAfter, if_neg hsigma, lowerChar_of_isAscii hc, ih hcs]
      rfl

theorem lower_of_isAscii {cs : List Char} (h : ∀ c ∈ cs, isAscii c) : lower cs = cs.map lowerAscii :=
  lowerAfter_of_isAscii h []

theorem lowerAscii_of_not_upper {c : Char} (h : Letter.isAsciiUpper c = false) : lowerAscii c = c :=
  if_neg (by simp [h])

theorem toNat_ofNat {n : Nat} (h : n < 128) : (Char.ofNat n).toNat = n := by
  have hvalid : n.isValidChar := .inl (by omega)
  rw [Char.ofNat, dif_pos hvalid]
  rfl

theorem toNat_lowerAscii (c : Char) :
    (lowerAscii c).toNat = if 65 ≤ c.toNat ∧ c.toNat ≤ 90 then c.toNat + 32 else c.toNat := by
  unfold lowerAscii
  by_cases h : Letter.isAsciiUpper c
  · have hc := Letter.isAsciiUpper_iff.mp h
    rw [if_pos h, if_pos hc, toNat_ofNat (by omega)]
  · rw [if_neg h, if_neg (Letter.isAsciiUpper_iff.not.mp h)]

theorem toNat_upperAscii (c : Char) :
    (upperAscii c).toNat = if 97 ≤ c.toNat ∧ c.toNat ≤ 122 then c.toNat - 32 else c.toNat := by
  unfold upperAscii
  by_cases h : Letter.isAsciiLower c
  · have hc := Letter.isAsciiLower_iff.mp h
    rw [if_pos h, if_pos hc, toNat_ofNat (by omega)]
  · rw [if_neg h, if_neg (Letter.isAsciiLower_iff.not.mp h)]

end Casing

namespace Name

open Casing (lowerAscii)
open Letter (isAscii)

/-! ### Forms -/

def isLetter (c : Char) : Bool := Letter.isAsciiUpper c || Letter.isAsciiLower c

def isIdentifierStart (c : Char) : Bool := isLetter c || c == '_'

def isIdentifierRest (c : Char) : Bool := isLetter c || Letter.isAsciiDigit c || c == '_'

/-- What may follow in the name of a package or of a namespace. -/
def isPackageRest (c : Char) : Bool := isIdentifierRest c || c == '.' || c == '-'

/-- Does the text begin in one way and go on in another? -/
def isFormed (start rest : Char → Bool) : List Char → Bool
  | c :: cs => start c && cs.all rest
  | [] => false

/-- An identifier in ASCII: letters, digits and underscores, and no digit in front. -/
def isIdentifier (s : String) : Bool := isFormed isIdentifierStart isIdentifierRest s.toList

/-- The name of a package or a namespace: an identifier in which points and dashes may follow. -/
def isPackage (s : String) : Bool := isFormed isIdentifierStart isPackageRest s.toList

theorem isModule_eq (s : String) : isModule s = isFormed isModuleStart isModuleRest s.toList := by
  unfold isModule isFormed
  cases s.toList <;> rfl

section

variable {start start' rest rest' : Char → Bool} {cs : List Char}

theorem isFormed_cons {c : Char} :
    isFormed start rest (c :: cs) ↔ start c ∧ ∀ d ∈ cs, rest d := by
  rw [isFormed, Bool.and_eq_true, List.all_eq_true]

theorem isFormed_map {f : Char → Char} (h : isFormed start rest cs)
    (hstart : ∀ c, start c → start' (f c)) (hrest : ∀ c, rest c → rest' (f c)) :
    isFormed start' rest' (cs.map f) := by
  cases cs with
  | nil => cases h
  | cons c cs =>
      rw [isFormed_cons] at h
      rw [List.map_cons, isFormed_cons, List.forall_mem_map]
      exact ⟨hstart c h.1, fun d hd => hrest d (h.2 d hd)⟩

theorem isFormed_mono (h : isFormed start rest cs) (hstart : ∀ c, start c → start' c)
    (hrest : ∀ c, rest c → rest' c) : isFormed start' rest' cs := by
  have hmap := isFormed_map (f := id) h hstart hrest
  rwa [List.map_id] at hmap

theorem isFormed_append_iff {ds : List Char} (h : cs ≠ []) :
    isFormed start rest (cs ++ ds) ↔ isFormed start rest cs ∧ ∀ d ∈ ds, rest d := by
  cases cs with
  | nil => exact absurd rfl h
  | cons c cs =>
      rw [List.cons_append, isFormed_cons, isFormed_cons, List.forall_mem_append, and_assoc]

theorem ne_nil_of_isFormed (h : isFormed start rest cs) : cs ≠ [] := by
  rintro rfl
  cases h

theorem forall_of_isFormed (h : isFormed start rest cs) (hstart : ∀ c, start c → rest c) :
    ∀ c ∈ cs, rest c := by
  cases cs with
  | nil => cases h
  | cons c cs =>
      rw [isFormed_cons] at h
      exact List.forall_mem_cons.mpr ⟨hstart c h.1, h.2⟩

end

/-! ### Characters of names -/

section

variable {c : Char}

theorem isLetter_iff :
    isLetter c ↔ (65 ≤ c.toNat ∧ c.toNat ≤ 90) ∨ (97 ≤ c.toNat ∧ c.toNat ≤ 122) := by
  rw [isLetter, Bool.or_eq_true, Letter.isAsciiUpper_iff, Letter.isAsciiLower_iff]

theorem isIdentifierStart_iff : isIdentifierStart c ↔ isLetter c ∨ c.toNat = 95 := by
  rw [isIdentifierStart, Bool.or_eq_true, beq_iff_eq, ← Char.toNat_inj]
  exact Iff.rfl

theorem isIdentifierRest_iff :
    isIdentifierRest c ↔ isLetter c ∨ (48 ≤ c.toNat ∧ c.toNat ≤ 57) ∨ c.toNat = 95 := by
  rw [isIdentifierRest, Bool.or_eq_true, Bool.or_eq_true, Letter.isAsciiDigit_iff, beq_iff_eq,
    ← Char.toNat_inj, or_assoc]
  exact Iff.rfl

theorem isPackageRest_iff :
    isPackageRest c ↔ isIdentifierRest c ∨ c.toNat = 46 ∨ c.toNat = 45 := by
  rw [isPackageRest, Bool.or_eq_true, Bool.or_eq_true, beq_iff_eq, beq_iff_eq, ← Char.toNat_inj,
    ← Char.toNat_inj, or_assoc]
  exact Iff.rfl

theorem isModuleStart_iff :
    isModuleStart c ↔ (97 ≤ c.toNat ∧ c.toNat ≤ 122) ∨ c.toNat = 95 := by
  rw [isModuleStart, Bool.or_eq_true, Letter.isAsciiLower_iff, beq_iff_eq, ← Char.toNat_inj]
  exact Iff.rfl

theorem isModuleRest_iff :
    isModuleRest c ↔ (97 ≤ c.toNat ∧ c.toNat ≤ 122) ∨ (48 ≤ c.toNat ∧ c.toNat ≤ 57) ∨
      c.toNat = 95 := by
  rw [isModuleRest, Bool.or_eq_true, Bool.or_eq_true, Letter.isAsciiLower_iff,
    Letter.isAsciiDigit_iff, beq_iff_eq, ← Char.toNat_inj, or_assoc]
  exact Iff.rfl

theorem isIdentifierRest_of_isIdentifierStart (h : isIdentifierStart c) : isIdentifierRest c := by
  rw [isIdentifierStart_iff] at h
  rw [isIdentifierRest_iff]
  exact h.imp_right .inr

theorem isPackageRest_of_isIdentifierRest (h : isIdentifierRest c) : isPackageRest c :=
  isPackageRest_iff.mpr (.inl h)

theorem isModuleRest_of_isModuleStart (h : isModuleStart c) : isModuleRest c := by
  rw [isModuleStart_iff] at h
  rw [isModuleRest_iff]
  exact h.imp_right .inr

theorem isIdentifierStart_of_isModuleStart (h : isModuleStart c) : isIdentifierStart c := by
  rw [isModuleStart_iff] at h
  rw [isIdentifierStart_iff, isLetter_iff]
  omega

theorem isIdentifierRest_of_isModuleRest (h : isModuleRest c) : isIdentifierRest c := by
  rw [isModuleRest_iff] at h
  rw [isIdentifierRest_iff, isLetter_iff]
  omega

theorem isAscii_of_isPackageRest (h : isPackageRest c) : isAscii c := by
  rw [isPackageRest_iff, isIdentifierRest_iff, isLetter_iff] at h
  rw [Letter.isAscii_iff]
  omega

theorem isAscii_of_isModuleRest (h : isModuleRest c) : isAscii c :=
  isAscii_of_isPackageRest (isPackageRest_of_isIdentifierRest (isIdentifierRest_of_isModuleRest h))

theorem isModuleStart_lowerAscii (h : isIdentifierStart c) : isModuleStart (lowerAscii c) := by
  rw [isIdentifierStart_iff, isLetter_iff] at h
  rw [isModuleStart_iff, Casing.toNat_lowerAscii]
  split <;> omega

/-- Of the characters of a package name only points and dashes do not become those of a module. -/
theorem isModuleRest_lowerAscii_iff (h : isPackageRest c) :
    isModuleRest (lowerAscii c) ↔ c ≠ '.' ∧ c ≠ '-' := by
  have hpoint : c = '.' ↔ c.toNat = 46 := Char.toNat_inj.symm
  have hdash : c = '-' ↔ c.toNat = 45 := Char.toNat_inj.symm
  rw [isPackageRest_iff, isIdentifierRest_iff, isLetter_iff] at h
  rw [isModuleRest_iff, Casing.toNat_lowerAscii, ne_eq, ne_eq, hpoint, hdash]
  split <;> omega

theorem isModuleRest_of_isIdentifierRest (h : isIdentifierRest c) :
    isModuleRest (lowerAscii c) := by
  rw [isModuleRest_lowerAscii_iff (isPackageRest_of_isIdentifierRest h)]
  constructor <;> rintro rfl <;> exact absurd h (by decide)

theorem lowerAscii_of_isModuleRest (h : isModuleRest c) : lowerAscii c = c := by
  rw [isModuleRest_iff] at h
  rw [← Char.toNat_inj, Casing.toNat_lowerAscii, if_neg (by omega)]

end

/-! ### Small letters and underscores -/

/-- The underscore in front of a character that begins a word. -/
def mark (before : Option Char) (c : Char) (after : List Char) : List Char :=
  if Letter.isUpper c && before.any (startsWord · after) then ['_'] else []

theorem snakeAfter_cons {c : Char} (h : isAscii c) (before : Option Char) (cs : List Char) :
    snakeAfter before (c :: cs)
      = mark before c cs ++ lowerAscii c :: snakeAfter (some c) cs := by
  conv_lhs => unfold snakeAfter
  dsimp only
  unfold mark
  cases hupper : Letter.isUpper c with
  | true =>
      rw [Casing.lowerChar_of_isAscii h]
      cases before with
      | none => rfl
      | some b => simp
  | false =>
      rw [Letter.isUpper_of_isAscii h] at hupper
      rw [Casing.lowerAscii_of_not_upper hupper]
      rfl

theorem eq_underscore_of_mem_mark {before : Option Char} {c d : Char} {after : List Char}
    (h : d ∈ mark before c after) : d = '_' := by
  unfold mark at h
  split at h
  · exact List.mem_singleton.mp h
  · cases h

theorem forall_snakeAfter {p : Char → Prop} (hmark : p '_') {cs : List Char}
    (h : ∀ c ∈ cs, isAscii c ∧ p (lowerAscii c)) (before : Option Char) :
    ∀ d ∈ snakeAfter before cs, p d := by
  induction cs generalizing before with
  | nil => exact List.forall_mem_nil _
  | cons c cs ih =>
      obtain ⟨⟨hascii, hc⟩, hcs⟩ := List.forall_mem_cons.mp h
      rw [snakeAfter_cons hascii, List.forall_mem_append, List.forall_mem_cons]
      refine ⟨?_, hc, ih hcs (some c)⟩
      intro d hd
      rwa [eq_underscore_of_mem_mark hd]

theorem isFormed_snake {start start' rest rest' : Char → Bool} {cs : List Char}
    (h : isFormed start rest cs) (hascii : ∀ c ∈ cs, isAscii c)
    (hstart : ∀ c, start c → start' (lowerAscii c)) (hrest : ∀ c, rest c → rest' (lowerAscii c))
    (hmark : rest' '_') : isFormed start' rest' (snake cs) := by
  cases cs with
  | nil => cases h
  | cons c cs =>
      rw [isFormed_cons] at h
      obtain ⟨hc, hcs⟩ := List.forall_mem_cons.mp hascii
      have hnone : mark none c cs = [] := by simp [mark]
      rw [snake, snakeAfter_cons hc, hnone, List.nil_append, isFormed_cons]
      exact ⟨hstart c h.1, forall_snakeAfter hmark (fun d hd => ⟨hcs d hd, hrest d (h.2 d hd)⟩) _⟩

theorem isAscii_of_isIdentifier {s : String} (h : isIdentifier s) : ∀ c ∈ s.toList, isAscii c :=
  fun c hc => isAscii_of_isPackageRest (isPackageRest_of_isIdentifierRest
    (forall_of_isFormed h (fun _ => isIdentifierRest_of_isIdentifierStart) c hc))

theorem isPackageRest_of_isPackage {s : String} (h : isPackage s) :
    ∀ c ∈ s.toList, isPackageRest c :=
  forall_of_isFormed h fun _ hc =>
    isPackageRest_of_isIdentifierRest (isIdentifierRest_of_isIdentifierStart hc)

/-- A package name in small letters is fit for a module exactly if it has no points and dashes. -/
theorem isFormed_lowerAscii_iff {s : String} (h : isPackage s) :
    isFormed isModuleStart isModuleRest (s.toList.map lowerAscii) ↔
      '.' ∉ s.toList ∧ '-' ∉ s.toList := by
  have hchars := isPackageRest_of_isPackage h
  constructor
  · intro hform
    have hrest := forall_of_isFormed hform fun _ => isModuleRest_of_isModuleStart
    rw [List.forall_mem_map] at hrest
    have hother : ∀ c ∈ s.toList, c ≠ '.' ∧ c ≠ '-' :=
      fun c hc => (isModuleRest_lowerAscii_iff (hchars c hc)).mp (hrest c hc)
    exact ⟨fun hc => (hother _ hc).1 rfl, fun hc => (hother _ hc).2 rfl⟩
  · rintro ⟨hpoint, hdash⟩
    have hother : ∀ c ∈ s.toList, isModuleRest (lowerAscii c) := by
      intro c hc
      rw [isModuleRest_lowerAscii_iff (hchars c hc)]
      exact ⟨ne_of_mem_of_not_mem hc hpoint, ne_of_mem_of_not_mem hc hdash⟩
    unfold isPackage at h
    cases hs : s.toList with
    | nil =>
        rw [hs] at h
        cases h
    | cons c cs =>
        rw [hs, isFormed_cons] at h
        rw [hs, List.forall_mem_cons] at hother
        rw [List.map_cons, isFormed_cons, List.forall_mem_map]
        exact ⟨isModuleStart_lowerAscii h.1, hother.2⟩

theorem isModule_toSnake {s : String} (h : isIdentifier s) : isModule (toSnake s) := by
  rw [isModule_eq, toSnake, String.toList_ofList]
  exact isFormed_snake h (isAscii_of_isIdentifier h) (fun _ => isModuleStart_lowerAscii)
    (fun _ => isModuleRest_of_isIdentifierRest) (by decide)

theorem isIdentifier_of_isModule {s : String} (h : isModule s) : isIdentifier s := by
  rw [isModule_eq] at h
  exact isFormed_mono h (fun _ => isIdentifierStart_of_isModuleStart)
    fun _ => isIdentifierRest_of_isModuleRest

end Name

/-! ### The name of a schema -/

namespace Schema

open Casing (lowerAscii)
open Name (isFormed isModuleStart isModuleRest isPackageRest)

variable {s : Schema}

/-- A point or a dash in the name of a package becomes an underscore. -/
def joined (c : Char) : Char := if c = '.' ∨ c = '-' then '_' else c

theorem packageWords_eq (s : Schema) :
    s.packageWords = (Name.snake s.packageName.toList).map joined := rfl

theorem joined_of_isModuleRest {c : Char} (h : isModuleRest c) : joined c = c := by
  refine if_neg ?_
  rintro (rfl | rfl) <;> exact absurd h (by decide)

theorem isModuleRest_joined {c : Char} (h : isPackageRest c) :
    isModuleRest (joined (lowerAscii c)) := by
  by_cases hc : c = '.' ∨ c = '-'
  · rcases hc with rfl | rfl <;> decide
  · have hrest := (Name.isModuleRest_lowerAscii_iff h).mpr (not_or.mp hc)
    rwa [joined_of_isModuleRest hrest]

theorem isFormed_packageWords (h : Name.isPackage s.packageName) :
    isFormed isModuleStart isModuleRest s.packageWords := by
  have hrest := Name.isPackageRest_of_isPackage h
  have hsnake : isFormed isModuleStart (fun c => isModuleRest (joined c))
      (Name.snake s.packageName.toList) := by
    exact Name.isFormed_snake h (fun c hc => Name.isAscii_of_isPackageRest (hrest c hc))
      (fun _ => Name.isModuleStart_lowerAscii) (fun _ => isModuleRest_joined) (by decide)
  rw [packageWords_eq]
  refine Name.isFormed_map hsnake (fun c hc => ?_) fun _ hc => hc
  rwa [joined_of_isModuleRest (Name.isModuleRest_of_isModuleStart hc)]

theorem isModuleRest_of_mem_packageWords (h : Name.isPackage s.packageName) :
    ∀ c ∈ s.packageWords, isModuleRest c :=
  Name.forall_of_isFormed (isFormed_packageWords h) fun _ => Name.isModuleRest_of_isModuleStart

theorem lower_packageWords (h : Name.isPackage s.packageName) :
    s.packageWords.map lowerAscii = s.packageWords := by
  have hrest := isModuleRest_of_mem_packageWords h
  have hself : s.packageWords.map lowerAscii = s.packageWords.map fun c => c :=
    List.map_congr_left fun c hc => Name.lowerAscii_of_isModuleRest (hrest c hc)
  rw [hself, List.map_id']

/-- The name of a schema in ASCII: the package, and the namespace before it unless it is the same. -/
theorem toList_qualifiedName (hp : Name.isPackage s.packageName)
    (hn : ∀ n ∈ s.namespaceName, Name.isPackage n) :
    s.qualifiedName.toList = match s.namespaceName with
      | some n =>
        if Casing.equalsAscii n (String.ofList s.packageWords) then s.packageWords
        else n.toList.map lowerAscii ++ '_' :: s.packageWords
      | none => s.packageWords := by
  have hascii : ∀ c ∈ s.packageWords, Letter.isAscii c :=
    fun c hc => Name.isAscii_of_isModuleRest (isModuleRest_of_mem_packageWords hp c hc)
  have hpackage : Casing.lower s.packageWords = s.packageWords := by
    rw [Casing.lower_of_isAscii hascii, lower_packageWords hp]
  unfold qualifiedName
  rw [String.toList_ofList]
  cases hname : s.namespaceName with
  | none => exact hpackage
  | some n =>
      have hspace := Name.isPackageRest_of_isPackage (hn n hname)
      dsimp only
      split
      · exact hpackage
      · have hboth : ∀ c ∈ n.toList ++ '_' :: s.packageWords, Letter.isAscii c := by
          rw [List.forall_mem_append, List.forall_mem_cons]
          exact ⟨fun c hc => Name.isAscii_of_isPackageRest (hspace c hc), by decide, hascii⟩
        rw [Casing.lower_of_isAscii hboth, List.map_append, List.map_cons, lower_packageWords hp]
        rfl

/-- The name of a schema is fit for a module exactly if no points or dashes stand in the namespace. -/
theorem isModule_qualifiedName_iff (hp : Name.isPackage s.packageName)
    (hn : ∀ n ∈ s.namespaceName, Name.isPackage n) :
    Name.isModule s.qualifiedName ↔
      ∀ n ∈ s.namespaceName, '.' ∉ n.toList ∧ '-' ∉ n.toList := by
  have hwords := isFormed_packageWords hp
  rw [Name.isModule_eq, toList_qualifiedName hp hn]
  cases hname : s.namespaceName with
  | none => simpa using hwords
  | some n =>
      have hform := Name.isFormed_lowerAscii_iff (hn n hname)
      have hone : (∀ m ∈ some n, '.' ∉ m.toList ∧ '-' ∉ m.toList)
          ↔ '.' ∉ n.toList ∧ '-' ∉ n.toList := by simp
      rw [hone, ← hform]
      dsimp only
      split
      next heq =>
        -- The namespace repeats the package, whose words have neither.
        rw [Casing.equalsAscii, beq_iff_eq, String.toList_ofList, lower_packageWords hp] at heq
        rw [heq]
      next =>
        have hsome : n.toList.map lowerAscii ≠ [] := by
          simpa using Name.ne_nil_of_isFormed (hn n hname)
        rw [Name.isFormed_append_iff hsome, List.forall_mem_cons]
        exact and_iff_left ⟨by decide, isModuleRest_of_mem_packageWords hp⟩

end Schema

/-! ### Refusals -/

namespace OutputDirectory

variable {d : OutputDirectory} {u : SourceUnit} {t : FileTree} {f : Fault}

theorem prepare_eq_error (h : ((d.prepare : StateM FileTree _) t).1 = .error f) :
    ∃ reason, f = .directoryCreate d.path reason := by
  have hkind : (Files.kind? d.path : StateM FileTree _) t = (t.kind? d.path, t) := rfl
  unfold prepare at h
  rw [FileTree.bind_apply, hkind] at h
  dsimp only at h
  split at h
  · cases h
  · rw [FileTree.bind_apply] at h
    cases hmade : ((Files.makeDirectories d.path : StateM FileTree _) t).1 with
    | ok made =>
        rw [hmade] at h
        cases h
    | error reason =>
        rw [hmade] at h
        cases h
        exact ⟨reason, rfl⟩

theorem place_eq_error (h : ((d.place u : StateM FileTree _) t).1 = .error f) :
    f = .fileExists (d.pathOf u) ∨ ∃ reason, f = .fileWrite (d.pathOf u) reason := by
  have hkind : (Files.kind? (d.pathOf u) : StateM FileTree _) t = (t.kind? (d.pathOf u), t) := rfl
  unfold place at h
  rw [FileTree.bind_apply, hkind] at h
  dsimp only at h
  split at h
  · cases h
    exact .inl rfl
  · rw [FileTree.bind_apply] at h
    cases hwritten : ((Files.write (d.pathOf u) u.source : StateM FileTree _) t).1 with
    | ok written =>
        rw [hwritten] at h
        cases h
    | error reason =>
        rw [hwritten] at h
        cases h
        exact .inr ⟨reason, rfl⟩

theorem write_eq_pathTraversal_iff (d : OutputDirectory) (u : SourceUnit) (t : FileTree) :
    ((d.write u : StateM FileTree _) t).1 = .error (.pathTraversal u.module) ↔
      ¬ Name.isModule u.module := by
  constructor
  · intro h hmodule
    rw [write_of_isModule hmodule, FileTree.bind_apply] at h
    cases hprepare : ((d.prepare : StateM FileTree _) t).1 with
    | error f =>
        rw [hprepare] at h
        obtain ⟨reason, rfl⟩ := prepare_eq_error hprepare
        cases h
    | ok made =>
        rw [hprepare] at h
        rcases place_eq_error h with hplace | ⟨_, hplace⟩ <;> cases hplace
  · intro h
    rw [write_of_not_isModule (by simpa using h)]
    rfl

end OutputDirectory

/-! ### Single files -/

namespace Generator

/-- **The file of a schema.**  Where the names of the package and of the namespace consist of letters,
digits, underscores, points and dashes, and begin with a letter or an underscore, the name of the schema is
fit for a module exactly if no points or dashes stand in the namespace.  In a single file the only unit has
this name, and an output directory refuses it for its name exactly if there are some. -/
theorem singleFile_refused_iff {s : Schema} (hp : Name.isPackage s.packageName)
    (hn : ∀ n ∈ s.namespaceName, Name.isPackage n) :
    (Name.isModule s.qualifiedName ↔ ∀ n ∈ s.namespaceName, '.' ∉ n.toList ∧ '-' ∉ n.toList) ∧
    ∀ (g : Generator) (c : Configuration) (us : List SourceUnit), ofSchema s = .ok g →
      c.arrangement = .singleFile → g.units c = .ok us →
      ∃ u, us = [u] ∧ u.module = s.qualifiedName ∧
        ∀ (d : OutputDirectory) (t : FileTree),
          ((d.write u : StateM FileTree _) t).1 = .error (.pathTraversal s.qualifiedName) ↔
            ∃ n ∈ s.namespaceName, '.' ∈ n.toList ∨ '-' ∈ n.toList := by
  have hfit := Schema.isModule_qualifiedName_iff hp hn
  refine ⟨hfit, ?_⟩
  intro g c us hg hsingle hunits
  have hmodules := modules_of_units hunits
  rw [hsingle] at hmodules
  dsimp only at hmodules
  obtain ⟨u, rfl⟩ : ∃ u, us = [u] := by
    rw [← List.length_eq_one_iff, ← List.length_map (f := SourceUnit.module), hmodules]
    rfl
  have hmodule : u.module = s.qualifiedName := by
    rw [← (registry_of_ofSchema hg).1]
    exact List.singleton_inj.mp hmodules
  refine ⟨u, rfl, hmodule, fun d t => ?_⟩
  rw [← hmodule, OutputDirectory.write_eq_pathTraversal_iff, hmodule, hfit]
  simp only [not_forall, not_and_or, not_not, exists_prop]

/-! ### Two schemas without types and messages -/

namespace Dotted

def schema (package namespaceName : String) : Schema :=
  { packageName := package, namespaceName := some namespaceName }

def generator (s : Schema) : Generator := ⟨s, ⟨[]⟩, []⟩

theorem ofSchema_schema (package namespaceName : String) :
    ofSchema (schema package namespaceName) = .ok (generator (schema package namespaceName)) := rfl

def single : Configuration := { arrangement := .singleFile }

theorem exists_units (s : Schema) : ∃ us, (generator s).units single = .ok us := ⟨_, rfl⟩

end Dotted

/-- Points and dashes in the package: the name is fit for a module. -/
theorem singleFile_refused_iff_fleet :
    Name.isPackage "Car-Fleet.v2" ∧ Name.isPackage "Acme" ∧
      (Dotted.schema "Car-Fleet.v2" "Acme").qualifiedName = "acme_car_fleet_v2" ∧
      Name.isModule "acme_car_fleet_v2" ∧
      ∃ u, (Dotted.generator (Dotted.schema "Car-Fleet.v2" "Acme")).units Dotted.single = .ok [u] ∧
        ∀ (d : OutputDirectory) (t : FileTree),
          ((d.write u : StateM FileTree _) t).1 ≠ .error (.pathTraversal "acme_car_fleet_v2") := by
  have hp : Name.isPackage "Car-Fleet.v2" := by decide
  have hn : Name.isPackage "Acme" := by decide
  have hname : (Dotted.schema "Car-Fleet.v2" "Acme").qualifiedName = "acme_car_fleet_v2" := by
    decide +kernel
  have hnone : ∀ n ∈ (Dotted.schema "Car-Fleet.v2" "Acme").namespaceName,
      '.' ∉ n.toList ∧ '-' ∉ n.toList := by
    intro n h
    cases h
    decide
  obtain ⟨hfit, hwritten⟩ := singleFile_refused_iff (s := Dotted.schema "Car-Fleet.v2" "Acme") hp
    (fun n h => by cases h; exact hn)
  obtain ⟨us, hus⟩ := Dotted.exists_units (Dotted.schema "Car-Fleet.v2" "Acme")
  obtain ⟨u, rfl, -, hrefused⟩ := hwritten _ _ us (Dotted.ofSchema_schema _ _) rfl hus
  refine ⟨hp, hn, hname, ?_, u, hus, fun d t h => ?_⟩
  · rw [← hname]
    exact hfit.mpr hnone
  · rw [← hname] at h
    obtain ⟨n, hmem, hc⟩ := (hrefused d t).mp h
    exact hc.elim (hnone n hmem).1 (hnone n hmem).2

/-- The points of a namespace stay: the name is fit for no module, and the single file named for it is
refused by every output directory. -/
theorem point_in_namespace_is_refused :
    Name.isPackage "car" ∧ Name.isPackage "com.acme" ∧
      (Dotted.schema "car" "com.acme").qualifiedName = "com.acme_car" ∧
      ¬ Name.isModule "com.acme_car" ∧
      ofSchema (Dotted.schema "car" "com.acme")
        = .ok (Dotted.generator (Dotted.schema "car" "com.acme")) ∧
      ∃ u, (Dotted.generator (Dotted.schema "car" "com.acme")).units Dotted.single = .ok [u] ∧
        ∀ (d : OutputDirectory) (t : FileTree),
          ((d.write u : StateM FileTree _) t).1 = .error (.pathTraversal "com.acme_car") := by
  have hname : (Dotted.schema "car" "com.acme").qualifiedName = "com.acme_car" := by decide +kernel
  have hmodule : ¬ Name.isModule "com.acme_car" := by decide
  obtain ⟨us, hus⟩ := Dotted.exists_units (Dotted.schema "car" "com.acme")
  have hmodules := modules_of_units hus
  obtain ⟨u, rfl, hu⟩ : ∃ u, us = [u] ∧ u.module = "com.acme_car" := by
    match us, hmodules with
    | [u], h => exact ⟨u, rfl, (List.singleton_inj.mp h).trans hname⟩
  refine ⟨by decide, by decide, hname, hmodule, rfl, u, hus, fun d t => ?_⟩
  rw [← hu, OutputDirectory.write_eq_pathTraversal_iff, hu]
  exact hmodule

end Generator
end WireCodec
