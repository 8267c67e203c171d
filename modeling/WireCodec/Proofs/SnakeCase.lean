import WireCodec.Proofs.Identifiers
/-! # Small letters and separators

The snake form of a text keeps its characters, in small letters, and puts underscores between some of
them.  `Name.snakeNotes` says of every character of the snake form whether it was put in.

For ASCII texts, what was put in are underscores, each between two characters that are none
(`Name.Separates`), and what was not put in is the text in small letters.  As no capital is left, the
snake form of a snake form is the same (`Name.toSnake_separates`). -/

namespace WireCodec.Name

open Casing (lowerAscii)
open Letter (isAscii)

variable {before : Option Char} {c d : Char} {cs after : List Char}

/-! ### No capitals -/

theorem isUpper_lowerAscii (h : isAscii c) : Letter.isUpper (lowerAscii c) = false := by
  have hc := Letter.isAscii_iff.mp h
  have hlower := Casing.toNat_lowerAscii c
  have hascii : isAscii (lowerAscii c) := by
    rw [Letter.isAscii_iff, hlower]
    split <;> omega
  rw [Letter.isUpper_of_isAscii hascii, Bool.eq_false_iff, ne_eq, Letter.isAsciiUpper_iff, hlower]
  split <;> omega

theorem snakeAfter_eq_self (h : ∀ c ∈ cs, Letter.isUpper c = false) (before : Option Char) :
    snakeAfter before cs = cs := by
  induction cs generalizing before with
  | nil => rfl
  | cons c cs ih =>
      obtain ⟨hc, hcs⟩ := List.forall_mem_cons.mp h
      unfold snakeAfter
      rw [ih hcs]
      simp [hc]

theorem isUpper_of_mem_snake (h : ∀ c ∈ cs, isAscii c) : ∀ d ∈ snake cs, Letter.isUpper d = false :=
  forall_snakeAfter (by decide) (fun c hc => ⟨h c hc, isUpper_lowerAscii (h c hc)⟩) none

/-! ### What is put in -/

/-- The characters of the snake form, each with a note whether it was put in. -/
def snakeNotes (before : Option Char) : List Char → List (Char × Bool)
  | [] => []
  | c :: cs => (mark before c cs).map (·, true) ++ (lowerAscii c, false) :: snakeNotes (some c) cs

theorem map_snakeNotes (h : ∀ c ∈ cs, isAscii c) (before : Option Char) :
    (snakeNotes before cs).map Prod.fst = snakeAfter before cs := by
  induction cs generalizing before with
  | nil => rfl
  | cons c cs ih =>
      obtain ⟨hc, hcs⟩ := List.forall_mem_cons.mp h
      rw [snakeAfter_cons hc, snakeNotes, List.map_append, List.map_cons, ih hcs, List.map_map]
      congr 1
      exact List.map_id _

theorem kept_snakeNotes (before : Option Char) (cs : List Char) :
    ((snakeNotes before cs).filter fun x => !x.2).map Prod.fst = cs.map lowerAscii := by
  induction cs generalizing before with
  | nil => rfl
  | cons c cs ih =>
      have hmark : ((mark before c cs).map (·, true)).filter (fun x => !x.2) = [] := by
        rw [List.filter_map, List.filter_eq_nil_iff.mpr (by simp), List.map_nil]
      rw [snakeNotes, List.filter_append, hmark, List.nil_append, List.filter_cons_of_pos rfl,
        List.map_cons, List.map_cons, ih]

theorem filter_snakeAfter (h : ∀ c ∈ cs, isAscii c) (before : Option Char) :
    (snakeAfter before cs).filter (· ≠ '_') = (cs.map lowerAscii).filter (· ≠ '_') := by
  induction cs generalizing before with
  | nil => rfl
  | cons c cs ih =>
      obtain ⟨hc, hcs⟩ := List.forall_mem_cons.mp h
      have hmark : (mark before c cs).filter (· ≠ '_') = [] :=
        List.filter_eq_nil_iff.mpr fun d hd => by simp [eq_underscore_of_mem_mark hd]
      rw [snakeAfter_cons hc, List.filter_append, hmark, List.nil_append, List.map_cons,
        List.filter_cons, List.filter_cons, ih hcs]

/-! ### Where it is put in -/

/-- The character is an underscore, and stands between two characters that are none. -/
structure Separates (front : List (Char × Bool)) (d : Char) (back : List (Char × Bool)) : Prop where
  underscore : d = '_'
  left : ∃ x, front.getLast? = some x ∧ x.1 ≠ '_'
  right : ∃ x, back.head? = some x ∧ x.1 ≠ '_'

theorem lowerAscii_ne_underscore (h : c ≠ '_') : lowerAscii c ≠ '_' := by
  intro heq
  have hlower := Casing.toNat_lowerAscii c
  have hcode : c.toNat ≠ '_'.toNat := mt Char.toNat_inj.mp h
  rw [heq] at hlower
  have hunderscore : '_'.toNat = 95 := rfl
  split at hlower <;> omega

theorem ne_underscore_of_isUpper (h : Letter.isUpper c) : c ≠ '_' := by
  rintro rfl
  cases h

/-- An underscore is no letter and no digit, so no word begins behind it. -/
theorem ne_underscore_of_startsWord (h : startsWord c after) : c ≠ '_' := by
  rintro rfl
  cases h

/-- Nothing is put in front of a character, or an underscore between two characters that are none. -/
theorem mark_cases (before : Option Char) (c : Char) (after : List Char) :
    mark before c after = [] ∨
      (mark before c after = ['_'] ∧ c ≠ '_' ∧ ∃ b, before = some b ∧ b ≠ '_') := by
  unfold mark
  split
  next h =>
    rw [Bool.and_eq_true, Option.any_eq_true] at h
    obtain ⟨hupper, b, hb, hstarts⟩ := h
    exact .inr ⟨rfl, ne_underscore_of_isUpper hupper, b, hb, ne_underscore_of_startsWord hstarts⟩
  next => exact .inl rfl

/-- More in front does not matter. -/
theorem Separates.append {front back : List (Char × Bool)} (h : Separates front d back)
    (more : List (Char × Bool)) : Separates (more ++ front) d back := by
  obtain ⟨x, hx, hne⟩ := h.left
  refine ⟨h.underscore, ⟨x, ?_, hne⟩, h.right⟩
  rw [List.getLast?_append, hx, Option.some_or]

/-- The character that `before` stands for, as it is kept. -/
def keptBefore (before : Option Char) : List (Char × Bool) :=
  before.toList.map fun b => (lowerAscii b, false)

/-- What is put in separates; a character in front of the text counts as well. -/
theorem separates_of_snakeNotes {front back : List (Char × Bool)}
    (h : snakeNotes before cs = front ++ (d, true) :: back) :
    Separates (keptBefore before ++ front) d back := by
  induction cs generalizing before front with
  | nil => exact absurd h.symm (List.append_ne_nil_of_right_ne_nil _ (List.cons_ne_nil _ _))
  | cons c cs ih =>
      -- Behind the place in front of `c` it is the character itself that stands before the rest.
      have hbehind : ∀ {front}, (lowerAscii c, false) :: snakeNotes (some c) cs
          = front ++ (d, true) :: back → Separates front d back := by
        intro front hfront
        cases front with
        | nil => simp at hfront
        | cons x front =>
            rw [List.cons_append, List.cons.injEq] at hfront
            obtain ⟨rfl, hrest⟩ := hfront
            exact ih hrest
      rw [snakeNotes] at h
      rcases mark_cases before c cs with hmark | ⟨hmark, hc, b, rfl, hb⟩
      · rw [hmark] at h
        exact (hbehind h).append _
      · rw [hmark, List.map_singleton, List.singleton_append] at h
        cases front with
        | nil =>
            obtain ⟨hd, rfl⟩ := List.cons.inj h
            obtain rfl := (Prod.mk.inj hd).1
            exact ⟨rfl, ⟨_, rfl, lowerAscii_ne_underscore hb⟩, _, rfl, lowerAscii_ne_underscore hc⟩
        | cons x front =>
            have hrest := (hbehind (List.cons.inj h).2).append (keptBefore (some b) ++ [x])
            rwa [List.append_assoc] at hrest

/-! ### The snake form -/

/-- **Only separators are put in.**  The snake form of an ASCII text holds no capital.  Without
underscores it is the text in small letters without underscores: it keeps the characters of the text, in
small letters, and what is put in besides are underscores, none of them first or last or next to another
underscore.  The snake form of the snake form is the same. -/
theorem toSnake_separates {s : String} (h : ∀ c ∈ s.toList, isAscii c) :
    (∀ c ∈ (toSnake s).toList, Letter.isUpper c = false) ∧
      (toSnake s).toList.filter (· ≠ '_') = (Casing.lower s.toList).filter (· ≠ '_') ∧
      ((snakeNotes none s.toList).map Prod.fst = (toSnake s).toList ∧
        ((snakeNotes none s.toList).filter fun x => !x.2).map Prod.fst = Casing.lower s.toList ∧
        ∀ front d back, snakeNotes none s.toList = front ++ (d, true) :: back →
          Separates front d back) ∧
      toSnake (toSnake s) = toSnake s := by
  have htoList : (toSnake s).toList = snake s.toList := String.toList_ofList
  have hupper := isUpper_of_mem_snake h
  rw [htoList, Casing.lower_of_isAscii h]
  refine ⟨hupper, filter_snakeAfter h none, ⟨map_snakeNotes h none, ?_, ?_⟩, ?_⟩
  · exact kept_snakeNotes none s.toList
  · intro front d back hnotes
    exact separates_of_snakeNotes hnotes
  · unfold toSnake
    rw [String.toList_ofList, show snake (snake s.toList) = snake s.toList from
      snakeAfter_eq_self hupper none]

theorem toSnake_separates_request :
    (∀ c ∈ "HTTPRequest_v2ID".toList, isAscii c) ∧ toSnake "HTTPRequest_v2ID" = "http_request_v2_id" ∧
      toSnake (toSnake "HTTPRequest_v2ID") = toSnake "HTTPRequest_v2ID" ∧
      Separates (("http".toList).map (·, false)) '_'
        ((snakeNotes none "HTTPRequest_v2ID".toList).drop 5) := by
  have hascii : ∀ c ∈ "HTTPRequest_v2ID".toList, isAscii c := List.all_eq_true.mp (by decide)
  obtain ⟨-, -, ⟨-, -, hseparates⟩, htwice⟩ := toSnake_separates hascii
  exact ⟨hascii, by decide +kernel, htwice, hseparates _ _ _ (by decide +kernel)⟩

end WireCodec.Name
