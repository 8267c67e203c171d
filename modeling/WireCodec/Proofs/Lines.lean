import Mathlib.Data.List.Basic
import Mathlib.Data.List.TakeWhile
import WireCodec.Text.Blank
/-! # Lines of a text

`Text.rows` cuts a text at its line feeds and `Text.ofRows` puts it together again, so a text is edited
line by line without loss: `Text.withoutDocs` deletes the lines of documentation, and `Text.outdent?`
takes one level of indentation off every line that is not empty.

`Text.IsTrimmed` says what is left of a text when the blanks around it are taken off.

A list of lines is printed with a line feed behind each (`Text.terminated`).  It can be read back
(`Text.rows_terminated`, `Text.lines_terminated`) if every one of them is a single line
(`Text.IsRow`).

`Text.Documented` relates lines of code with documentation to the same lines without it; documentation
always stands in front of what it documents. -/

namespace WireCodec.Text

/-! ### Cutting at a character -/

section split

variable {separator : Char}

theorem split_ne_nil (cs : List Char) : split separator cs ≠ [] := by
  induction cs with
  | nil => exact List.cons_ne_nil _ _
  | cons c cs ih =>
      rw [split]
      split
      · exact List.cons_ne_nil _ _
      · split <;> exact List.cons_ne_nil _ _

theorem split_separator (cs : List Char) :
    split separator (separator :: cs) = [] :: split separator cs := by
  rw [split]
  split
  next h => exact absurd h (split_ne_nil cs)
  next h => rw [if_pos rfl, h]

theorem split_append (as bs : List Char) :
    split separator (as ++ separator :: bs) = split separator as ++ split separator bs := by
  induction as with
  | nil =>
      rw [List.nil_append, split_separator]
      rfl
  | cons a as ih =>
      rw [List.cons_append, split, ih, split]
      cases h : split separator as with
      | nil => exact absurd h (split_ne_nil as)
      | cons word words =>
          simp only [List.cons_append]
          split <;> rfl

theorem split_of_not_mem {cs : List Char} (h : separator ∉ cs) : split separator cs = [cs] := by
  induction cs with
  | nil => rfl
  | cons c cs ih =>
      rw [List.mem_cons, not_or] at h
      rw [split, ih h.2]
      exact if_neg (Ne.symm h.1)

theorem split_append_of_not_mem {as bs : List Char} (h : separator ∉ bs) :
    ∃ front last, split separator as = front ++ [last] ∧
      split separator (as ++ bs) = front ++ [last ++ bs] := by
  induction as with
  | nil => exact ⟨[], [], rfl, split_of_not_mem h⟩
  | cons a as ih =>
      obtain ⟨front, last, has, hall⟩ := ih
      rw [List.cons_append, split, split, has, hall]
      cases front with
      | nil =>
          by_cases ha : a = separator
          · exact ⟨[[]], last, by simp [ha], by simp [ha]⟩
          · exact ⟨[], a :: last, by simp [ha], by simp [ha]⟩
      | cons word words =>
          by_cases ha : a = separator
          · exact ⟨[] :: word :: words, last, by simp [ha], by simp [ha]⟩
          · exact ⟨(a :: word) :: words, last, by simp [ha], by simp [ha]⟩

theorem mem_of_mem_split {cs : List Char} : ∀ {word : List Char}, word ∈ split separator cs →
    ∀ c ∈ word, c ∈ cs := by
  induction cs with
  | nil =>
      intro word hword c hc
      rw [List.mem_singleton.mp hword] at hc
      cases hc
  | cons b cs ih =>
      intro word hword c hc
      rw [split] at hword
      split at hword
      next hnil => exact absurd hnil (split_ne_nil cs)
      next first words hsplit =>
        rw [hsplit] at ih
        split at hword
        · rcases List.mem_cons.mp hword with rfl | hword
          · cases hc
          · exact List.mem_cons_of_mem b (ih hword c hc)
        · rcases List.mem_cons.mp hword with rfl | hword
          · rcases List.mem_cons.mp hc with rfl | hc
            · exact List.mem_cons_self
            · exact List.mem_cons_of_mem b (ih List.mem_cons_self c hc)
          · exact List.mem_cons_of_mem b (ih (List.mem_cons_of_mem first hword) c hc)

end split

/-! ### Cutting into lines -/

/-- What stands between the line feeds of a text; the last of the pieces has no line feed behind it. -/
def rows (s : String) : List String := (split '\n' s.toList).map String.ofList

/-- The text with the given pieces between its line feeds. -/
def ofRows (rows : List String) : String := "\n".intercalate rows

/-- The text of some lines, each with a line feed behind it. -/
def terminated (ls : List String) : String := String.join (ls.map (· ++ "\n"))

/-- The character ends no line. -/
abbrev Unbroken (c : Char) : Prop := c ≠ '\n' ∧ c ≠ '\r'

theorem unbroken_of_all {cs : List Char} (h : cs.all fun c => c != '\n' && c != '\r') :
    ∀ c ∈ cs, Unbroken c := by
  simpa using h

/-- A single line: no line ends in it, and it does not end in a carriage return, which would be taken
for a part of the line's end. -/
structure IsRow (s : String) : Prop where
  feed : '\n' ∉ s.toList
  ending : s.toList.getLast? ≠ some '\r'

theorem terminated_cons (l : String) (ls : List String) :
    terminated (l :: ls) = l ++ "\n" ++ terminated ls := by
  unfold terminated
  rw [List.map_cons, String.join_cons]

theorem terminated_singleton (l : String) : terminated [l] = l ++ "\n" := by
  rw [terminated_cons]
  exact String.append_empty

theorem terminated_append (ls ms : List String) :
    terminated (ls ++ ms) = terminated ls ++ terminated ms := by
  unfold terminated
  rw [List.map_append, String.join_append]

theorem toList_terminated_cons (l : String) (ls : List String) :
    (terminated (l :: ls)).toList = l.toList ++ '\n' :: (terminated ls).toList := by
  rw [terminated_cons, String.toList_append, String.toList_append, List.append_assoc]
  rfl

theorem ofRows_concat_empty (ls : List String) : ofRows (ls ++ [""]) = terminated ls := by
  induction ls with
  | nil => rfl
  | cons l ls ih =>
      rw [terminated_cons, ← ih]
      cases ls with
      | nil => rfl
      | cons m ls => exact String.intercalate_cons_cons

theorem rows_terminated {ls : List String} (h : ∀ l ∈ ls, '\n' ∉ l.toList) :
    rows (terminated ls) = ls ++ [""] := by
  unfold rows
  induction ls with
  | nil => rfl
  | cons l ls ih =>
      obtain ⟨hl, hls⟩ := List.forall_mem_cons.mp h
      rw [toList_terminated_cons, split_append, List.map_append, ih hls, split_of_not_mem hl,
        List.map_singleton, String.ofList_toList]
      rfl

theorem withoutReturn_of_ne {cs : List Char} (h : cs.getLast? ≠ some '\r') : withoutReturn cs = cs :=
  if_neg h

theorem linesFrom_append {line as : List Char} (h : '\n' ∉ as) (rest : List Char) :
    linesFrom line (as ++ rest) = linesFrom (as.reverse ++ line) rest := by
  induction as generalizing line with
  | nil => rfl
  | cons a as ih =>
      rw [List.mem_cons, not_or] at h
      rw [List.cons_append, linesFrom, if_neg (Ne.symm h.1), ih h.2, List.reverse_cons,
        List.append_assoc]
      rfl

/-- What is read as the lines of a text are the lines that it was put together from. -/
theorem lines_terminated {ls : List String} (h : ∀ l ∈ ls, IsRow l) : lines (terminated ls) = ls := by
  unfold lines
  induction ls with
  | nil => rfl
  | cons l ls ih =>
      obtain ⟨hl, hls⟩ := List.forall_mem_cons.mp h
      rw [toList_terminated_cons, linesFrom_append hl.feed, List.append_nil, linesFrom, if_pos rfl,
        List.reverse_reverse, withoutReturn_of_ne hl.ending, List.map_cons, ih hls,
        String.ofList_toList]

theorem feed_notMem_linesFrom {cs : List Char} : ∀ {line : List Char}, '\n' ∉ line →
    ∀ l ∈ linesFrom line cs, '\n' ∉ l := by
  induction cs with
  | nil =>
      intro line hline l hl
      rw [linesFrom] at hl
      split at hl
      · cases hl
      · rw [List.mem_singleton.mp hl]
        rwa [List.mem_reverse]
  | cons c cs ih =>
      intro line hline l hl
      rw [linesFrom] at hl
      split at hl
      next =>
        rcases List.mem_cons.mp hl with rfl | hl
        · unfold withoutReturn
          split
          · exact fun h => hline (List.mem_reverse.mp (List.dropLast_subset _ h))
          · rwa [List.mem_reverse]
        · exact ih (by simp) l hl
      next hc => exact ih (by simp [hline, Ne.symm hc]) l hl

theorem feed_notMem_lines {s l : String} (h : l ∈ lines s) : '\n' ∉ l.toList := by
  obtain ⟨cs, hcs, rfl⟩ := List.mem_map.mp h
  rw [String.toList_ofList]
  exact feed_notMem_linesFrom (by simp) cs hcs

theorem linesFrom_eq_nil {cs : List Char} : ∀ {line : List Char}, linesFrom line cs = [] →
    line = [] ∧ cs = [] := by
  induction cs with
  | nil =>
      intro line h
      rw [linesFrom] at h
      split at h
      next hline => exact ⟨hline, rfl⟩
      next => cases h
  | cons c cs ih =>
      intro line h
      rw [linesFrom] at h
      split at h
      · cases h
      · exact absurd (ih h).1 (List.cons_ne_nil _ _)

theorem lines_ne_nil {s : String} (h : s ≠ "") : lines s ≠ [] := by
  intro hnil
  rw [lines, List.map_eq_nil_iff] at hnil
  exact h (String.toList_eq_nil_iff.mp (linesFrom_eq_nil hnil).2)

/-! ### Blanks around a text -/

theorem mem_of_mem_trimRight {cs : List Char} {c : Char} (h : c ∈ trimRight cs) : c ∈ cs := by
  unfold trimRight at h
  rw [List.mem_reverse] at h
  exact List.mem_reverse.mp ((List.dropWhile_suffix _).subset h)

theorem isBlank_getLast?_trimRight {cs : List Char} {c : Char}
    (h : (trimRight cs).getLast? = some c) : isBlank c = false := by
  unfold trimRight at h
  rw [List.getLast?_reverse] at h
  have hfirst := List.head?_dropWhile_not isBlank cs.reverse
  rwa [h] at hfirst

theorem isBlank_head?_trimLeft {cs : List Char} {c : Char} (h : (trimLeft cs).head? = some c) :
    isBlank c = false := by
  have hfirst := List.head?_dropWhile_not isBlank cs
  rwa [← trimLeft, h] at hfirst

/-- The text is `body` with blank characters around it, and `body` neither begins nor ends with one. -/
structure IsTrimmed (cs body : List Char) : Prop where
  around : ∃ front back, cs = front ++ (body ++ back) ∧ (∀ c ∈ front, isBlank c) ∧
    ∀ c ∈ back, isBlank c
  first : ∀ c, body.head? = some c → isBlank c = false
  last : ∀ c, body.getLast? = some c → isBlank c = false

theorem isTrimmed_self {cs : List Char} (h : ∀ c ∈ cs, isBlank c = false) : IsTrimmed cs cs where
  around := ⟨[], [], by simp, by simp, by simp⟩
  first := fun c hc => h c (List.mem_of_head? hc)
  last := fun c hc => h c (List.mem_of_getLast? hc)

theorem dropWhile_isBlank {cs : List Char} (h : ∀ c, cs.head? = some c → isBlank c = false) :
    cs.dropWhile isBlank = cs := by
  cases cs with
  | nil => rfl
  | cons c cs =>
      have hc := h c rfl
      rw [List.dropWhile_cons_of_neg (by simp [hc])]

theorem trim_of_isTrimmed {cs body : List Char} (h : IsTrimmed cs body) : trim cs = body := by
  obtain ⟨front, back, rfl, hfront, hback⟩ := h.around
  have hbehind : ∀ c ∈ back.reverse, isBlank c := fun c hc => hback c (List.mem_reverse.mp hc)
  have hleft : trimLeft (front ++ (body ++ back)) = trimLeft (body ++ back) := by
    unfold trimLeft
    rw [List.dropWhile_append_of_pos hfront]
  unfold trim
  rw [hleft]
  cases body with
  | nil =>
      rw [List.nil_append, trimLeft, List.dropWhile_eq_nil_iff.mpr hback]
      rfl
  | cons c body =>
      have hright : trimLeft (c :: body ++ back) = c :: body ++ back := by
        apply dropWhile_isBlank
        exact h.first
      rw [hright, trimRight, List.reverse_append, List.dropWhile_append_of_pos hbehind,
        dropWhile_isBlank, List.reverse_reverse]
      rw [List.head?_reverse]
      exact h.last

theorem isTrimmed_trim (cs : List Char) : IsTrimmed cs (trim cs) := by
  have hleft : cs = cs.takeWhile isBlank ++ trimLeft cs := List.takeWhile_append_dropWhile.symm
  obtain ⟨back, hright, hback⟩ : ∃ back, trimLeft cs = trim cs ++ back ∧ ∀ c ∈ back, isBlank c := by
    refine ⟨((trimLeft cs).reverse.takeWhile isBlank).reverse, ?_, ?_⟩
    · unfold trim trimRight
      rw [← List.reverse_append, List.takeWhile_append_dropWhile, List.reverse_reverse]
    · intro c hc
      exact List.mem_takeWhile_imp (List.mem_reverse.mp hc)
  refine ⟨⟨cs.takeWhile isBlank, back, ?_, fun c hc => List.mem_takeWhile_imp hc, hback⟩, ?_, ?_⟩
  · rw [← hright]
    exact hleft
  · intro c hc
    have hhead : (trimLeft cs).head? = some c := by
      rw [hright, List.head?_append, hc, Option.some_or]
    exact isBlank_head?_trimLeft hhead
  · intro c hc
    exact isBlank_getLast?_trimRight hc

/-- There is one way to take the blanks off a text. -/
theorem isTrimmed_iff {cs body : List Char} : IsTrimmed cs body ↔ trim cs = body := by
  constructor
  · exact trim_of_isTrimmed
  · rintro rfl
    exact isTrimmed_trim cs

/-! ### Documentation -/

/-- Is it a line of documentation? -/
def isDoc (s : String) : Bool := ['/', '/', '/'].isPrefixOf (trimLeft s.toList)

/-- Can it be what documentation documents?  It is not blank, no comment and no closing brace. -/
def isItem (s : String) : Bool :=
  let cs := trimLeft s.toList
  !cs.isEmpty && !List.isPrefixOf ['/', '/'] cs && !List.isPrefixOf ['\x7d'] cs

/-- The text without its lines of documentation. -/
def withoutDocs (s : String) : String := ofRows ((rows s).filter fun l => !isDoc l)

/-- A run of lines of documentation that can be extended neither to the front nor to the back. -/
structure IsDocRun (front run back : List String) : Prop where
  nonempty : run ≠ []
  docs : ∀ l ∈ run, isDoc l
  before : ∀ l ∈ front.getLast?, isDoc l = false
  after : ∀ l ∈ back.head?, isDoc l = false

theorem withoutDocs_terminated {ls : List String} (h : ∀ l ∈ ls, '\n' ∉ l.toList) :
    withoutDocs (terminated ls) = terminated (ls.filter fun l => !isDoc l) := by
  unfold withoutDocs
  rw [rows_terminated h, List.filter_append, ← ofRows_concat_empty]
  rfl

/-- A line of code: no line ends in it, and it is no line of documentation unless `slash` says that
slashes may stand anywhere. -/
structure IsCodeLine (slash : Prop) (s : String) : Prop where
  unbroken : ∀ c ∈ s.toList, Unbroken c
  code : isDoc s → slash

theorem IsCodeLine.isRow {slash : Prop} {l : String} (h : IsCodeLine slash l) : IsRow l where
  feed hc := (h.unbroken _ hc).1 rfl
  ending hc := (h.unbroken _ (List.mem_of_getLast? hc)).2 rfl

/-- Lines of code with and without documentation: every line of documentation stands in front of
another one or of what is documented. -/
inductive Documented (slash : Prop) : List String → List String → Prop
  | nil : Documented slash [] []
  | code {l : String} {ls code : List String} (hl : IsCodeLine slash l) (h : Documented slash ls code) :
      Documented slash (l :: ls) (l :: code)
  | doc {l next : String} {ls code : List String} (hl : IsRow l) (hdoc : isDoc l)
      (hnext : isDoc next ∨ isItem next) (h : Documented slash (next :: ls) code) :
      Documented slash (l :: next :: ls) code

namespace Documented

variable {slash : Prop} {ls ms code rest : List String}

theorem append (h : Documented slash ls code) (hm : Documented slash ms rest) :
    Documented slash (ls ++ ms) (code ++ rest) := by
  induction h with
  | nil => exact hm
  | code hl _ ih => exact .code hl ih
  | doc hl hdoc hnext _ ih => exact .doc hl hdoc hnext ih

/-- Lines of documentation in front of lines that begin with one or with what is documented. -/
theorem docs (hls : ∀ l ∈ ls, IsRow l ∧ isDoc l) (hnext : ∃ next ∈ ms.head?, isDoc next ∨ isItem next)
    (hm : Documented slash ms rest) : Documented slash (ls ++ ms) rest := by
  induction ls with
  | nil => exact hm
  | cons l ls ih =>
      obtain ⟨⟨hrow, hdoc⟩, hls⟩ := List.forall_mem_cons.mp hls
      have htail := ih hls
      cases ls with
      | nil =>
          cases ms with
          | nil =>
              obtain ⟨next, hmem, _⟩ := hnext
              cases hmem
          | cons m ms =>
              obtain ⟨next, hmem, hitem⟩ := hnext
              cases hmem
              exact .doc hrow hdoc hitem htail
      | cons m ls => exact .doc hrow hdoc (.inl (hls m List.mem_cons_self).2) htail

/-- A change of every line that keeps what matters of it. -/
theorem map {f : String → String} (hrow : ∀ l, IsRow l → IsRow (f l))
    (hcode : ∀ l, IsCodeLine slash l → IsCodeLine slash (f l)) (hdoc : ∀ l, isDoc (f l) = isDoc l)
    (hitem : ∀ l, isItem (f l) = isItem l) (h : Documented slash ls code) :
    Documented slash (ls.map f) (code.map f) := by
  induction h with
  | nil => exact .nil
  | code hl _ ih => exact .code (hcode _ hl) ih
  | doc hl hd hnext _ ih =>
      refine .doc (hrow _ hl) ((hdoc _).trans hd) ?_ ih
      rwa [hdoc, hitem]

theorem isRow (h : Documented slash ls code) : ∀ l ∈ ls, IsRow l := by
  induction h with
  | nil => exact List.forall_mem_nil _
  | code hl _ ih => exact List.forall_mem_cons.mpr ⟨hl.isRow, ih⟩
  | doc hl _ _ _ ih => exact List.forall_mem_cons.mpr ⟨hl, ih⟩

theorem isCodeLine (h : Documented slash ls code) : ∀ l ∈ code, IsCodeLine slash l := by
  induction h with
  | nil => exact List.forall_mem_nil _
  | code hl _ ih => exact List.forall_mem_cons.mpr ⟨hl, ih⟩
  | doc _ _ _ _ ih => exact ih

/-- The code is what is left when documentation is deleted. -/
theorem filter_eq (h : Documented False ls code) : (ls.filter fun l => !isDoc l) = code := by
  induction h with
  | nil => rfl
  | code hl _ ih => rw [List.filter_cons_of_pos (by simp [mt hl.code]), ih]
  | doc _ hdoc _ _ ih => rw [List.filter_cons_of_neg (by simp [hdoc]), ih]

/-- What follows a maximal run of documentation is documented by it. -/
theorem isItem_of_run {front run back : List String} (h : Documented slash ls code)
    (hls : ls = front ++ run ++ back) (hrun : IsDocRun front run back) (hslash : ¬ slash) :
    ∃ next ∈ back.head?, isItem next := by
  obtain ⟨first, last, rfl⟩ := (List.eq_nil_or_concat' run).resolve_left hrun.nonempty
  rw [← List.append_assoc, List.append_assoc _ [last]] at hls
  generalize front ++ first = before at hls
  have hlast : isDoc last := hrun.docs last (by simp)
  induction h generalizing before with
  | nil => simp at hls
  | code hl h ih =>
      cases before with
      | nil =>
          cases hls
          exact absurd (hl.code hlast) hslash
      | cons b before => exact ih before (List.cons.inj hls).2
  | @doc l next ls code hl hdoc hnext h ih =>
      cases before with
      | nil =>
          cases hls
          refine ⟨next, rfl, hnext.resolve_left ?_⟩
          simp [hrun.after next rfl]
      | cons b before => exact ih before (List.cons.inj hls).2

end Documented

/-! ### Indentation -/

/-- A line without one level of indentation, which it must have unless it is empty. -/
def outdentRow? (indent row : String) : Option String :=
  if row = "" then some ""
  else if indent.toList.isPrefixOf row.toList then
    some (String.ofList (row.toList.drop indent.toList.length))
  else none

/-- The text with one level of indentation taken off every line that is not empty. -/
def outdent? (indent s : String) : Option String := ofRows <$> (rows s).mapM (outdentRow? indent)

theorem outdentRow?_append {indent row : String} (h : row ≠ "") :
    outdentRow? indent (indent ++ row) = some row := by
  have hne : indent ++ row ≠ "" := by
    intro he
    exact h (String.append_eq_empty_iff.mp he).2
  unfold outdentRow?
  rw [if_neg hne, if_pos (by simp [String.toList_append, List.isPrefixOf_iff_prefix]),
    String.toList_append, List.drop_left, String.ofList_toList]

/-- Text that was indented line by line loses the indentation again. -/
theorem outdent?_terminated {indent : String} (hindent : '\n' ∉ indent.toList) {ls : List String}
    (h : ∀ l ∈ ls, '\n' ∉ l.toList) :
    outdent? indent (terminated (ls.map fun l => if l = "" then "" else indent ++ l))
      = some (terminated ls) := by
  have hrow : ∀ l ∈ ls, '\n' ∉ (if l = "" then "" else indent ++ l).toList := by
    intro l hl
    split
    · exact List.not_mem_nil
    · rw [String.toList_append, List.mem_append, not_or]
      exact ⟨hindent, h l hl⟩
  have hback : (ls.map fun l => if l = "" then "" else indent ++ l).mapM (outdentRow? indent)
      = some ls := by
    induction ls with
    | nil => rfl
    | cons l ls ih =>
        have hl : outdentRow? indent (if l = "" then "" else indent ++ l) = some l := by
          split
          next he => rw [he]; rfl
          next hne => exact outdentRow?_append hne
        rw [List.forall_mem_cons] at h hrow
        rw [List.map_cons, List.mapM_cons, hl, ih h.2 hrow.2]
        rfl
  unfold outdent?
  rw [rows_terminated (by simpa using hrow), List.mapM_append, hback, ← ofRows_concat_empty]
  rfl

end WireCodec.Text
