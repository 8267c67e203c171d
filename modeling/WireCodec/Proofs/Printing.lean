import WireCodec.Proofs.Access
import WireCodec.Proofs.Lines
/-! # Printed code

`Code.AllTidy ok code` says that every line of some code is `ok` and that documentation stands in front
of what it documents.  Tidy code is printed line by line as it stands: with and without documentation it
gives lines that `Text.Documented` relates (`Code.documented_linesAll`), so its text can be read back
into the lines that were printed. -/

namespace WireCodec

/-! ### Indentation -/

/-- Blocks are indented by spaces and tabs. -/
def Style.IsBlank (style : Style) : Prop := ∀ c ∈ style.indent.toList, c = ' ' ∨ c = '\t'

instance (style : Style) : Decidable style.IsBlank :=
  decidable_of_iff (style.indent.toList.all fun c => c == ' ' || c == '\t') (by simp [Style.IsBlank])

namespace Style

variable {style : Style} {slash : Prop} {s : String}

theorem indented_empty (style : Style) (depth : Nat) : style.indented depth "" = "" := if_pos rfl

theorem indented_of_ne (h : s ≠ "") (depth : Nat) :
    style.indented depth s = String.join (List.replicate depth style.indent) ++ s := if_neg h

theorem indented_zero (s : String) : style.indented 0 s = s := by
  unfold indented
  split
  next h => rw [h]
  next => exact String.empty_append

theorem indented_one (s : String) : style.indented 1 s = if s = "" then "" else style.indent ++ s := by
  unfold indented
  rw [List.replicate_one, String.join_cons]
  simp

theorem IsBlank.mem (h : style.IsBlank) {depth : Nat} {c : Char}
    (hc : c ∈ (String.join (List.replicate depth style.indent)).toList) : c = ' ' ∨ c = '\t' := by
  rw [String.toList_join, List.mem_flatMap] at hc
  obtain ⟨indent, hindent, hc⟩ := hc
  rw [(List.mem_replicate.mp hindent).2] at hc
  exact h c hc

theorem IsBlank.trimLeft_indented (h : style.IsBlank) (depth : Nat) (s : String) :
    Text.trimLeft (style.indented depth s).toList = Text.trimLeft s.toList := by
  by_cases hs : s = ""
  · rw [hs, indented_empty]
  · rw [indented_of_ne hs, String.toList_append, Text.trimLeft, List.dropWhile_append_of_pos]
    · rfl
    · intro c hc
      rcases h.mem hc with rfl | rfl <;> decide

theorem IsBlank.isDoc_indented (h : style.IsBlank) (depth : Nat) (s : String) :
    Text.isDoc (style.indented depth s) = Text.isDoc s := by
  unfold Text.isDoc
  rw [h.trimLeft_indented]

theorem IsBlank.isItem_indented (h : style.IsBlank) (depth : Nat) (s : String) :
    Text.isItem (style.indented depth s) = Text.isItem s := by
  unfold Text.isItem
  rw [h.trimLeft_indented]

theorem IsBlank.mem_indented (h : style.IsBlank) {depth : Nat} {c : Char}
    (hc : c ∈ (style.indented depth s).toList) : c ∈ s.toList ∨ c = ' ' ∨ c = '\t' := by
  by_cases hs : s = ""
  · rw [hs, indented_empty] at hc
    cases hc
  · rw [indented_of_ne hs, String.toList_append, List.mem_append] at hc
    exact hc.symm.imp_right h.mem

theorem IsBlank.isRow_indented (h : style.IsBlank) (depth : Nat) (hs : Text.IsRow s) :
    Text.IsRow (style.indented depth s) := by
  constructor
  · intro hc
    rcases h.mem_indented hc with hc | hc | hc
    · exact hs.feed hc
    · cases hc
    · cases hc
  · by_cases he : s = ""
    · rw [he, indented_empty]
      simp
    · rw [indented_of_ne he, String.toList_append, List.getLast?_append_of_ne_nil]
      · exact hs.ending
      · rwa [ne_eq, String.toList_eq_nil_iff]

theorem IsBlank.isCodeLine_indented (h : style.IsBlank) (depth : Nat) (hs : Text.IsCodeLine slash s) :
    Text.IsCodeLine slash (style.indented depth s) := by
  constructor
  · intro c hc
    rcases h.mem_indented hc with hc | rfl | rfl
    · exact hs.unbroken c hc
    · decide
    · decide
  · rw [h.isDoc_indented]
    exact hs.code

end Style

namespace Code

/-! ### Documentation -/

theorem isDoc_of_mem_docLines {text l : String} (h : l ∈ Writer.docLines text) :
    Text.IsRow l ∧ Text.isDoc l := by
  have hempty : Text.IsRow "///" ∧ Text.isDoc "///" := ⟨⟨by decide, by decide⟩, by decide⟩
  have hline : ∀ line : String, '\n' ∉ line.toList →
      Text.IsRow ("/// " ++ String.ofList (Text.trimRight line.toList)) ∧
        Text.isDoc ("/// " ++ String.ofList (Text.trimRight line.toList)) := by
    intro line hfeed
    have htext : ("/// " ++ String.ofList (Text.trimRight line.toList)).toList
        = ['/', '/', '/', ' '] ++ Text.trimRight line.toList := by
      rw [String.toList_append, @String.toList_ofList (Text.trimRight line.toList)]
      rfl
    refine ⟨⟨fun hc => ?_, fun hc => ?_⟩, ?_⟩
    · rw [htext, List.mem_append] at hc
      rcases hc with hc | hc
      · revert hc
        decide
      · exact hfeed (Text.mem_of_mem_trimRight hc)
    · rw [htext, List.getLast?_append, Option.or_eq_some_iff] at hc
      rcases hc with hc | ⟨_, hc⟩
      · cases Text.isBlank_getLast?_trimRight hc
      · cases hc
    · unfold Text.isDoc
      rw [htext]
      rfl
  unfold Writer.docLines at h
  split at h
  · rwa [List.mem_singleton.mp h]
  · obtain ⟨line, hmem, rfl⟩ := List.mem_map.mp h
    dsimp only
    split
    · exact hempty
    · exact hline line (Text.feed_notMem_lines hmem)

theorem docLines_ne_nil (text : String) : Writer.docLines text ≠ [] := by
  unfold Writer.docLines
  split
  · exact List.cons_ne_nil _ _
  next h =>
    rw [ne_eq, List.map_eq_nil_iff]
    refine Text.lines_ne_nil ?_
    rintro rfl
    exact h rfl

/-! ### Tidy code -/

/-- Is it documentation? -/
def isDocumentation : Code → Bool
  | doc _ => true
  | _ => false

/-- Do the codes begin with documentation, or with what documentation can stand in front of? -/
def Leads : List Code → Prop
  | doc _ :: _ => True
  | line pieces :: _ => Text.isItem (renderPieces pieces)
  | block opening _ _ :: _ => Text.isItem (renderPieces opening)
  | _ => False

mutual
/-- Every line of the code is `ok`, and within it documentation leads to what it documents. -/
def Tidy (ok : String → Prop) : Code → Prop
  | blank | doc _ => True
  | line pieces => ok (renderPieces pieces)
  | gate since absent =>
    ok s!"if self.acting_version() < {since} \x7b" ∧ ok s!"return {absent};" ∧ ok "\x7d"
  | block opening body closing => ok (renderPieces opening) ∧ AllTidy ok body ∧ ok closing
  | choice opening first second =>
    ok (renderPieces opening) ∧ AllTidy ok first ∧ ok "\x7d else \x7b" ∧ AllTidy ok second ∧ ok "\x7d"

/-- Every line of the codes is `ok`, and documentation leads to what it documents. -/
def AllTidy (ok : String → Prop) : List Code → Prop
  | [] => True
  | c :: cs => Tidy ok c ∧ (c.isDocumentation → Leads cs) ∧ AllTidy ok cs
end

variable {ok ok' : String → Prop} {xs ys : List Code}

theorem Leads.append (h : Leads xs) (ys : List Code) : Leads (xs ++ ys) := by
  cases xs with
  | nil => cases h
  | cons x xs => cases x <;> exact h

namespace AllTidy

theorem append (hx : AllTidy ok xs) (hy : AllTidy ok ys) : AllTidy ok (xs ++ ys) := by
  induction xs with
  | nil => exact hy
  | cons x xs ih => exact ⟨hx.1, fun hdoc => (hx.2.1 hdoc).append ys, ih hx.2.2⟩

theorem flatMap {α : Type} {f : α → List Code} {as : List α} (h : ∀ a ∈ as, AllTidy ok (f a)) :
    AllTidy ok (as.flatMap f) := by
  induction as with
  | nil => trivial
  | cons a as ih =>
      obtain ⟨ha, has⟩ := List.forall_mem_cons.mp h
      rw [List.flatMap_cons]
      exact ha.append (ih has)

theorem flatten {parts : List (List Code)} (h : ∀ p ∈ parts, AllTidy ok p) :
    AllTidy ok parts.flatten := by
  rw [← List.flatMap_id]
  exact flatMap h

theorem docs {as : List Code} (ha : as.all isDocumentation) (hy : AllTidy ok ys) (hl : Leads ys) :
    AllTidy ok (as ++ ys) := by
  induction as with
  | nil => exact hy
  | cons a as ih =>
      rw [List.all_cons, Bool.and_eq_true] at ha
      cases a with
      | doc t =>
          refine ⟨trivial, fun _ => ?_, ih ha.2⟩
          cases as with
          | nil => exact hl
          | cons b as =>
              cases b with
              | doc t => trivial
              | _ => cases (Bool.and_eq_true _ _ ▸ List.all_cons ▸ ha.2).1
      | _ => cases ha.1

end AllTidy

/-- Documentation cannot lead over a blank line, so the parts around it are tidy on their own. -/
theorem allTidy_append_blank : AllTidy ok (xs ++ blank :: ys) ↔ AllTidy ok xs ∧ AllTidy ok ys := by
  induction xs with
  | nil => simp [AllTidy, Tidy, isDocumentation]
  | cons x xs ih =>
      have hleads : Leads (xs ++ blank :: ys) ↔ Leads xs := by
        cases xs with
        | nil => exact Iff.rfl
        | cons y xs => cases y <;> exact Iff.rfl
      rw [List.cons_append, AllTidy, AllTidy, ih, hleads, and_assoc, and_assoc]

theorem allTidy_spaced {parts : List (List Code)} :
    AllTidy ok (spaced parts) ↔ ∀ p ∈ parts, AllTidy ok p := by
  unfold spaced
  induction parts with
  | nil => simp [AllTidy]
  | cons p parts ih =>
      cases parts with
      | nil => simp
      | cons q parts =>
          rw [List.intercalate_cons_cons, List.append_assoc, List.singleton_append,
            allTidy_append_blank, ih, ← List.forall_mem_cons]

theorem allTidy_map_line {α : Type} {f : α → List Piece} {as : List α} :
    AllTidy ok (as.map fun a => line (f a)) ↔ ∀ a ∈ as, ok (renderPieces (f a)) := by
  induction as with
  | nil => simp [AllTidy]
  | cons a as ih =>
      rw [List.map_cons, AllTidy, ih, List.forall_mem_cons]
      simp [Tidy, isDocumentation]

theorem allTidy_map_text {ls : List String} : AllTidy ok (ls.map text) ↔ ∀ l ∈ ls, ok l := by
  refine (allTidy_map_line (f := fun l => [.text l])).trans ?_
  simp only [renderPieces_text]

mutual
theorem Tidy.mono (h : ∀ s, ok s → ok' s) : ∀ {c : Code}, Tidy ok c → Tidy ok' c
  | blank, _ | doc _, _ => trivial
  | line _, hc => h _ hc
  | gate .., hc => ⟨h _ hc.1, h _ hc.2.1, h _ hc.2.2⟩
  | block .., hc => ⟨h _ hc.1, AllTidy.mono h hc.2.1, h _ hc.2.2⟩
  | choice .., hc =>
    ⟨h _ hc.1, AllTidy.mono h hc.2.1, h _ hc.2.2.1, AllTidy.mono h hc.2.2.2.1, h _ hc.2.2.2.2⟩

theorem AllTidy.mono (h : ∀ s, ok s → ok' s) : ∀ {cs : List Code}, AllTidy ok cs → AllTidy ok' cs
  | [], _ => trivial
  | _ :: _, hcs => ⟨hcs.1.mono h, hcs.2.1, hcs.2.2.mono h⟩
end

/-! ### Printing -/

section printing

variable {style : Style} {slash : Prop}

theorem linesAll_append (style : Style) (depth : Nat) (xs ys : List Code) :
    linesAll style depth (xs ++ ys) = linesAll style depth xs ++ linesAll style depth ys := by
  induction xs with
  | nil => rfl
  | cons x xs ih => rw [List.cons_append, linesAll, linesAll, ih, List.append_assoc]

theorem linesAll_map_text (style : Style) (depth : Nat) (ls : List String) :
    linesAll style depth (ls.map text) = ls.map (style.indented depth) := by
  induction ls with
  | nil => rfl
  | cons l ls ih =>
      rw [List.map_cons, List.map_cons, linesAll, ih, text, lines, renderPieces_text,
        List.singleton_append]

theorem head_linesAll (hb : style.IsBlank) (hdocs : style.docs = true) (depth : Nat)
    (h : Leads xs) : ∃ next ∈ (linesAll style depth xs).head?, Text.isDoc next ∨ Text.isItem next := by
  cases xs with
  | nil => cases h
  | cons x xs =>
      cases x with
      | doc t =>
          obtain ⟨l, ls, hl⟩ := List.exists_cons_of_ne_nil (docLines_ne_nil t)
          have hdoc := (isDoc_of_mem_docLines (hl ▸ List.mem_cons_self : l ∈ Writer.docLines t)).2
          refine ⟨style.indented depth l, ?_, .inl ?_⟩
          · simp [linesAll, lines, hdocs, hl]
          · rwa [hb.isDoc_indented]
      | line pieces | block opening body closing =>
          refine ⟨style.indented depth _, ?_, .inr ((hb.isItem_indented depth _).trans h)⟩
          simp [linesAll, lines]
      | _ => cases h

variable {indent : String}

mutual
/-- Printed with documentation, code is what it is without, and documentation in front of items. -/
theorem documented_lines (hb : Style.IsBlank ⟨indent, true⟩) (depth : Nat) :
    ∀ {c : Code}, c.isDocumentation = false → Tidy (Text.IsCodeLine slash) c →
      Text.Documented slash (lines ⟨indent, true⟩ depth c) (lines ⟨indent, false⟩ depth c)
  | blank, _, _ => .code ⟨by simp, fun h => by cases h⟩ .nil
  | line _, _, h => .code (hb.isCodeLine_indented depth h) .nil
  | gate .., _, h =>
    .code (hb.isCodeLine_indented _ h.1) <| .code (hb.isCodeLine_indented _ h.2.1) <|
      .code (hb.isCodeLine_indented _ h.2.2) <| .code ⟨by simp, fun h => by cases h⟩ .nil
  | block .., _, h =>
    .code (hb.isCodeLine_indented _ h.1) <|
      (documented_linesAll hb _ h.2.1).append (.code (hb.isCodeLine_indented _ h.2.2) .nil)
  | choice .., _, h =>
    .code (hb.isCodeLine_indented _ h.1) <|
      (documented_linesAll hb _ h.2.1).append <| .code (hb.isCodeLine_indented _ h.2.2.1) <|
        (documented_linesAll hb _ h.2.2.2.1).append <|
          .code (hb.isCodeLine_indented _ h.2.2.2.2) .nil

theorem documented_linesAll (hb : Style.IsBlank ⟨indent, true⟩) (depth : Nat) :
    ∀ {cs : List Code}, AllTidy (Text.IsCodeLine slash) cs →
      Text.Documented slash (linesAll ⟨indent, true⟩ depth cs) (linesAll ⟨indent, false⟩ depth cs)
  | [], _ => .nil
  | c :: cs, h => by
    have htail := documented_linesAll hb depth h.2.2
    cases hdoc : c.isDocumentation with
    | false => exact (documented_lines hb depth hdoc h.1).append htail
    | true =>
        cases c with
        | doc t =>
            refine .docs (fun l hl => ?_) (head_linesAll hb rfl depth (h.2.1 rfl)) htail
            obtain ⟨s, hs, rfl⟩ := List.mem_map.mp hl
            obtain ⟨hrow, hdoc⟩ := isDoc_of_mem_docLines hs
            exact ⟨hb.isRow_indented depth hrow, (hb.isDoc_indented depth s).trans hdoc⟩
        | _ => cases hdoc
end

theorem documented_spaced {depth : Nat} {ps qs : List (List Code)}
    (h : List.Forall₂ (fun p q => Text.Documented slash (linesAll ⟨indent, true⟩ depth p)
      (linesAll ⟨indent, false⟩ depth q)) ps qs) :
    Text.Documented slash (linesAll ⟨indent, true⟩ depth (spaced ps))
      (linesAll ⟨indent, false⟩ depth (spaced qs)) := by
  induction h with
  | nil => exact .nil
  | cons hp hps ih =>
      cases hps with
      | nil =>
          rw [spaced_singleton, spaced_singleton]
          exact hp
      | cons hq hqs =>
          rw [spaced_cons_cons, spaced_cons_cons, linesAll_append, linesAll_append]
          have hblank : Text.IsCodeLine slash "" := ⟨by simp, fun h => by cases h⟩
          exact hp.append (.code hblank ih)

/-- The lines of tidy code. -/
theorem isRow_of_mem_linesAll (hb : style.IsBlank) (depth : Nat)
    (h : AllTidy (Text.IsCodeLine slash) xs) : ∀ l ∈ linesAll style depth xs, Text.IsRow l := by
  obtain ⟨indent, docs⟩ := style
  have hprinted : Text.Documented slash (linesAll ⟨indent, true⟩ depth xs)
      (linesAll ⟨indent, false⟩ depth xs) := documented_linesAll hb depth h
  cases docs with
  | true => exact hprinted.isRow
  | false => exact fun l hl => (hprinted.isCodeLine l hl).isRow

/-- The text of tidy code is read back as the lines that were printed. -/
theorem ofText_source (hb : style.IsBlank) (h : AllTidy (Text.IsCodeLine slash) xs) :
    ofText (source style xs) = (linesAll style 0 xs).map text :=
  congrArg (List.map text) (Text.lines_terminated (isRow_of_mem_linesAll hb 0 h))

/-- Printed code in a block is printed again, one level deeper. -/
theorem linesAll_braces_ofText (hb : style.IsBlank) (h : AllTidy (Text.IsCodeLine slash) xs)
    (heading : String) :
    linesAll style 0 [braces heading (ofText (source style xs))]
      = (heading ++ " \x7b") :: ((linesAll style 0 xs).map (style.indented 1) ++ ["\x7d"]) := by
  rw [ofText_source hb h, linesAll, linesAll, List.append_nil, braces, lines, linesAll_map_text,
    Style.indented_zero, Style.indented_zero, renderPieces_text]

end printing

end Code
end WireCodec
