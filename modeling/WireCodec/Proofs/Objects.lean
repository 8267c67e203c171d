import WireCodec.Json.Reader
import WireCodec.Proofs.Spelling
/-! # Objects are read into records

A record is read from an object whose members come in any order, with blanks wherever they may stand.
`Reader.Object` says which members a text writes, each with the text of its value, and
`Reader.Collects` says what record they add up to.  `Reader.reads_object` puts the two together: the
reader of records finds the members and stops behind the closing bracket. -/

namespace WireCodec

namespace Reader

/-! ### Objects -/

/-- Every character is blank. -/
def Blank (cs : List Char) : Prop := ∀ c ∈ cs, isBlank c

/-- From behind its opening quote on, the text is read as a string. -/
def Spells (text : List Char) (s : String) : Prop := ∀ rest, stringBody (text ++ rest) = .ok (s, rest)

/-- What stands in front of a member: blanks, and among them a comma unless it is the first. -/
inductive Separates : Bool → List Char → Prop
  | first {b : List Char} (blank : Blank b) : Separates true b
  | comma {b c : List Char} (blank : Blank b) (blank' : Blank c) : Separates false (b ++ ',' :: c)

/-- The text of an object from behind its opening bracket on, or behind some of its members; it writes
the members, each with the text of its value. -/
inductive Object : Bool → List (String × List Char) → List Char → Prop
  | close {first : Bool} {b : List Char} (blank : Blank b) : Object first [] (b ++ ['\x7d'])
  | member {first : Bool} {front key b c value text : List Char} {name : String}
      {ms : List (String × List Char)} (separates : Separates first front) (spells : Spells key name)
      (blank : Blank b) (blank' : Blank c) (tail : Object false ms text) :
      Object first ((name, value) :: ms)
        (front ++ '"' :: (key ++ (b ++ ':' :: (c ++ (value ++ text)))))

theorem spells_spelled (s : String) : Spells (spelled s.toList ++ ['"']) s := by
  intro rest
  rw [List.append_assoc]
  exact stringBody_spelled s rest

theorem dropBlank_blank {b : List Char} (h : Blank b) {c : Char} (hc : isBlank c = false)
    (rest : List Char) : dropBlank (b ++ c :: rest) = c :: rest := by
  rw [dropBlank_append h, dropBlank_cons hc]

theorem ends_blank {b : List Char} (h : Blank b) {c : Char} (hc : c ∈ closers) (rest : List Char) :
    Ends (b ++ c :: rest) := by
  cases b with
  | nil => exact ends_cons hc rest
  | cons d b =>
      have hd := h d List.mem_cons_self
      refine ends_cons ?_ _
      simp only [isBlank, Bool.or_eq_true, beq_iff_eq] at hd
      rcases hd with ((rfl | rfl) | rfl) | rfl <;> decide

/-- Behind a value comes the end of the object or the next member. -/
theorem Object.ends {ms : List (String × List Char)} {text : List Char} (h : Object false ms text)
    (rest : List Char) : Ends (text ++ rest) := by
  cases h with
  | close blank =>
      rw [List.append_assoc]
      exact ends_blank blank (by decide) _
  | member separates =>
      cases separates with
      | comma blank =>
          rw [List.append_assoc, List.append_assoc, List.cons_append]
          exact ends_blank blank (by decide) _

theorem nextMember_close (first : Bool) {b : List Char} (h : Blank b) (rest : List Char) :
    nextMember first (b ++ '\x7d' :: rest) = .ok none := by
  unfold nextMember
  rw [dropBlank_blank h rfl]
  rfl

/-- The next name is found behind what separates it from the member before. -/
theorem nextMember_separates {first : Bool} {front : List Char} (h : Separates first front)
    (rest : List Char) : nextMember first (front ++ '"' :: rest) = .ok (some rest) := by
  unfold nextMember
  cases h with
  | first blank =>
      rw [dropBlank_blank blank rfl]
      rfl
  | @comma b c blank blank' =>
      have hname : dropBlank (c ++ '"' :: rest) = '"' :: rest := dropBlank_blank blank' rfl rest
      rw [List.append_assoc, List.cons_append, dropBlank_blank blank rfl]
      simp [hname]

theorem colon_blank {b : List Char} (h : Blank b) (rest : List Char) :
    colon (b ++ ':' :: rest) = .ok rest := by
  unfold colon
  rw [dropBlank_blank h rfl]
  rfl

/-! ### Records -/

section records

variable {σ : Type} {fields : List (Field σ)}

/-- To read the members, in whatever order they come, leads from one record to another.  Each of them is
one of the fields that have not been read yet, or none of the fields, and then it is passed over. -/
inductive Collects (fields : List (Field σ)) : List String → σ → List (String × List Char) → σ → Prop
  | done {seen : List String} {s : σ} (complete : ∀ f ∈ fields, f.required → f.name ∈ seen) :
      Collects fields seen s [] s
  | known {seen : List String} {s t s' : σ} {f : Field σ} {name : String} {value : List Char}
      {ms : List (String × List Char)} (found : fields.find? (·.name == name) = some f)
      (new : name ∉ seen) (reads : Reads (f.read s) value t)
      (tail : Collects fields (name :: seen) t ms s') : Collects fields seen s ((name, value) :: ms) s'
  | unknown {seen : List String} {s s' : σ} {name : String} {value : List Char}
      {ms : List (String × List Char)} (missing : fields.find? (·.name == name) = none)
      (skips : ∀ b, Blank b → ∀ rest, Ends rest → skipValue (b ++ (value ++ rest)) = .ok rest)
      (tail : Collects fields seen s ms s') : Collects fields seen s ((name, value) :: ms) s'

theorem exists_cons_of_length {front key b c value text bound : List Char}
    (h : (front ++ '"' :: (key ++ (b ++ ':' :: (c ++ (value ++ text))))).length ≤ bound.length) :
    ∃ x bound', bound = x :: bound' ∧ text.length ≤ bound'.length := by
  cases bound with
  | nil => simp at h
  | cons x bound =>
      refine ⟨x, bound, rfl, ?_⟩
      simp only [List.length_append, List.length_cons] at h
      omega

/-- A member is taken by its name: its value is read by a field, or is passed over. -/
theorem members_member (bound : List Char) (seen : List String) (s : σ) {x : Char} {first : Bool}
    {front key b : List Char} {name : String} (separates : Separates first front)
    (spells : Spells key name) (blank : Blank b) (rest : List Char) :
    members fields (x :: bound) first seen s (front ++ '"' :: (key ++ (b ++ ':' :: rest)))
      = (match fields.find? (·.name == name) with
        | some f =>
          if seen.contains name then .error .data
          else do
            let (s, cs) ← f.read s rest
            members fields bound false (name :: seen) s cs
        | none => do
          let cs ← skipValue rest
          members fields bound false seen s cs) := by
  have hname : stringBody (key ++ (b ++ ':' :: rest)) = .ok (name, b ++ ':' :: rest) := spells _
  rw [members, nextMember_separates separates]
  simp only [bind, Except.bind, hname, colon_blank blank]
  rfl

/-- The members of an object are read up to its end. -/
theorem members_object {seen : List String} {s s' : σ} {ms : List (String × List Char)}
    (h : Collects fields seen s ms s') {first : Bool} {text : List Char} (ho : Object first ms text)
    (rest bound : List Char) (hbound : text.length ≤ bound.length) :
    members fields bound first seen s (text ++ rest) = .ok (s', rest) := by
  induction h generalizing first text bound with
  | @done seen s complete =>
      cases ho with
      | @close _ b blank =>
          obtain ⟨c, bound, rfl⟩ : ∃ c bound', bound = c :: bound' := by
            cases bound with
            | nil => simp at hbound
            | cons c bound => exact ⟨c, bound, rfl⟩
          have hall : ¬ (fields.any fun f => f.required && !seen.contains f.name) = true := by
            intro hany
            obtain ⟨f, hf, hmiss⟩ := List.any_eq_true.mp hany
            rw [Bool.and_eq_true, Bool.not_eq_true', List.contains_eq_mem, decide_eq_false_iff_not]
              at hmiss
            exact hmiss.2 (complete f hf hmiss.1)
          have hend : endMembers (b ++ '\x7d' :: rest) = .ok rest := by
            unfold endMembers
            rw [dropBlank_blank blank rfl]
            rfl
          rw [List.append_assoc, List.singleton_append, members, nextMember_close first blank]
          simp only [bind, Except.bind, if_neg hall, hend]
          rfl
  | @known seen s t s' f name value ms found new reads tail ih =>
      cases ho with
      | @member _ front key b c _ text _ _ separates spells blank blank' object =>
          obtain ⟨x, bound, rfl, hlength⟩ := exists_cons_of_length hbound
          have hvalue := reads c blank' (text ++ rest) (object.ends rest)
          have hnew : ¬ seen.contains name = true := by
            rwa [List.contains_eq_mem, decide_eq_true_iff]
          have hrest := ih object bound hlength
          simp only [List.append_assoc, List.cons_append]
          rw [members_member bound seen s separates spells blank, found]
          simp only [if_neg hnew, hvalue, bind, Except.bind, hrest]
  | @unknown seen s s' name value ms missing skips tail ih =>
      cases ho with
      | @member _ front key b c _ text _ _ separates spells blank blank' object =>
          obtain ⟨x, bound, rfl, hlength⟩ := exists_cons_of_length hbound
          have hvalue := skips c blank' (text ++ rest) (object.ends rest)
          have hrest := ih object bound hlength
          simp only [List.append_assoc, List.cons_append]
          rw [members_member bound seen s separates spells blank, missing]
          simp only [hvalue, bind, Except.bind, hrest]

/-- A record is read from an object, whatever the order of the members is. -/
theorem reads_object {empty s : σ} {ms : List (String × List Char)}
    (h : Collects fields [] empty ms s) {text : List Char} (ho : Object true ms text) :
    Reads (record fields empty) ('\x7b' :: text) s := by
  intro blanks hblanks rest _
  unfold record
  rw [List.cons_append, dropBlank_blank hblanks rfl]
  refine members_object h ho rest _ ?_
  rw [List.length_append]
  exact Nat.le_add_right _ _

end records

end Reader
end WireCodec
