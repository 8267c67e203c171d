import WireCodec.Proofs.Objects
import WireCodec.Schema.Document
/-! # Documents are read back

A schema that is written as a document and read again is the schema that it was, whatever its strings
hold and whatever options are set, as long as its numbers are within their machine ranges
(`Schema.ofText_pretty`).

Lists and records are read element by element (`reads_list`, `reads_record`).  For a record, `Fills`
says that members written in the order of the fields, some of which may be left out, lead from one
record to another; each record then only lists how its fields are written. -/

namespace WireCodec

/-! ### Elements with commas between them -/

namespace Reader

/-- The texts of elements, with a comma in front of each but the first. -/
def joined : Bool → List (List Char) → List Char
  | _, [] => []
  | true, t :: ts => t ++ joined false ts
  | false, t :: ts => ',' :: (t ++ joined false ts)

theorem separated_eq (ts : List (List Char)) : Json.separated [','] ts = joined true ts := by
  induction ts with
  | nil => rfl
  | cons t ts ih =>
      cases ts with
      | nil =>
          show t = t ++ []
          rw [List.append_nil]
      | cons u us =>
          show t ++ [','] ++ Json.separated [','] (u :: us) = t ++ (',' :: (u ++ joined false us))
          rw [ih, List.append_assoc]
          rfl

theorem ends_joined (ts : List (List Char)) (level : Nat) (rest : List Char) :
    Ends (joined false ts ++ (Json.newline level ++ rest)) := by
  cases ts with
  | nil => exact ends_cons (by decide) _
  | cons t ts => exact ends_cons (by decide) _

theorem isBlank_newline (level : Nat) : ∀ c ∈ Json.newline level, isBlank c := by
  intro c hc
  rcases List.mem_cons.mp hc with rfl | hc
  · rfl
  · rw [(List.mem_replicate.mp hc).2]
    rfl

theorem dropBlank_newline {level : Nat} {c : Char} {cs : List Char} (h : isBlank c = false) :
    dropBlank (Json.newline level ++ c :: cs) = c :: cs := by
  rw [dropBlank_append (isBlank_newline level), dropBlank_cons h]

/-- A text on a line of its own. -/
def onLine (level : Nat) (text : List Char) : List Char := Json.newline level ++ text

theorem length_onLine (level : Nat) (text : List Char) : text.length < (onLine level text).length := by
  unfold onLine Json.newline
  rw [List.cons_append, List.length_cons, List.length_append]
  omega

theorem dropBlank_onLine {level : Nat} {c : Char} {cs rest : List Char} (h : isBlank c = false) :
    dropBlank (onLine level (c :: cs) ++ rest) = c :: (cs ++ rest) := by
  unfold onLine
  rw [List.append_assoc, List.cons_append, dropBlank_newline h]

theorem joined_cons (first : Bool) (t : List Char) (ts : List (List Char)) (rest : List Char) :
    joined first (t :: ts) ++ rest
      = (if first then [] else [',']) ++ (t ++ (joined false ts ++ rest)) := by
  cases first <;> simp [joined]

/-- Joining loses no character, and a bound for the whole is one for the rest. -/
theorem length_joined_lt {first : Bool} {t : List Char} {ts : List (List Char)} {b : Char}
    {bound : List Char} (ht : t ≠ []) (h : (joined first (t :: ts)).length < (b :: bound).length) :
    (joined false ts).length < bound.length := by
  have hpos : 0 < t.length := List.length_pos_of_ne_nil ht
  have hlength := congrArg List.length (joined_cons first t ts [])
  simp only [List.append_nil, List.length_append] at hlength
  rw [List.length_cons] at h
  omega

theorem onLine_ne_nil (level : Nat) (text : List Char) : onLine level text ≠ [] := by
  intro h
  have := length_onLine level text
  rw [h] at this
  cases this

/-! ### Lists -/

/-- The text of an array or an object begins with its bracket. -/
def Opens (text : List Char) : Prop := ∃ c cs, text = c :: cs ∧ (c = '[' ∨ c = '\x7b')

theorem opens_array (level : Nat) (vs : List Json) : Opens (Json.prettyAt level (.array vs)) := by
  cases vs with
  | nil => exact ⟨'[', _, rfl, .inl rfl⟩
  | cons v vs => exact ⟨'[', _, rfl, .inl rfl⟩

theorem opens_object (level : Nat) (ms : List (String × Json)) :
    Opens (Json.prettyAt level (.object ms)) := by
  cases ms with
  | nil => exact ⟨'\x7b', _, rfl, .inr rfl⟩
  | cons m ms => exact ⟨'\x7b', _, rfl, .inr rfl⟩

theorem nextItem_joined (first : Bool) (level : Nat) {text : List Char} (h : Opens text)
    (ts : List (List Char)) (rest : List Char) :
    nextItem first (joined first (onLine level text :: ts) ++ rest)
      = .ok (some (text ++ (joined false ts ++ rest))) := by
  obtain ⟨c, cs, rfl, hc⟩ := h
  have hdrop : ∀ rest, dropBlank (onLine level (c :: cs) ++ rest) = c :: (cs ++ rest) := by
    intro rest
    exact dropBlank_onLine (by rcases hc with rfl | rfl <;> rfl)
  unfold nextItem
  rw [joined_cons]
  cases first with
  | true =>
      rw [if_pos rfl, List.nil_append, hdrop]
      rcases hc with rfl | rfl <;> rfl
  | false =>
      rw [if_neg (by decide), List.singleton_append, dropBlank_cons rfl]
      simp only [hdrop]
      rcases hc with rfl | rfl <;> rfl

section lists

variable {α : Type} {item : Reader α} {level : Nat} {write : α → Json} {xs : List α}

/-- The line of an element of an array. -/
def itemLine (level : Nat) (write : α → Json) (x : α) : List Char :=
  onLine (level + 1) (Json.prettyAt (level + 1) (write x))

theorem prettyItems_eq (xs : List α) :
    Json.prettyItems (level + 1) (xs.map write) = xs.map (itemLine level write) := by
  induction xs with
  | nil => rfl
  | cons x xs ih =>
      rw [List.map_cons, Json.prettyItems, ih]
      rfl

theorem items_joined (hread : ∀ x ∈ xs, Reads item (Json.prettyAt (level + 1) (write x)) x)
    (hopens : ∀ x ∈ xs, Opens (Json.prettyAt (level + 1) (write x))) (first : Bool)
    (rest bound : List Char)
    (hbound : (joined first (xs.map (itemLine level write))).length < bound.length) :
    items item bound first
        (joined first (xs.map (itemLine level write)) ++ (Json.newline level ++ ']' :: rest))
      = .ok (xs, rest) := by
  induction xs generalizing first bound with
  | nil =>
      cases bound with
      | nil => simp at hbound
      | cons b bound =>
          have hend : dropBlank (Json.newline level ++ ']' :: rest) = ']' :: rest :=
            dropBlank_newline rfl
          simp only [List.map_nil, joined, List.nil_append]
          unfold items nextItem endItems
          simp only [hend, bind, Except.bind]
          rfl
  | cons x xs ih =>
      obtain ⟨hx, hxs⟩ := List.forall_mem_cons.mp hread
      obtain ⟨ho, hos⟩ := List.forall_mem_cons.mp hopens
      cases bound with
      | nil => simp at hbound
      | cons b bound =>
          have hnext : nextItem first (joined first
              (itemLine level write x :: xs.map (itemLine level write)) ++ _) = _ :=
            nextItem_joined first (level + 1) ho (xs.map (itemLine level write))
              (Json.newline level ++ ']' :: rest)
          have hitem := hx [] (by simp) _
            (ends_joined (xs.map (itemLine level write)) level (']' :: rest))
          have hrest := ih hxs hos false bound (length_joined_lt (onLine_ne_nil _ _) hbound)
          rw [List.nil_append] at hitem
          rw [List.map_cons]
          unfold items
          rw [hnext]
          simp only [bind, Except.bind, hitem, hrest]
          rfl

/-- **Lists.**  A list is read back if its elements are. -/
theorem reads_list (hread : ∀ x ∈ xs, Reads item (Json.prettyAt (level + 1) (write x)) x)
    (hopens : ∀ x ∈ xs, Opens (Json.prettyAt (level + 1) (write x))) :
    Reads (list item) (Json.prettyAt level (.array (xs.map write))) xs := by
  intro blanks hblanks rest _
  unfold list
  rw [dropBlank_append hblanks]
  cases xs with
  | nil => rfl
  | cons x xs =>
      have htext : Json.prettyAt level (.array ((x :: xs).map write)) ++ rest
          = '[' :: (joined true ((x :: xs).map (itemLine level write))
            ++ (Json.newline level ++ ']' :: rest)) := by
        rw [List.map_cons, Json.prettyAt, ← List.map_cons, prettyItems_eq, separated_eq]
        · simp
        · exact List.cons_ne_nil _ _
      rw [htext, dropBlank_cons rfl]
      refine items_joined hread hopens true rest _ ?_
      rw [List.length_append]
      simp

end lists

/-! ### Records -/

/-- The line of a member of an object. -/
def memberLine (level : Nat) (m : String × Json) : List Char :=
  onLine (level + 1) (Json.quote m.1 ++ [':', ' '] ++ Json.prettyAt (level + 1) m.2)

/-- The name of a member and the text of its value. -/
def memberText (level : Nat) (m : String × Json) : String × List Char := (m.1, Json.prettyAt level m.2)

theorem prettyMembers_eq (level : Nat) (ms : List (String × Json)) :
    Json.prettyMembers (level + 1) ms = ms.map (memberLine level) := by
  induction ms with
  | nil => rfl
  | cons m ms ih =>
      rw [List.map_cons, Json.prettyMembers, ih]
      simp [memberLine, onLine]

theorem object_joined (level : Nat) (ms : List (String × Json)) (first : Bool) :
    Object first (ms.map (memberText (level + 1)))
      (joined first (ms.map (memberLine level)) ++ (Json.newline level ++ ['\x7d'])) := by
  induction ms generalizing first with
  | nil => exact .close (isBlank_newline level)
  | cons m ms ih =>
      have hline : memberLine level m = Json.newline (level + 1) ++ '"' ::
          ((spelled m.1.toList ++ ['"']) ++ ':' :: ' ' :: Json.prettyAt (level + 1) m.2) := by
        unfold memberLine onLine
        rw [quote_eq]
        simp
      have hseparates : Separates first ((if first then [] else [',']) ++ Json.newline (level + 1)) := by
        cases first with
        | true => exact .first (isBlank_newline _)
        | false => exact .comma (b := []) (by simp [Blank]) (isBlank_newline _)
      have hmember : Object first ((m.1, Json.prettyAt (level + 1) m.2) :: _) _ :=
        .member (b := []) (c := [' ']) hseparates (spells_spelled m.1) (by simp [Blank])
          (by simp [Blank, isBlank]) (ih false)
      rw [List.map_cons, List.map_cons, joined_cons, hline]
      simpa [memberText] using hmember

section records

variable {σ : Type} {level : Nat}

/-- The members are those of the fields, in their order, with some that may be absent left out; to read
them leads from one record to another. -/
inductive Fills (level : Nat) : List (Field σ) → σ → List (String × Json) → σ → Prop
  | nil {s : σ} : Fills level [] s [] s
  | absent {f : Field σ} {fs : List (Field σ)} {s s' : σ} {ms : List (String × Json)}
      (optional : f.required = false) (tail : Fills level fs s ms s') : Fills level (f :: fs) s ms s'
  | present {f : Field σ} {fs : List (Field σ)} {s t s' : σ} {ms : List (String × Json)} {v : Json}
      (reads : Reads (f.read s) (Json.prettyAt level v) t) (tail : Fills level fs t ms s') :
      Fills level (f :: fs) s ((f.name, v) :: ms) s'

theorem find?_name {done fs : List (Field σ)} {f : Field σ}
    (h : ((done ++ f :: fs).map Field.name).Nodup) :
    (done ++ f :: fs).find? (·.name == f.name) = some f := by
  rw [List.map_append, List.map_cons, List.nodup_append] at h
  have hnone : done.find? (·.name == f.name) = none := by
    rw [List.find?_eq_none]
    intro g hg heq
    exact h.2.2 g.name (List.mem_map_of_mem hg) f.name List.mem_cons_self (beq_iff_eq.mp heq)
  rw [List.find?_append, hnone, Option.none_or, List.find?_cons, beq_self_eq_true]

/-- What the members fill in is what they add up to.  The fields that are done include all that have
been seen, and the ones that must be there have been. -/
theorem Fills.collects {fs : List (Field σ)} {s s' : σ} {ms : List (String × Json)}
    (h : Fills level fs s ms s') (done : List (Field σ))
    (hnodup : ((done ++ fs).map Field.name).Nodup) (seen : List String)
    (hseen : ∀ n ∈ seen, n ∈ done.map Field.name) (hdone : ∀ f ∈ done, f.required → f.name ∈ seen) :
    Collects (done ++ fs) seen s (ms.map (memberText level)) s' := by
  induction h generalizing done seen with
  | nil =>
      rw [List.append_nil]
      exact .done hdone
  | @absent f fs s s' ms optional tail ih =>
      rw [List.append_cons]
      refine ih (done ++ [f]) ?_ seen ?_ ?_
      · rwa [← List.append_cons]
      · intro n hn
        rw [List.map_append]
        exact List.mem_append_left _ (hseen n hn)
      · intro g hg hrequired
        rcases List.mem_append.mp hg with hg | hg
        · exact hdone g hg hrequired
        · rw [List.mem_singleton.mp hg, optional] at hrequired
          cases hrequired
  | @present f fs s t s' ms v reads tail ih =>
      have hnew : f.name ∉ seen := by
        intro hmem
        rw [List.map_append, List.map_cons, List.nodup_append] at hnodup
        exact hnodup.2.2 f.name (hseen _ hmem) f.name List.mem_cons_self rfl
      refine .known (find?_name hnodup) hnew reads ?_
      rw [List.append_cons]
      refine ih (done ++ [f]) (by rwa [← List.append_cons]) (f.name :: seen) ?_ ?_
      · intro n hn
        rw [List.map_append]
        rcases List.mem_cons.mp hn with rfl | hn
        · exact List.mem_append_right _ List.mem_cons_self
        · exact List.mem_append_left _ (hseen n hn)
      · intro g hg hrequired
        rcases List.mem_append.mp hg with hg | hg
        · exact List.mem_cons_of_mem _ (hdone g hg hrequired)
        · rw [List.mem_singleton.mp hg]
          exact List.mem_cons_self

/-- **Records.**  A record is read back from its members. -/
theorem reads_record {fields : List (Field σ)} {empty s : σ} {m : String × Json}
    {ms : List (String × Json)} (h : Fills (level + 1) fields empty (m :: ms) s)
    (hnodup : (fields.map Field.name).Nodup) :
    Reads (record fields empty) (Json.prettyAt level (.object (m :: ms))) s := by
  have htext : Json.prettyAt level (.object (m :: ms))
      = '\x7b' :: (joined true ((m :: ms).map (memberLine level)) ++ (Json.newline level ++ ['\x7d'])) := by
    rw [Json.prettyAt, prettyMembers_eq, separated_eq]
    · simp
    · exact List.cons_ne_nil _ _
  rw [htext]
  exact reads_object (h.collects [] hnodup [] (by simp) (by simp)) (object_joined level (m :: ms) true)

/-! ### Fields -/

variable {α : Type} {reader : Reader α} {set : σ → α → σ} {fs : List (Field σ)} {s s' : σ} {x : α}
  {ms : List (String × Json)} {name : String} {v : Json}

/-- What is read is put into the record. -/
theorem Reads.put {text : List Char} (h : Reads reader text x) (set : σ → α → σ) (s : σ) :
    Reads (fun cs => (reader cs).map fun (x, rest) => (set s x, rest)) text (set s x) := by
  intro blanks hblanks rest hrest
  show (reader _).map _ = _
  rw [h blanks hblanks rest hrest]
  rfl

theorem Fills.required (h : Reads reader (Json.prettyAt level v) x)
    (tail : Fills level fs (set s x) ms s') :
    Fills level (required name reader set :: fs) s ((name, v) :: ms) s' :=
  .present (h.put set s) tail

theorem Fills.field (h : Reads reader (Json.prettyAt level v) x)
    (tail : Fills level fs (set s x) ms s') :
    Fills level (field name reader set :: fs) s ((name, v) :: ms) s' :=
  .present (h.put set s) tail

theorem Fills.member? {β : Type} {reader : Reader (Option β)} {set : σ → Option β → σ} {x : Option β}
    {spell : β → String} (h : ∀ b, Reads reader (Json.quote (spell b)) (some b))
    (hnone : set s none = s) (tail : Fills level fs (set s x) ms s') :
    Fills level (Reader.field name reader set :: fs) s (Json.member? name (x.map spell) ++ ms) s' := by
  cases x with
  | none =>
      rw [hnone] at tail
      exact .absent rfl tail
  | some b => exact .field (h b) tail

theorem Fills.text? {reader : Reader (Option String)} {set : σ → Option String → σ} {x : Option String}
    (h : ∀ w, Reads reader (Json.quote w) (some w)) (hnone : set s none = s)
    (tail : Fills level fs (set s x) ms s') :
    Fills level (Reader.field name reader set :: fs) s (Json.member? name x ++ ms) s' := by
  have hx : x = x.map id := by simp
  rw [hx] at tail ⊢
  exact .member? h hnone (by simpa using tail)

end records

/-! ### Numbers and literals -/

theorem prettyAt_integer (level : Nat) (n : Int) :
    Json.prettyAt level (.integer n) = (toString n).toList := by
  rw [Json.prettyAt]
  · rfl
  all_goals
    intros
    contradiction

theorem reads_natural {bits n : Nat} (hbits : bits ≤ 64) (hn : n < 2 ^ bits) (level : Nat) :
    Reads (natural bits) (Json.prettyAt level (.integer n)) n := by
  have hpow : 2 ^ bits ≤ 2 ^ 64 := Nat.pow_le_pow_right (by decide) hbits
  have hcast : ((2 ^ bits : Nat) : Int) = 2 ^ bits := by push_cast; rfl
  have hread : Reads (integer 0 (2 ^ bits - 1)) (toString (n : Int)).toList n :=
    reads_integer (by decide) (by omega) (by omega) (by omega)
  rw [prettyAt_integer]
  intro blanks hblanks rest hrest
  show (integer 0 (2 ^ bits - 1) _).map _ = _
  rw [hread blanks hblanks rest hrest]
  rfl

theorem reads_signed32 {n : Int} (hlow : -2 ^ 31 ≤ n) (hhigh : n < 2 ^ 31) (level : Nat) :
    Reads signed32 (Json.prettyAt level (.integer n)) n := by
  rw [prettyAt_integer]
  exact reads_integer (by decide) (by decide) hlow (by omega)

theorem reads_literal (levels : Nat) (s : String) :
    Reads (literal levels) (Json.quote s) (some s) := by
  intro blanks hblanks rest hrest
  unfold literal
  rw [reads_value_text levels s blanks hblanks rest hrest]
  rfl

end Reader

open Reader

/-! ### Schemas -/

theorem Encoding.reads_toJson (e : Encoding) (levels level : Nat) :
    Reads (encoding levels) (Json.prettyAt level e.toJson) e := by
  have hmembers : e.toJson = .object (("presence", .string e.presence.word)
      :: (Json.member? "primitiveType" (e.primitive.map Primitive.name)
      ++ (Json.member? "minValue" e.minimum ++ (Json.member? "maxValue" e.maximum
      ++ (Json.member? "nullValue" e.null ++ (Json.member? "constValue" e.constant
      ++ (Json.member? "characterEncoding" e.characterEncoding
      ++ (Json.member? "semanticType" e.semanticType ++ [])))))))) := by
    simp [toJson]
  rw [hmembers]
  refine reads_record ?_ (by simp [Reader.field, Reader.required])
  refine .field (reads_word (Presence.ofWord?_word _)) ?_
  refine .member? (fun p => (reads_word (Primitive.ofName?_name p)).optional) rfl ?_
  refine .text? (reads_literal _) rfl ?_
  refine .text? (reads_literal _) rfl ?_
  refine .text? (reads_literal _) rfl ?_
  refine .text? (reads_literal _) rfl ?_
  refine .text? (fun w => (reads_text w).optional) rfl ?_
  refine .text? (fun w => (reads_text w).optional) rfl ?_
  exact .nil

/-- The numbers of a token are within their ranges: signed ones of 32 bits, versions of 32 bits and
lengths of runs of 64 bits. -/
structure Token.InRange (t : Token) : Prop where
  id : -2 ^ 31 ≤ t.id ∧ t.id < 2 ^ 31
  version : t.version < 2 ^ 32
  offset : -2 ^ 31 ≤ t.offset ∧ t.offset < 2 ^ 31
  encodedLength : -2 ^ 31 ≤ t.encodedLength ∧ t.encodedLength < 2 ^ 31
  span : t.span < 2 ^ 64

theorem Token.reads_toJson {t : Token} (h : t.InRange) (levels level : Nat) :
    Reads (token levels) (Json.prettyAt level t.toJson) t := by
  have hmembers : t.toJson = .object (("signal", .string t.signal.word) :: ("name", .string t.name)
      :: (Json.member? "referencedName" t.referencedName
      ++ (Json.member? "description" t.description
      ++ [("id", .integer t.id), ("version", .integer t.version), ("offset", .integer t.offset),
        ("encodedLength", .integer t.encodedLength), ("componentTokenCount", .integer t.span),
        ("encoding", t.encoding.toJson)]))) := by
    simp [toJson]
  rw [hmembers]
  refine reads_record ?_ (by simp [Reader.field, Reader.required])
  refine .required (reads_word (Signal.ofWord?_word _)) ?_
  refine .required (reads_text _) ?_
  refine .text? (fun w => (reads_text w).optional) rfl ?_
  refine .text? (fun w => (reads_text w).optional) rfl ?_
  refine .field (reads_signed32 h.id.1 h.id.2 _) ?_
  refine .field (reads_natural (by decide) h.version _) ?_
  refine .field (reads_signed32 h.offset.1 h.offset.2 _) ?_
  refine .field (reads_signed32 h.encodedLength.1 h.encodedLength.2 _) ?_
  refine .field (reads_natural (by decide) h.span _) ?_
  refine .field (t.encoding.reads_toJson _ _) ?_
  exact .nil

theorem HeaderTypes.reads_toJson (h : HeaderTypes) (level : Nat) :
    Reads headerTypes (Json.prettyAt level h.toJson) h := by
  refine reads_record ?_ (by simp [Reader.required])
  refine .required (reads_word (Primitive.ofName?_name _)) ?_
  refine .required (reads_word (Primitive.ofName?_name _)) ?_
  refine .required (reads_word (Primitive.ofName?_name _)) ?_
  refine .required (reads_word (Primitive.ofName?_name _)) ?_
  exact .nil

theorem Schema.reads_runsToJson {runs : List (List Token)} (h : ∀ run ∈ runs, ∀ t ∈ run, t.InRange)
    (levels level : Nat) :
    Reads (list (list (token levels))) (Json.prettyAt level (runsToJson runs)) runs := by
  refine reads_list ?_ ?_
  · intro run hrun
    refine reads_list ?_ ?_
    · intro t ht
      exact Token.reads_toJson (h run hrun t ht) _ _
    · intro t _
      exact opens_object _ _
  · intro run _
    exact opens_array _ _

/-- The numbers of a schema are within their ranges. -/
structure Schema.InRange (s : Schema) : Prop where
  id : s.id < 2 ^ 32
  version : s.version < 2 ^ 32
  types : ∀ run ∈ s.types, ∀ t ∈ run, t.InRange
  messages : ∀ run ∈ s.messages, ∀ t ∈ run, t.InRange

theorem Schema.reads_toJson {s : Schema} (h : s.InRange) (levels : Nat) :
    Reads (schema levels) (Json.prettyAt 0 s.toJson) s := by
  have hmembers : s.toJson = .object (("packageName", .string s.packageName)
      :: (Json.member? "namespaceName" s.namespaceName
      ++ ("id", .integer s.id) :: ("version", .integer s.version)
      :: (Json.member? "semanticVersion" s.semanticVersion
      ++ (Json.member? "description" s.description
      ++ [("byteOrder", .string s.byteOrder.word), ("headerStructure", s.header.toJson),
        ("types", runsToJson s.types), ("messages", runsToJson s.messages)])))) := by
    simp [toJson]
  rw [hmembers]
  refine reads_record ?_ (by simp [Reader.field, Reader.required])
  refine .required (reads_text _) ?_
  refine .text? (fun w => (reads_text w).optional) rfl ?_
  refine .field (reads_natural (by decide) h.id _) ?_
  refine .field (reads_natural (by decide) h.version _) ?_
  refine .text? (fun w => (reads_text w).optional) rfl ?_
  refine .text? (fun w => (reads_text w).optional) rfl ?_
  refine .field (reads_word (ByteOrder.ofWord?_word _)) ?_
  refine .field (s.header.reads_toJson _) ?_
  refine .field (reads_runsToJson h.types _ _) ?_
  refine .field (reads_runsToJson h.messages _ _) ?_
  exact .nil

/-- **Documents of schemas.**  A schema that is written as an indented document is read back as it was,
if its numbers are within their machine ranges. -/
theorem Schema.ofText_pretty {s : Schema} (h : s.InRange) : ofText s.pretty = .ok s := by
  have hread := reads_toJson h greatestDepth [] (by simp) [] ends_nil
  rw [List.nil_append, List.append_nil] at hread
  unfold ofText whole pretty Json.pretty
  rw [String.toList_ofList, hread]
  rfl

/-! ### A schema of special texts -/

namespace SpecialTexts

/-- A constant whose literals look like other values, with the greatest and the least numbers. -/
def constant : Token :=
  { signal := .encoding, name := "a \"quoted\\\x07 name\n", referencedName := some ""
    id := -2 ^ 31, version := 2 ^ 32 - 1, offset := 2 ^ 31 - 1, encodedLength := -1
    span := 2 ^ 64 - 1
    encoding :=
      { presence := .constant, primitive := some .double, minimum := some "null"
        maximum := some " 1e400", null := some "-0", constant := some "[\"\"]" } }

def schema : Schema :=
  { packageName := "\t\x00é", semanticVersion := some "\x1f", byteOrder := .bigEndian
    header := { blockLength := .uint64 }, types := [[constant], []], messages := [] }

theorem inRange_constant : constant.InRange := by
  refine ⟨?_, ?_, ?_, ?_, ?_⟩ <;> decide

theorem inRange_schema : schema.InRange where
  id := by decide
  version := by decide
  types := by
    intro run hrun t ht
    simp only [schema, List.mem_cons, List.not_mem_nil, or_false] at hrun
    rcases hrun with rfl | rfl
    · rw [List.mem_singleton.mp ht]
      exact inRange_constant
    · cases ht
  messages := by
    intro run hrun
    cases hrun

end SpecialTexts

theorem Schema.ofText_pretty_special :
    SpecialTexts.schema.InRange ∧ ofText SpecialTexts.schema.pretty = .ok SpecialTexts.schema :=
  ⟨SpecialTexts.inRange_schema, ofText_pretty SpecialTexts.inRange_schema⟩

end WireCodec
