import Mathlib.Data.List.Forall2
import Mathlib.Data.Prod.Lex
import Mathlib.Logic.Relation
import Mathlib.Order.Bounds.Basic
import WireCodec.Proofs.Ordering
/-! # The first definition of a name

The search for types goes through a token list from place to place (`Registry.Step`): past a token that
opens no type, into a composite, and past the run of an enum or a bit set.  What belongs to a group or a
var data member, and composites of variable length, are passed over as wholes.  The types that open at
the places on this way are the ones that the registry comes across, in the order of their places
(`Registry.isIndex_found`).

`Registry.get?_eq_some_iff_first` says what is registered: each name once, for the type at the first
place on the way, token lists of types before those of messages. -/

namespace WireCodec.Registry

/-! ### Entries in the order of their places -/

/-- The entries are those that `R` has at some place, each with its place, in the order of the places. -/
structure IsIndex {α β : Type} [LT α] (R : α → β → Prop) (places : List α) (entries : List β) :
    Prop where
  sorted : places.Pairwise (· < ·)
  entries : List.Forall₂ R places entries
  complete : ∀ a b, R a b → a ∈ places

namespace IsIndex

variable {α β : Type} {R : α → β → Prop} {places : List α} {entries : List β}

theorem mem_entries [LT α] (h : IsIndex R places entries) (hR : ∀ a b c, R a b → R a c → b = c)
    {a : α} {b : β} (hab : R a b) : b ∈ entries := by
  obtain ⟨i, hi, rfl⟩ := List.getElem_of_mem (h.complete a b hab)
  have hi' : i < entries.length := by rwa [← h.entries.length_eq]
  rw [hR _ _ _ hab (h.entries.get hi hi')]
  exact List.getElem_mem _

theorem exists_of_mem_places [LT α] (h : IsIndex R places entries) {a : α} (ha : a ∈ places) :
    ∃ b, R a b := by
  obtain ⟨i, hi, rfl⟩ := List.getElem_of_mem ha
  exact ⟨_, h.entries.get hi (by rwa [← h.entries.length_eq])⟩

theorem exists_of_mem_entries [LT α] (h : IsIndex R places entries) {b : β} (hb : b ∈ entries) :
    ∃ a, R a b := by
  obtain ⟨i, hi, rfl⟩ := List.getElem_of_mem hb
  exact ⟨_, h.entries.get (by rwa [h.entries.length_eq]) hi⟩

/-- The first entry of some kind is the one with the least place. -/
theorem find?_eq_some_iff [PartialOrder α] (h : IsIndex R places entries)
    (hR : ∀ a b c, R a b → R a c → b = c) {p : β → Bool} {b : β} :
    entries.find? p = some b ↔ ∃ a, R a b ∧ IsLeast {a | ∃ b, R a b ∧ p b} a := by
  have hfirst : ∀ {b}, entries.find? p = some b → ∃ a, R a b ∧ IsLeast {a | ∃ b, R a b ∧ p b} a := by
    intro b hb
    obtain ⟨hp, i, hi, rfl, hbefore⟩ := List.find?_eq_some_iff_getElem.mp hb
    have hi' : i < places.length := by rwa [h.entries.length_eq]
    have hab := h.entries.get hi' hi
    refine ⟨places[i], hab, ⟨_, hab, hp⟩, ?_⟩
    rintro a' ⟨b', hab', hp'⟩
    obtain ⟨j, hj, rfl⟩ := List.getElem_of_mem (h.complete a' b' hab')
    rcases Nat.lt_trichotomy j i with hlt | rfl | hlt
    · -- an earlier place of that kind would have been found
      have hnot := hbefore j hlt
      have hentry : entries[j] = b' := hR _ _ _ (h.entries.get hj (by omega)) hab'
      rw [hentry, hp'] at hnot
      cases hnot
    · exact le_rfl
    · exact le_of_lt (List.pairwise_iff_getElem.mp h.sorted i j hi' hj hlt)
  refine ⟨hfirst, ?_⟩
  rintro ⟨a, hab, hleast⟩
  obtain ⟨b', hab', hp⟩ := hleast.1
  obtain rfl := hR _ _ _ hab hab'
  cases hfound : entries.find? p with
  | none => exact absurd hp (List.find?_eq_none.mp hfound b (h.mem_entries hR hab))
  | some c =>
      obtain ⟨a', hac, hleast'⟩ := hfirst hfound
      obtain rfl := hleast.unique hleast'
      rw [hR _ _ _ hac hab]

end IsIndex

/-! ### The way through a token list -/

section way

/-- Is the type that opens at a place passed over?  `belongs` says which kinds of types are part of the
group or the var data member that opens right in front of them. -/
def IsPassed (belongs : TypeKind → Prop) (tokens : List Token) (i : Nat) (kind : TypeKind)
    (first : Token) : Prop :=
  (belongs kind ∧ (tokens.take i).getLast?.any (·.signal.ownsNext)) ∨
    kind = .composite ∧ first.encodedLength < 0

/-- From one place of a token list to the next one where types are looked for. -/
inductive Step (belongs : TypeKind → Prop) (tokens : List Token) (i : Nat) : Nat → Prop
  | next {t : Token} (token : tokens[i]? = some t) (kind : t.signal.typeKind? = none) :
      Step belongs tokens i (i + 1)
  | into {t : Token} (token : tokens[i]? = some t) (kind : t.signal.typeKind? = some .composite)
      (taken : ¬ IsPassed belongs tokens i .composite t) : Step belongs tokens i (i + 1)
  | past {t : Token} {k : TypeKind} (token : tokens[i]? = some t) (kind : t.signal.typeKind? = some k)
      (passed : k ≠ .composite ∨ IsPassed belongs tokens i k t) : Step belongs tokens i (i + t.span)

/-- The places on the way from one place of a token list. -/
def Reaches (belongs : TypeKind → Prop) (tokens : List Token) : Nat → Nat → Prop :=
  Relation.ReflTransGen (Step belongs tokens)

/-- The type opens at a place and is not passed over; its run is as long as its first token states. -/
def IsTypeAt (belongs : TypeKind → Prop) (tokens : List Token) (i : Nat) (t : NamedType) : Prop :=
  ∃ kind first, tokens[i]? = some first ∧ first.signal.typeKind? = some kind ∧
    ¬ IsPassed belongs tokens i kind first ∧ t = defined kind first ((tokens.drop i).take first.span)

variable {belongs : TypeKind → Prop} {tokens : List Token} {i j k : Nat} {t u : NamedType}

theorem IsTypeAt.unique (ht : IsTypeAt belongs tokens i t) (hu : IsTypeAt belongs tokens i u) :
    t = u := by
  obtain ⟨kind, first, hfirst, hkind, -, rfl⟩ := ht
  obtain ⟨kind', first', hfirst', hkind', -, rfl⟩ := hu
  obtain rfl := Option.some.inj (hfirst.symm.trans hfirst')
  obtain rfl := Option.some.inj (hkind.symm.trans hkind')
  rfl

theorem Step.unique (hj : Step belongs tokens i j) (hk : Step belongs tokens i k) : j = k := by
  cases hj with
  | next token kind =>
      cases hk with
      | next => rfl
      | into => rfl
      | past token' kind' _ => simp_all
  | into token kind taken =>
      cases hk with
      | next => rfl
      | into => rfl
      | past token' kind' passed => simp_all
  | past token kind passed =>
      cases hk with
      | next token' kind' => simp_all
      | into token' kind' taken => simp_all
      | past token' kind' _ => simp_all

theorem Step.reaches_iff (h : Step belongs tokens i j) :
    Reaches belongs tokens i k ↔ i = k ∨ Reaches belongs tokens j k := by
  unfold Reaches
  rw [Relation.ReflTransGen.cases_head_iff]
  constructor
  · rintro (rfl | ⟨j', hstep, hrest⟩)
    · exact .inl rfl
    · rw [h.unique hstep]
      exact .inr hrest
  · rintro (rfl | hrest)
    · exact .inl rfl
    · exact .inr ⟨j, h, hrest⟩

theorem Reaches.le (h : Reaches belongs tokens i j) : i ≤ j := by
  induction h with
  | refl => exact Nat.le_refl _
  | tail _ hstep ih => cases hstep <;> omega

theorem not_isTypeAt_of_length_le (h : Reaches belongs tokens i j) (hi : tokens.length ≤ i) :
    ¬ IsTypeAt belongs tokens j t := by
  rintro ⟨kind, first, hfirst, -⟩
  have hle := h.le
  rw [List.getElem?_eq_none (by omega)] at hfirst
  cases hfirst

end way

/-! ### What is found -/

/-- Every kind of type belongs to what opens right in front of it. -/
def Always (_ : TypeKind) : Prop := True

/-- The type at a place on the way from some place. -/
def IsTypeFrom (start : Nat) (tokens : List Token) (i : Nat) (t : NamedType) : Prop :=
  Reaches Always tokens start i ∧ IsTypeAt Always tokens i t

section found

variable {front rest : List Token}

theorem isPassed_iff {t : Token} {kind : TypeKind} :
    IsPassed Always (front ++ t :: rest) front.length kind t ↔
      front.getLast?.any (·.signal.ownsNext) ∨ kind = .composite ∧ t.encodedLength < 0 := by
  unfold IsPassed
  rw [List.take_left, Always, true_and]

/-- **One step** to a place where no type is taken up: the types on the way stay the same. -/
theorem IsIndex.skip {tokens : List Token} {i j : Nat} {places : List Nat} {types : List NamedType}
    (h : IsIndex (IsTypeFrom j tokens) places types) (hstep : Step Always tokens i j)
    (hnone : ∀ t, ¬ IsTypeAt Always tokens i t) : IsIndex (IsTypeFrom i tokens) places types := by
  have hsame : IsTypeFrom i tokens = IsTypeFrom j tokens := by
    funext k t
    unfold IsTypeFrom
    rw [hstep.reaches_iff, or_and_right, eq_iff_iff, or_iff_right]
    rintro ⟨rfl, htype⟩
    exact hnone t htype
  rwa [hsame]

/-- **One step** away from a type: it comes in front of the types on the rest of the way. -/
theorem IsIndex.cons {tokens : List Token} {i j : Nat} {places : List Nat} {types : List NamedType}
    {t : NamedType} (h : IsIndex (IsTypeFrom j tokens) places types) (hstep : Step Always tokens i j)
    (hlt : i < j) (htype : IsTypeAt Always tokens i t) :
    IsIndex (IsTypeFrom i tokens) (i :: places) (t :: types) := by
  have hiff : ∀ k u, IsTypeFrom i tokens k u ↔
      (k = i ∧ IsTypeAt Always tokens i u) ∨ IsTypeFrom j tokens k u := by
    intro k u
    unfold IsTypeFrom
    rw [hstep.reaches_iff, or_and_right]
    exact or_congr ⟨by rintro ⟨rfl, h⟩; exact ⟨rfl, h⟩, by rintro ⟨rfl, h⟩; exact ⟨rfl, h⟩⟩ Iff.rfl
  refine ⟨?_, ?_, ?_⟩
  · rw [List.pairwise_cons]
    refine ⟨fun k hk => ?_, h.sorted⟩
    obtain ⟨u, hreach, -⟩ := h.exists_of_mem_places hk
    exact Nat.lt_of_lt_of_le hlt hreach.le
  · refine .cons ((hiff _ _).mpr (.inl ⟨rfl, htype⟩)) ?_
    exact h.entries.imp fun k u hu => (hiff k u).mpr (.inr hu)
  · intro k u hu
    rcases (hiff k u).mp hu with ⟨rfl, -⟩ | hu
    · exact List.mem_cons_self
    · exact List.mem_cons_of_mem _ (h.complete k u hu)

/-- **The whole way.**  What is found in the rest of a token list are the types on the way from a place
in it, in the order of their places. -/
theorem isIndex_found {skip : Nat} {types : List NamedType}
    (h : found (front.getLast?.any (·.signal.ownsNext)) skip rest = .ok types) :
    ∃ places, IsIndex (IsTypeFrom (front.length + skip) (front ++ rest)) places types := by
  induction rest generalizing front skip types with
  | nil =>
      rw [found] at h
      cases h
      refine ⟨[], .nil, .nil, ?_⟩
      rintro i t ⟨hreach, htype⟩
      refine absurd htype (not_isTypeAt_of_length_le hreach ?_)
      rw [List.append_nil]
      omega
  | cons t rest ih =>
      have hsplit : front ++ t :: rest = (front ++ [t]) ++ rest := by
        rw [List.append_assoc, List.singleton_append]
      have hlast : (front ++ [t]).getLast?.any (·.signal.ownsNext) = t.signal.ownsNext := by
        rw [List.getLast?_concat]
        rfl
      have hlength : (front ++ [t]).length = front.length + 1 := List.length_append
      have htoken : (front ++ t :: rest)[front.length]? = some t := by simp
      cases skip with
      | succ skip =>
          rw [found, ← hlast] at h
          obtain ⟨places, hplaces⟩ := ih h
          rw [hlength, ← hsplit, Nat.add_right_comm] at hplaces
          exact ⟨places, hplaces⟩
      | zero =>
          rw [found] at h
          cases hkind : t.signal.typeKind? with
          | none =>
              rw [hkind, ← hlast] at h
              obtain ⟨places, hplaces⟩ := ih h
              rw [hlength, ← hsplit] at hplaces
              have hnone : ∀ u, ¬ IsTypeAt Always (front ++ t :: rest) front.length u := by
                rintro u ⟨kind, first, hfirst, hkind', -⟩
                simp_all
              exact ⟨places, hplaces.skip (.next htoken hkind) hnone⟩
          | some kind =>
              simp only [hkind] at h
              obtain ⟨hlong, h⟩ := guard_eq_ok.mp h
              have hspan : front.length + 1 + (t.span - 1) = front.length + t.span := by omega
              split at h
              next hpassed =>
                rw [← @isPassed_iff front rest] at hpassed
                rw [← hlast] at h
                obtain ⟨places, hplaces⟩ := ih h
                rw [hlength, ← hsplit, hspan] at hplaces
                refine ⟨places, hplaces.skip (.past htoken hkind (.inr hpassed)) ?_⟩
                rintro u ⟨kind', first, hfirst, hkind', htaken, -⟩
                simp_all
              next htaken =>
                rw [← @isPassed_iff front rest] at htaken
                obtain ⟨types, htypes, rfl⟩ := map_eq_ok.mp h
                rw [← hlast] at htypes
                obtain ⟨places, hplaces⟩ := ih htypes
                rw [hlength, ← hsplit] at hplaces
                have htype : IsTypeAt Always (front ++ t :: rest) front.length
                    (defined kind t ((t :: rest).take t.span)) :=
                  ⟨kind, t, htoken, hkind, htaken, by rw [List.drop_left]⟩
                by_cases hcomposite : kind = .composite
                · subst hcomposite
                  exact ⟨_, hplaces.cons (.into htoken hkind htaken) (Nat.lt_succ_self _) htype⟩
                · rw [if_neg hcomposite, hspan] at hplaces
                  exact ⟨_, hplaces.cons (.past htoken hkind (.inl hcomposite)) (by omega) htype⟩

end found

/-! ### Schemas -/

/-- A type on the way through some token lists: at the place of a token list and a place in it. -/
def IsTypeIn (belongs : TypeKind → Prop) (runs : List (List Token)) (place : ℕ ×ₗ ℕ)
    (t : NamedType) : Prop :=
  ∃ tokens, runs[(ofLex place).1]? = some tokens ∧ Reaches belongs tokens 0 (ofLex place).2 ∧
    IsTypeAt belongs tokens (ofLex place).2 t

theorem IsTypeIn.unique {belongs : TypeKind → Prop} {runs : List (List Token)} (place : ℕ ×ₗ ℕ)
    (t u : NamedType) (ht : IsTypeIn belongs runs place t) (hu : IsTypeIn belongs runs place u) :
    t = u := by
  obtain ⟨tokens, htokens, -, ht⟩ := ht
  obtain ⟨tokens', htokens', -, hu⟩ := hu
  obtain rfl := Option.some.inj (htokens.symm.trans htokens')
  exact ht.unique hu

/-- The place in a list with one more token list in front. -/
def behind (place : ℕ ×ₗ ℕ) : ℕ ×ₗ ℕ := toLex ((ofLex place).1 + 1, (ofLex place).2)

/-- What is found in token lists that follow each other are the types on the way through them, in the
order of their places. -/
theorem isIndex_mapM_found {runs : List (List Token)} {types : List (List NamedType)}
    (h : runs.mapM (found false 0) = .ok types) :
    ∃ places, IsIndex (IsTypeIn Always runs) places types.flatten := by
  induction runs generalizing types with
  | nil =>
      rw [List.mapM_nil, pure_eq_ok] at h
      subst h
      refine ⟨[], .nil, .nil, ?_⟩
      rintro place t ⟨tokens, htokens, -⟩
      cases htokens
  | cons tokens runs ih =>
      simp only [List.mapM_cons, bind_eq_ok, pure_eq_ok] at h
      obtain ⟨own, hown, rest, hrest, rfl⟩ := h
      obtain ⟨places, hplaces⟩ := @isIndex_found [] tokens 0 own hown
      obtain ⟨placesRest, hplacesRest⟩ := ih hrest
      refine ⟨places.map (fun i => toLex (0, i)) ++ placesRest.map behind, ?_, ?_, ?_⟩
      · rw [List.pairwise_append, List.pairwise_map, List.pairwise_map]
        refine ⟨hplaces.sorted.imp fun hlt => ?_, hplacesRest.sorted.imp fun hlt => ?_, ?_⟩
        · exact Prod.Lex.toLex_lt_toLex.mpr (.inr ⟨rfl, hlt⟩)
        · rw [Prod.Lex.lt_iff] at hlt
          refine Prod.Lex.toLex_lt_toLex.mpr (hlt.imp Nat.succ_lt_succ ?_)
          exact And.imp_left (congrArg Nat.succ)
        · intro a ha b hb
          obtain ⟨i, -, rfl⟩ := List.mem_map.mp ha
          obtain ⟨place, -, rfl⟩ := List.mem_map.mp hb
          exact Prod.Lex.toLex_lt_toLex.mpr (.inl (Nat.succ_pos _))
      · rw [List.flatten_cons]
        refine List.rel_append ?_ ?_
        · exact List.forall₂_map_left_iff.mpr
            (hplaces.entries.imp fun i t ht => ⟨tokens, rfl, ht⟩)
        · exact List.forall₂_map_left_iff.mpr (hplacesRest.entries.imp fun place t ht => ht)
      · rintro ⟨k, i⟩ t ⟨tokens', htokens', ht⟩
        cases k with
        | zero =>
            obtain rfl := Option.some.inj htokens'
            exact List.mem_append_left _ (List.mem_map_of_mem (hplaces.complete i t ht))
        | succ k =>
            have hmem := hplacesRest.complete (toLex (k, i)) t ⟨tokens', htokens', ht⟩
            exact List.mem_append_right _ (List.mem_map_of_mem hmem)

/-- **First definition wins.**  The registry holds each name once, in an order of the types collected.
A name is registered exactly if a type of that name opens on the way through the schema; it stands for
the one at the first place on this way, whose run it holds. -/
theorem get?_eq_some_iff_first {s : Schema} {r : Registry} (h : ofSchema s = .ok r) :
    (∃ types, collect s = .ok types ∧ (types.map NamedType.name).Nodup ∧ r.types.Perm types) ∧
    (r.types.map NamedType.name).Nodup ∧
    (∀ name, (r.get? name).isSome ↔ name ∈ r.types.map NamedType.name) ∧
    (∀ name, (r.get? name).isSome ↔
      ∃ place t, IsTypeIn Always (s.types ++ s.messages) place t ∧ t.name = name) ∧
    ∀ name t, r.get? name = some t ↔ ∃ place, IsTypeIn Always (s.types ++ s.messages) place t ∧
      IsLeast {place | ∃ u, IsTypeIn Always (s.types ++ s.messages) place u ∧ u.name = name} place := by
  obtain ⟨types, htypes, hperm⟩ := perm_of_ofSchema h
  have hnodup := nodup_collect htypes
  have hnodup' := (hperm.map NamedType.name).nodup_iff.mpr hnodup
  obtain ⟨fs, hfs, -⟩ := collect_eq_ok.mp htypes
  obtain ⟨fss, hfss, rfl⟩ := map_eq_ok.mp hfs
  obtain ⟨places, hplaces⟩ := isIndex_mapM_found hfss
  have hget := get?_ofSchema h hfs
  refine ⟨⟨types, htypes, hnodup, hperm⟩, hnodup', fun name => ?_, fun name => ?_, fun name t => ?_⟩
  · simp [get?]
  · rw [hget, List.find?_isSome]
    constructor
    · rintro ⟨t, ht, hname⟩
      obtain ⟨place, hplace⟩ := hplaces.exists_of_mem_entries ht
      exact ⟨place, t, hplace, beq_iff_eq.mp hname⟩
    · rintro ⟨place, t, hplace, hname⟩
      exact ⟨t, hplaces.mem_entries IsTypeIn.unique hplace, beq_iff_eq.mpr hname⟩
  · rw [hget, hplaces.find?_eq_some_iff IsTypeIn.unique]
    simp only [beq_iff_eq]

/-! ### Types of the same name -/

namespace Flags

/-- An enum with no values. -/
def flag (length : Int) : List Token :=
  [{ signal := .beginEnum, name := "Flag", encodedLength := length, span := 2 },
   { signal := .endEnum, name := "Flag" }]

/-- A composite with an enum as its member. -/
def holder : List Token :=
  { signal := .beginComposite, name := "Holder", offset := 0, encodedLength := 1, span := 4 }
    :: (flag 1 ++ [{ signal := .endComposite, name := "Holder" }])

/-- The name of the member's type is defined once more. -/
def schema : Schema := { packageName := "demo", types := [holder, flag 8] }

/-- A group in front of an enum. -/
def grouped : Schema :=
  { packageName := "demo", types := [{ signal := .beginGroup, name := "entries" } :: flag 1] }

theorem ofSchema_schema : ofSchema schema = .ok
    ⟨[⟨"Flag", .enumeration, flag 1, []⟩, ⟨"Holder", .composite, holder, ["Flag"]⟩]⟩ :=
  toOption_eq_some.mp (by decide +kernel)

theorem ofSchema_grouped : ofSchema grouped = .ok ⟨[]⟩ := toOption_eq_some.mp (by decide +kernel)

end Flags

/-- The enum within the composite is the one that counts. -/
theorem get?_eq_some_iff_first_flag :
    ∃ r, ofSchema Flags.schema = .ok r ∧
      r.get? "Flag" = some ⟨"Flag", .enumeration, Flags.flag 1, []⟩ ∧
      ∃ place, IsTypeIn Always (Flags.schema.types ++ Flags.schema.messages) place
          ⟨"Flag", .enumeration, Flags.flag 1, []⟩ ∧
        IsLeast {place | ∃ u, IsTypeIn Always (Flags.schema.types ++ Flags.schema.messages) place u ∧
          u.name = "Flag"} place := by
  obtain ⟨-, -, -, -, hfirst⟩ := get?_eq_some_iff_first Flags.ofSchema_schema
  have hget : (⟨[⟨"Flag", .enumeration, Flags.flag 1, []⟩,
      ⟨"Holder", .composite, Flags.holder, ["Flag"]⟩]⟩ : Registry).get? "Flag"
      = some ⟨"Flag", .enumeration, Flags.flag 1, []⟩ := by decide
  exact ⟨_, Flags.ofSchema_schema, hget, (hfirst _ _).mp hget⟩

/-- An enum right behind the opening of a group is passed over, and not only the composite that would
stand there. -/
theorem grouped_flag_not_registered :
    ∃ r, ofSchema Flags.grouped = .ok r ∧ r.get? "Flag" = none ∧
      ¬ ∀ name, (r.get? name).isSome ↔ ∃ place t, IsTypeIn (· = .composite)
        (Flags.grouped.types ++ Flags.grouped.messages) place t ∧ t.name = name := by
  refine ⟨_, Flags.ofSchema_grouped, rfl, fun h => ?_⟩
  have hstep : Step (· = .composite) ({ signal := .beginGroup, name := "entries" } :: Flags.flag 1) 0 1 :=
    .next rfl rfl
  have hsome := (h "Flag").mpr ⟨toLex (0, 1), defined .enumeration _ (Flags.flag 1),
    ⟨_, rfl, .single hstep, .enumeration, _, rfl, rfl, ?_, rfl⟩, rfl⟩
  · cases hsome
  · rintro (⟨hkind, -⟩ | ⟨hkind, -⟩)
    · cases hkind
    · cases hkind

end WireCodec.Registry
