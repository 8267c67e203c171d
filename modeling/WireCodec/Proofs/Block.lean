import WireCodec.Layout
import WireCodec.Proofs.Outcome
/-! # The bytes of a block

`Layout.checkBlock` sorts the extents of a block and compares neighbours.  It accepts a block exactly
if the extents are apart in pairs and end within the block, in whatever order they come
(`checkBlock_decides`); fields without bytes are not looked at. -/

namespace WireCodec

namespace Extent

/-- No byte lies in both extents. -/
def Apart (a b : Extent) : Prop :=
  ∀ p, ¬ (a.start ≤ p ∧ p < a.ending ∧ b.start ≤ p ∧ p < b.ending)

theorem apart_iff {a b : Extent} :
    a.Apart b ↔
      a.ending ≤ b.start ∨ b.ending ≤ a.start ∨ a.ending ≤ a.start ∨ b.ending ≤ b.start := by
  unfold Apart
  constructor
  · intro h
    have := h (max a.start b.start)
    omega
  · intro h p
    omega

theorem Apart.symm {a b : Extent} (h : a.Apart b) : b.Apart a := by
  rw [apart_iff] at h ⊢
  omega

theorem Apart.mono {a b a' b' : Extent} (h : a.Apart b) (ha : a.start ≤ a'.start)
    (ha' : a'.ending ≤ a.ending) (hb : b.start ≤ b'.start) (hb' : b'.ending ≤ b.ending) :
    a'.Apart b' := by
  intro p hp
  exact h p (by omega)

end Extent

/-- The bytes of a field, by its stated length. -/
def FieldLayout.extent (f : FieldLayout) : Extent := ⟨f.name, f.offset, f.offset + f.length⟩

namespace Layout

/-! ### Neighbours -/

theorem checkApart_eq_ok_iff (owner : String) {a b : Extent} {rest : List Extent} :
    checkApart owner (a :: b :: rest) = .ok () ↔
      a.ending ≤ b.start ∧ checkApart owner (b :: rest) = .ok () := by
  rw [checkApart, guard_eq_ok, Nat.not_lt]

/-- Where neighbours are apart and none ends before it starts, each ends before all later ones
start. -/
theorem pairwise_of_checkApart {owner : String} : ∀ {l : List Extent},
    (∀ e ∈ l, e.start ≤ e.ending) → checkApart owner l = .ok () →
    l.Pairwise fun a b => a.ending ≤ b.start
  | [], _, _ => .nil
  | [a], _, _ => List.pairwise_singleton _ a
  | a :: b :: rest, hl, h => by
      obtain ⟨hab, h⟩ := (checkApart_eq_ok_iff owner).mp h
      have ih := pairwise_of_checkApart (fun e he => hl e (List.mem_cons_of_mem a he)) h
      refine .cons ?_ ih
      intro c hc
      rcases List.mem_cons.mp hc with rfl | hc
      · exact hab
      · have hbc := List.rel_of_pairwise_cons ih hc
        have hb := hl b (by simp)
        omega

/-- Sorted extents with bytes that are apart in pairs have neighbours that are apart. -/
theorem checkApart_of_pairwise {owner : String} : ∀ {l : List Extent},
    (∀ e ∈ l, e.start < e.ending) → l.Pairwise (precedes · ·) → l.Pairwise Extent.Apart →
    checkApart owner l = .ok ()
  | [], _, _, _ => rfl
  | [_], _, _, _ => rfl
  | a :: b :: rest, hl, hs, hp => by
      have ha := hl a (by simp)
      have hb := hl b (by simp)
      have hab := Extent.apart_iff.mp (List.rel_of_pairwise_cons hp List.mem_cons_self)
      have hle := List.rel_of_pairwise_cons hs List.mem_cons_self
      rw [checkApart_eq_ok_iff]
      constructor
      · simp only [precedes, Bool.or_eq_true, Bool.and_eq_true, decide_eq_true_eq,
          beq_iff_eq] at hle
        omega
      · exact checkApart_of_pairwise (fun e he => hl e (List.mem_cons_of_mem a he)) hs.of_cons
          hp.of_cons

theorem pairwise_precedes (l : List Extent) : (l.mergeSort precedes).Pairwise (precedes · ·) := by
  apply List.pairwise_mergeSort
  · intro a b c hab hbc
    simp only [precedes, Bool.or_eq_true, Bool.and_eq_true, decide_eq_true_eq, beq_iff_eq] at *
    omega
  · intro a b
    simp only [precedes, Bool.or_eq_true, Bool.and_eq_true, decide_eq_true_eq, beq_iff_eq]
    omega

theorem ending_le_getLast : ∀ {l : List Extent} {last : Extent},
    (∀ e ∈ l, e.start ≤ e.ending) → l.Pairwise (fun a b => a.ending ≤ b.start) →
    l.getLast? = some last → ∀ e ∈ l, e.ending ≤ last.ending
  | [], _, _, _, _ => by simp
  | [a], last, _, _, h => by
      obtain rfl : a = last := by simpa using h
      simp
  | a :: b :: rest, last, hl, hp, h => by
      have h' : (b :: rest).getLast? = some last := by rwa [List.getLast?_cons_cons] at h
      have ih := ending_le_getLast (fun e he => hl e (List.mem_cons_of_mem a he)) hp.of_cons h'
      intro e he
      rcases List.mem_cons.mp he with rfl | he
      · have hab := List.rel_of_pairwise_cons hp List.mem_cons_self
        have hb := hl b (by simp)
        have := ih b List.mem_cons_self
        omega
      · exact ih e he

/-! ### The check -/

theorem mem_extents {fields : List FieldLayout} {e : Extent} :
    e ∈ extents fields ↔ ∃ f ∈ fields, 0 < f.length ∧ f.extent = e := by
  simp [extents, FieldLayout.extent, and_assoc]

theorem start_lt_ending_of_mem_extents {fields : List FieldLayout} {e : Extent}
    (h : e ∈ extents fields) : e.start < e.ending := by
  obtain ⟨f, _, hf, rfl⟩ := mem_extents.mp h
  exact Nat.lt_add_of_pos_right hf

theorem pairwise_extents {fields : List FieldLayout} :
    (extents fields).Pairwise Extent.Apart ↔
      fields.Pairwise fun f g => f.extent.Apart g.extent := by
  unfold extents
  rw [List.pairwise_map, List.pairwise_filter]
  refine List.Pairwise.iff fun f g => ?_
  simp only [decide_eq_true_eq, Extent.apart_iff, FieldLayout.extent]
  omega

/-- What the check says of the extents, taken as they are sorted. -/
theorem checkBlock_eq_ok_iff_sorted {owner : String} {fields : List FieldLayout} {limit : Option Nat} :
    checkBlock owner fields limit = .ok () ↔
      checkApart owner ((extents fields).mergeSort precedes) = .ok () ∧
        ∀ bound, limit = some bound → ∀ last,
          ((extents fields).mergeSort precedes).getLast? = some last → last.ending ≤ bound := by
  unfold checkBlock
  rw [bind_eq_ok]
  constructor
  · rintro ⟨⟨⟩, h, h'⟩
    refine ⟨h, ?_⟩
    rintro bound rfl last hlast
    simp only [hlast] at h'
    by_contra hlt
    simp [Nat.lt_of_not_le hlt] at h'
  · rintro ⟨h, h'⟩
    refine ⟨(), h, ?_⟩
    cases hlast : ((extents fields).mergeSort precedes).getLast? with
    | none => cases limit <;> rfl
    | some last =>
        cases limit with
        | none => rfl
        | some bound =>
            have hle := h' bound rfl last hlast
            simp [Nat.not_lt.mpr hle]

/-- The check accepts exactly the fields that share no byte and end within the block, if its length is
given. -/
theorem checkBlock_eq_ok_iff_apart {owner : String} {fields : List FieldLayout} {limit : Option Nat} :
    checkBlock owner fields limit = .ok () ↔
      (fields.Pairwise fun f g => f.extent.Apart g.extent) ∧
        ∀ bound, limit = some bound → ∀ f ∈ fields, 0 < f.length → f.offset + f.length ≤ bound := by
  have hperm := List.mergeSort_perm (extents fields) precedes
  have hlt : ∀ e ∈ (extents fields).mergeSort precedes, e.start < e.ending := by
    intro e he
    exact start_lt_ending_of_mem_extents (hperm.mem_iff.mp he)
  have hle := fun e he => Nat.le_of_lt (hlt e he)
  have hall : ∀ bound, (∀ f ∈ fields, 0 < f.length → f.offset + f.length ≤ bound) ↔
      ∀ e ∈ (extents fields).mergeSort precedes, e.ending ≤ bound := by
    intro bound
    simp only [List.mem_mergeSort, mem_extents]
    constructor
    · rintro h e ⟨f, hf, hpos, rfl⟩
      exact h f hf hpos
    · intro h f hf hpos
      exact h f.extent ⟨f, hf, hpos, rfl⟩
  simp only [checkBlock_eq_ok_iff_sorted, hall, ← pairwise_extents]
  rw [← hperm.pairwise_iff fun h => Extent.Apart.symm h]
  constructor
  · rintro ⟨h, hlast⟩
    have hp := pairwise_of_checkApart hle h
    refine ⟨hp.imp fun h => Extent.apart_iff.mpr (.inl h), fun bound hbound e he => ?_⟩
    have hl := List.getLast?_eq_some_getLast (List.ne_nil_of_mem he)
    have hend := hlast bound hbound _ hl
    exact Nat.le_trans (ending_le_getLast hle hp hl e he) hend
  · rintro ⟨hp, hend⟩
    refine ⟨checkApart_of_pairwise hlt (pairwise_precedes _) hp, fun bound hbound last hl => ?_⟩
    exact hend bound hbound last (List.mem_of_getLast? hl)

theorem checkBlock_eq_ok_iff {owner : String} {fields : List FieldLayout} {limit : Nat} :
    checkBlock owner fields (some limit) = .ok () ↔
      (fields.Pairwise fun f g => f.extent.Apart g.extent) ∧
        ∀ f ∈ fields, 0 < f.length → f.offset + f.length ≤ limit := by
  rw [checkBlock_eq_ok_iff_apart]
  simp only [Option.some.injEq, forall_eq']

/-- **The check of a block** accepts exactly the fields whose bytes are disjoint in pairs and, where a
limit is given, end at or before it; fields without bytes are left out.  So the order of the fields
does not matter. -/
theorem checkBlock_decides (owner : String) (fields : List FieldLayout) (limit : Option Nat) :
    (checkBlock owner fields limit = .ok () ↔
      ((fields.filter (0 < ·.length)).Pairwise fun f g => f.extent.Apart g.extent) ∧
        ∀ bound, limit = some bound → ∀ f ∈ fields, 0 < f.length → f.offset + f.length ≤ bound) ∧
    ∀ others : List FieldLayout, others.Perm fields →
      (checkBlock owner others limit = .ok () ↔ checkBlock owner fields limit = .ok ()) := by
  have hpositive : (fields.filter (0 < ·.length)).Pairwise (fun f g => f.extent.Apart g.extent) ↔
      fields.Pairwise fun f g => f.extent.Apart g.extent := by
    have hextents : (extents fields).Pairwise Extent.Apart ↔ _ := pairwise_extents
    rwa [extents, List.pairwise_map] at hextents
  refine ⟨?_, ?_⟩
  · rw [checkBlock_eq_ok_iff_apart, hpositive]
  · intro others hperm
    have hpairs := hperm.pairwise_iff (R := fun f g : FieldLayout => f.extent.Apart g.extent)
      fun h => h.symm
    have hmem : ∀ f, f ∈ others ↔ f ∈ fields := fun _ => hperm.mem_iff
    rw [checkBlock_eq_ok_iff_apart, checkBlock_eq_ok_iff_apart, hpairs]
    simp only [hmem]

end Layout
end WireCodec
