import Mathlib.Data.List.Forall2
import WireCodec.Fault
/-! # Outcomes

An outcome is a result or a fault.  A sequence of steps succeeds with a result exactly if every step
does (`bind_eq_ok`, `mapM_eq_ok`), so a development that succeeds can be taken apart, and it fails with
the fault of one of them (`bind_eq_error`, `exists_of_mapM_eq_error`).

`OnlyText x` says that nothing but the text of a schema can make `x` fail: a literal that cannot be
read or a character encoding that cannot be expressed.  It is kept by sequences of steps. -/

namespace WireCodec

variable {ε α β : Type}

/-! ### Success -/

@[simp] theorem pure_eq_ok {a b : α} : (pure a : Except ε α) = .ok b ↔ a = b := by
  simp [pure, Except.pure]

@[simp] theorem throw_ne_ok {e : ε} {b : α} : (throw e : Except ε α) ≠ .ok b := by
  simp [throw, throwThe, MonadExceptOf.throw]

theorem bind_eq_ok {x : Except ε α} {f : α → Except ε β} {b : β} :
    (x >>= f) = .ok b ↔ ∃ a, x = .ok a ∧ f a = .ok b := by
  cases x <;> simp [bind, Except.bind]

theorem map_eq_ok {x : Except ε α} {f : α → β} {b : β} :
    (f <$> x) = .ok b ↔ ∃ a, x = .ok a ∧ f a = b := by
  cases x <;> simp [Functor.map, Except.map]

theorem except_map_eq_ok {x : Except ε α} {f : α → β} {b : β} :
    x.map f = .ok b ↔ ∃ a, x = .ok a ∧ f a = b := map_eq_ok

theorem mapError_eq_ok {δ : Type} {x : Except ε α} {f : ε → δ} {a : α} :
    x.mapError f = .ok a ↔ x = .ok a := by
  cases x <;> simp [Except.mapError]

theorem toOption_eq_some {x : Except ε α} {a : α} : x.toOption = some a ↔ x = .ok a := by
  cases x <;> simp [Except.toOption]

theorem guard_eq_ok {c : Prop} [Decidable c] {e : ε} {x : Except ε α} {b : α} :
    (if c then .error e else x) = .ok b ↔ ¬ c ∧ x = .ok b := by
  split <;> simp_all

theorem mapM_eq_ok {f : α → Except ε β} {xs : List α} {ys : List β} :
    xs.mapM f = .ok ys ↔ List.Forall₂ (fun x y => f x = .ok y) xs ys := by
  induction xs generalizing ys with
  | nil =>
      rw [List.mapM_nil, pure_eq_ok, List.forall₂_nil_left_iff]
      exact eq_comm
  | cons x xs ih =>
      simp only [List.mapM_cons, bind_eq_ok, pure_eq_ok, ih, List.forall₂_cons_left_iff]
      constructor
      · rintro ⟨y, hy, zs, hzs, rfl⟩
        exact ⟨y, zs, hy, hzs, rfl⟩
      · rintro ⟨y, zs, hy, hzs, rfl⟩
        exact ⟨y, hy, zs, hzs, rfl⟩

/-- Two passes over a list that succeed can be made as one. -/
theorem mapM_of_mapM {γ : Type} {f : α → Except ε β} {g : β → Except ε γ} {xs : List α} {ys : List β}
    {zs : List γ} (hf : xs.mapM f = .ok ys) (hg : ys.mapM g = .ok zs) :
    xs.mapM (fun x => do g (← f x)) = .ok zs := by
  rw [mapM_eq_ok] at hf hg ⊢
  induction hf generalizing zs with
  | nil =>
      obtain rfl := List.forall₂_nil_left_iff.mp hg
      exact .nil
  | cons hxy _ ih =>
      obtain ⟨z, zs, hz, hzs, rfl⟩ := List.forall₂_cons_left_iff.mp hg
      exact .cons (bind_eq_ok.mpr ⟨_, hxy, hz⟩) (ih hzs)

theorem ok_of_mapM_eq_ok {f : α → Except ε β} {xs : List α} {ys : List β} (h : xs.mapM f = .ok ys)
    {x : α} (hx : x ∈ xs) : ∃ y ∈ ys, f x = .ok y := by
  rw [mapM_eq_ok] at h
  induction h with
  | nil => cases hx
  | cons hxy _ ih =>
      rcases List.mem_cons.mp hx with rfl | hx
      · exact ⟨_, List.mem_cons_self, hxy⟩
      · obtain ⟨y, hy, h⟩ := ih hx
        exact ⟨y, List.mem_cons_of_mem _ hy, h⟩

theorem exists_of_mapM_eq_ok {f : α → Except ε β} {xs : List α} {ys : List β}
    (h : xs.mapM f = .ok ys) {y : β} (hy : y ∈ ys) : ∃ x ∈ xs, f x = .ok y := by
  rw [mapM_eq_ok] at h
  induction h with
  | nil => cases hy
  | cons hxy _ ih =>
      rcases List.mem_cons.mp hy with rfl | hy
      · exact ⟨_, List.mem_cons_self, hxy⟩
      · obtain ⟨x, hx, h⟩ := ih hy
        exact ⟨x, List.mem_cons_of_mem _ hx, h⟩

/-- What every step says of its result holds of all results. -/
theorem map_eq_map_of_mapM {γ : Type} {f : α → Except ε β} {p : β → γ} {q : α → γ} {xs : List α}
    {ys : List β} (hf : ∀ x y, f x = .ok y → p y = q x) (h : xs.mapM f = .ok ys) :
    ys.map p = xs.map q := by
  rw [mapM_eq_ok] at h
  induction h with
  | nil => rfl
  | cons hxy _ ih => rw [List.map_cons, List.map_cons, hf _ _ hxy, ih]

/-- What relates the results in pairs relates what they are the results of. -/
theorem pairwise_of_mapM {R : β → β → Prop} {f : α → Except ε β} {xs : List α} {ys : List β}
    (h : xs.mapM f = .ok ys) (hp : ys.Pairwise R) :
    xs.Pairwise fun x x' => ∀ y y', f x = .ok y → f x' = .ok y' → R y y' := by
  rw [mapM_eq_ok] at h
  induction h with
  | nil => exact .nil
  | cons hxy tail ih =>
      obtain ⟨hhead, hp⟩ := List.pairwise_cons.mp hp
      refine .cons ?_ (ih hp)
      intro x' hx' z z' hz hz'
      obtain ⟨y', hy', hxy'⟩ := ok_of_mapM_eq_ok (mapM_eq_ok.mpr tail) hx'
      rw [← Except.ok.inj (hxy.symm.trans hz), ← Except.ok.inj (hxy'.symm.trans hz')]
      exact hhead y' hy'

/-- A step for each of two lists that belong together. -/
theorem mapM_isOk_of_forall₂ {γ : Type} {R : α → β → Prop} {P : α → γ → Prop} {f : β → Except ε γ}
    {xs : List α} {ys : List β} (h : List.Forall₂ R xs ys)
    (hf : ∀ x ∈ xs, ∀ y, R x y → ∃ z, f y = .ok z ∧ P x z) :
    ∃ zs, ys.mapM f = .ok zs ∧ List.Forall₂ P xs zs := by
  induction h with
  | nil => exact ⟨[], rfl, .nil⟩
  | cons hxy _ ih =>
      obtain ⟨z, hz, hp⟩ := hf _ List.mem_cons_self _ hxy
      obtain ⟨zs, hzs, hps⟩ := ih fun x hx => hf x (List.mem_cons_of_mem _ hx)
      exact ⟨z :: zs, mapM_eq_ok.mpr (.cons hz (mapM_eq_ok.mp hzs)), .cons hp hps⟩

theorem forall_of_forall₂ {P : β → Prop} {xs : List α} {ys : List β}
    (h : List.Forall₂ (fun _ y => P y) xs ys) : ∀ y ∈ ys, P y := by
  induction h with
  | nil =>
      intro y hy
      cases hy
  | cons hy _ ih => exact List.forall_mem_cons.mpr ⟨hy, ih⟩

/-! ### Failure -/

@[simp] theorem pure_ne_error {a : α} {e : ε} : (pure a : Except ε α) ≠ .error e := by
  simp [pure, Except.pure]

theorem bind_eq_error {x : Except ε α} {f : α → Except ε β} {e : ε} :
    (x >>= f) = .error e ↔ x = .error e ∨ ∃ a, x = .ok a ∧ f a = .error e := by
  cases x <;> simp [bind, Except.bind]

theorem map_eq_error {x : Except ε α} {f : α → β} {e : ε} :
    (f <$> x) = .error e ↔ x = .error e := by
  cases x <;> simp [Functor.map, Except.map]

theorem except_map_eq_error {x : Except ε α} {f : α → β} {e : ε} :
    x.map f = .error e ↔ x = .error e := map_eq_error

/-- Where one of the steps of a list fails, the first that fails does so. -/
theorem exists_of_mapM_eq_error {f : α → Except ε β} {e : ε} : ∀ {xs : List α},
    xs.mapM f = .error e →
    ∃ front x back, xs = front ++ x :: back ∧ (∀ u ∈ front, ∃ y, f u = .ok y) ∧ f x = .error e
  | [], h => by
      rw [List.mapM_nil] at h
      exact absurd h pure_ne_error
  | x :: xs, h => by
      rw [List.mapM_cons] at h
      rcases bind_eq_error.mp h with hx | ⟨y, hx, h⟩
      · exact ⟨[], x, xs, rfl, fun _ h => absurd h List.not_mem_nil, hx⟩
      · rcases bind_eq_error.mp h with hxs | ⟨ys, -, h⟩
        · obtain ⟨front, z, back, rfl, hfront, hz⟩ := exists_of_mapM_eq_error hxs
          refine ⟨x :: front, z, back, rfl, ?_, hz⟩
          exact List.forall_mem_cons.mpr ⟨⟨y, hx⟩, hfront⟩
        · exact absurd h pure_ne_error

/-! ### Two outcomes -/

/-- Both outcomes are the same fault, or both are results, which are related. -/
inductive Alike (R : α → β → Prop) : Except ε α → Except ε β → Prop
  | ok {a : α} {b : β} (h : R a b) : Alike R (.ok a) (.ok b)
  | error (e : ε) : Alike R (.error e) (.error e)

namespace Alike

variable {γ δ : Type} {R : α → β → Prop} {S : γ → δ → Prop}

theorem refl (x : Except ε α) : Alike (· = ·) x x := by
  cases x with
  | ok a => exact .ok rfl
  | error e => exact .error e

theorem bind {x : Except ε α} {y : Except ε β} {f : α → Except ε γ} {g : β → Except ε δ}
    (h : Alike R x y) (hfg : ∀ a b, R a b → Alike S (f a) (g b)) : Alike S (x >>= f) (y >>= g) := by
  cases h with
  | ok h => exact hfg _ _ h
  | error e => exact .error e

/-- Both go on from the same outcome. -/
theorem same (x : Except ε α) {f : α → Except ε γ} {g : α → Except ε δ}
    (h : ∀ a, Alike S (f a) (g a)) : Alike S (x >>= f) (x >>= g) :=
  (refl x).bind fun a _ hab => hab ▸ h a

theorem mapM {f : γ → Except ε α} {g : γ → Except ε β} (h : ∀ c, Alike R (f c) (g c)) :
    ∀ cs : List γ, Alike (List.Forall₂ R) (cs.mapM f) (cs.mapM g)
  | [] => .ok .nil
  | c :: cs => by
      rw [List.mapM_cons, List.mapM_cons]
      exact (h c).bind fun _ _ hab => (mapM h cs).bind fun _ _ hs => .ok (.cons hab hs)

theorem map_eq {x : Except ε α} {y : Except ε β} {f : α → β} (h : Alike R x y)
    (hf : ∀ a b, R a b → f a = b) : f <$> x = y := by
  cases h with
  | ok h => exact congrArg Except.ok (hf _ _ h)
  | error e => rfl

theorem exists_of_ok {x : Except ε α} {y : Except ε β} (h : Alike R x y) {a : α} (hx : x = .ok a) :
    ∃ b, y = .ok b ∧ R a b := by
  cases h with
  | ok h =>
      cases hx
      exact ⟨_, rfl, h⟩
  | error e => cases hx

end Alike

/-! ### Failure for the sake of a text -/

/-- Is the fault one of a text: a literal or the name of a character encoding? -/
def Fault.isText : Fault → Bool
  | .invalidLiteral .. | .unsupportedEncoding .. => true
  | _ => false

/-- A fault of a text is no defect of the schema's structure. -/
theorem Fault.isStructural_of_isText {e : Fault} (h : e.isText) : e.isStructural = false := by
  cases e <;> first | rfl | cases h

/-- Only the text of a schema can make the outcome a fault. -/
def OnlyText (x : Except Fault α) : Prop := ∀ e, x = .error e → e.isText

theorem onlyText_ok (a : α) : OnlyText (.ok a) := by
  intro e h
  cases h

theorem onlyText_error {e : Fault} (h : e.isText) : OnlyText (.error e : Except Fault α) := by
  intro e' h'
  cases h'
  exact h

theorem OnlyText.bind {x : Except Fault α} {f : α → Except Fault β} (hx : OnlyText x)
    (hf : ∀ a, x = .ok a → OnlyText (f a)) : OnlyText (x >>= f) := by
  cases x with
  | ok a => exact hf a rfl
  | error e => exact onlyText_error (hx e rfl)

theorem OnlyText.map {x : Except Fault α} (hx : OnlyText x) (f : α → β) : OnlyText (f <$> x) := by
  cases x with
  | ok a => exact onlyText_ok (f a)
  | error e => exact onlyText_error (hx e rfl)

theorem onlyText_mapM {f : α → Except Fault β} : ∀ {xs : List α}, (∀ x ∈ xs, OnlyText (f x)) →
    OnlyText (xs.mapM f)
  | [], _ => onlyText_ok []
  | x :: xs, h => by
      rw [List.mapM_cons]
      refine (h x List.mem_cons_self).bind fun y _ => ?_
      exact (onlyText_mapM fun z hz => h z (List.mem_cons_of_mem _ hz)).bind fun ys _ =>
        onlyText_ok (y :: ys)

end WireCodec
