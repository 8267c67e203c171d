import WireCodec.Command.Request
import WireCodec.Proofs.Outcome
/-! # A flag in front

Flags do not depend on each other and may stand anywhere, so arguments with one more flag in front ask
for the same with that flag, unless it is among them already (`ofArguments_flag`).  `Carries` says this of
each step that reads arguments, and that flags which have been read stay. -/

namespace WireCodec.Command

/-- The argument that is the flag. -/
def Flag.argument : Flag → String
  | singleFile => "--single-file"
  | noDocs => "--no-docs"
  | dryRun => "--dry-run"
  | force => "--force"
  | listOnly => "--list-only"

namespace Options

/-- Do the options say what the flag says? -/
def has (o : Options) : Flag → Bool
  | .singleFile => o.arrangement == .singleFile
  | .noDocs => !o.docs
  | .dryRun => o.dryRun
  | .force => o.force
  | .listOnly => o.listOnly

/-- The options with what the flag says. -/
def set (o : Options) : Flag → Options
  | .singleFile => { o with arrangement := .singleFile }
  | .noDocs => { o with docs := false }
  | .dryRun => { o with dryRun := true }
  | .force => { o with force := true }
  | .listOnly => { o with listOnly := true }

end Options

namespace Draft

variable {f : Flag} {d : Draft}

/-- The draft as it is read behind one more flag. -/
def behind (f : Flag) (d : Draft) : Draft := { d with flags := f :: d.flags }

/-- Reading keeps the flags of a draft; and unless it finds the flag again, it ends in the same way behind
that flag. -/
def Carries (f : Flag) (d : Draft) (r r' : Except Interruption (Draft × Option Setting)) : Prop :=
  ∀ e waiting, r = .ok (e, waiting) →
    d.flags ⊆ e.flags ∧ (f ∉ e.flags → r' = .ok (e.behind f, waiting))

theorem Carries.error (i : Interruption) (r : Except Interruption (Draft × Option Setting)) :
    Carries f d (.error i) r := by
  intro e waiting h
  cases h

theorem Carries.same (waiting : Option Setting) :
    Carries f d (.ok (d, waiting)) (.ok (d.behind f, waiting)) := by
  intro e waiting h
  cases h
  exact ⟨List.Subset.refl _, fun _ => rfl⟩

theorem Carries.bind {r r' : Except Interruption (Draft × Option Setting)} (h : Carries f d r r')
    (next : Draft → Option Setting → Except Interruption (Draft × Option Setting))
    (hnext : ∀ e waiting, Carries f e (next e waiting) (next (e.behind f) waiting)) :
    Carries f d (r >>= fun x => next x.1 x.2) (r' >>= fun x => next x.1 x.2) := by
  intro e waiting hok
  obtain ⟨⟨between, waits⟩, hr, hrest⟩ := bind_eq_ok.mp hok
  obtain ⟨hflags, hbehind⟩ := h between waits hr
  obtain ⟨hflags', hbehind'⟩ := hnext between waits e waiting hrest
  refine ⟨fun g hg => hflags' (hflags hg), fun hnone => ?_⟩
  have hbetween : f ∉ between.flags := fun hmem => hnone (hflags' hmem)
  rw [hbehind hbetween]
  exact hbehind' hnone

/-! ### Single steps -/

theorem carries_set (s : Setting) (value : String) :
    Carries f d ((d.set s value).map (·, none)) (((d.behind f).set s value).map (·, none)) := by
  unfold set
  have hvalues : (d.behind f).values = d.values := rfl
  rw [hvalues]
  split
  · exact .error _ _
  split
  · exact .error _ _
  · intro e waiting h
    cases h
    exact ⟨List.Subset.refl _, fun _ => rfl⟩

theorem carries_follow (argument : String) (switch : Switch) :
    Carries f d ((d.follow argument switch).map (·, none))
      (((d.behind f).follow argument switch).map (·, none)) := by
  cases switch with
  | flag g =>
      simp only [follow]
      split
      · exact .error _ _
      next hnew =>
        intro e waiting h
        cases h
        refine ⟨fun x hx => List.mem_append_left _ hx, fun hnone => ?_⟩
        have hne : g ≠ f := by
          rintro rfl
          exact hnone (List.mem_append_right _ (List.mem_singleton_self _))
        have hcontains : (d.behind f).flags.contains g = false := by
          simp only [behind, List.contains_cons, Bool.or_eq_false_iff, beq_eq_false_iff_ne]
          exact ⟨hne, by simpa using hnew⟩
        rw [hcontains]
        rfl
  | setting s => exact .error _ _
  | verbose =>
      intro e waiting h
      cases h
      exact ⟨List.Subset.refl _, fun _ => rfl⟩
  | version => exact .error _ _
  | help => exact .error _ _

theorem carries_short (argument : String) : ∀ (cs : List Char) (d : Draft),
    Carries f d (d.short argument cs) ((d.behind f).short argument cs)
  | [], d => .same none
  | c :: cs, d => by
      have hrest : ∀ switch, Carries f d
          ((d.follow argument switch).map (·, none) >>= fun x : Draft × Option Setting =>
            x.1.short argument cs)
          (((d.behind f).follow argument switch).map (·, none) >>= fun x : Draft × Option Setting =>
            x.1.short argument cs) := fun switch =>
        (carries_follow argument switch).bind _ fun e _ => carries_short argument cs e
      unfold short
      split
      · exact .error _ _
      · exact .same _
      · exact carries_set _ _
      · exact carries_set _ _
      next switch _ _ _ _ =>
        have h := hrest switch
        generalize d.follow argument switch = r at h ⊢
        generalize (d.behind f).follow argument switch = r' at h ⊢
        cases r <;> cases r' <;> exact h

theorem carries_long (argument : String) (cs : List Char) :
    Carries f d (d.long argument cs) ((d.behind f).long argument cs) := by
  unfold long
  dsimp only
  split
  · exact .error _ _
  · exact .same _
  · exact carries_set _ _
  · exact carries_follow argument _
  · exact .error _ _

theorem carries_argument (text : String) :
    Carries f d (d.argument text) ((d.behind f).argument text) := by
  unfold argument
  split
  · exact carries_long text _
  · exact carries_short text _ d
  · exact .error _ _

/-! ### All arguments -/

theorem carries_read : ∀ (arguments : List String) (d : Draft) (waiting : Option Setting),
    Carries f d ((d.read waiting arguments).map (·, none))
      (((d.behind f).read waiting arguments).map (·, none))
  | [], d, none => .same none
  | [], d, some s => .error _ _
  | text :: rest, d, some s => by
      have h := (carries_set (f := f) (d := d) s text).bind
        (fun e _ => (e.read none rest).map (·, none)) fun e _ => carries_read rest e none
      rw [read, read]
      split
      · exact .error _ _
      · generalize d.set s text = r at h ⊢
        generalize (d.behind f).set s text = r' at h ⊢
        cases r <;> cases r' <;> exact h
  | text :: rest, d, none => by
      have h := (carries_argument (f := f) (d := d) text).bind
        (fun e w => (e.read w rest).map (·, none)) fun e w => carries_read rest e w
      rw [read.eq_def, read.eq_def]
      dsimp only
      split
      · cases rest with
        | nil => exact .same none
        | cons next rest => exact .error _ _
      · generalize d.argument text = r at h ⊢
        generalize (d.behind f).argument text = r' at h ⊢
        cases r <;> cases r' <;> exact h

/-- **A flag in front.**  What arguments ask for, without some flag, they ask for behind that flag as
well. -/
theorem read_behind {arguments : List String} {e : Draft} (h : d.read none arguments = .ok e)
    (hnone : f ∉ e.flags) : (d.behind f).read none arguments = .ok (e.behind f) := by
  have hmap : (d.read none arguments).map (·, none) = .ok (e, (none : Option Setting)) := by
    rw [h]
    rfl
  obtain ⟨_, hbehind⟩ := carries_read (f := f) arguments d none e none hmap
  obtain ⟨e', he', heq⟩ := except_map_eq_ok.mp (hbehind hnone)
  rw [he', (Prod.mk.inj heq).1]

/-- Options with a flag have it among the flags of their draft. -/
theorem mem_flags_iff {e : Draft} {o : Options} (h : e.options = .ok o) :
    f ∈ e.flags ↔ o.has f := by
  rw [← List.contains_iff_mem]
  unfold options at h
  dsimp only at h
  generalize e.values.lookup .document = document at h
  generalize e.values.lookup .directory = directory at h
  cases document <;> cases directory <;> cases h <;> cases f <;> simp [Options.has]

theorem options_behind {e : Draft} {o : Options} (h : e.options = .ok o) :
    (e.behind f).options = .ok (o.set f) := by
  have hvalues : (e.behind f).values = e.values := rfl
  unfold options at h ⊢
  rw [hvalues]
  dsimp only at h ⊢
  generalize e.values.lookup .document = document at h ⊢
  generalize e.values.lookup .directory = directory at h ⊢
  cases document <;> cases directory <;> cases h <;> cases f <;> rfl

theorem argument_flag (f : Flag) :
    ({} : Draft).argument f.argument = .ok (({} : Draft).behind f, none) := by
  cases f <;> decide

end Draft

/-- **A flag more.**  Arguments that ask for a run without some flag ask behind that flag for the same run
with it. -/
theorem ofArguments_flag (f : Flag) {arguments : List String} {o : Options}
    (h : Request.ofArguments arguments = .run o) (hnone : o.has f = false) :
    Request.ofArguments (f.argument :: arguments) = .run (o.set f) := by
  have hfirst : ({} : Draft).read none (f.argument :: arguments)
      = (({} : Draft).behind f).read none arguments := by
    have hplain : f.argument ≠ "--" := by cases f <;> decide
    rw [Draft.read.eq_def]
    dsimp only
    rw [if_neg hplain, Draft.argument_flag]
  unfold Request.ofArguments at h ⊢
  rw [hfirst]
  cases hread : ({} : Draft).read none arguments with
  | error i =>
      rw [hread] at h
      cases i <;> cases h
  | ok e =>
      rw [hread] at h
      dsimp only at h
      cases hoptions : e.options with
      | error m =>
          rw [hoptions] at h
          cases h
      | ok o' =>
          rw [hoptions] at h
          obtain rfl := Request.run.inj h
          have hnew : f ∉ e.flags := by
            rw [Draft.mem_flags_iff hoptions, hnone]
            exact Bool.false_ne_true
          rw [Draft.read_behind hread hnew]
          dsimp only
          rw [Draft.options_behind hoptions]

/-- Arguments that ask for a run ask for a dry run behind one more. -/
theorem ofArguments_dryRun {arguments : List String} {o : Options}
    (h : Request.ofArguments arguments = .run o) (hreal : o.dryRun = false) :
    Request.ofArguments ("--dry-run" :: arguments) = .run { o with dryRun := true } :=
  ofArguments_flag .dryRun h hreal

end WireCodec.Command
