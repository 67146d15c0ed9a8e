/-
# Step systems and their guarded runs

A step system is a set of initial states and a guarded, executable step: `step s a` is
`some s'` when action `a` is enabled in `s`, and `none` otherwise.  One definition serves
both uses: a concrete schedule is replayed with `run` (and evaluated by `decide`), and a
property of every run is proved with `Reach.invariant`.

`Reach ok` restricts the runs to those whose every step `s -a->` meets the side condition
`ok s a`.  With `ok` trivial it is plain reachability (`Reachable`).  The side condition is
how a property that fails in general is proved of the runs that avoid the defect: the
condition speaks of the state BEFORE each step, never of the state the step produces.
-/
universe u v w

/-- Initial states and an executable step. -/
structure StepSystem (σ : Type u) (α : Type v) where
  init : σ → Prop
  step : σ → α → Option σ

namespace StepSystem

variable {σ : Type u} {α : Type v} {S : StepSystem σ α}

/-- The states reached by runs whose steps all meet `ok`. -/
inductive Reach (S : StepSystem σ α) (ok : σ → α → Prop) : σ → Prop
  | init {s : σ} : S.init s → Reach S ok s
  | step {s s' : σ} {a : α} : Reach S ok s → ok s a → S.step s a = some s' → Reach S ok s'

/-- The states reached by any run at all. -/
abbrev Reachable (S : StepSystem σ α) : σ → Prop := Reach S fun _ _ => True

/-- **The invariant rule.**  What holds initially and is preserved by every step that meets
the side condition holds along every such run. -/
theorem Reach.invariant {ok : σ → α → Prop} {I : σ → Prop} (hinit : ∀ s, S.init s → I s)
    (hstep : ∀ s a s', I s → ok s a → S.step s a = some s' → I s') {s : σ}
    (hr : Reach S ok s) : I s := by
  induction hr with
  | init hi => exact hinit _ hi
  | step _ ho hs ih => exact hstep _ _ _ ih ho hs

/-- The invariant rule on top of an invariant `J` already known of every such run. -/
theorem Reach.invariant_of {ok : σ → α → Prop} {I J : σ → Prop}
    (hJ : ∀ s, Reach S ok s → J s) (hinit : ∀ s, S.init s → I s)
    (hstep : ∀ s a s', J s → I s → ok s a → S.step s a = some s' → I s') {s : σ}
    (hr : Reach S ok s) : I s := by
  induction hr with
  | init hi => exact hinit _ hi
  | step hp ho hs ih => exact hstep _ _ _ (hJ _ hp) ih ho hs

/-- A weaker side condition. -/
theorem Reach.mono {ok ok' : σ → α → Prop} {s : σ} (h : Reach S ok s)
    (hok : ∀ s a, ok s a → ok' s a) : Reach S ok' s := by
  induction h with
  | init hi => exact .init hi
  | step _ ho hs ih => exact ih.step (hok _ _ ho) hs

/-- **Simulation.**  A map under which every step of `S` is a step of `T`, or none at all, takes
reachable states to reachable states. -/
theorem Reachable.simulate {τ : Type u} {β : Type v} {T : StepSystem τ β} {f : σ → τ}
    (hinit : ∀ s, S.init s → T.init (f s))
    (hstep : ∀ s a s', Reachable S s → S.step s a = some s' →
      f s' = f s ∨ ∃ b, T.step (f s) b = some (f s')) {s : σ}
    (h : Reachable S s) : Reachable T (f s) := by
  induction h with
  | init hi => exact .init (hinit _ hi)
  | step hp _ hs ih =>
    rcases hstep _ _ _ hp hs with heq | ⟨b, hb⟩
    · rw [heq]
      exact ih
    · exact .step ih trivial hb

/-! ## Runs with their past -/

/-- A run whose steps all meet `ok`, with the steps taken so far, newest first: the state before
each one and its action. -/
inductive Trace (S : StepSystem σ α) (ok : σ → α → Prop) : List (σ × α) → σ → Prop
  | init {s : σ} : S.init s → Trace S ok [] s
  | step {past : List (σ × α)} {s s' : σ} {a : α} : Trace S ok past s → ok s a →
      S.step s a = some s' → Trace S ok ((s, a) :: past) s'

theorem Trace.reach {ok : σ → α → Prop} {past : List (σ × α)} {s : σ} (h : Trace S ok past s) :
    Reach S ok s := by
  induction h with
  | init hi => exact .init hi
  | step _ ho hs ih => exact .step ih ho hs

/-- Every state that is reached is reached by a run with some past. -/
theorem Reach.exists_trace {ok : σ → α → Prop} {s : σ} (h : Reach S ok s) :
    ∃ past, Trace S ok past s := by
  induction h with
  | init hi => exact ⟨[], .init hi⟩
  | step _ ho hs ih =>
    obtain ⟨past, hp⟩ := ih
    exact ⟨_, .step hp ho hs⟩

/-- What a run has behind it is a run. -/
theorem Trace.before {ok : σ → α → Prop} {past earlier : List (σ × α)} {s s₁ : σ} {a : α}
    (h : Trace S ok past s₁) (hsuf : (s, a) :: earlier <:+ past) : Trace S ok earlier s := by
  induction h with
  | init _ => exact absurd (List.suffix_nil.mp hsuf) (List.cons_ne_nil _ _)
  | step hp _ _ ih =>
    rcases List.suffix_cons_iff.mp hsuf with heq | hsuf
    · obtain ⟨hpair, rfl⟩ := List.cons.inj heq
      obtain ⟨rfl, -⟩ := Prod.mk.inj hpair
      exact hp
    · exact ih hsuf

/-- **The invariant rule, with the past.** -/
theorem Trace.invariant {ok : σ → α → Prop} {I : List (σ × α) → σ → Prop}
    (hinit : ∀ s, S.init s → I [] s)
    (hstep : ∀ past s a s', Trace S ok past s → I past s → ok s a → S.step s a = some s' →
      I ((s, a) :: past) s') {past : List (σ × α)} {s : σ} (h : Trace S ok past s) : I past s := by
  induction h with
  | init hi => exact hinit _ hi
  | step hp ho hs ih => exact hstep _ _ _ _ hp ih ho hs

/-! ## Replaying a schedule -/

/-- Replay the actions from `s`; `none` as soon as one of them is not enabled. -/
def run (S : StepSystem σ α) : σ → List α → Option σ
  | s, [] => some s
  | s, a :: as => (S.step s a).bind fun s' => run S s' as

@[simp] theorem run_nil (s : σ) : S.run s [] = some s := rfl

theorem run_cons (s : σ) (a : α) (as : List α) :
    S.run s (a :: as) = (S.step s a).bind fun s' => S.run s' as := rfl

theorem run_append (s : σ) (as bs : List α) :
    S.run s (as ++ bs) = (S.run s as).bind fun s' => S.run s' bs := by
  induction as generalizing s with
  | nil => rfl
  | cons a as ih =>
    simp only [List.cons_append, run_cons]
    cases S.step s a with
    | none => rfl
    | some s' => exact ih s'

/-- Replay stays inside the reachable states. -/
theorem Reachable.run {s s' : σ} {as : List α} (hs : Reachable S s)
    (h : S.run s as = some s') : Reachable S s' := by
  induction as generalizing s with
  | nil => exact Option.some.inj h ▸ hs
  | cons a as ih =>
    rw [run_cons] at h
    obtain ⟨t, ht, hrest⟩ := Option.bind_eq_some_iff.mp h
    exact ih (.step hs trivial ht) hrest

/-- A schedule that ends in a state passing the test `p` exhibits a reachable one.  The
hypothesis is closed for a concrete schedule, so `decide` evaluates it. -/
theorem exists_reachable_of_run {s : σ} {as : List α} {p : σ → Bool} (hi : S.init s)
    (h : (S.run s as).any p = true) : ∃ s', Reachable S s' ∧ p s' = true := by
  obtain ⟨s', hs', hp⟩ := (Option.any_eq_true _ _).mp h
  exact ⟨s', Reachable.run (.init hi) hs', hp⟩

/-- From `s` the actions that pass the test `own`, taken by themselves, can bring about `P`. -/
def Can (S : StepSystem σ α) (own : α → Bool) (P : σ → Prop) (s : σ) : Prop :=
  ∃ as s', as.all own = true ∧ S.run s as = some s' ∧ P s'

theorem Can.here {own : α → Bool} {P : σ → Prop} {s : σ} (h : P s) : S.Can own P s :=
  ⟨[], s, rfl, rfl, h⟩

theorem Can.step {own : α → Bool} {P : σ → Prop} {s s' : σ} {a : α} (hown : own a = true)
    (hstep : S.step s a = some s') (h : S.Can own P s') : S.Can own P s := by
  obtain ⟨as, t, has, hrun, ht⟩ := h
  refine ⟨a :: as, t, ?_, ?_, ht⟩
  · rw [List.all_cons, hown, has, Bool.and_self]
  · rw [run_cons, hstep]
    exact hrun

theorem Can.bind {own : α → Bool} {P Q : σ → Prop} {s : σ} (h : S.Can own P s)
    (h' : ∀ s', P s' → S.Can own Q s') : S.Can own Q s := by
  obtain ⟨as, t, has, hrun, ht⟩ := h
  obtain ⟨bs, r, hbs, hrun', hr⟩ := h' t ht
  refine ⟨as ++ bs, r, ?_, ?_, hr⟩
  · rw [List.all_append, has, hbs, Bool.and_self]
  · rw [run_append, hrun]
    exact hrun'

/-- **The variant rule.**  While `P` does not hold, one of the actions can be taken that meets the
side condition, keeps `I` and lowers the variant `μ`; so they can bring about `P`. -/
theorem Reach.can_of_variant {β : Type w} {r : β → β → Prop} (hwf : WellFounded r) {μ : σ → β}
    {ok : σ → α → Prop} {own : α → Bool} {I P : σ → Prop}
    (hstep : ∀ s, Reach S ok s → I s → ¬ P s → ∃ a s', own a = true ∧ ok s a ∧
      S.step s a = some s' ∧ I s' ∧ r (μ s') (μ s)) {s : σ} (hs : Reach S ok s) (hI : I s) :
    S.Can own (fun s' => Reach S ok s' ∧ I s' ∧ P s') s := by
  -- along the variant
  induction h : μ s using hwf.induction generalizing s with
  | _ m ih =>
    by_cases hP : P s
    · exact .here ⟨hs, hI, hP⟩
    · obtain ⟨a, s', hown, hok, hstep', hI', hlow⟩ := hstep s hs hI hP
      exact .step hown hstep' (ih _ (h ▸ hlow) (hs.step hok hstep') hI' rfl)

/-- Replay extends a run by the actions replayed. -/
theorem Trace.run {past : List (σ × α)} {s s' : σ} {as : List α}
    (hs : Trace S (fun _ _ => True) past s) (h : S.run s as = some s') :
    ∃ past', Trace S (fun _ _ => True) past' s' ∧
      past'.map Prod.snd = as.reverse ++ past.map Prod.snd := by
  induction as generalizing past s with
  | nil => exact ⟨past, Option.some.inj h ▸ hs, rfl⟩
  | cons a as ih =>
    rw [run_cons] at h
    obtain ⟨t, ht, hrest⟩ := Option.bind_eq_some_iff.mp h
    obtain ⟨past', hpast', hacts⟩ := ih (.step hs trivial ht) hrest
    exact ⟨past', hpast', by rw [hacts]; simp⟩

/-- A schedule that ends in a state passing the test `p` exhibits a run with these actions. -/
theorem exists_trace_of_run {s : σ} {as : List α} {p : σ → Bool} (hi : S.init s)
    (h : (S.run s as).any p = true) :
    ∃ past s', Trace S (fun _ _ => True) past s' ∧ past.map Prod.snd = as.reverse ∧
      p s' = true := by
  obtain ⟨s', hs', hp⟩ := (Option.any_eq_true _ _).mp h
  obtain ⟨past, hpast, hacts⟩ := Trace.run (.init hi) hs'
  exact ⟨past, s', hpast, by simpa using hacts, hp⟩

/-- The system that refuses every step that does not meet `ok`. -/
def guard (S : StepSystem σ α) (ok : σ → α → Bool) : StepSystem σ α where
  init := S.init
  step s a := if ok s a then S.step s a else none

/-- A run of the guarded system is a guarded run. -/
theorem Reachable.of_guard {ok : σ → α → Bool} {s : σ} (h : Reachable (S.guard ok) s) :
    Reach S (fun s a => ok s a = true) s := by
  induction h with
  | init hi => exact .init hi
  | step _ _ hs ih =>
    simp only [guard] at hs
    split at hs
    · rename_i hok; exact .step ih hok hs
    · exact absurd hs (by simp)

/-- A schedule whose steps all meet `ok` exhibits a guarded run. -/
theorem exists_reach_of_run {s : σ} {as : List α} {ok : σ → α → Bool} {p : σ → Bool}
    (hi : S.init s) (h : ((S.guard ok).run s as).any p = true) :
    ∃ s', Reach S (fun s a => ok s a = true) s' ∧ p s' = true := by
  obtain ⟨s', hs', hp⟩ := @exists_reachable_of_run _ _ (S.guard ok) s as p hi h
  exact ⟨s', hs'.of_guard, hp⟩

/-! ## A run for each step -/

/-- Some run leads from `s` to `s'`. -/
def Leads (S : StepSystem σ α) (s s' : σ) : Prop := ∃ as, S.run s as = some s'

theorem Leads.refl (s : σ) : S.Leads s s := ⟨[], rfl⟩

theorem Leads.trans {s t r : σ} (h : S.Leads s t) (h' : S.Leads t r) : S.Leads s r := by
  obtain ⟨as, has⟩ := h
  obtain ⟨bs, hbs⟩ := h'
  exact ⟨as ++ bs, by rw [run_append, has]; exact hbs⟩

theorem Leads.head {s t r : σ} (a : α) (h : S.step s a = some t) (h' : S.Leads t r) :
    S.Leads s r := by
  obtain ⟨as, has⟩ := h'
  exact ⟨a :: as, by rw [run_cons, h]; exact has⟩

theorem Leads.single {s t : σ} (a : α) (h : S.step s a = some t) : S.Leads s t :=
  .head a h (.refl t)

/-- **Realization.**  When each step of `S`, from states that meet an invariant, is some run of
`T`, then so is each run. -/
theorem Leads.realize {τ : Type u} {β : Type v} {T : StepSystem τ β} {f : σ → τ} {I : σ → Prop}
    (hinv : ∀ s a s', I s → S.step s a = some s' → I s')
    (hstep : ∀ s a s', I s → S.step s a = some s' → T.Leads (f s) (f s')) {s s' : σ} (hs : I s)
    (h : S.Leads s s') : T.Leads (f s) (f s') := by
  obtain ⟨as, has⟩ := h
  induction as generalizing s with
  | nil => exact Option.some.inj has ▸ .refl _
  | cons a as ih =>
    rw [run_cons] at has
    obtain ⟨t, ht, hrest⟩ := Option.bind_eq_some_iff.mp has
    exact (hstep s a t hs ht).trans (ih (hinv s a t hs ht) hrest)

/-- **Forward simulation.**  When the states of `S` follow those of `T` in such a way that each step
of `S` is matched by some run of `T`, every run of `S` is followed by a run of `T`. -/
theorem Reach.simulate {τ : Type u} {β : Type v} {T : StepSystem τ β} {ok : σ → α → Prop}
    {J : σ → Prop} {R : σ → τ → Prop} (hJ : ∀ s, Reach S ok s → J s)
    (hinit : ∀ s, S.init s → ∃ t, T.init t ∧ R s t)
    (hstep : ∀ s a s' t, J s → R s t → ok s a → S.step s a = some s' →
      ∃ t', T.Leads t t' ∧ R s' t') {s : σ} (h : Reach S ok s) :
    ∃ t t', T.init t ∧ T.Leads t t' ∧ R s t' := by
  induction h with
  | init hi =>
    obtain ⟨t, ht, hR⟩ := hinit _ hi
    exact ⟨t, t, ht, .refl t, hR⟩
  | step hp ho hs ih =>
    obtain ⟨t, t', ht, hlead, hR⟩ := ih
    obtain ⟨t'', hlead', hR'⟩ := hstep _ _ _ _ (hJ _ hp) hR ho hs
    exact ⟨t, t'', ht, hlead.trans hlead', hR'⟩

/-- Replaying actions that pass a test goes on with a run. -/
theorem Reach.run_guard {ok : σ → α → Prop} {test : σ → α → Bool}
    (hok : ∀ s a, test s a = true → ok s a) {s s' : σ} (as : List α) (hs : Reach S ok s)
    (h : (S.guard test).run s as = some s') : Reach S ok s' := by
  induction as generalizing s with
  | nil => exact Option.some.inj h ▸ hs
  | cons a as ih =>
    rw [run_cons] at h
    obtain ⟨t, ht, hrest⟩ := Option.bind_eq_some_iff.mp h
    obtain ⟨htest, hstep⟩ := Option.ite_none_right_eq_some.mp ht
    exact ih (hs.step (hok _ _ htest) hstep) hrest

end StepSystem
