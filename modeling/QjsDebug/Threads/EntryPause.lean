/-
# The entry pause

`pause_on_start_` arms a pause for the first statement.  `debug_trace_handler` disarms it in the
branch that raises the pause and nowhere else, and that branch stands behind the early returns
for a disabled debugger, for an event without a position, and for a pause request.  Any of these
can take the first statement, and then the flag stays set for a later one.

In every run of the two threads the flag is set exactly as long as no call of the handler has
come to the test (`armed_iff_no_test`).  So the pause is raised at most once, and at the first
statement iff the call of the first statement gets to the test before every other one
(`entry_pause_at_first_iff`).
-/
import QjsDebug.Threads.Justified

namespace QjsDebug.Threads

/-! ## 1. What is claimed -/

section

variable (host : Host)

/-- The two threads with `pause_on_start_` set, as `main` leaves the session. -/
def armed : StepSystem State Act where
  init s := s.Initial ∧ s.session.pauseOnStart = true
  step := step host

/-- The step is the handler's test of `pause_on_start_`: the call has got past the early
returns. -/
def entryTest (s : State) : Act → Bool
  | .js .next =>
    match s.js with
    | .handler _ (.testEntry _) :: _ => true
    | _ => false
  | _ => false

/-- The handler decides for `do_pause(.., PauseReason::Entry, 0)`. -/
def RaisesEntry (s : State) (a : Act) : Prop :=
  ∃ e pc callers session bpId, a = .js .next ∧ s.js = .handler e pc :: callers ∧
    handlerNext host s.session e pc = some (session, .goto (.commit .entry bpId))

def Act.isStatement : Act → Bool
  | .js (.statement _) => true
  | _ => false

/-- The statements begun in a run. -/
def statements (past : Past) : Nat := (past.map Prod.snd).countP Act.isStatement

/-- An entry pause is raised at the first statement, and no second one is. -/
def EntryAtFirst (past : Past) : Prop :=
  ∀ s a earlier, (s, a) :: earlier <:+ past → RaisesEntry host s a →
    statements earlier = 1 ∧ ∀ p ∈ earlier, ¬ RaisesEntry host p.1 p.2

/-- The call of the first statement gets past the early returns, or no call of the run does. -/
def FirstGetsThrough (past : Past) : Prop :=
  (∀ p ∈ past, entryTest p.1 p.2 = false) ∨
    ∃ s a earlier, (s, a) :: earlier <:+ past ∧ entryTest s a = true ∧ statements earlier = 1

end

/-! ## 2. The flag -/

section

variable {host : Host}

/-- The entry pause is raised by the test that finds the flag set, and by nothing else. -/
theorem raisesEntry_iff {s : State} {a : Act} :
    RaisesEntry host s a ↔ entryTest s a = true ∧ s.session.pauseOnStart = true := by
  constructor
  · rintro ⟨e, pc, callers, session, bpId, rfl, hjs, hnext⟩
    cases pc with
    | testEntry mode =>
      refine ⟨by rw [entryTest, hjs], ?_⟩
      by_contra hoff
      simp [handlerNext, hoff] at hnext
    | condition bpId => exact absurd hnext (by simp [handlerNext])
    | entry | testRequest mode | checkBreakpoint mode | findBreakpoint | switchMode mode =>
      obtain ⟨-, hnext⟩ := Prod.mk.inj (Option.some.inj hnext)
      split at hnext <;> simp at hnext
    | _ => simp [handlerNext] at hnext
  · rintro ⟨htest, hon⟩
    unfold entryTest at htest
    split at htest
    · split at htest
      · rename_i e mode callers hjs
        exact ⟨e, .testEntry mode, callers, { s.session with pauseOnStart := false }, 0, rfl, hjs,
          by rw [handlerNext, if_pos hon]⟩
      · exact absurd htest (by simp)
    · exact absurd htest (by simp)

/-- Of the handler's steps only the test touches the flag, and it clears it. -/
theorem handlerNext_pauseOnStart {s s' : Session} {e : Event} {pc : HandlerPc} {next : HandlerNext}
    (h : handlerNext host s e pc = some (s', next)) :
    ((∃ mode, pc = .testEntry mode) ∧ s'.pauseOnStart = false) ∨
      ((∀ mode, pc ≠ .testEntry mode) ∧ s'.pauseOnStart = s.pauseOnStart) := by
  cases pc with
  | testEntry mode =>
    refine Or.inl ⟨⟨mode, rfl⟩, ?_⟩
    simp only [handlerNext] at h
    split at h
    · obtain ⟨rfl, -⟩ := Prod.mk.inj (Option.some.inj h)
      rfl
    · rename_i hoff
      obtain ⟨rfl, -⟩ := Prod.mk.inj (Option.some.inj h)
      simpa using hoff
  | condition bpId => exact absurd h (by simp [handlerNext])
  | _ =>
    obtain ⟨rfl, -⟩ := Prod.mk.inj (Option.some.inj h)
    exact Or.inr ⟨fun mode => by simp, rfl⟩

/-- No command of the client touches the flag. -/
theorem pauseOnStart_write (w : Write) (s : Session) :
    (w.apply s).pauseOnStart = s.pauseOnStart := by
  cases w <;> rfl

/-- **What one step does to the flag**: the test clears it, everything else keeps it. -/
theorem pauseOnStart_step {s s' : State} {a : Act} (hstep : (machine host).step s a = some s') :
    s'.session.pauseOnStart = (s.session.pauseOnStart && !entryTest s a) := by
  rcases step_cases hstep with ⟨c, rfl, hs⟩ | hs
  · cases hs with
    | @handler e pc callers session next hjs hnext =>
      rcases handlerNext_pauseOnStart hnext with ⟨⟨mode, rfl⟩, hoff⟩ | ⟨hpc, hkeep⟩
      · rw [entryTest, hjs, Bool.not_true, Bool.and_false]
        exact hoff
      · have htest : entryTest s (.js .next) = false := by
          cases pc with
          | testEntry mode => exact absurd rfl (hpc mode)
          | _ => rw [entryTest, hjs]
        rw [htest, Bool.not_false, Bool.and_true]
        exact hkeep
    | @pause e reason bpId pc callers s' hjs hnext =>
      rw [entryTest, hjs, Bool.not_false, Bool.and_true]
      cases hnext <;> rfl
    | evaluated _ =>
      rw [entryTest, Bool.not_false, Bool.and_true]
      · unfold finishEval
        split <;> rfl
      · simp
    | _ => simp [entryTest]
  · cases hs with
    | store _ =>
      rw [entryTest, Bool.not_false, Bool.and_true]
      · exact pauseOnStart_write _ _
      · simp
    | _ => simp [entryTest]

/-- **The flag is set as long as no call has come to the test.** -/
theorem armed_iff_no_test {past : Past} {s : State}
    (h : (armed host).Trace (fun _ _ => True) past s) :
    s.session.pauseOnStart = true ↔ ∀ p ∈ past, entryTest p.1 p.2 = false := by
  induction h with
  | init hi => simp [hi.2]
  | @step past s s' a hp _ hstep ih =>
    have hmachine : (machine host).step s a = some s' := hstep
    rw [pauseOnStart_step hmachine, Bool.and_eq_true, ih, List.forall_mem_cons,
      Bool.not_eq_true', and_comm]

/-! ## 3. The statement under way -/

/-- As long as no statement has begun the JS thread runs the script. -/
theorem js_of_no_statement {past : Past} {s : State}
    (h : (armed host).Trace (fun _ _ => True) past s) (hnone : statements past = 0) :
    s.js = [.code] := by
  induction h with
  | init hi => exact hi.1.js
  | @step past s s' a hp _ hstep ih =>
    have hcount : Act.isStatement a = false ∧ statements past = 0 := by
      rw [statements, List.map_cons, List.countP_cons] at hnone
      split at hnone
      · omega
      · rename_i ha
        exact ⟨by simpa using ha, hnone⟩
    have hjs := ih hcount.2
    have hmachine : (machine host).step s a = some s' := hstep
    rcases step_cases hmachine with ⟨c, rfl, hs⟩ | hs
    · cases hs with
      | statement _ => exact absurd hcount.1 (by simp [Act.isStatement])
      | fires h | falsy h | getterDone h | evaluated h => rw [hjs] at h; simp at h
      | handler h _ | getter h | spurious h | pause h _ => rw [hjs] at h; simp at h
    · rcases hs.js with heq | heq
      · rw [heq, hjs]
      · rw [heq, hjs]
        rfl

/-- A call that comes to the test is that of some statement. -/
theorem statements_pos_of_test {past : Past} {s : State} {a : Act}
    (h : (armed host).Trace (fun _ _ => True) past s) (htest : entryTest s a = true) :
    0 < statements past := by
  rw [Nat.pos_iff_ne_zero]
  intro hnone
  unfold entryTest at htest
  split at htest
  · rw [js_of_no_statement h hnone] at htest
    exact absurd htest (by simp)
  · exact absurd htest (by simp)

/-- Of the steps of a run that pass a test there is an earliest one. -/
theorem exists_earliest {past : Past} {p : State × Act → Bool} (h : ∃ x ∈ past, p x = true) :
    ∃ x earlier, x :: earlier <:+ past ∧ p x = true ∧ ∀ y ∈ earlier, p y = false := by
  induction past with
  | nil =>
    obtain ⟨x, hx, -⟩ := h
    exact absurd hx (by simp)
  | cons x past ih =>
    by_cases hpast : ∃ y ∈ past, p y = true
    · obtain ⟨y, earlier, hsuf, hy, hbefore⟩ := ih hpast
      exact ⟨y, earlier, hsuf.trans (List.suffix_cons _ _), hy, hbefore⟩
    · have hbefore : ∀ y ∈ past, p y = false := fun y hy => by
        by_contra hc
        exact hpast ⟨y, hy, by simpa using hc⟩
      obtain ⟨y, hy, hyp⟩ := h
      rcases List.mem_cons.mp hy with rfl | hy
      · exact ⟨y, past, List.suffix_rfl, hyp, hbefore⟩
      · exact absurd hyp (by simp [hbefore y hy])

theorem statements_le_of_suffix {past earlier : Past} (h : earlier <:+ past) :
    statements earlier ≤ statements past :=
  (h.map Prod.snd).sublist.countP_le

/-! ## 4. Break on start -/

/-- **The entry pause is at the start exactly when the first statement gets to it.**  For every
interleaving of the two threads that starts with `pause_on_start_` set: each entry pause is raised
at the first statement, and at most one is, iff the handler's call for the first statement is past
its early returns -- debugger enabled, position valid, no pause requested -- or no call in the run
ever is. -/
theorem entry_pause_at_first_iff {past : Past} {s : State}
    (h : (armed host).Trace (fun _ _ => True) past s) :
    EntryAtFirst host past ↔ FirstGetsThrough past := by
  constructor
  · intro hfirst
    by_cases hnone : ∃ p ∈ past, entryTest p.1 p.2 = true
    · -- the earliest test finds the flag set
      obtain ⟨⟨s₀, a₀⟩, earlier, hsuf, htest, hbefore⟩ :=
        exists_earliest (p := fun p => entryTest p.1 p.2) hnone
      have hon : s₀.session.pauseOnStart = true := (armed_iff_no_test (h.before hsuf)).mpr hbefore
      exact Or.inr ⟨s₀, a₀, earlier, hsuf, htest,
        (hfirst s₀ a₀ earlier hsuf (raisesEntry_iff.mpr ⟨htest, hon⟩)).1⟩
    · refine Or.inl fun p hp => ?_
      by_contra hc
      exact hnone ⟨p, hp, by simpa using hc⟩
  · intro hthrough s₀ a₀ earlier hsuf hraise
    obtain ⟨htest, hon⟩ := raisesEntry_iff.mp hraise
    have htrace := h.before hsuf
    have hbefore := (armed_iff_no_test htrace).mp hon
    have honce : ∀ p ∈ earlier, ¬ RaisesEntry host p.1 p.2 := fun p hp hr =>
      absurd (raisesEntry_iff.mp hr).1 (by simp [hbefore p hp])
    refine ⟨?_, honce⟩
    rcases hthrough with hnone | ⟨s₁, a₁, earlier₁, hsuf₁, htest₁, hone⟩
    · exact absurd htest (by simp [hnone _ (hsuf.mem List.mem_cons_self)])
    · -- no test comes before this one, so the first statement's is not earlier
      have hle : earlier <:+ earlier₁ := by
        rcases List.suffix_or_suffix_of_suffix hsuf hsuf₁ with hin | hin
        · rcases List.suffix_cons_iff.mp hin with heq | hin
          · exact (List.cons.inj heq).2 ▸ List.suffix_rfl
          · exact (List.suffix_cons _ _).trans hin
        · rcases List.suffix_cons_iff.mp hin with heq | hin
          · exact (List.cons.inj heq).2 ▸ List.suffix_rfl
          · exact absurd htest₁ (by simp [hbefore _ (hin.mem List.mem_cons_self)])
      have hpos := statements_pos_of_test htrace htest
      have := statements_le_of_suffix hle
      omega

end

/-- The session as `main` leaves it with `--inspect-brk`. -/
def breakOnStart : Session := { enabledSession with pauseOnStart := true }

theorem armed_start : (armed posixHost).init (.start breakOnStart) :=
  ⟨⟨rfl, rfl, rfl, rfl, rfl, rfl, rfl⟩, rfl⟩

/-- The handler's call for a statement comes to the test of the flag. -/
def reachEntryTest (e : Event) : List Act := .js (.statement e) :: jsSteps 4

/-- The rule at a run that breaks on start. -/
theorem entry_pause_at_first_iff_lineThree :
    ∃ past s, (armed posixHost).Trace (fun _ _ => True) past s ∧ statements past = 1 ∧
      s.session.pauseOnStart = false ∧ (EntryAtFirst posixHost past ↔ FirstGetsThrough past) := by
  obtain ⟨past, s, hpast, hacts, hoff⟩ := @StepSystem.exists_trace_of_run _ _ (armed posixHost)
    (.start breakOnStart) (reachEntryTest lineThree ++ jsSteps 1)
    (fun s => !s.session.pauseOnStart) armed_start (by decide +kernel)
  exact ⟨past, s, hpast, by rw [statements, hacts]; rfl, by simpa using hoff,
    entry_pause_at_first_iff hpast⟩

/-- The client resumes, and `do_pause`, in front of its predicate, returns. -/
def resumeFromPredicate : List Act := .client .resume :: wsSteps 4 ++ jsSteps 5

/-- **Break on start at the second statement.**  The client asks for a pause before the script
runs.  The first statement pauses for that request; after the client has resumed, the second one
raises the entry pause. -/
theorem entry_pause_at_second_statement :
    ∃ past s, (armed posixHost).Trace (fun _ _ => True) past s ∧ ¬ EntryAtFirst posixHost past := by
  obtain ⟨past, s, hpast, hacts, htest⟩ := @StepSystem.exists_trace_of_run _ _ (armed posixHost)
    (.start breakOnStart)
    (askForPause ++ pauseOnRequest lineThree ++ resumeFromPredicate ++ reachEntryTest lineThree)
    (fun s => entryTest s (.js .next) && s.session.pauseOnStart &&
      ((armed posixHost).step s (.js .next)).isSome) armed_start (by decide +kernel)
  simp only [Bool.and_eq_true] at htest
  obtain ⟨⟨htest, hon⟩, hnext⟩ := htest
  obtain ⟨s', hstep⟩ := Option.isSome_iff_exists.mp hnext
  refine ⟨_, s', .step hpast trivial hstep, fun hfirst => ?_⟩
  have htwo : statements past = 2 := by
    rw [statements, hacts]
    rfl
  have hone := (hfirst s (.js .next) past List.suffix_rfl (raisesEntry_iff.mpr ⟨htest, hon⟩)).1
  omega

end QjsDebug.Threads
