/-
# After the client has gone

`on_disconnect` is to "unblock everything": it clears the pause request, sets the step mode to
Continue, stores false to `paused_` and notifies.  It leaves `enabled_`, the breakpoints and
`pause_on_start_` alone, and the JS thread may already be on its way into a pause; so the
script can pause with nobody left to resume it.

**When this does not happen.**  `undecided` asks of a run that at the store to `paused_` no
call of the JS thread is on its way into a pause, that the notification behind it is heard,
and that from the store on no test of the handler decides to pause.  Then, from the store on,
`paused_` stays false (`Closed`), and once the WS thread has left its loop nobody sleeps on
`pause_cv_` or is about to (`never_blocked_of_reach`).
-/
import QjsDebug.Threads.Wakeup

namespace QjsDebug.Threads

/-! ## 1. What is claimed -/

def Instr.isLeave : Instr → Bool
  | .leave => true
  | _ => false

def Instr.isUnpause : Instr → Bool
  | .store .unpause => true
  | _ => false

/-- The WS thread has left its loop. -/
def Ws.isGone : Ws → Bool
  | .gone => true
  | _ => false

/-- `on_disconnect` has stored to `paused_`, or is over. -/
def Ws.closed : Ws → Bool
  | .run todo => todo.any Instr.isLeave && !todo.any Instr.isUnpause
  | .gone => true
  | _ => false

/-- With the client gone, the script is not blocked: the JS thread does not sleep on
`pause_cv_`, and is not about to. -/
def NeverBlocked (s : State) : Prop := s.ws.isGone = true → jsWaiter s.js = .away

/-- On the way into a pause: the decision is made, `paused_` not yet stored. -/
def Activation.opening : Activation → Bool
  | .handler _ pc => pc.committed
  | .pause _ _ _ .capture | .pause _ _ _ .walk | .pause _ _ _ .storePaused => true
  | _ => false

/-- The side condition of a step.  At the store of `on_disconnect` nothing is on its way into a
pause; its notification is heard; behind the store the handler does not decide to pause. -/
def undecided (host : Host) (s : State) : Act → Bool
  | .js c => !s.ws.closed || (decision host s c).isNone
  | .ws =>
    match s.ws with
    | .run (.store .unpause :: todo) =>
      !todo.any Instr.isLeave || s.js.all fun a => !a.opening
    | .run (.notifyPause :: todo) => !todo.any Instr.isLeave || pauseCv.heard s
    | _ => true
  | _ => true

/-! ## 2. Where the WS thread is -/

theorem closed_start (c : Command) (id : Nat) : (c.start id).closed = false := by
  cases c <;> rfl

theorem closed_wake (ws : Ws) : ws.wake.closed = ws.closed := by
  unfold Ws.wake
  split <;> rfl

/-- Behind a step other than the store, `on_disconnect` was past its store before. -/
theorem closed_of_tail {i : Instr} {todo : List Instr} (hi : i.isUnpause = false)
    (h : (Ws.run todo).closed = true) : (Ws.run (i :: todo)).closed = true := by
  simp only [Ws.closed, List.any_cons, hi, Bool.false_or, Bool.and_eq_true, Bool.or_eq_true] at h ⊢
  exact ⟨Or.inr h.1, h.2⟩

/-- The loop is left past the store. -/
theorem closed_of_leave {todo : List Instr} (hsig : signals (.leave :: todo) = true) :
    (Ws.run (.leave :: todo)).closed = true := by
  obtain rfl := List.isEmpty_iff.mp hsig
  rfl

/-- Past its store, `on_disconnect` still has to leave. -/
theorem leave_of_closed {i : Instr} {todo : List Instr} (hi : i.isLeave = false)
    (h : (Ws.run (i :: todo)).closed = true) : todo.any Instr.isLeave = true := by
  simp only [Ws.closed, List.any_cons, hi, Bool.false_or, Bool.and_eq_true] at h
  exact h.1

section

variable {host : Host} {s s' : State}

/-- A step of the WS thread past the store of `on_disconnect` is that store, or comes behind
it. -/
theorem WsStep.closed {a : Act} (h : WsStep s a s') (hsig : s.ws.signals = true)
    (hclosed : s'.ws.closed = true) :
    s.ws.closed = true ∨ ∃ todo, s.ws = .run (.store .unpause :: todo) ∧
      todo.any Instr.isLeave = true ∧ due todo = true ∧ a = .ws ∧
      s' = { s with session := { s.session with paused := false }, ws := .run todo } := by
  cases h with
  | client _ => rw [closed_start] at hclosed; exact absurd hclosed (by simp)
  | @store w todo hws =>
    by_cases hw : w = .unpause
    · subst hw
      rw [hws] at hsig
      obtain ⟨hleave, -⟩ := Bool.and_eq_true_iff.mp hclosed
      obtain ⟨hdue, -⟩ := Bool.and_eq_true_iff.mp hsig
      exact Or.inr ⟨todo, hws, hleave, hdue, rfl, rfl⟩
    · have hi : (Instr.store w).isUnpause = false := by
        cases w with
        | unpause => exact absurd rfl hw
        | _ => rfl
      rw [hws]
      exact Or.inl (closed_of_tail hi hclosed)
  | notifyPause hws | notifyWait hws => rw [hws]; exact Or.inl (closed_of_tail rfl hclosed)
  | leave hws => rw [hws] at hsig ⊢; exact Or.inl (closed_of_leave hsig)
  | _ => exact absurd hclosed (by simp [Ws.closed])

end

/-! ## 3. Past the store -/

/-- From the store of `on_disconnect` on: `paused_` is false, nothing is on its way into a
pause, and who sleeps will be notified. -/
structure Closed (s : State) : Prop where
  paused : s.session.paused = false
  opening : ∀ a ∈ s.js, a.opening = false
  safe : pauseCv.Safe s

theorem opening_wakeJs {js : List Activation} (h : ∀ a ∈ js, a.opening = false) :
    ∀ a ∈ wakeJs js, a.opening = false := by
  unfold wakeJs
  split
  · exact List.forall_mem_cons.mpr ⟨rfl, (List.forall_mem_cons.mp h).2⟩
  · exact h

section

variable {host : Host} {s s' : State} {e : Event} {callers : List Activation}

/-- The handler does not get on its way into a pause without deciding to. -/
theorem opening_stack {pc : HandlerPc} {session : Session} {next : HandlerNext}
    (hdecision : decision host s .next = none) (hjs : s.js = .handler e pc :: callers)
    (hnext : handlerNext host s.session e pc = some (session, next))
    (h : ∀ a ∈ s.js, a.opening = false) : ∀ a ∈ next.stack e callers, a.opening = false := by
  rw [hjs, List.forall_mem_cons] at h
  obtain ⟨hpc, hcallers⟩ := h
  have hpc : pc.committed = false := hpc
  cases next with
  | done => exact hcallers
  | evaluate bpId =>
    exact List.forall_mem_cons.mpr ⟨rfl, List.forall_mem_cons.mpr ⟨rfl, hcallers⟩⟩
  | doPause reason bpId =>
    rw [committed_of_doPause hnext] at hpc
    exact absurd hpc (by simp)
  | goto pc' =>
    refine List.forall_mem_cons.mpr ⟨?_, hcallers⟩
    by_contra hc
    rw [Bool.not_eq_false] at hc
    rcases committed_of_goto hjs hnext hc with hcom | hsome
    · rw [hpc] at hcom
      exact absurd hcom (by simp)
    · rw [hdecision] at hsome
      exact absurd hsome (by simp)

theorem PauseStep.closed {reason : PauseReason} {bpId : Int} {pc : PausePc}
    (hjs : s.js = .pause e reason bpId pc :: callers)
    (hnext : PauseStep s e reason bpId callers pc s') (hpaused : s.session.paused = false)
    (h : ∀ a ∈ s.js, a.opening = false) :
    s'.session.paused = false ∧ ∀ a ∈ s'.js, a.opening = false := by
  rw [hjs, List.forall_mem_cons] at h
  obtain ⟨hpc, hcallers⟩ := h
  cases hnext with
  | capture | walk | storePaused => exact absurd hpc (by simp [Activation.opening])
  | sendResumed => exact ⟨hpaused, hcallers⟩
  | evaluate _ =>
    exact ⟨hpaused, List.forall_mem_cons.mpr ⟨rfl, List.forall_mem_cons.mpr ⟨rfl, hcallers⟩⟩⟩
  | _ => exact ⟨hpaused, List.forall_mem_cons.mpr ⟨rfl, hcallers⟩⟩

theorem JsStep.closed {c : Choice} (hstep : JsStep host s c s')
    (hdecision : decision host s c = none) (hpaused : s.session.paused = false)
    (h : ∀ a ∈ s.js, a.opening = false) :
    s'.session.paused = false ∧ ∀ a ∈ s'.js, a.opening = false := by
  cases hstep with
  | pause hjs hnext => exact hnext.closed hjs hpaused h
  | handler hjs hnext =>
    exact ⟨by rw [(handlerNext_frame hnext).1]; exact hpaused, opening_stack hdecision hjs hnext h⟩
  | fires hjs => rw [decision_of_fires hjs] at hdecision; exact absurd hdecision (by simp)
  | statement hjs | getter hjs =>
    rw [hjs] at h
    exact ⟨hpaused, List.forall_mem_cons.mpr ⟨rfl, h⟩⟩
  | getterDone hjs => rw [hjs] at h; exact ⟨hpaused, (List.forall_mem_cons.mp h).2⟩
  | falsy hjs =>
    rw [hjs] at h
    exact ⟨hpaused, (List.forall_mem_cons.mp (List.forall_mem_cons.mp h).2).2⟩
  | spurious hjs =>
    rw [hjs] at h
    exact ⟨hpaused, List.forall_mem_cons.mpr ⟨rfl, (List.forall_mem_cons.mp h).2⟩⟩
  | evaluated hjs =>
    rw [hjs] at h
    have hcallers := (List.forall_mem_cons.mp (List.forall_mem_cons.mp h).2).2
    rw [finishEval_js]
    refine ⟨?_, List.forall_mem_cons.mpr ⟨rfl, hcallers⟩⟩
    unfold finishEval
    split <;> exact hpaused

/-- Past the store of `on_disconnect`, what the condition asks of a notification is that it is
heard. -/
theorem heard_of_undecided {a : Act} (hok : undecided host s a = true)
    (hclosed : s.ws.closed = true) : heard s a = true := by
  cases a with
  | ws =>
    simp only [heard, Bool.or_eq_true, Bool.not_eq_true']
    unfold Ws.notifies
    split
    · rename_i todo hws
      rw [hws] at hclosed
      simpa [undecided, hws, leave_of_closed rfl hclosed] using hok
    · rename_i q hws
      rw [hws] at hclosed
      exact absurd hclosed (by simp [Ws.closed])
    · exact Or.inl rfl
  | _ => rfl

/-- **One step past the store.** -/
theorem closed_step {a : Act} (hn : Nested s.js) (hsig : s.ws.signals = true)
    (h : s.ws.closed = true → Closed s) (hok : undecided host s a = true)
    (hstep : (machine host).step s a = some s') (hclosed : s'.ws.closed = true) : Closed s' := by
  rcases step_cases hstep with ⟨c, rfl, hjstep⟩ | hwstep
  · have hwas : s.ws.closed = true := by
      rcases hjstep.ws with hws | hws
      · rw [← hws]; exact hclosed
      · rw [← closed_wake, ← hws]; exact hclosed
    have hdecision : decision host s c = none := by simpa [undecided, hwas] using hok
    obtain ⟨hpaused, hopening⟩ := hjstep.closed hdecision (h hwas).paused (h hwas).opening
    exact ⟨hpaused, hopening, (hjstep.moves hn).safe (h hwas).safe⟩
  · rcases hwstep.closed hsig hclosed with hwas | ⟨todo, hws, hleave, hdue, rfl, rfl⟩
    · have hsafe := (hwstep.moves hsig (heard_of_undecided hok hwas)).safe (h hwas).safe
      refine ⟨hwstep.paused (h hwas).paused, ?_, hsafe⟩
      rcases hwstep.js with hjs | hjs
      · rw [hjs]; exact (h hwas).opening
      · rw [hjs]; exact opening_wakeJs (h hwas).opening
    · refine ⟨rfl, ?_, fun _ => Or.inr hdue⟩
      simpa [undecided, hws, hleave] using hok

theorem closed_of_reach (h : (machine host).Reach (fun s a => undecided host s a = true) s) :
    s.ws.closed = true → Closed s := by
  refine h.invariant_of (I := fun s => s.ws.closed = true → Closed s)
    (J := fun s => Nested s.js ∧ s.ws.signals = true) ?_ ?_ ?_
  · intro s hr
    exact ⟨nested_of_reach hr, signals_of_reach hr⟩
  · intro s hi hclosed
    rw [hi.ws] at hclosed
    exact absurd hclosed (by simp [Ws.closed])
  · rintro s a s' ⟨hn, hsig⟩ hi hok hstep
    exact closed_step hn hsig hi hok hstep

/-! ## 4. Never blocked again -/

/-- **The script is never blocked again.**  In every run in which nothing is on its way into a
pause when `on_disconnect` stores to `paused_`, its notification is heard, and the handler
does not decide to pause from then on, the JS thread never sleeps on `pause_cv_`, nor is about
to, once the WS thread has left its loop. -/
theorem never_blocked_of_reach
    (h : (machine host).Reach (fun s a => undecided host s a = true) s) : NeverBlocked s := by
  intro hgone
  have hws : s.ws = .gone := by
    cases hws : s.ws with
    | gone => rfl
    | _ => rw [hws] at hgone; exact absurd hgone (by simp [Ws.isGone])
  have hclosed := closed_of_reach h (by rw [hws]; rfl)
  by_contra hw
  have hblocked := hclosed.safe.blocked hw (by simp only [pauseCv, hws]; rfl)
  simp only [pauseCv, blocked, hclosed.paused] at hblocked
  exact absurd hblocked (by simp)

/-- A pause nobody resumes goes to sleep. -/
theorem pause_sleeps {reason : PauseReason} {bpId : Int}
    (hjs : s.js = .pause e reason bpId .capture :: callers) (hfree : s.pauseLocked = false)
    (hpending : s.session.pendingEval = none) :
    ∃ s', JsRun host s s' ∧ s'.ws = s.ws ∧ asleep s'.js = true := by
  refine ⟨{ s with
    session := { s.session.track e with paused := true }
    pauseLocked := false
    js := .pause e reason bpId .parked :: callers
    log := .paused :: s.log }, ⟨List.replicate 8 .next, ?_⟩, rfl, rfl⟩
  simp [StepSystem.run_cons, machine, step, jsStep, hjs, pauseNext, hfree, Session.track, hpending]

/-- **The condition is exact.**  With the client gone, a handler that decides to pause puts the
script to sleep for good. -/
theorem blocked_of_decision {c : Choice} (hgone : s.ws = .gone) (hfree : s.pauseLocked = false)
    (hposted : Posted s) (hd : decision host s c = some callers) :
    ∃ s', JsRun host s s' ∧ ¬ NeverBlocked s' := by
  have hpending : s.session.pendingEval = none := by
    rw [Posted, hgone] at hposted
    exact Option.map_eq_none_iff.mp hposted
  obtain ⟨e, reason, bpId, hrun⟩ := decision_runs hd
  obtain ⟨s', hrun', hws, hasleep⟩ := @pause_sleeps host
    { s with session := s.session.stopFor reason, js := .pause e reason bpId .capture :: callers }
    e callers reason bpId rfl hfree (by cases reason <;> exact hpending)
  refine ⟨s', hrun.trans hrun', fun hno => ?_⟩
  have haway := hno (by rw [hws]; exact congrArg Ws.isGone hgone)
  have hwaiter := waiter_of_asleep hasleep
  simp only [pauseCv, haway] at hwaiter
  exact absurd hwaiter (by simp)

end

/-- The client disconnects, and the WS thread leaves its loop. -/
def disconnect : List Act := .client .disconnect :: wsSteps 7

/-- The rule at a run in which the client disconnects during a pause; the script goes on and
comes past its next statement. -/
theorem never_blocked_of_reach_resumed :
    ∃ s, (machine posixHost).Reach (fun s a => undecided posixHost s a = true) s ∧
      s.ws.isGone = true ∧ s.js.length = 1 ∧ NeverBlocked s := by
  obtain ⟨s, hs, hend⟩ := @StepSystem.exists_reach_of_run _ _ (machine posixHost)
    (.start enabledSession)
    (askForPause ++ pauseOnRequest lineThree ++ fallAsleep ++ disconnect ++ jsSteps 6 ++
      .js (.statement lineThree) :: jsSteps 7)
    (undecided posixHost) (fun s => s.ws.isGone && s.js.length == 1) initial_start
    (by decide +kernel)
  simp only [Bool.and_eq_true, beq_iff_eq] at hend
  exact ⟨s, hs, hend.1, hend.2, never_blocked_of_reach hs⟩

/-- **A breakpoint of a client that has gone.**  The client sets a breakpoint on line 3 and
disconnects; the script comes to line 3, pauses and sleeps. -/
theorem breakpoint_outlives_client :
    ∃ s, (machine posixHost).Reachable s ∧ s.ws.isGone = true ∧ asleep s.js = true ∧
      ¬ NeverBlocked s := by
  obtain ⟨s, hs, hend⟩ := @StepSystem.exists_reachable_of_run _ _ (machine posixHost)
    (.start enabledSession)
    (.client (.setBreakpoint (ascii "/a.js") 2 0 false []) :: .ws :: disconnect ++
      .js (.statement lineThree) :: jsSteps 16)
    (fun s => s.ws.isGone && asleep s.js) initial_start (by decide +kernel)
  rw [Bool.and_eq_true] at hend
  refine ⟨s, hs, hend.1, hend.2, fun hno => ?_⟩
  have haway := hno hend.1
  have hwaiter := waiter_of_asleep hend.2
  simp only [pauseCv, haway] at hwaiter
  exact absurd hwaiter (by simp)

end QjsDebug.Threads
