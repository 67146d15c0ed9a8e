/-
# The wake-up of a paused thread

`do_pause` tests the predicate of its wait with `pause_mutex_` held, and sleeps on
`pause_cv_`.  `resume`, the step commands, `on_disconnect` and `evaluate_on_call_frame` change
what the predicate looks at and notify WITHOUT the mutex, so a notification can come between
the test and the sleep.

`pauseCv` reads the machine as a waiter on a condition variable, and `moves_step` shows that
every step is a move of one.  A wake-up is lost exactly by a notification that meets the JS
thread in the window with a predicate that does not tell it to sleep (`heard`): in runs without
one nobody sleeps without a reason (`no_lost_wakeup_of_reach`), and each one loses a wake-up
(`lost_wakeup_of_not_heard`).
-/
import QjsDebug.Lib.CondVar
import QjsDebug.Threads.Steps

namespace QjsDebug.Threads

/-! ## 1. What is claimed -/

/-- The JS thread sleeps on `pause_cv_`. -/
def asleep : List Activation → Bool
  | .pause _ _ _ .parked :: _ => true
  | _ => false

def Instr.isNotifyPause : Instr → Bool
  | .notifyPause => true
  | _ => false

/-- The WS thread is in one of the operations, before its notification. -/
def Ws.beforeNotify : Ws → Bool
  | .run todo => todo.any Instr.isNotifyPause
  | .evaluate _ .testPaused | .evaluate _ .lock | .evaluate _ .post | .evaluate _ .unlock
  | .evaluate _ .notify => true
  | _ => false

/-- The WS thread waits for the answer to its request. -/
def Ws.awaiting : Ws → Bool
  | .evaluate _ .relock | .evaluate _ .await | .evaluate _ .asleep => true
  | _ => false

/-- No wake-up of the paused JS thread has been lost. -/
structure NoLostWakeup (s : State) : Prop where
  /-- Outside the operations, who sleeps has reason to. -/
  reason : asleep s.js = true → s.ws.beforeNotify = false →
    s.session.paused = true ∧ s.session.pendingEval = none
  /-- Resumed by a completed operation, the script does not sleep. -/
  resumed : s.ws.beforeNotify = false → s.session.paused = false → asleep s.js = false
  /-- A request does not wait for a sleeping thread. -/
  request : s.ws.awaiting = true → asleep s.js = false

/-! ## 2. The condition variable -/

/-- The JS thread, seen from `pause_cv_`. -/
def jsWaiter : List Activation → Waiter
  | .pause _ _ _ .park :: _ => .window
  | .pause _ _ _ .parked :: _ => .asleep
  | _ => .away

/-- The predicate of the wait is false. -/
def blocked (s : Session) : Bool := s.paused && s.pendingEval.isNone

/-- Of the store to `paused_` and the notification, the notification comes next. -/
def due : List Instr → Bool
  | [] => false
  | .store .unpause :: _ => false
  | .notifyPause :: _ => true
  | _ :: todo => due todo

def Ws.due : Ws → Bool
  | .run todo => Threads.due todo
  | .evaluate _ .unlock | .evaluate _ .notify => true
  | _ => false

/-- `pause_cv_`. -/
def pauseCv : CondVar State where
  waiter s := jsWaiter s.js
  blocked s := blocked s.session
  due s := s.ws.due

/-- The next step of the WS thread is `pause_cv_.notify_all()`. -/
def Ws.notifies : Ws → Bool
  | .run (.notifyPause :: _) => true
  | .evaluate _ .notify => true
  | _ => false

/-- The side condition of a step: a notification is heard. -/
def heard (s : State) : Act → Bool
  | .ws => !s.ws.notifies || pauseCv.heard s
  | _ => true

/-! ## 3. The commands notify -/

/-- Every store to `paused_` is followed by its notification, and nothing follows the end of
the thread. -/
def signals : List Instr → Bool
  | [] => true
  | .store .unpause :: todo => due todo && signals todo
  | .notifyPause :: todo => !todo.any Instr.isNotifyPause && signals todo
  | .leave :: todo => todo.isEmpty
  | _ :: todo => signals todo

def Ws.signals : Ws → Bool
  | .run todo => Threads.signals todo
  | _ => true

theorem signals_start (c : Command) (id : Nat) : (c.start id).signals = true := by
  cases c <;> rfl

theorem signals_tail {i : Instr} {todo : List Instr} (h : signals (i :: todo) = true) :
    signals todo = true := by
  cases i with
  | store w =>
    cases w with
    | unpause => exact (Bool.and_eq_true_iff.mp h).2
    | _ => exact h
  | notifyPause => exact (Bool.and_eq_true_iff.mp h).2
  | notifyWait => exact h
  | leave =>
    obtain rfl := List.isEmpty_iff.mp h
    rfl

theorem signals_wake {ws : Ws} (h : ws.signals = true) : ws.wake.signals = true := by
  unfold Ws.wake
  split
  · rfl
  · exact h

/-- What is due was not stored by a command that still has to notify. -/
theorem beforeNotify_of_due {ws : Ws} (h : ws.due = true) : ws.beforeNotify = true := by
  cases ws with
  | gone => exact absurd h (by simp [Ws.due])
  | evaluate q pc => cases pc <;> first | rfl | exact absurd h (by simp [Ws.due])
  | run todo =>
    induction todo with
    | nil => exact absurd h (by simp [Ws.due, Threads.due])
    | cons i todo ih =>
      cases i with
      | notifyPause => rfl
      | store w =>
        cases w with
        | unpause => exact absurd h (by simp [Ws.due, Threads.due])
        | _ => exact ih h
      | notifyWait => exact ih h
      | leave => exact ih h

section

variable {host : Host} {s s' : State}

theorem signals_step {a : Act} (h : s.ws.signals = true)
    (hstep : (machine host).step s a = some s') : s'.ws.signals = true := by
  rcases step_cases hstep with ⟨c, rfl, hjstep⟩ | hwstep
  · rcases hjstep.ws with hws | hws
    · rw [hws]; exact h
    · rw [hws]; exact signals_wake h
  · cases hwstep with
    | client _ => exact signals_start _ _
    | store hws | notifyPause hws | notifyWait hws => rw [hws] at h; exact signals_tail h
    | _ => rfl

theorem signals_of_reach {ok : State → Act → Prop} (h : (machine host).Reach ok s) :
    s.ws.signals = true := by
  refine h.invariant (I := fun s => s.ws.signals = true) ?_ ?_
  · intro s hi
    rw [hi.ws]
    rfl
  · intro s a s' hi _ hstep
    exact signals_step hi hstep

end

/-! ## 4. Every step is a move -/

theorem jsWaiter_suspended {js : List Activation} (h : ∀ a ∈ js, a.suspended = true) :
    jsWaiter js = .away := by
  unfold jsWaiter
  split
  · exact absurd (h _ List.mem_cons_self) (by simp [Activation.suspended])
  · exact absurd (h _ List.mem_cons_self) (by simp [Activation.suspended])
  · rfl

/-- Below the innermost call nobody sleeps. -/
theorem Nested.away {a : Activation} {callers : List Activation} (h : Nested (a :: callers)) :
    jsWaiter callers = .away := jsWaiter_suspended h

theorem jsWaiter_stack {e : Event} {pc : HandlerPc} {callers : List Activation}
    (h : Nested (.handler e pc :: callers)) (next : HandlerNext) :
    jsWaiter (next.stack e callers) = .away := by
  cases next with
  | done => exact h.away
  | _ => rfl

theorem jsWaiter_wakeJs (js : List Activation) :
    (jsWaiter js = .asleep → jsWaiter (wakeJs js) = .away) ∧
      (jsWaiter js = .away → jsWaiter (wakeJs js) = .away) := by
  unfold wakeJs
  split
  · exact ⟨fun _ => rfl, fun _ => rfl⟩
  · rename_i hnot
    refine ⟨fun h => ?_, id⟩
    unfold jsWaiter at h
    split at h
    · exact absurd h (by simp)
    · exact absurd rfl (hnot _ _ _ _)
    · exact absurd h (by simp)

section

variable {host : Host} {s s' : State}

theorem PauseStep.moves {e : Event} {reason : PauseReason} {bpId : Int}
    {callers : List Activation} {pc : PausePc} (hjs : s.js = .pause e reason bpId pc :: callers)
    (hn : Nested s.js) (h : PauseStep s e reason bpId callers pc s') : pauseCv.Moves s s' := by
  cases h with
  | sleep hp hr => exact .test (by simp [pauseCv, blocked, hp, hr])
  | park => exact .other (fun _ => by simp [pauseCv, jsWaiter, hjs]) id id
  | sendResumed => rw [hjs] at hn; exact .away hn.away
  | _ => exact .away rfl

theorem JsStep.moves {c : Choice} (hn : Nested s.js) (h : JsStep host s c s') :
    pauseCv.Moves s s' := by
  cases h with
  | falsy hjs => rw [hjs] at hn; exact .away hn.pop.away
  | evaluated _ => exact .away (congrArg jsWaiter (finishEval_js _ _ _))
  | handler hjs _ => rw [hjs] at hn; exact .away (jsWaiter_stack hn _)
  | pause hjs hnext => exact hnext.moves hjs hn
  | _ => exact .away rfl

/-- The store to `paused_` makes the notification due; the others change nothing for the
waiter. -/
theorem moves_store {w : Write} {todo : List Instr} (hws : s.ws = .run (.store w :: todo))
    (hsig : s.ws.signals = true) :
    pauseCv.Moves s { s with session := w.apply s.session, ws := .run todo } := by
  rw [hws] at hsig
  by_cases hw : w = .unpause
  · subst hw
    exact .change (Bool.and_eq_true_iff.mp hsig).1
  · refine .other id ?_ ?_
    · intro hb
      obtain ⟨hpending, hpaused⟩ := w.frame s.session
      simpa only [pauseCv, blocked, hpending, hpaused hw] using hb
    · intro hd
      simp only [pauseCv, hws] at hd
      cases w with
      | unpause => exact absurd rfl hw
      | _ => exact hd

/-- A notification that is heard. -/
theorem moves_notify {ws : Ws} (hheard : pauseCv.heard s = true) :
    pauseCv.Moves s { s with js := wakeJs s.js, ws := ws } :=
  .notify hheard (jsWaiter_wakeJs s.js).1 (jsWaiter_wakeJs s.js).2 rfl

theorem WsStep.moves {a : Act} (hsig : s.ws.signals = true) (hok : heard s a = true)
    (h : WsStep s a s') : pauseCv.Moves s s' := by
  -- a step of the WS thread that neither stores nor notifies, seen from what is due
  have hother : ∀ ws, (s.ws.due = true → ws.due = true) →
      ∀ t : State, t.js = s.js → t.session = s.session → t.ws = ws → pauseCv.Moves s t := by
    intro ws hdue t hjs hsession hws
    refine .other ?_ ?_ ?_
    · simp only [pauseCv, hjs]; exact id
    · simp only [pauseCv, hsession]; exact id
    · simp only [pauseCv, hws]; exact hdue
  cases h with
  | store hws => exact moves_store hws hsig
  | notifyPause hws | notify hws =>
    exact moves_notify (by simpa [heard, Ws.notifies, hws] using hok)
  | post _ => exact .change rfl
  | clear _ _ =>
    refine .other id (fun hb => ?_) (fun hd => ?_)
    · simp only [pauseCv, blocked, Bool.and_eq_true] at hb ⊢
      exact ⟨hb.1, rfl⟩
    · rename_i hws _
      simp [pauseCv, Ws.due, hws] at hd
  | client hws => exact hother _ (by simp [hws, Ws.due, due]) _ rfl rfl rfl
  | notifyWait hws => exact hother _ (by rw [hws]; exact id) _ rfl rfl rfl
  | leave hws =>
    rw [hws] at hsig
    obtain rfl := List.isEmpty_iff.mp hsig
    exact hother _ (by simp [hws, Ws.due, due]) _ rfl rfl rfl
  | unlock hws => exact hother _ (fun _ => rfl) _ rfl rfl rfl
  | testPaused hws | notPaused hws | notReady hws | unlockAfter hws | reply hws | spurious hws =>
    exact hother _ (by simp [hws, Ws.due]) _ rfl rfl rfl
  | lock hws _ | relock hws _ | ready hws _ _ =>
    exact hother _ (by simp [hws, Ws.due]) _ rfl rfl rfl

/-- **Every step is a move of the condition variable.** -/
theorem moves_step {a : Act} (hn : Nested s.js) (hsig : s.ws.signals = true)
    (hok : heard s a = true) (hstep : (machine host).step s a = some s') :
    pauseCv.Moves s s' := by
  rcases step_cases hstep with ⟨c, rfl, hjstep⟩ | hwstep
  · exact hjstep.moves hn
  · exact hwstep.moves hsig hok

theorem safe_of_reach (h : (machine host).Reach (fun s a => heard s a = true) s) :
    pauseCv.Safe s := by
  refine h.invariant_of (I := pauseCv.Safe)
    (J := fun s => Nested s.js ∧ s.ws.signals = true) ?_ ?_ ?_
  · intro s hr
    exact ⟨nested_of_reach hr, signals_of_reach hr⟩
  · intro s hi hw
    refine absurd ?_ hw
    simp only [pauseCv, hi.js]
    rfl
  · rintro s a s' ⟨hn, hsig⟩ hi hok hstep
    exact (moves_step hn hsig hok hstep).safe hi

/-! ## 5. No wake-up is lost -/

theorem waiter_of_asleep {s : State} (h : asleep s.js = true) : pauseCv.waiter s = .asleep := by
  unfold asleep at h
  split at h
  · rename_i hjs; simp only [pauseCv, hjs]; rfl
  · exact absurd h (by simp)

theorem posted_of_awaiting {ws : Ws} (h : ws.awaiting = true) :
    ws.posted.isSome = true ∧ ws.due = false := by
  unfold Ws.awaiting at h
  split at h
  · exact ⟨rfl, rfl⟩
  · exact ⟨rfl, rfl⟩
  · exact ⟨rfl, rfl⟩
  · exact absurd h (by simp)

/-- **No wake-up is lost.**  In every run whose notifications are heard, in every state it
reaches: outside the operations of the WS thread, before their notification, who sleeps on
`pause_cv_` has reason to; and no request waits for a thread that sleeps. -/
theorem no_lost_wakeup_of_reach
    (h : (machine host).Reach (fun s a => heard s a = true) s) : NoLostWakeup s := by
  have hblocked : asleep s.js = true → s.ws.due = false → blocked s.session = true := by
    intro hs hd
    exact (safe_of_reach h).blocked (by simp [waiter_of_asleep hs]) hd
  have hreason : asleep s.js = true → s.ws.beforeNotify = false →
      s.session.paused = true ∧ s.session.pendingEval = none := by
    intro hs hb
    have hd : s.ws.due = false := by
      by_contra hc
      rw [beforeNotify_of_due (by simpa using hc)] at hb
      exact absurd hb (by simp)
    simpa [blocked] using hblocked hs hd
  refine ⟨hreason, ?_, ?_⟩
  · intro hb hp
    by_contra hs
    rw [(hreason (by simpa using hs) hb).1] at hp
    exact absurd hp (by simp)
  · intro hw
    by_contra hs
    obtain ⟨hposted, hd⟩ := posted_of_awaiting hw
    have hb := hblocked (by simpa using hs) hd
    rw [← posted_of_reach h, Option.isSome_map] at hposted
    simp only [blocked, Bool.and_eq_true, Option.isNone_iff_eq_none] at hb
    rw [hb.2] at hposted
    exact absurd hposted (by simp)

/-- In the window the JS thread is about to sleep. -/
theorem park_of_window (h : pauseCv.waiter s = .window) :
    ∃ e reason bpId callers, s.js = .pause e reason bpId .park :: callers := by
  simp only [pauseCv, jsWaiter] at h
  split at h
  · rename_i hjs; exact ⟨_, _, _, _, hjs⟩
  · exact absurd h (by simp)
  · exact absurd h (by simp)

/-- A notification in the window wakes nobody, and is the last one of its operation. -/
theorem notify_in_window (hnot : s.ws.notifies = true) (hsig : s.ws.signals = true)
    (hjs : jsWaiter s.js = .window) :
    ∃ ws, wsStep s = some { s with ws := ws } ∧ ws.beforeNotify = false := by
  have hwake : wakeJs s.js = s.js := by
    unfold wakeJs
    split
    · rename_i hparked; rw [hparked] at hjs; exact absurd hjs (by simp [jsWaiter])
    · rfl
  unfold Ws.notifies at hnot
  split at hnot
  · rename_i todo hws
    rw [hws] at hsig
    refine ⟨.run todo, ?_, ?_⟩
    · simp [wsStep, hws, Instr.exec, hwake]
    · simpa [Ws.beforeNotify] using (Bool.and_eq_true_iff.mp hsig).1
  · rename_i q hws
    refine ⟨.evaluate q .relock, ?_, rfl⟩
    simp [wsStep, hws, evalNext, hwake]
  · exact absurd hnot (by simp)

/-- **The condition is exact.**  A notification that is not heard loses a wake-up: the JS
thread goes to sleep without a reason, with nobody left to notify it. -/
theorem lost_wakeup_of_not_heard (hsig : s.ws.signals = true) (h : heard s .ws = false) :
    ∃ s', (machine host).run s [.ws, .js .next] = some s' ∧ ¬ NoLostWakeup s' := by
  simp only [heard, Bool.or_eq_false_iff, Bool.not_eq_false'] at h
  obtain ⟨hnot, hlost⟩ := h
  simp only [CondVar.heard, Bool.or_eq_false_iff, bne_eq_false_iff_eq] at hlost
  obtain ⟨hwindow, hblocked⟩ := hlost
  obtain ⟨e, reason, bpId, callers, hjs⟩ := park_of_window hwindow
  obtain ⟨ws, hstep, hbefore⟩ := notify_in_window hnot hsig hwindow
  refine ⟨{ s with
    pauseLocked := false, js := .pause e reason bpId .parked :: callers, ws := ws }, ?_, ?_⟩
  · rw [StepSystem.run_cons]
    refine Option.bind_eq_some_iff.mpr ⟨_, hstep, ?_⟩
    simp [StepSystem.run_cons, machine, step, jsStep, hjs, pauseNext]
  · intro hno
    obtain ⟨hpaused, hpending⟩ := hno.reason rfl hbefore
    have hpaused : s.session.paused = true := hpaused
    have hpending : s.session.pendingEval = none := hpending
    simp [pauseCv, blocked, hpaused, hpending] at hblocked

end

/-- The rule at a run in which a step command wakes the JS thread out of its sleep. -/
theorem no_lost_wakeup_of_reach_stepOver :
    ∃ s, (machine posixHost).Reach (fun s a => heard s a = true) s ∧
      s.session.paused = false ∧ NoLostWakeup s := by
  obtain ⟨s, hs, hpaused⟩ := @StepSystem.exists_reach_of_run _ _ (machine posixHost)
    (.start enabledSession)
    (askForPause ++ pauseOnRequest lineThree ++ fallAsleep ++ .client .stepOver :: wsSteps 5)
    heard (fun s => !s.session.paused) initial_start (by decide +kernel)
  exact ⟨s, hs, by simpa using hpaused, no_lost_wakeup_of_reach hs⟩

/-- **A resume in the window is lost.**  The JS thread has found that it is to sleep and is
about to; the client's resume is executed to its end; the JS thread falls asleep. -/
theorem resume_lost :
    ∃ s, (machine posixHost).Reachable s ∧ asleep s.js = true ∧ s.ws.beforeNotify = false ∧
      s.session.paused = false ∧ ¬ NoLostWakeup s := by
  obtain ⟨s, hs, hlost⟩ := @StepSystem.exists_reachable_of_run _ _ (machine posixHost)
    (.start enabledSession)
    (askForPause ++ pauseOnRequest lineThree ++ jsSteps 1 ++ .client .resume :: wsSteps 4 ++
      jsSteps 1)
    (fun s => asleep s.js && !s.ws.beforeNotify && !s.session.paused) initial_start
    (by decide +kernel)
  simp only [Bool.and_eq_true, Bool.not_eq_true'] at hlost
  obtain ⟨⟨hasleep, hbefore⟩, hpaused⟩ := hlost
  refine ⟨s, hs, hasleep, hbefore, hpaused, fun hno => ?_⟩
  rw [hno.resumed hbefore hpaused] at hasleep
  exact absurd hasleep (by simp)

end QjsDebug.Threads
