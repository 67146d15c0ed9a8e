/-
# Code run by the debugger, and the pauses it may open

The handler has no re-entrancy flag.  Code the debugger itself runs -- a breakpoint condition,
an evaluated expression, a getter met during a capture -- calls the handler like any other,
and nothing keeps that inner call from pausing: a nested pause announces itself a second time,
and one that is opened while an evaluate request is served waits for the mutex its own thread
holds.

**When this does not happen.**  `outermost` asks of a run that the tests of the handler decide
to pause only where no call below is a pause or the evaluation of a condition.  Then there is
at most one pause (`Single`), `pause_mutex_` is held exactly by the pause that is between its
`lock` and `unlock`, and the events alternate (`one_pause_of_reach`).
-/
import QjsDebug.Threads.Steps
import Mathlib.Data.List.Chain

namespace QjsDebug.Threads

open Json (Value)

/-! ## 1. What is claimed -/

/-- The debugger is at work in this call: a pause is open, or `evaluate_condition` runs. -/
def Activation.busy : Activation → Bool
  | .pause _ _ _ _ => true
  | .handler _ (.condition _) => true
  | _ => false

def Activation.isPause : Activation → Bool
  | .pause _ _ _ _ => true
  | _ => false

/-- The events of the pauses, newest first: `true` for `Debugger.paused`, `false` for
`Debugger.resumed`. -/
def pauseEvents : List Obs → List Bool
  | [] => []
  | .paused :: log => true :: pauseEvents log
  | .resumed :: log => false :: pauseEvents log
  | _ :: log => pauseEvents log

/-- The events alternate, and the oldest one is `Debugger.paused`. -/
def Alternates (log : List Obs) : Prop :=
  (pauseEvents log).IsChain (· ≠ ·) ∧ (pauseEvents log).getLast? ≠ some false

/-- One pause at a time. -/
structure OnePause (s : State) : Prop where
  /-- No pause is on top of another one, or of the evaluation of a condition. -/
  alone : s.js.Pairwise fun a b => a.isPause = true → b.busy = false
  alternates : Alternates s.log
  /-- The JS thread does not wait for a mutex it holds. -/
  mutex : ∀ e reason bpId pc callers, s.js = .pause e reason bpId pc :: callers →
    pc = .lock ∨ pc = .relock → s.pauseLocked = false

/-- The side condition of a step: where the handler decides to pause, no call below it is
busy. -/
def outermost (host : Host) (s : State) : Act → Bool
  | .js c => ((decision host s c).getD []).all fun a => !a.busy
  | _ => true

/-! ## 2. One pause on the stack -/

/-- The call is a pause, or a handler that has decided on one. -/
def Activation.committed : Activation → Bool
  | .pause _ _ _ _ => true
  | .handler _ pc => pc.committed
  | .code => false

/-- Below a pause, decided on or open, nothing is busy. -/
def Single (js : List Activation) : Prop :=
  js.Pairwise fun a b => a.committed = true → b.busy = false

section

variable {a b : Activation} {callers : List Activation}

theorem Single.pop (h : Single (a :: callers)) : Single callers := List.Pairwise.of_cons h

theorem Single.quiet (h : Single (a :: callers)) (ha : a.committed = true) :
    ∀ c ∈ callers, c.busy = false := fun c hc => (List.pairwise_cons.mp h).1 c hc ha

theorem Single.push (h : Single callers) (ha : a.committed = false) : Single (a :: callers) := by
  refine List.pairwise_cons.mpr ⟨fun c _ hc => ?_, h⟩
  rw [ha] at hc
  exact absurd hc (by simp)

theorem Single.replace (h : Single (a :: callers))
    (hb : b.committed = true → a.committed = true ∨ ∀ c ∈ callers, c.busy = false) :
    Single (b :: callers) := by
  refine List.pairwise_cons.mpr ⟨fun c hc hcom => ?_, h.pop⟩
  rcases hb hcom with ha | hquiet
  · exact h.quiet ha c hc
  · exact hquiet c hc

/-- One pause in the place of another one. -/
theorem Single.pause {e e' : Event} {reason reason' : PauseReason} {bpId bpId' : Int}
    {pc pc' : PausePc} (h : Single (.pause e reason bpId pc :: callers)) :
    Single (.pause e' reason' bpId' pc' :: callers) := h.replace fun _ => Or.inl rfl

theorem Single.wakeJs {js : List Activation} (h : Single js) : Single (wakeJs js) := by
  unfold Threads.wakeJs
  split
  · exact h.pause
  · exact h

end

/-- The call is a pause at a place where `f` holds. -/
def Activation.pauseAt (f : PausePc → Bool) : Activation → Bool
  | .pause _ _ _ pc => f pc
  | _ => false

section

variable {f : PausePc → Bool}

/-- Below a pause there is no other one. -/
theorem Single.none_below {a : Activation} {callers : List Activation}
    (h : Single (a :: callers)) (ha : a.committed = true) :
    callers.any (Activation.pauseAt f) = false := by
  rw [List.any_eq_false]
  intro c hc hfc
  have hquiet := h.quiet ha c hc
  cases c with
  | pause _ _ _ _ => exact absurd hquiet (by simp [Activation.busy])
  | code | handler _ _ => exact absurd hfc (by simp [Activation.pauseAt])

theorem pauseAt_wakeJs (hf : f .parked = f .relock) (js : List Activation) :
    (wakeJs js).any (Activation.pauseAt f) = js.any (Activation.pauseAt f) := by
  unfold wakeJs
  split
  · simp [Activation.pauseAt, hf]
  · rfl

theorem pauseAt_stack (hf : f .capture = false) (e : Event) (callers : List Activation)
    (next : HandlerNext) :
    (next.stack e callers).any (Activation.pauseAt f) = callers.any (Activation.pauseAt f) := by
  cases next with
  | doPause _ _ => simp [HandlerNext.stack, Activation.pauseAt, hf]
  | _ => rfl

end

section

variable {host : Host} {s s' : State}

/-- Where `outermost` holds, a decision finds nothing busy below. -/
theorem quiet_of_outermost {c : Choice} {callers : List Activation}
    (hok : outermost host s (.js c) = true) (hd : decision host s c = some callers) :
    ∀ a ∈ callers, a.busy = false := by
  intro a ha
  simp only [outermost, hd, Option.getD_some, List.all_eq_true] at hok
  simpa using hok a ha

theorem single_stack {e : Event} {pc : HandlerPc} {callers : List Activation} {session : Session}
    {next : HandlerNext} (hok : outermost host s (.js .next) = true)
    (hjs : s.js = .handler e pc :: callers)
    (hnext : handlerNext host s.session e pc = some (session, next)) (h : Single s.js) :
    Single (next.stack e callers) := by
  rw [hjs] at h
  cases next with
  | goto pc' =>
    refine h.replace fun hc => ?_
    rcases committed_of_goto hjs hnext hc with hpc | hd
    · exact Or.inl hpc
    · exact Or.inr (quiet_of_outermost hok hd)
  | evaluate bpId => exact Single.push (Single.push h.pop rfl) rfl
  | doPause reason bpId => exact h.replace fun _ => Or.inl (committed_of_doPause hnext)
  | done => exact h.pop

theorem PauseStep.single {e : Event} {reason : PauseReason} {bpId : Int}
    {callers : List Activation} {pc : PausePc} (hjs : s.js = .pause e reason bpId pc :: callers)
    (hnext : PauseStep s e reason bpId callers pc s') (h : Single s.js) : Single s'.js := by
  rw [hjs] at h
  cases hnext with
  | evaluate _ => exact Single.push h.pause rfl
  | sendResumed => exact h.pop
  | _ => exact h.pause

/-- **One step keeps the pauses single.** -/
theorem single_step {a : Act} (h : Single s.js) (hok : outermost host s a = true)
    (hstep : (machine host).step s a = some s') : Single s'.js := by
  rcases step_cases hstep with ⟨c, rfl, hs⟩ | hs
  · cases hs with
    | statement hjs => rw [hjs] at h; exact h.push rfl
    | fires hjs =>
      have hquiet := quiet_of_outermost hok (decision_of_fires hjs)
      rw [hjs] at h
      exact h.pop.replace fun _ => Or.inr hquiet
    | falsy hjs => rw [hjs] at h; exact h.pop.pop
    | getterDone hjs => rw [hjs] at h; exact h.pop
    | evaluated hjs => rw [hjs] at h; rw [finishEval_js]; exact h.pop.pause
    | handler hjs hnext => exact single_stack hok hjs hnext h
    | getter hjs => rw [hjs] at h; exact h.push rfl
    | spurious hjs => rw [hjs] at h; exact h.pause
    | pause hjs hnext => exact hnext.single hjs h
  · rcases hs.js with hjs | hjs
    · rw [hjs]; exact h
    · rw [hjs]; exact h.wakeJs

theorem single_of_reach (h : (machine host).Reach (fun s a => outermost host s a = true) s) :
    Single s.js := by
  refine h.invariant (I := fun s => Single s.js) ?_ ?_
  · intro s hi
    rw [hi.js]
    exact List.pairwise_singleton _ _
  · intro s a s' hi hok hstep
    exact single_step hi hok hstep

end

/-! ## 3. The mutex -/

/-- Between `lock` and `unlock`, outside the sleep. -/
def PausePc.locked : PausePc → Bool
  | .capture | .walk | .storePaused | .sendPaused | .lock | .parked | .relock
  | .sendResumed => false
  | _ => true

/-- `pause_mutex_` is held iff some pause holds it. -/
def Locked (s : State) : Prop := s.pauseLocked = s.js.any (Activation.pauseAt PausePc.locked)

section

variable {host : Host} {s s' : State} {e : Event} {reason : PauseReason} {bpId : Int}
  {callers : List Activation} {pc : PausePc}

theorem PauseStep.locked (hjs : s.js = .pause e reason bpId pc :: callers)
    (hnext : PauseStep s e reason bpId callers pc s') (hs : Single s.js) (h : Locked s) :
    Locked s' := by
  unfold Locked at h ⊢
  rw [hjs] at h hs
  have hfree : callers.any (Activation.pauseAt PausePc.locked) = false := hs.none_below rfl
  cases hnext with
  | lock _ | relock _ => rfl
  | park | unlock => simp [Activation.pauseAt, PausePc.locked, hfree]
  | sendResumed => simpa [Activation.pauseAt, PausePc.locked] using h
  | _ => simpa [Activation.pauseAt, PausePc.locked] using h

/-- **The mutex follows the stack.** -/
theorem locked_step {a : Act} (hs : Single s.js) (h : Locked s)
    (hstep : (machine host).step s a = some s') : Locked s' := by
  unfold Locked at h ⊢
  rcases step_cases hstep with ⟨c, rfl, hjstep⟩ | hwstep
  · cases hjstep with
    | pause hjs hnext => exact hnext.locked hjs hs h
    | handler hjs _ => rw [hjs] at h; rw [pauseAt_stack rfl]; exact h
    | evaluated hjs =>
      rw [hjs] at h
      rw [finishEval_js]
      unfold finishEval
      split <;> exact h
    | statement hjs | fires hjs | falsy hjs => rw [hjs] at h; exact h
    | getterDone hjs | getter hjs | spurious hjs => rw [hjs] at h; exact h
  · cases hwstep with
    | notifyPause _ | notify _ => rw [pauseAt_wakeJs rfl]; exact h
    | _ => exact h

theorem locked_of_reach (h : (machine host).Reach (fun s a => outermost host s a = true) s) :
    Locked s := by
  refine h.invariant_of (I := Locked) (fun _ hr => single_of_reach hr) ?_ ?_
  · intro s hi
    rw [Locked, hi.pauseLocked, hi.js]
    rfl
  · intro s a s' hs hi _ hstep
    exact locked_step hs hi hstep

/-- A pause that is about to take the mutex finds it free. -/
theorem free_of_locked (hs : Single s.js) (h : Locked s)
    (hjs : s.js = .pause e reason bpId pc :: callers) (hpc : pc.locked = false) :
    s.pauseLocked = false := by
  unfold Locked at h
  rw [hjs] at h hs
  rw [h, List.any_cons, hs.none_below rfl]
  simpa [Activation.pauseAt] using hpc

end

/-! ## 4. The events -/

/-- `Debugger.paused` has been sent, `Debugger.resumed` has not. -/
def PausePc.announced : PausePc → Bool
  | .capture | .walk | .storePaused | .sendPaused => false
  | _ => true

/-- The events alternate, and the newest is `Debugger.paused` iff an announced pause is on the
stack. -/
structure Events (s : State) : Prop where
  alternates : Alternates s.log
  newest : (pauseEvents s.log).head? = some true ↔
    s.js.any (Activation.pauseAt PausePc.announced) = true

/-- `Debugger.paused` may follow when no pause is announced. -/
theorem Alternates.paused {log : List Obs} (h : Alternates log)
    (hhead : (pauseEvents log).head? ≠ some true) : Alternates (.paused :: log) := by
  obtain ⟨hchain, hlast⟩ := h
  unfold Alternates pauseEvents
  cases hl : pauseEvents log with
  | nil => exact ⟨.singleton _, by simp⟩
  | cons b rest =>
    rw [hl] at hchain hlast hhead
    refine ⟨.cons_cons ?_ hchain, ?_⟩
    · rintro rfl; exact hhead rfl
    · rw [List.getLast?_cons_cons]; exact hlast

/-- `Debugger.resumed` may follow on `Debugger.paused`. -/
theorem Alternates.resumed {log : List Obs} (h : Alternates log)
    (hhead : (pauseEvents log).head? = some true) : Alternates (.resumed :: log) := by
  obtain ⟨hchain, hlast⟩ := h
  unfold Alternates pauseEvents
  cases hl : pauseEvents log with
  | nil => rw [hl] at hhead; exact absurd hhead (by simp)
  | cons b rest =>
    rw [hl] at hchain hlast hhead
    obtain rfl := Option.some.inj hhead
    refine ⟨.cons_cons (by simp) hchain, ?_⟩
    rw [List.getLast?_cons_cons]
    exact hlast

section

variable {host : Host} {s s' : State} {e : Event} {reason : PauseReason} {bpId : Int}
  {callers : List Activation} {pc : PausePc}

theorem PauseStep.events (hjs : s.js = .pause e reason bpId pc :: callers)
    (hnext : PauseStep s e reason bpId callers pc s') (hs : Single s.js) (h : Events s) :
    Events s' := by
  obtain ⟨halt, hnew⟩ := h
  rw [hjs] at hnew hs
  have hnone : callers.any (Activation.pauseAt PausePc.announced) = false :=
    hs.none_below rfl
  cases hnext with
  | sendPaused =>
    refine ⟨halt.paused ?_, ?_⟩
    · rw [ne_eq, hnew]
      simp [Activation.pauseAt, PausePc.announced, hnone]
    · simp [pauseEvents, Activation.pauseAt, PausePc.announced]
  | sendResumed =>
    refine ⟨halt.resumed (hnew.mpr rfl), ?_⟩
    simp [pauseEvents, hnone]
  | _ => exact ⟨halt, hnew⟩

/-- **The events keep alternating.** -/
theorem events_step {a : Act} (hs : Single s.js) (h : Events s)
    (hstep : (machine host).step s a = some s') : Events s' := by
  obtain ⟨halt, hnew⟩ := h
  rcases step_cases hstep with ⟨c, rfl, hjstep⟩ | hwstep
  · cases hjstep with
    | pause hjs hnext => exact hnext.events hjs hs ⟨halt, hnew⟩
    | handler hjs _ => rw [hjs] at hnew; exact ⟨halt, by rw [pauseAt_stack rfl]; exact hnew⟩
    | evaluated hjs =>
      rw [hjs] at hnew
      unfold finishEval
      split <;> exact ⟨halt, hnew⟩
    | statement hjs | fires hjs | falsy hjs => rw [hjs] at hnew; exact ⟨halt, hnew⟩
    | getterDone hjs | getter hjs | spurious hjs => rw [hjs] at hnew; exact ⟨halt, hnew⟩
  · cases hwstep with
    | notifyPause _ | notify _ => exact ⟨halt, by rw [pauseAt_wakeJs rfl]; exact hnew⟩
    | _ => exact ⟨halt, hnew⟩

theorem events_of_reach (h : (machine host).Reach (fun s a => outermost host s a = true) s) :
    Events s := by
  refine h.invariant_of (I := Events) (fun _ hr => single_of_reach hr) ?_ ?_
  · intro s hi
    constructor
    · rw [hi.log]
      exact ⟨.nil, by simp [pauseEvents]⟩
    · rw [hi.log, hi.js]
      simp [pauseEvents, Activation.pauseAt]
  · intro s a s' hs hi _ hstep
    exact events_step hs hi hstep

/-! ## 5. One pause at a time -/

/-- **One pause at a time.**  In every run in which the handler decides to pause only where
no pause is open and no condition is being evaluated below it, every state reached has at most
one pause open and none on top of a condition, the events alternate, and the JS thread never
waits for a mutex of its own. -/
theorem one_pause_of_reach
    (h : (machine host).Reach (fun s a => outermost host s a = true) s) : OnePause s where
  alone := by
    refine (single_of_reach h).imp ?_
    intro a b hsingle ha
    cases a with
    | pause _ _ _ _ => exact hsingle rfl
    | code | handler _ _ => exact absurd ha (by simp [Activation.isPause])
  alternates := (events_of_reach h).alternates
  mutex := by
    intro e reason bpId pc callers hjs hpc
    refine free_of_locked (single_of_reach h) (locked_of_reach h) hjs ?_
    rcases hpc with rfl | rfl <;> rfl

/-- **The condition is exact.**  Where it fails, the JS thread alone gets to a state with a
pause on top of a busy call. -/
theorem not_one_pause_of_not_outermost {c : Choice} (h : outermost host s (.js c) = false) :
    ∃ s', JsRun host s s' ∧ ¬ OnePause s' := by
  simp only [outermost] at h
  cases hd : decision host s c with
  | none => rw [hd] at h; exact absurd h (by simp)
  | some below =>
    rw [hd, Option.getD_some, List.all_eq_false] at h
    obtain ⟨a, ha, hbusy⟩ := h
    obtain ⟨e, reason, bpId, hrun⟩ := decision_runs hd
    refine ⟨_, hrun, fun hone => ?_⟩
    have hquiet := (List.pairwise_cons.mp hone.alone).1 a ha rfl
    exact hbusy (by rw [hquiet]; rfl)

end

/-- A pause serves a request whose code runs a statement of its own. -/
def evaluateStatement : List Act :=
  askForPause ++ pauseOnRequest lineThree ++ fallAsleep ++ postRequest (ascii "f()") ++
    serveRequest ++ [.js (.statement lineThree)]

/-- The rule at a run in which an evaluated expression runs a statement. -/
theorem one_pause_of_reach_evaluating :
    ∃ s, (machine posixHost).Reach (fun s a => outermost posixHost s a = true) s ∧
      s.js.length = 4 ∧ OnePause s := by
  obtain ⟨s, hs, hlen⟩ := @StepSystem.exists_reach_of_run _ _ (machine posixHost)
    (.start enabledSession) (evaluateStatement ++ jsSteps 4) (outermost posixHost)
    (fun s => s.js.length == 4) initial_start (by decide +kernel)
  exact ⟨s, hs, by simpa using hlen, one_pause_of_reach hs⟩

/-- A pause on top of another one, waiting for the mutex of that one. -/
def deadlocked (s : State) : Bool :=
  match s.js with
  | .pause _ _ _ .lock :: .code :: .pause _ _ _ .evaluating :: _ =>
    s.pauseLocked && pauseEvents s.log == [true, true]
  | _ => false

/-- **A watched expression pauses inside the pause.**  The client asks for a pause while the
session is paused, and then for the value of a call; the first statement of the called
function takes the request.  `Debugger.paused` is sent a second time, and the JS thread waits
for the mutex it holds. -/
theorem pause_within_pause :
    ∃ s, (machine posixHost).Reachable s ∧ deadlocked s = true ∧ ¬ OnePause s := by
  obtain ⟨s, hs, hdead⟩ := @StepSystem.exists_reachable_of_run _ _ (machine posixHost)
    (.start enabledSession)
    (askForPause ++ pauseOnRequest lineThree ++ fallAsleep ++ askForPause ++
      postRequest (ascii "f()") ++ serveRequest ++ .js (.statement lineThree) :: jsSteps 10)
    deadlocked initial_start (by decide +kernel)
  refine ⟨s, hs, hdead, fun hone => ?_⟩
  unfold deadlocked at hdead
  split at hdead
  · rename_i hjs
    rw [Bool.and_eq_true] at hdead
    have hfree := hone.mutex _ _ _ _ _ hjs (Or.inl rfl)
    rw [hfree] at hdead
    exact absurd hdead.1 (by simp)
  · exact absurd hdead (by simp)

end QjsDebug.Threads
