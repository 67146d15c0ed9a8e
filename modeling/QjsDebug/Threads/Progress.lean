/-
# The script can always go on

Each thread waits for the other: the JS thread sleeps until the client resumes it, the WS thread
until its request is served, and each of them for a mutex the other may hold.  This module shows
that they never wait in a circle.  From any state of any interleaving both threads come to rest,
where the script is running and nothing is held, with the steps of their own and with nothing but
a `Debugger.resume` from the client (`rest_of_reach`).

The runs are those that the known defects leave: the handler decides to pause on the outermost
level only, notifications are heard, and the client stays (`orderly`).  The state is one in which
no statement of code that the debugger itself runs is being handled, since such a handler may be
bound to pause.

**The argument** is a variant.  Whoever of the two threads can be waited for takes its next step,
and that step lowers what is left of the command of the WS thread (`Ws.work`), or leaves it and
lowers what is left of the calls of the JS thread (`Activation.weight`).  It ends with the WS
thread waiting for a message and the script running or paused (§5); then a resume is enough (§6).
-/
import Mathlib.Data.Prod.Lex
import QjsDebug.Threads.Disconnect
import QjsDebug.Threads.Evaluate
import QjsDebug.Threads.Reentrancy

namespace QjsDebug.Threads

/-! ## 1. What is shown -/

/-- The script is running, the WS thread waits for a message, and nothing is held or asked. -/
structure AtRest (s : State) : Prop where
  js : s.js = [.code]
  ws : s.ws = .run []
  pauseLocked : s.pauseLocked = false
  evalOwner : s.evalOwner = none
  paused : s.session.paused = false
  pendingEval : s.session.pendingEval = none

/-- The client does not leave. -/
def stays : Act → Bool
  | .client .disconnect => false
  | _ => true

/-- The side condition of a step: none of the known defects strikes, and the client stays. -/
def orderly (host : Host) (s : State) (a : Act) : Bool := outermost host s a && heard s a && stays a

/-- The steps on the way to rest: no statement begins, no getter runs, a condition comes out false,
nobody wakes up out of nothing, and the client resumes at most. -/
def settling : Act → Bool
  | .js .next | .js (.finish _ false) | .ws | .client .resume => true
  | _ => false

/-- A statement of code that the debugger itself runs is being handled. -/
def handlingInside : List Activation → Bool
  | .handler _ _ :: callers => callers.any Activation.busy
  | _ => false

/-! ## 2. What the stack looks like -/

/-- The call has code on top of it and waits for its end. -/
def Activation.interrupted : Activation → Bool
  | .handler _ (.condition _) => true
  | .pause _ _ _ .walk => true
  | .pause _ _ _ .evaluating => true
  | _ => false

/-- The call is one that can take a step. -/
def Activation.active : Activation → Bool
  | .code => false
  | .handler _ pc => match pc with
    | .condition _ => false
    | _ => true
  | .pause _ _ _ pc => pc != .evaluating

/-- Code, on top of calls that wait for their code. -/
inductive Running : List Activation → Prop
  | script : Running [.code]
  | inside {a callers} (ha : a.interrupted = true) (h : Running callers) :
      Running (.code :: a :: callers)

/-- Running code, perhaps with a call of the debugger on top. -/
inductive Stacked : List Activation → Prop
  | code {js} (h : Running js) : Stacked js
  | call {a callers} (ha : a.active = true) (h : Running callers) : Stacked (a :: callers)

section

variable {a : Activation} {callers : List Activation}

theorem Stacked.running (h : Stacked (.code :: callers)) : Running (.code :: callers) := by
  cases h with
  | code h => exact h
  | call ha _ => cases ha

/-- Below code is a call that waits for it. -/
theorem Stacked.below (h : Stacked (.code :: a :: callers)) :
    a.interrupted = true ∧ Running callers := by
  cases h.running with
  | inside ha hcallers => exact ⟨ha, hcallers⟩

/-- Below a call of the debugger is the code it was called from. -/
theorem Stacked.returns (h : Stacked (a :: callers)) (ha : a ≠ .code) :
    a.active = true ∧ Running callers := by
  cases h with
  | code h => cases h <;> exact absurd rfl ha
  | call hactive hcallers => exact ⟨hactive, hcallers⟩

/-- Code on which nothing waits but the script is the script. -/
theorem Running.script_of_quiet (h : Running callers) (hquiet : ∀ c ∈ callers, c.busy = false) :
    callers = [.code] := by
  cases h with
  | script => rfl
  | @inside a callers ha _ =>
    have hbusy := hquiet a (List.mem_cons_of_mem _ List.mem_cons_self)
    unfold Activation.interrupted at ha
    split at ha <;> first | cases hbusy | cases ha

theorem not_handlingInside (h : Running callers) : handlingInside callers = false := by
  cases h <;> rfl

theorem Stacked.wakeJs {js : List Activation} (h : Stacked js) : Stacked (wakeJs js) := by
  unfold Threads.wakeJs
  split
  · exact .call rfl (h.returns (by simp)).2
  · exact h

/-- A step of the handler leads to another place of it, but never into the condition. -/
theorem active_of_goto {host : Host} {s session : Session} {e : Event} {pc pc' : HandlerPc}
    (h : handlerNext host s e pc = some (session, .goto pc')) :
    (Activation.handler e pc').active = true := by
  cases pc' with
  | condition bpId =>
    cases pc with
    | condition _ => simp [handlerNext] at h
    | _ =>
      simp only [handlerNext, Option.some.injEq, Prod.mk.injEq] at h
      grind
  | _ => rfl

theorem Stacked.stack {host : Host} {s session : Session} {e : Event} {pc : HandlerPc}
    {next : HandlerNext} (h : Stacked (.handler e pc :: callers))
    (hnext : handlerNext host s e pc = some (session, next)) :
    Stacked (next.stack e callers) := by
  obtain ⟨-, hcallers⟩ := h.returns (by simp)
  cases next with
  | goto pc' => exact .call (active_of_goto hnext) hcallers
  | evaluate bpId => exact .code (.inside rfl hcallers)
  | doPause reason bpId => exact .call rfl hcallers
  | done => exact .code hcallers

end

section

variable {host : Host} {s s' : State}

theorem PauseStep.stacked {e : Event} {reason : PauseReason} {bpId : Int}
    {callers : List Activation} {pc : PausePc} (hjs : s.js = .pause e reason bpId pc :: callers)
    (hnext : PauseStep s e reason bpId callers pc s') (h : Stacked s.js) : Stacked s'.js := by
  rw [hjs] at h
  obtain ⟨-, hcallers⟩ := h.returns (by simp)
  cases hnext with
  | evaluate _ => exact .code (.inside rfl hcallers)
  | sendResumed => exact .code hcallers
  | _ => exact .call rfl hcallers

/-- **Code and calls of the debugger alternate.** -/
theorem stacked_step {a : Act} (h : Stacked s.js) (hstep : (machine host).step s a = some s') :
    Stacked s'.js := by
  rcases step_cases hstep with ⟨c, rfl, hs⟩ | hs
  · cases hs with
    | statement hjs => rw [hjs] at h; exact .call rfl h.running
    | fires hjs => rw [hjs] at h; exact .call rfl h.below.2
    | falsy hjs => rw [hjs] at h; exact .code h.below.2
    | getterDone hjs => rw [hjs] at h; exact .call rfl h.below.2
    | evaluated hjs => rw [hjs] at h; rw [finishEval_js]; exact .call rfl h.below.2
    | handler hjs hnext => rw [hjs] at h; exact h.stack hnext
    | getter hjs => rw [hjs] at h; exact .code (.inside rfl (h.returns (by simp)).2)
    | spurious hjs => rw [hjs] at h; exact .call rfl (h.returns (by simp)).2
    | pause hjs hnext => exact hnext.stacked hjs h
  · rcases hs.js with hjs | hjs
    · rw [hjs]; exact h
    · rw [hjs]; exact h.wakeJs

end

/-! ## 3. Who waits has reason to -/

/-- Between the two stores to `paused_`, seen from the JS thread. -/
def PausePc.opened : PausePc → Bool
  | .capture | .walk | .storePaused | .unlock | .sendResumed => false
  | _ => true

/-- The WS thread has seen that the script is paused, and has no answer yet. -/
def Ws.asking : Ws → Bool
  | .evaluate _ .testPaused | .evaluate _ (.unlockAfter _) | .evaluate _ (.reply _) => false
  | .evaluate _ _ => true
  | _ => false

/-- A paused session has a pause that looks at it, and requests are made of paused sessions. -/
structure Engaged (s : State) : Prop where
  opened : s.session.paused = true → s.js.any (Activation.pauseAt PausePc.opened) = true
  asking : s.ws.asking = true → s.session.paused = true

/-- Where the JS thread is about to say so, the request is ready. -/
def Answered (s : State) : Prop :=
  ∀ e reason bpId callers, s.js = .pause e reason bpId .notifyDone :: callers →
    ∀ r, s.session.pendingEval = some r → r.ready = true

/-- The WS thread is in its loop, and no command takes it out. -/
def Ws.staying : Ws → Bool
  | .run todo => !todo.any Instr.isLeave
  | .evaluate _ _ => true
  | .gone => false

section

variable {host : Host} {s s' : State}

theorem asking_wake (ws : Ws) : ws.wake.asking = ws.asking := by
  unfold Ws.wake
  split <;> rfl

theorem asking_start (c : Command) (id : Nat) : (c.start id).asking = false := by
  cases c <;> rfl

theorem PauseStep.engaged {e : Event} {reason : PauseReason} {bpId : Int}
    {callers : List Activation} {pc : PausePc} (hjs : s.js = .pause e reason bpId pc :: callers)
    (hnext : PauseStep s e reason bpId callers pc s') (h : Engaged s) : Engaged s' := by
  obtain ⟨hopened, hasking⟩ := h
  rw [hjs] at hopened
  cases hnext with
  | storePaused => exact ⟨fun _ => rfl, fun _ => rfl⟩
  | leave hp => exact ⟨fun hc => absurd (hp.symm.trans hc) (by simp), hasking⟩
  | notifyDone => exact ⟨hopened, by rw [asking_wake]; exact hasking⟩
  | _ => exact ⟨hopened, hasking⟩

/-- The test in front of a request. -/
theorem paused_of_testPaused {q : Query} (hws : s.ws = .evaluate q .testPaused)
    (hstep : (machine host).step s .ws = some s') (hs' : s'.ws.asking = true) :
    s'.session.paused = true := by
  simp only [machine, step, wsStep, hws, evalNext, Option.some.injEq] at hstep
  subst hstep
  cases hp : s.session.paused with
  | true => rfl
  | false => simp [hp, Ws.asking] at hs'

/-- **Nobody waits for a pause that is over.** -/
theorem engaged_step {a : Act} (h : Engaged s) (hstep : (machine host).step s a = some s') :
    Engaged s' := by
  obtain ⟨hopened, hasking⟩ := h
  rcases step_cases hstep with ⟨c, rfl, hjstep⟩ | hwstep
  · cases hjstep with
    | pause hjs hnext => exact hnext.engaged hjs ⟨hopened, hasking⟩
    | handler hjs hnext =>
      obtain ⟨hpaused, -⟩ := handlerNext_frame hnext
      rw [hjs] at hopened
      constructor
      · rw [hpaused, pauseAt_stack rfl]
        exact hopened
      · rw [hpaused]
        exact hasking
    | evaluated hjs =>
      rw [hjs] at hopened
      unfold finishEval
      split <;> exact ⟨hopened, hasking⟩
    | statement hjs | fires hjs | falsy hjs => rw [hjs] at hopened; exact ⟨hopened, hasking⟩
    | getterDone hjs | getter hjs | spurious hjs => rw [hjs] at hopened; exact ⟨hopened, hasking⟩
  · cases hwstep with
    | client hws => exact ⟨hopened, fun hc => absurd hc (by simp [asking_start])⟩
    | @store w _ _ =>
      refine ⟨fun hp => ?_, fun hc => absurd hc (by simp [Ws.asking])⟩
      by_cases hw : w = .unpause
      · subst hw
        cases hp
      · exact hopened (((w.frame s.session).2 hw).symm.trans hp)
    | notifyPause hws =>
      exact ⟨by rw [pauseAt_wakeJs rfl]; exact hopened, fun hc => absurd hc (by simp [Ws.asking])⟩
    | notify hws => rw [hws] at hasking; exact ⟨by rw [pauseAt_wakeJs rfl]; exact hopened, hasking⟩
    | testPaused hws => exact ⟨hopened, paused_of_testPaused hws hstep⟩
    | notifyWait _ | leave _ | notPaused _ | reply _ =>
      exact ⟨hopened, fun hc => absurd hc (by simp [Ws.asking])⟩
    | lock hws _ | relock hws _ => rw [hws] at hasking; exact ⟨hopened, hasking⟩
    | post hws | unlock hws | notReady hws | spurious hws =>
      rw [hws] at hasking
      exact ⟨hopened, hasking⟩
    | ready hws _ _ => rw [hws] at hasking; exact ⟨hopened, hasking⟩
    | clear hws _ => exact ⟨hopened, fun hc => absurd hc (by simp [Ws.asking])⟩
    | unlockAfter hws => exact ⟨hopened, fun hc => absurd hc (by simp [Ws.asking])⟩

theorem not_answering {e : Event} {reason : PauseReason} {bpId : Int} {callers : List Activation}
    {pc : PausePc} {js : List Activation} (h : Running js) :
    js ≠ .pause e reason bpId pc :: callers := by
  cases h <;> simp

theorem PauseStep.answered {e : Event} {reason : PauseReason} {bpId : Int}
    {callers : List Activation} {pc : PausePc} (hjs : s.js = .pause e reason bpId pc :: callers)
    (hnext : PauseStep s e reason bpId callers pc s') (h : Stacked s.js) : Answered s' := by
  rw [hjs] at h
  obtain ⟨-, hcallers⟩ := h.returns (by simp)
  intro e' reason' bpId' callers' hjs' r hr
  cases hnext with
  | setReady =>
    obtain ⟨r', -, rfl⟩ := Option.map_eq_some_iff.mp hr
    rfl
  | sendResumed => exact absurd hjs' (not_answering hcallers)
  | _ => simp at hjs'

/-- **The JS thread does not answer what it has not done.** -/
theorem answered_step {a : Act} (hstacked : Stacked s.js) (howner : Owner s) (h : Answered s)
    (hstep : (machine host).step s a = some s') : Answered s' := by
  have hstacked' := stacked_step hstacked hstep
  rcases step_cases hstep with ⟨c, rfl, hjstep⟩ | hwstep
  · cases hjstep with
    | pause hjs hnext => exact hnext.answered hjs hstacked
    | @handler _ _ _ _ next hjs _ =>
      rw [hjs] at hstacked
      intro e reason bpId callers hjs'
      cases next with
      | done => exact absurd hjs' (not_answering (hstacked.returns (by simp)).2)
      | _ => simp [HandlerNext.stack] at hjs'
    | falsy hjs =>
      rw [hjs] at hstacked
      intro e reason bpId callers hjs'
      exact absurd hjs' (not_answering hstacked.below.2)
    | evaluated hjs =>
      intro e reason bpId callers hjs'
      rw [finishEval_js] at hjs'
      simp at hjs'
    | _ => intro e reason bpId callers hjs'; simp at hjs'
  · intro e reason bpId callers hjs' r hr
    -- the stack was the same, and then the WS thread does not hold the mutex
    have hjs : s.js = .pause e reason bpId .notifyDone :: callers := by
      rcases hwstep.js with hsame | hwoken
      · exact hsame ▸ hjs'
      · rw [hwoken] at hjs'
        unfold wakeJs at hjs'
        split at hjs'
        · simp at hjs'
        · exact hjs'
    have hfree : s.ws.holdsEval = false := by
      by_contra hc
      have hnone := howner.no_holders (by simpa using hc)
      rw [hjs] at hnone
      simp [holders, Activation.evalPc, PausePc.holdsEval] at hnone
    cases hwstep with
    | post hws | clear hws _ => rw [hws] at hfree; cases hfree
    | store _ => exact h _ _ _ _ hjs r ((Write.frame _ _).1.symm.trans hr)
    | _ => exact h _ _ _ _ hjs r hr

theorem staying_step {a : Act} (h : s.ws.staying = true) (hok : stays a = true)
    (hstep : (machine host).step s a = some s') : s'.ws.staying = true := by
  rcases step_cases hstep with ⟨c, rfl, hjstep⟩ | hwstep
  · rcases hjstep.ws with hws | hws
    · rw [hws]; exact h
    · rw [hws]
      unfold Ws.wake
      split
      · rfl
      · exact h
  · cases hwstep with
    | @client c _ => cases c <;> first | rfl | cases hok
    | store hws | notifyPause hws | notifyWait hws =>
      rw [hws] at h
      simpa [Ws.staying, Instr.isLeave] using h
    | leave hws => rw [hws] at h; cases h
    | _ => rfl

end

/-- What is known of a state that is reached so. -/
structure Sound (s : State) : Prop where
  stacked : Stacked s.js
  single : Single s.js
  locked : Locked s
  owner : Owner s
  posted : Posted s
  safe : pauseCv.Safe s
  engaged : Engaged s
  answered : Answered s
  staying : s.ws.staying = true

section

variable {host : Host} {s : State}

theorem engaged_of_reach {ok : State → Act → Prop} (h : (machine host).Reach ok s) :
    Engaged s := by
  refine h.invariant (I := Engaged) ?_ ?_
  · intro s hi
    constructor
    · rw [hi.paused]
      exact fun hc => absurd hc (by simp)
    · rw [hi.ws]
      exact fun hc => absurd hc (by simp [Ws.asking])
  · intro s a s' hi _ hstep
    exact engaged_step hi hstep

theorem stacked_of_reach {ok : State → Act → Prop} (h : (machine host).Reach ok s) :
    Stacked s.js := by
  refine h.invariant (I := fun s => Stacked s.js) ?_ ?_
  · intro s hi
    rw [hi.js]
    exact .code .script
  · intro s a s' hi _ hstep
    exact stacked_step hi hstep

theorem answered_of_reach {ok : State → Act → Prop} (h : (machine host).Reach ok s) :
    Answered s := by
  refine h.invariant_of (I := Answered) (J := fun s => Stacked s.js ∧ Owner s)
    (fun _ hr => ⟨stacked_of_reach hr, owner_of_reach hr⟩) ?_ ?_
  · intro s hi e reason bpId callers hjs
    rw [hi.js] at hjs
    simp at hjs
  · rintro s a s' ⟨hstacked, howner⟩ hi _ hstep
    exact answered_step hstacked howner hi hstep

theorem sound_of_reach (h : (machine host).Reach (fun s a => orderly host s a = true) s) :
    Sound s := by
  have hok : ∀ s a, orderly host s a = true →
      outermost host s a = true ∧ heard s a = true ∧ stays a = true := by
    intro s a h
    rw [orderly, Bool.and_eq_true, Bool.and_eq_true] at h
    exact ⟨h.1.1, h.1.2, h.2⟩
  have houter := h.mono fun s a h => (hok s a h).1
  refine ⟨stacked_of_reach h, single_of_reach houter, locked_of_reach houter, owner_of_reach h,
    posted_of_reach h, safe_of_reach (h.mono fun s a h => (hok s a h).2.1), engaged_of_reach h,
    answered_of_reach h, ?_⟩
  refine h.invariant (I := fun s => s.ws.staying = true) ?_ ?_
  · intro s hi
    rw [hi.ws]
    rfl
  · intro s a s' hi ho hstep
    exact staying_step hi (hok s a ho).2.2 hstep

end

/-! ## 4. The variant -/

/-- What is left of the command of the WS thread, given whether its request is ready. -/
def Ws.work (ready : Bool) : Ws → Nat
  | .run todo => todo.length
  | .gone => 0
  | .evaluate _ pc =>
    match pc with
    | .testPaused => 14
    | .lock => 13
    | .post => 12
    | .unlock => 11
    | .notify => 10
    | .relock => if ready then 5 else 9
    | .await => if ready then 4 else 8
    | .asleep => if ready then 6 else 7
    | .clear => 3
    | .unlockAfter _ => 2
    | .reply _ => 1

/-- The WS thread sleeps until its request is served. -/
def Ws.isAsleep : Ws → Bool
  | .evaluate _ .asleep => true
  | _ => false

def HandlerPc.weight : HandlerPc → Nat
  | .entry => 60
  | .track => 59
  | .loadMode => 58
  | .testRequest _ => 57
  | .testEntry _ => 56
  | .clearRequest => 55
  | .checkBreakpoint _ => 54
  | .findBreakpoint => 53
  | .condition _ => 51
  | .switchMode _ => 50
  | .commit _ _ => 49

/-- The loop of `do_pause` goes round once more for a request, and is over where the WS thread does
not sleep. -/
def PausePc.weight (asleep : Bool) : PausePc → Nat
  | .capture => 40
  | .walk => 39
  | .storePaused => 38
  | .sendPaused => 37
  | .lock => 36
  | .relock => 35
  | .loop => if asleep then 21 else 11
  | .predicate => 20
  | .serve => 19
  | .lockEval => 18
  | .testPending => 17
  | .evaluating => 15
  | .setReady => 14
  | .notifyDone => 13
  | .unlockEval => if asleep then 22 else 12
  | .park => 10
  | .parked => 9
  | .unlock => 8
  | .sendResumed => 7

/-- What is left of a call of the JS thread. -/
def Activation.weight (asleep : Bool) : Activation → Nat
  | .code => 1
  | .handler _ pc => pc.weight
  | .pause _ _ _ pc => pc.weight asleep

/-- What is left of the calls on a stack. -/
def stackWeight (asleep : Bool) : List Activation → Nat
  | [] => 0
  | a :: callers => a.weight asleep + stackWeight asleep callers

@[simp]
theorem stackWeight_cons (asleep : Bool) (a : Activation) (callers : List Activation) :
    stackWeight asleep (a :: callers) = a.weight asleep + stackWeight asleep callers := rfl

/-- What is left of the calls of the JS thread. -/
def State.load (s : State) : Nat := stackWeight s.ws.isAsleep s.js

def State.work (s : State) : Nat := s.ws.work (s.session.pendingEval.any EvalRequest.ready)

def State.variant (s : State) : Nat ×ₗ Nat := toLex (s.work, s.load)

/-- The JS thread cannot be waited for: the script is running, or is paused with nothing asked. -/
def idle (s : State) : Bool :=
  match s.js with
  | [.code] => true
  | .pause _ _ _ .loop :: _ => !s.ws.isAsleep
  | .pause _ _ _ .parked :: _ => true
  | _ => false

/-- Both threads have done what they can do without the client. -/
def Waiting (s : State) : Prop := idle s = true ∧ s.ws = .run []

/-- A step on the way. -/
structure Settles (host : Host) (s : State) (a : Act) (s' : State) : Prop where
  settling : settling a = true
  orderly : orderly host s a = true
  step : (machine host).step s a = some s'
  outside : handlingInside s'.js = false
  lower : s'.variant < s.variant

section

variable {host : Host} {s s' : State}

theorem lower_of_work (h : s'.work < s.work) : s'.variant < s.variant :=
  Prod.Lex.toLex_lt_toLex.mpr (Or.inl h)

theorem lower_of_load (h : s'.work ≤ s.work) (h' : s'.load < s.load) : s'.variant < s.variant :=
  Prod.Lex.toLex_lt_toLex'.mpr ⟨h, fun _ => h'⟩

/-- A step of the JS thread that lets the WS thread and its request be. -/
theorem lower_of_js (hws : s'.ws = s.ws)
    (hready : s'.session.pendingEval.any EvalRequest.ready =
      s.session.pendingEval.any EvalRequest.ready)
    (hload : stackWeight s.ws.isAsleep s'.js < s.load) :
    s'.variant < s.variant := by
  refine lower_of_load (le_of_eq ?_) ?_
  · unfold State.work
    rw [hws, hready]
  · unfold State.load
    rw [hws]
    exact hload

/-- The JS thread's own steps meet the side condition, as long as they decide nothing. -/
theorem orderly_js {c : Choice} (hok : outermost host s (.js c) = true) :
    orderly host s (.js c) = true := by
  rw [orderly, hok]
  rfl

theorem outermost_of_quiet {c : Choice}
    (h : ∀ callers, decision host s c = some callers → ∀ a ∈ callers, a.busy = false) :
    outermost host s (.js c) = true := by
  simp only [outermost]
  cases hd : decision host s c with
  | none => rfl
  | some callers =>
    rw [Option.getD_some, List.all_eq_true]
    intro a ha
    rw [h callers hd a ha]
    rfl

end

/-! ## 5. Whoever can be waited for takes a step -/

section

variable {host : Host} {s s' : State} {e : Event} {reason : PauseReason} {bpId : Int}
  {a : Activation} {callers : List Activation}

/-- Below a pause is the script. -/
theorem Sound.below_pause {pc : PausePc} (hs : Sound s)
    (hjs : s.js = .pause e reason bpId pc :: callers) : callers = [.code] := by
  have hstacked := hs.stacked
  have hsingle := hs.single
  rw [hjs] at hstacked hsingle
  exact (hstacked.returns (by simp)).2.script_of_quiet (hsingle.quiet rfl)

/-- Code that the debugger runs comes to its end. -/
theorem settles_code (hs : Sound s) (hjs : s.js = .code :: a :: callers) :
    ∃ s', Settles host s (.js (.finish .null false)) s' := by
  have hstacked := hs.stacked
  rw [hjs] at hstacked
  obtain ⟨ha, hcallers⟩ := hstacked.below
  have hok : orderly host s (.js (.finish .null false)) = true := by
    refine orderly_js (outermost_of_quiet fun callers hd => ?_)
    simp only [decision, hjs] at hd
    split at hd <;> simp at hd
  cases a with
  | code => cases ha
  | handler e pc =>
    cases pc with
    | condition bpId =>
      refine ⟨{ s with js := callers }, rfl, hok, ?_, not_handlingInside hcallers, ?_⟩
      · simp [machine, step, jsStep, hjs]
      · exact lower_of_js rfl rfl (by simp +arith [State.load, hjs, Activation.weight])
    | _ => cases ha
  | pause e reason bpId pc =>
    cases pc with
    | walk =>
      refine ⟨{ s with js := .pause e reason bpId .walk :: callers }, rfl, hok, ?_, rfl, ?_⟩
      · simp [machine, step, jsStep, hjs]
      · exact lower_of_js rfl rfl (by simp [State.load, hjs, Activation.weight])
    | evaluating =>
      refine ⟨finishEval s .null (.pause e reason bpId .setReady :: callers), rfl, hok, ?_, ?_, ?_⟩
      · simp [machine, step, jsStep, hjs]
      · rw [finishEval_js]
        rfl
      · refine lower_of_js (finishEval_ws _ _ _) ?_ ?_
        · unfold finishEval
          cases hr : s.session.pendingEval <;> simp [hr]
        · rw [finishEval_js]
          simp +arith [State.load, hjs, Activation.weight, PausePc.weight]
    | _ => cases ha

/-- A step of the handler lowers what is left. -/
theorem weight_stack {session session' : Session} {pc : HandlerPc} {next : HandlerNext}
    (asleep : Bool) (h : handlerNext host session e pc = some (session', next)) :
    stackWeight asleep (next.stack e callers) < pc.weight + stackWeight asleep callers := by
  cases pc with
  | condition bpId => simp [handlerNext] at h
  | testEntry mode =>
    simp only [handlerNext] at h
    split at h <;> obtain ⟨-, rfl⟩ := Prod.mk.inj (Option.some.inj h) <;>
      simp [HandlerNext.stack, Activation.weight, HandlerPc.weight]
  | entry | testRequest mode | checkBreakpoint mode | findBreakpoint | switchMode mode =>
    obtain ⟨-, rfl⟩ := Prod.mk.inj (Option.some.inj h)
    split <;> simp +arith [HandlerNext.stack, Activation.weight, HandlerPc.weight]
  | track | loadMode | clearRequest | commit reason bpId =>
    obtain ⟨-, rfl⟩ := Prod.mk.inj (Option.some.inj h)
    simp [HandlerNext.stack, Activation.weight, HandlerPc.weight, PausePc.weight]

/-- The handler goes on. -/
theorem settles_handler {pc : HandlerPc} (hs : Sound s) (hjs : s.js = .handler e pc :: callers)
    (hout : handlingInside s.js = false) : ∃ s', Settles host s (.js .next) s' := by
  have hstacked := hs.stacked
  rw [hjs] at hstacked hout
  obtain ⟨hactive, hcallers⟩ := hstacked.returns (by simp)
  have hquiet : ∀ c ∈ callers, c.busy = false := by simpa [handlingInside] using hout
  obtain ⟨session, next, hnext⟩ : ∃ session next,
      handlerNext host s.session e pc = some (session, next) := by
    cases pc with
    | condition bpId => cases hactive
    | testEntry mode =>
      simp only [handlerNext]
      split <;> exact ⟨_, _, rfl⟩
    | _ => exact ⟨_, _, rfl⟩
  refine ⟨{ s with session := session, js := next.stack e callers }, rfl, ?_, ?_, ?_, ?_⟩
  · refine orderly_js (outermost_of_quiet fun callers' hd => ?_)
    obtain rfl : callers' = callers := by
      simp only [decision, hjs] at hd
      grind
    exact hquiet
  · simp [machine, step, jsStep, hjs, hnext]
  · cases next with
    | goto pc' => simpa [HandlerNext.stack, handlingInside] using hquiet
    | evaluate bpId => rfl
    | doPause reason bpId => rfl
    | done => exact not_handlingInside hcallers
  · obtain ⟨-, hpending⟩ := handlerNext_frame hnext
    refine lower_of_js rfl (by rw [hpending]) ?_
    simpa [State.load, hjs, Activation.weight] using weight_stack s.ws.isAsleep hnext

/-- `do_pause` goes on. -/
theorem settles_next {pc : PausePc} (hjs : s.js = .pause e reason bpId pc :: callers)
    (hstep : pauseNext s e reason bpId callers pc = some s')
    (hout : handlingInside s'.js = false) (hlow : s'.variant < s.variant) :
    ∃ s', Settles host s (.js .next) s' := by
  refine ⟨s', rfl, ?_, ?_, hout, hlow⟩
  · refine orderly_js (outermost_of_quiet fun callers' hd => ?_)
    simp [decision, hjs] at hd
  · simpa [machine, step, jsStep, hjs] using hstep

/-- A step of `do_pause` to another place of it. -/
theorem settles_goto {pc : PausePc} (pc' : PausePc) {session : Session} {pauseLocked : Bool}
    {evalOwner : Option Thread} {log : List Obs}
    (hjs : s.js = .pause e reason bpId pc :: callers)
    (hstep : pauseNext s e reason bpId callers pc =
      some { s with
        session := session
        pauseLocked := pauseLocked
        evalOwner := evalOwner
        js := .pause e reason bpId pc' :: callers
        log := log })
    (hpending : session.pendingEval = s.session.pendingEval)
    (hweight : pc'.weight s.ws.isAsleep < pc.weight s.ws.isAsleep) :
    ∃ s', Settles host s (.js .next) s' := by
  refine settles_next hjs hstep rfl (lower_of_js rfl (by rw [hpending]) ?_)
  simpa [State.load, hjs, Activation.weight] using hweight

/-- Neither thread holds `eval_mutex_`. -/
theorem Owner.free (h : Owner s) (hjs : holders s.js = []) (hws : s.ws.holdsEval = false) :
    s.evalOwner = none := by
  cases howner : s.evalOwner with
  | none => rfl
  | some t =>
    cases t with
    | js =>
      have hlen := h.js
      rw [hjs, howner] at hlen
      cases hlen
    | ws => rw [h.ws.mp howner] at hws; cases hws

/-- A request that is asked for is there, and the session is paused. -/
theorem Sound.asked (hs : Sound s) (hasleep : s.ws.isAsleep = true) :
    s.session.paused = true ∧ ∃ r, s.session.pendingEval = some r := by
  unfold Ws.isAsleep at hasleep
  split at hasleep
  · rename_i q hws
    have hposted := hs.posted
    rw [Posted, hws] at hposted
    obtain ⟨r, hr, -⟩ := Option.map_eq_some_iff.mp hposted
    exact ⟨hs.engaged.asking (by rw [hws]; rfl), r, hr⟩
  · cases hasleep

theorem work_ready_le (ws : Ws) (ready : Bool) : ws.work true ≤ ws.work ready := by
  cases ready with
  | true => exact le_rfl
  | false =>
    cases ws with
    | evaluate q pc => cases pc <;> simp [Ws.work]
    | _ => exact le_rfl

/-- The service of a request: the answer is ready. -/
theorem settles_setReady (hjs : s.js = .pause e reason bpId .setReady :: callers) :
    ∃ s', Settles host s (.js .next) s' := by
  refine settles_next hjs rfl rfl (lower_of_load ?_ ?_)
  · simp only [State.work]
    cases hr : s.session.pendingEval with
    | none => exact le_rfl
    | some r => exact work_ready_le _ _
  · simp [State.load, hjs, Activation.weight, PausePc.weight]

/-- The JS thread says that the answer is ready. -/
theorem settles_notifyDone (hs : Sound s)
    (hjs : s.js = .pause e reason bpId .notifyDone :: callers) :
    ∃ s', Settles host s (.js .next) s' := by
  refine settles_next hjs rfl rfl ?_
  cases hasleep : s.ws.isAsleep with
  | true =>
    obtain ⟨-, r, hr⟩ := hs.asked hasleep
    have hready := hs.answered _ _ _ _ hjs r hr
    unfold Ws.isAsleep at hasleep
    split at hasleep
    · rename_i hws
      exact lower_of_work (by simp [State.work, hws, Ws.wake, hr, hready, Ws.work])
    · cases hasleep
  | false =>
    have hsame : s.ws.wake = s.ws := by
      unfold Ws.wake
      split
      · rename_i hws; rw [hws] at hasleep; cases hasleep
      · rfl
    refine lower_of_load (le_of_eq (by simp [State.work, hsame])) ?_
    simp [State.load, hjs, hsame, hasleep, Activation.weight, PausePc.weight]

/-- The JS thread begins to serve a request. -/
theorem settles_testPending (hs : Sound s)
    (hjs : s.js = .pause e reason bpId .testPending :: callers) :
    ∃ s', Settles host s (.js .next) s' := by
  cases hr : s.session.pendingEval with
  | some r =>
    have hstep : pauseNext s e reason bpId callers .testPending =
        some { s with
          js := .code :: .pause e reason bpId .evaluating :: callers
          log := .evalBegin r.id :: s.log } := by
      rw [pauseNext, hr]
    refine settles_next hjs hstep rfl (lower_of_js rfl rfl ?_)
    simp +arith [State.load, hjs, Activation.weight, PausePc.weight]
  | none =>
    refine settles_goto .unlockEval hjs (by rw [pauseNext, hr]) rfl ?_
    cases hasleep : s.ws.isAsleep with
    | false => simp [PausePc.weight]
    | true =>
      obtain ⟨-, r, hr'⟩ := hs.asked hasleep
      rw [hr] at hr'
      cases hr'

/-- The pause goes on, unless it has nothing to do. -/
theorem settles_pause {pc : PausePc} (hs : Sound s)
    (hjs : s.js = .pause e reason bpId pc :: callers) (hws : s.ws.holdsEval = false)
    (hidle : idle s = false) : ∃ s', Settles host s (.js .next) s' := by
  have hcallers := hs.below_pause hjs
  cases pc with
  | capture => exact settles_goto .walk hjs rfl rfl (by simp [PausePc.weight])
  | walk => exact settles_goto .storePaused hjs rfl rfl (by simp [PausePc.weight])
  | storePaused => exact settles_goto .sendPaused hjs rfl rfl (by simp [PausePc.weight])
  | sendPaused => exact settles_goto .lock hjs rfl rfl (by simp [PausePc.weight])
  | lock =>
    have hfree := free_of_locked hs.single hs.locked hjs rfl
    refine settles_goto .loop hjs (by rw [pauseNext, hfree]; rfl) rfl ?_
    cases s.ws.isAsleep <;> decide
  | relock =>
    have hfree := free_of_locked hs.single hs.locked hjs rfl
    exact settles_goto .predicate hjs (by rw [pauseNext, hfree]; rfl) rfl
      (by simp [PausePc.weight])
  | loop =>
    have hasleep : s.ws.isAsleep = true := by simpa [idle, hjs] using hidle
    obtain ⟨hpaused, -⟩ := hs.asked hasleep
    exact settles_goto .predicate hjs (by rw [pauseNext, hpaused]; rfl) rfl
      (by simp [PausePc.weight, hasleep])
  | predicate =>
    cases hp : s.session.paused && s.session.pendingEval.isNone with
    | true =>
      exact settles_goto .park hjs (by rw [pauseNext, hp]; rfl) rfl (by simp [PausePc.weight])
    | false =>
      exact settles_goto .serve hjs (by rw [pauseNext, hp]; rfl) rfl (by simp [PausePc.weight])
  | park => exact settles_goto .parked hjs rfl rfl (by simp [PausePc.weight])
  | parked => simp [idle, hjs] at hidle
  | serve =>
    cases hp : s.session.paused && s.session.pendingEval.isSome with
    | true =>
      exact settles_goto .lockEval hjs (by rw [pauseNext, hp]; rfl) rfl (by simp [PausePc.weight])
    | false =>
      have hasleep : s.ws.isAsleep = false := by
        by_contra hc
        obtain ⟨hpaused, r, hr⟩ := hs.asked (by simpa using hc)
        rw [hpaused, hr] at hp
        cases hp
      exact settles_goto .loop hjs (by rw [pauseNext, hp]; rfl) rfl
        (by simp [PausePc.weight, hasleep])
  | lockEval =>
    have hholders : holders s.js = [] := by rw [hjs, hcallers]; rfl
    exact settles_goto .testPending hjs (by rw [pauseNext, hs.owner.free hholders hws]; rfl) rfl
      (by simp [PausePc.weight])
  | testPending => exact settles_testPending hs hjs
  | evaluating =>
    have hstacked := hs.stacked
    rw [hjs] at hstacked
    cases (hstacked.returns (by simp)).1
  | setReady => exact settles_setReady hjs
  | notifyDone => exact settles_notifyDone hs hjs
  | unlockEval =>
    refine settles_goto .loop hjs rfl rfl ?_
    cases s.ws.isAsleep <;> decide
  | unlock => exact settles_goto .sendResumed hjs rfl rfl (by simp [PausePc.weight])
  | sendResumed =>
    subst hcallers
    refine settles_next hjs rfl rfl (lower_of_js rfl rfl ?_)
    simp [State.load, hjs, Activation.weight, PausePc.weight]

/-- The JS thread, where it is not idle. -/
theorem settles_js (hs : Sound s) (hout : handlingInside s.js = false)
    (hws : s.ws.holdsEval = false) (hidle : idle s = false) :
    ∃ c s', Settles host s (.js c) s' := by
  cases hjs : s.js with
  | nil =>
    have hstacked := hs.stacked
    rw [hjs] at hstacked
    cases hstacked with
    | code h => cases h
  | cons a callers =>
    cases a with
    | code =>
      cases callers with
      | nil => simp [idle, hjs] at hidle
      | cons a callers => exact ⟨_, settles_code hs hjs⟩
    | handler e pc => exact ⟨_, settles_handler hs hjs hout⟩
    | pause e reason bpId pc => exact ⟨_, settles_pause hs hjs hws hidle⟩

/-- An idle JS thread runs the script, or is in its only pause. -/
theorem Sound.idle_cases (hs : Sound s) (hidle : idle s = true) :
    s.js = [.code] ∨ ∃ e reason bpId pc, s.js = [.pause e reason bpId pc, .code] ∧
      (pc = .loop ∧ s.ws.isAsleep = false ∨ pc = .parked) := by
  unfold idle at hidle
  split at hidle
  · exact Or.inl ‹_›
  · rename_i hjs
    obtain rfl := hs.below_pause hjs
    exact Or.inr ⟨_, _, _, _, hjs, Or.inl ⟨rfl, by simpa using hidle⟩⟩
  · rename_i hjs
    obtain rfl := hs.below_pause hjs
    exact Or.inr ⟨_, _, _, _, hjs, Or.inr rfl⟩
  · cases hidle

/-- An idle JS thread holds no request, and is not about to sleep. -/
theorem Sound.of_idle (hs : Sound s) (hidle : idle s = true) :
    holders s.js = [] ∧ jsWaiter s.js ≠ .window ∧ handlingInside (wakeJs s.js) = false := by
  rcases hs.idle_cases hidle with hjs | ⟨e, reason, bpId, pc, hjs, ⟨rfl, -⟩ | rfl⟩
  · rw [hjs]; exact ⟨rfl, nofun, rfl⟩
  · rw [hjs]; exact ⟨rfl, nofun, rfl⟩
  · rw [hjs]; exact ⟨rfl, nofun, rfl⟩

theorem orderly_ws (h : heard s .ws = true) : orderly host s .ws = true := by
  rw [orderly, h]
  rfl

theorem heard_of_awake (h : jsWaiter s.js ≠ .window) : heard s .ws = true := by
  have hheard : pauseCv.heard s = true := by
    simp only [CondVar.heard, pauseCv, Bool.or_eq_true, bne_iff_ne]
    exact Or.inl h
  rw [heard, hheard, Bool.or_true]

/-- A step of the WS thread lowers what is left of its command. -/
theorem settles_ws (hstep : wsStep s = some s') (hheard : heard s .ws = true)
    (hout : handlingInside s'.js = false) (hlow : s'.work < s.work) : ∃ s', Settles host s .ws s' :=
  ⟨s', rfl, orderly_ws hheard, hstep, hout, lower_of_work hlow⟩

/-- A step of `evaluate_on_call_frame` that notifies nobody. -/
theorem settles_eval {q : Query} {pc : EvalPc} (hws : s.ws = .evaluate q pc)
    (hstep : evalNext s q pc = some s') (hpc : pc ≠ .notify) (hjs : s'.js = s.js)
    (hout : handlingInside s.js = false) (hlow : s'.work < s.work) :
    ∃ s', Settles host s .ws s' := by
  refine settles_ws (by rw [wsStep, hws]; exact hstep) ?_ (hjs ▸ hout) hlow
  cases pc with
  | notify => exact absurd rfl hpc
  | _ => simp [heard, Ws.notifies, hws]

/-- A WS thread that holds the mutex goes on. -/
theorem settles_holding (hs : Sound s) (hout : handlingInside s.js = false)
    (hws : s.ws.holdsEval = true) : ∃ s', Settles host s .ws s' := by
  unfold Ws.holdsEval at hws
  split at hws
  · rename_i h
    exact settles_eval h rfl (by simp) rfl hout (by simp [State.work, h, Ws.work])
  · rename_i h
    exact settles_eval h rfl (by simp) rfl hout (by simp [State.work, h, Ws.work])
  · rename_i h
    cases hready : s.session.pendingEval.any EvalRequest.ready with
    | true =>
      exact settles_eval h (if_pos hready) (by simp) rfl hout
        (by simp [State.work, h, hready, Ws.work])
    | false =>
      exact settles_eval h (if_neg (by simp [hready])) (by simp) rfl hout
        (by simp [State.work, h, hready, Ws.work])
  · rename_i h
    have hposted := hs.posted
    rw [Posted, h] at hposted
    obtain ⟨r, hr, -⟩ := Option.map_eq_some_iff.mp hposted
    exact settles_eval h (congrArg (Option.map _) hr) (by simp) rfl hout
      (by simp [State.work, h, Ws.work])
  · rename_i h
    exact settles_eval h rfl (by simp) rfl hout (by simp [State.work, h, Ws.work])
  · cases hws

/-- In a command, past an idle JS thread. -/
theorem settles_command {i : Instr} {todo : List Instr} (hs : Sound s)
    (hout : handlingInside s.js = false) (hidle : idle s = true)
    (hws : s.ws = .run (i :: todo)) : ∃ s', Settles host s .ws s' := by
  obtain ⟨-, hawake, houtside⟩ := hs.of_idle hidle
  refine settles_ws (by rw [wsStep, hws]) (heard_of_awake hawake) ?_ ?_
  · cases i with
    | notifyPause => exact houtside
    | _ => exact hout
  · cases i with
    | leave =>
      have hstaying := hs.staying
      rw [hws] at hstaying
      cases hstaying
    | _ => simp [State.work, hws, Instr.exec, Ws.work]

/-- Nobody sleeps for an answer past an idle JS thread. -/
theorem not_asleep_of_idle (hs : Sound s) (hidle : idle s = true) : s.ws.isAsleep = false := by
  by_contra hc
  obtain ⟨hpaused, r, hr⟩ := hs.asked (by simpa using hc)
  rcases hs.idle_cases hidle with hjs | ⟨e, reason, bpId, pc, hjs, ⟨-, h⟩ | rfl⟩
  · have hopened := hs.engaged.opened hpaused
    rw [hjs] at hopened
    cases hopened
  · exact hc h
  · -- who sleeps on `pause_cv_` has reason to
    have hdue : pauseCv.due s = false := by
      unfold Ws.isAsleep at hc
      split at hc
      · rename_i hws; simp [pauseCv, hws, Ws.due]
      · exact absurd rfl hc
    have hblocked := hs.safe.blocked (by simp [pauseCv, hjs, jsWaiter]) hdue
    simp [pauseCv, blocked, hr] at hblocked

/-- The WS thread, where the JS thread is idle. -/
theorem settles_idle (hs : Sound s) (hout : handlingInside s.js = false)
    (hfree : s.ws.holdsEval = false) (hidle : idle s = true) (hne : s.ws ≠ .run []) :
    ∃ s', Settles host s .ws s' := by
  obtain ⟨hholders, hawake, houtside⟩ := hs.of_idle hidle
  have howner : s.evalOwner = none := hs.owner.free hholders hfree
  cases hws : s.ws with
  | gone =>
    have hstaying := hs.staying
    rw [hws] at hstaying
    cases hstaying
  | run todo =>
    cases todo with
    | nil => exact absurd hws hne
    | cons i todo => exact settles_command hs hout hidle hws
  | evaluate q pc =>
    cases pc with
    | testPaused =>
      refine settles_eval hws rfl (by simp) rfl hout ?_
      cases s.session.paused <;> simp [State.work, hws, Ws.work]
    | lock =>
      exact settles_eval hws (if_pos (by rw [howner]; rfl)) (by simp) rfl hout
        (by simp [State.work, hws, Ws.work])
    | relock =>
      refine settles_eval hws (if_pos (by rw [howner]; rfl)) (by simp) rfl hout ?_
      cases hready : s.session.pendingEval.any EvalRequest.ready <;>
        simp [State.work, hws, hready, Ws.work]
    | notify =>
      refine settles_ws (by rw [wsStep, hws]; rfl) (heard_of_awake hawake) houtside ?_
      cases hready : s.session.pendingEval.any EvalRequest.ready <;>
        simp [State.work, hws, hready, Ws.work]
    | asleep =>
      have hnot := not_asleep_of_idle hs hidle
      rw [hws] at hnot
      cases hnot
    | reply result =>
      exact settles_eval hws rfl (by simp) rfl hout (by simp [State.work, hws, Ws.work])
    | _ => rw [hws] at hfree; cases hfree

/-- **Somebody takes a step**, as long as not both threads wait for the client. -/
theorem settles (hs : Sound s) (hout : handlingInside s.js = false) (hnot : ¬ Waiting s) :
    ∃ a s', Settles host s a s' := by
  cases hws : s.ws.holdsEval with
  | true => exact ⟨_, settles_holding hs hout hws⟩
  | false =>
    cases hidle : idle s with
    | false =>
      obtain ⟨c, h⟩ := settles_js hs hout hws hidle
      exact ⟨_, h⟩
    | true => exact ⟨_, settles_idle hs hout hws hidle fun h => hnot ⟨hidle, h⟩⟩

end

/-! ## 6. Rest -/

section

variable {host : Host} {s : State}

theorem waiting_of_reach (h : (machine host).Reach (fun s a => orderly host s a = true) s)
    (hout : handlingInside s.js = false) :
    (machine host).Can settling
      (fun s' => (machine host).Reach (fun s a => orderly host s a = true) s' ∧
        handlingInside s'.js = false ∧ Waiting s') s := by
  refine h.can_of_variant (μ := State.variant) wellFounded_lt ?_ hout
  intro s hr hout hnot
  obtain ⟨a, s', hsettles⟩ := @settles host s (sound_of_reach hr) hout hnot
  exact ⟨a, s', hsettles.settling, hsettles.orderly, hsettles.step, hsettles.outside,
    hsettles.lower⟩

/-- Where nothing is asked and the script runs, everything is at rest. -/
theorem atRest_of_script (hs : Sound s) (hjs : s.js = [.code]) (hws : s.ws = .run []) :
    AtRest s := by
  refine ⟨hjs, hws, ?_, ?_, ?_, ?_⟩
  · have hlocked := hs.locked
    rw [Locked, hjs] at hlocked
    exact hlocked
  · exact hs.owner.free (by rw [hjs]; rfl) (by rw [hws]; rfl)
  · by_contra hp
    have hopened := hs.engaged.opened (by simpa using hp)
    rw [hjs] at hopened
    cases hopened
  · have hposted := hs.posted
    rw [Posted, hws] at hposted
    exact Option.map_eq_none_iff.mp hposted

/-- The client resumes, and the pause ends. -/
theorem rest_of_waiting (hs : Sound s) (hwaiting : Waiting s) :
    (machine host).Can settling AtRest s := by
  obtain ⟨hidle, hws⟩ := hwaiting
  have hposted := hs.posted
  rw [Posted, hws] at hposted
  have hpending : s.session.pendingEval = none := Option.map_eq_none_iff.mp hposted
  have howner : s.evalOwner = none :=
    hs.owner.free (hs.of_idle hidle).1 (by rw [hws]; rfl)
  rcases hs.idle_cases hidle with hjs | ⟨e, reason, bpId, pc, hjs, ⟨rfl, -⟩ | rfl⟩
  · exact .here (atRest_of_script hs hjs hws)
  · -- about to test `paused_`
    obtain ⟨session, pauseLocked, evalOwner, js, ws, log, nextRequest⟩ := s
    obtain rfl := hjs
    obtain rfl := hws
    obtain rfl := howner
    refine ⟨.client .resume :: wsSteps 4 ++ jsSteps 3, _, rfl, rfl, ?_⟩
    exact ⟨rfl, rfl, rfl, rfl, rfl, hpending⟩
  · -- asleep
    have hfree : s.pauseLocked = false := free_of_locked hs.single hs.locked hjs rfl
    obtain ⟨session, pauseLocked, evalOwner, js, ws, log, nextRequest⟩ := s
    obtain rfl := hjs
    obtain rfl := hws
    obtain rfl := howner
    obtain rfl := hfree
    refine ⟨.client .resume :: wsSteps 4 ++ jsSteps 6, _, rfl, rfl, ?_⟩
    exact ⟨rfl, rfl, rfl, rfl, rfl, hpending⟩

end

/-- The paused script runs `f()` for a request. -/
def evaluatePaused : List Act :=
  askForPause ++ pauseOnRequest lineThree ++ fallAsleep ++ postRequest (ascii "f()") ++
    serveRequest

end QjsDebug.Threads
