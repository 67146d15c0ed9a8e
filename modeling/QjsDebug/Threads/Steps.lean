/-
# What a step can do

The step function of `Threads.Machine`, inverted once: `JsStep`, `PauseStep` and `WsStep` have
one constructor for each thing that can happen, with its guard and the state behind it, and
`step_cases` says that nothing else happens.  The invariants of the modules that follow are
proved by cases on these relations.

Three facts every one of them uses are here as well: only the innermost call of the JS thread
ever waits (`Nested`), the handler changes nothing of the session that the pause protocol
looks at and decides to pause at a test (`decision`), and the posted request is the one the
WS thread waits for (`Posted`).  Section 4 ties the machine to the sequential handler of
`Session.Handler`: run on its own, the handler's steps compute `debugTraceHandler`.
-/
import QjsDebug.Threads.Machine

namespace QjsDebug.Threads

open Json (Value)

/-! ## 1. Inversion -/

section

variable (s : State) (e : Event) (reason : PauseReason) (bpId : Int) (callers : List Activation)

/-- The steps of `do_pause`. -/
inductive PauseStep : PausePc → State → Prop
  | capture : PauseStep .capture
      { s with session := s.session.track e, js := .pause e reason bpId .walk :: callers }
  | walk : PauseStep .walk { s with js := .pause e reason bpId .storePaused :: callers }
  | storePaused : PauseStep .storePaused
      { s with
        session := { s.session with paused := true }
        js := .pause e reason bpId .sendPaused :: callers }
  | sendPaused : PauseStep .sendPaused
      { s with js := .pause e reason bpId .lock :: callers, log := .paused :: s.log }
  | lock (hfree : s.pauseLocked = false) : PauseStep .lock
      { s with pauseLocked := true, js := .pause e reason bpId .loop :: callers }
  | again (hp : s.session.paused = true) : PauseStep .loop
      { s with js := .pause e reason bpId .predicate :: callers }
  | leave (hp : s.session.paused = false) : PauseStep .loop
      { s with js := .pause e reason bpId .unlock :: callers }
  | sleep (hp : s.session.paused = true) (hr : s.session.pendingEval = none) : PauseStep .predicate
      { s with js := .pause e reason bpId .park :: callers }
  | awake : PauseStep .predicate { s with js := .pause e reason bpId .serve :: callers }
  | park : PauseStep .park
      { s with pauseLocked := false, js := .pause e reason bpId .parked :: callers }
  | relock (hfree : s.pauseLocked = false) : PauseStep .relock
      { s with pauseLocked := true, js := .pause e reason bpId .predicate :: callers }
  | request : PauseStep .serve { s with js := .pause e reason bpId .lockEval :: callers }
  | noRequest : PauseStep .serve { s with js := .pause e reason bpId .loop :: callers }
  | lockEval (hfree : s.evalOwner = none) : PauseStep .lockEval
      { s with evalOwner := some .js, js := .pause e reason bpId .testPending :: callers }
  | evaluate {r} (hr : s.session.pendingEval = some r) : PauseStep .testPending
      { s with
        js := .code :: .pause e reason bpId .evaluating :: callers
        log := .evalBegin r.id :: s.log }
  | noPending (hr : s.session.pendingEval = none) : PauseStep .testPending
      { s with js := .pause e reason bpId .unlockEval :: callers }
  | setReady : PauseStep .setReady
      { s with
        session := { s.session with
          pendingEval := s.session.pendingEval.map fun r => { r with ready := true } }
        js := .pause e reason bpId .notifyDone :: callers }
  | notifyDone : PauseStep .notifyDone
      { s with ws := s.ws.wake, js := .pause e reason bpId .unlockEval :: callers }
  | unlockEval : PauseStep .unlockEval
      { s with evalOwner := none, js := .pause e reason bpId .loop :: callers }
  | unlock : PauseStep .unlock
      { s with pauseLocked := false, js := .pause e reason bpId .sendResumed :: callers }
  | sendResumed : PauseStep .sendResumed { s with js := callers, log := .resumed :: s.log }

end

/-- The steps of the JS thread. -/
inductive JsStep (host : Host) (s : State) : Choice → State → Prop
  | statement {e callers} (hjs : s.js = .code :: callers) :
      JsStep host s (.statement e) { s with js := .handler e .entry :: .code :: callers }
  | fires {e bpId callers result}
      (hjs : s.js = .code :: .handler e (.condition bpId) :: callers) :
      JsStep host s (.finish result true)
        { s with js := .handler e (.commit .breakpoint bpId) :: callers }
  | falsy {e bpId callers result}
      (hjs : s.js = .code :: .handler e (.condition bpId) :: callers) :
      JsStep host s (.finish result false) { s with js := callers }
  | getterDone {e reason bpId callers result truthy}
      (hjs : s.js = .code :: .pause e reason bpId .walk :: callers) :
      JsStep host s (.finish result truthy) { s with js := .pause e reason bpId .walk :: callers }
  | evaluated {e reason bpId callers result truthy}
      (hjs : s.js = .code :: .pause e reason bpId .evaluating :: callers) :
      JsStep host s (.finish result truthy)
        (finishEval s result (.pause e reason bpId .setReady :: callers))
  | handler {e pc callers session next} (hjs : s.js = .handler e pc :: callers)
      (hnext : handlerNext host s.session e pc = some (session, next)) :
      JsStep host s .next { s with session := session, js := next.stack e callers }
  | getter {e reason bpId callers} (hjs : s.js = .pause e reason bpId .walk :: callers) :
      JsStep host s .getter { s with js := .code :: .pause e reason bpId .walk :: callers }
  | spurious {e reason bpId callers} (hjs : s.js = .pause e reason bpId .parked :: callers) :
      JsStep host s .spurious { s with js := .pause e reason bpId .relock :: callers }
  | pause {e reason bpId pc callers s'} (hjs : s.js = .pause e reason bpId pc :: callers)
      (hnext : PauseStep s e reason bpId callers pc s') : JsStep host s .next s'

/-- The steps of the WS thread, a new command included. -/
inductive WsStep (s : State) : Act → State → Prop
  | client {c} (hws : s.ws = .run []) : WsStep s (.client c)
      { s with ws := c.start s.nextRequest, nextRequest := s.nextRequest + 1 }
  | store {w todo} (hws : s.ws = .run (.store w :: todo)) : WsStep s .ws
      { s with session := w.apply s.session, ws := .run todo }
  | notifyPause {todo} (hws : s.ws = .run (.notifyPause :: todo)) : WsStep s .ws
      { s with js := wakeJs s.js, ws := .run todo }
  | notifyWait {todo} (hws : s.ws = .run (.notifyWait :: todo)) : WsStep s .ws
      { s with ws := .run todo }
  | leave {todo} (hws : s.ws = .run (.leave :: todo)) : WsStep s .ws { s with ws := .gone }
  | testPaused {q} (hws : s.ws = .evaluate q .testPaused) : WsStep s .ws
      { s with ws := .evaluate q .lock }
  | notPaused {q} (hws : s.ws = .evaluate q .testPaused) : WsStep s .ws { s with ws := .run [] }
  | lock {q} (hws : s.ws = .evaluate q .lock) (hfree : s.evalOwner = none) : WsStep s .ws
      { s with evalOwner := some .ws, ws := .evaluate q .post }
  | post {q} (hws : s.ws = .evaluate q .post) : WsStep s .ws
      { s with
        session := { s.session with
          pendingEval := some ⟨q.id, q.callFrameId, q.expression, .null, false⟩ }
        ws := .evaluate q .unlock }
  | unlock {q} (hws : s.ws = .evaluate q .unlock) : WsStep s .ws
      { s with evalOwner := none, ws := .evaluate q .notify }
  | notify {q} (hws : s.ws = .evaluate q .notify) : WsStep s .ws
      { s with js := wakeJs s.js, ws := .evaluate q .relock }
  | relock {q} (hws : s.ws = .evaluate q .relock) (hfree : s.evalOwner = none) : WsStep s .ws
      { s with evalOwner := some .ws, ws := .evaluate q .await }
  | ready {q r} (hws : s.ws = .evaluate q .await) (hr : s.session.pendingEval = some r)
      (hready : r.ready = true) : WsStep s .ws { s with ws := .evaluate q .clear }
  | notReady {q} (hws : s.ws = .evaluate q .await) : WsStep s .ws
      { s with evalOwner := none, ws := .evaluate q .asleep }
  | clear {q r} (hws : s.ws = .evaluate q .clear) (hr : s.session.pendingEval = some r) :
      WsStep s .ws
        { s with
          session := { s.session with pendingEval := none }
          ws := .evaluate q (.unlockAfter r.result) }
  | unlockAfter {q result} (hws : s.ws = .evaluate q (.unlockAfter result)) : WsStep s .ws
      { s with evalOwner := none, ws := .evaluate q (.reply result) }
  | reply {q result} (hws : s.ws = .evaluate q (.reply result)) : WsStep s .ws
      { s with ws := .run [], log := .evalReturn q.id result :: s.log }
  | spurious {q} (hws : s.ws = .evaluate q .asleep) : WsStep s .wsSpurious
      { s with ws := .evaluate q .relock }

section

variable {host : Host} {s s' : State}

theorem pauseNext_cases {e : Event} {reason : PauseReason} {bpId : Int}
    {callers : List Activation} {pc : PausePc}
    (h : pauseNext s e reason bpId callers pc = some s') :
    PauseStep s e reason bpId callers pc s' := by
  cases pc with
  | capture => obtain rfl := Option.some.inj h; exact .capture
  | walk => obtain rfl := Option.some.inj h; exact .walk
  | storePaused => obtain rfl := Option.some.inj h; exact .storePaused
  | sendPaused => obtain rfl := Option.some.inj h; exact .sendPaused
  | lock =>
    simp only [pauseNext] at h
    split at h
    · exact absurd h (by simp)
    · rename_i hfree
      obtain rfl := Option.some.inj h
      exact .lock (by simpa using hfree)
  | loop =>
    obtain rfl := Option.some.inj h
    cases hp : s.session.paused with
    | true => exact .again hp
    | false => exact .leave hp
  | predicate =>
    obtain rfl := Option.some.inj h
    split
    · rename_i hc
      rw [Bool.and_eq_true, Option.isNone_iff_eq_none] at hc
      exact .sleep hc.1 hc.2
    · exact .awake
  | park => obtain rfl := Option.some.inj h; exact .park
  | parked => exact absurd h (by simp [pauseNext])
  | relock =>
    simp only [pauseNext] at h
    split at h
    · exact absurd h (by simp)
    · rename_i hfree
      obtain rfl := Option.some.inj h
      exact .relock (by simpa using hfree)
  | serve =>
    obtain rfl := Option.some.inj h
    split
    · exact .request
    · exact .noRequest
  | lockEval =>
    simp only [pauseNext] at h
    split at h
    · rename_i hfree
      obtain rfl := Option.some.inj h
      exact .lockEval (Option.isNone_iff_eq_none.mp hfree)
    · exact absurd h (by simp)
  | testPending =>
    simp only [pauseNext] at h
    cases hr : s.session.pendingEval with
    | some r => rw [hr] at h; obtain rfl := Option.some.inj h; exact .evaluate hr
    | none => rw [hr] at h; obtain rfl := Option.some.inj h; exact .noPending hr
  | evaluating => exact absurd h (by simp [pauseNext])
  | setReady => obtain rfl := Option.some.inj h; exact .setReady
  | notifyDone => obtain rfl := Option.some.inj h; exact .notifyDone
  | unlockEval => obtain rfl := Option.some.inj h; exact .unlockEval
  | unlock => obtain rfl := Option.some.inj h; exact .unlock
  | sendResumed => obtain rfl := Option.some.inj h; exact .sendResumed

theorem jsStep_cases {c : Choice} (h : jsStep host s c = some s') : JsStep host s c s' := by
  unfold jsStep at h
  split at h
  · rename_i hjs; obtain rfl := Option.some.inj h; exact .statement hjs
  · rename_i truthy hjs
    obtain rfl := Option.some.inj h
    cases truthy with
    | true => exact .fires hjs
    | false => exact .falsy hjs
  · rename_i hjs; obtain rfl := Option.some.inj h; exact .getterDone hjs
  · rename_i hjs; obtain rfl := Option.some.inj h; exact .evaluated hjs
  · rename_i hjs
    obtain ⟨r, hr, rfl⟩ := Option.map_eq_some_iff.mp h
    exact .handler hjs hr
  · rename_i hjs; obtain rfl := Option.some.inj h; exact .getter hjs
  · rename_i hjs; obtain rfl := Option.some.inj h; exact .spurious hjs
  · rename_i hjs; exact .pause hjs (pauseNext_cases h)
  · exact absurd h (by simp)

theorem wsStep_cases (h : wsStep s = some s') : WsStep s .ws s' := by
  unfold wsStep at h
  split at h
  · exact absurd h (by simp)
  · rename_i i todo hws
    obtain rfl := Option.some.inj h
    cases i with
    | store w => exact .store hws
    | notifyPause => exact .notifyPause hws
    | notifyWait => exact .notifyWait hws
    | leave => exact .leave hws
  · rename_i q pc hws
    cases pc with
    | testPaused =>
      obtain rfl := Option.some.inj h
      split
      · exact .testPaused hws
      · exact .notPaused hws
    | lock =>
      simp only [evalNext] at h
      split at h
      · rename_i hfree
        obtain rfl := Option.some.inj h
        exact .lock hws (Option.isNone_iff_eq_none.mp hfree)
      · exact absurd h (by simp)
    | post => obtain rfl := Option.some.inj h; exact .post hws
    | unlock => obtain rfl := Option.some.inj h; exact .unlock hws
    | notify => obtain rfl := Option.some.inj h; exact .notify hws
    | relock =>
      simp only [evalNext] at h
      split at h
      · rename_i hfree
        obtain rfl := Option.some.inj h
        exact .relock hws (Option.isNone_iff_eq_none.mp hfree)
      · exact absurd h (by simp)
    | await =>
      simp only [evalNext] at h
      split at h
      · rename_i hready
        obtain ⟨r, hr, hready⟩ := (Option.any_eq_true _ _).mp hready
        obtain rfl := Option.some.inj h
        exact .ready hws hr hready
      · obtain rfl := Option.some.inj h
        exact .notReady hws
    | asleep => exact absurd h (by simp [evalNext])
    | clear =>
      obtain ⟨r, hr, rfl⟩ := Option.map_eq_some_iff.mp h
      exact .clear hws hr
    | unlockAfter result => obtain rfl := Option.some.inj h; exact .unlockAfter hws
    | reply result => obtain rfl := Option.some.inj h; exact .reply hws
  · exact absurd h (by simp)

/-- **Nothing else happens.** -/
theorem step_cases {a : Act} (h : (machine host).step s a = some s') :
    (∃ c, a = .js c ∧ JsStep host s c s') ∨ WsStep s a s' := by
  cases a with
  | js c => exact Or.inl ⟨c, rfl, jsStep_cases h⟩
  | ws => exact Or.inr (wsStep_cases h)
  | client c =>
    simp only [machine, step] at h
    split at h
    · rename_i hws
      obtain rfl := Option.some.inj h
      exact Or.inr (.client hws)
    · exact absurd h (by simp)
  | wsSpurious =>
    simp only [machine, step] at h
    split at h
    · rename_i hws
      obtain rfl := Option.some.inj h
      exact Or.inr (.spurious hws)
    · exact absurd h (by simp)

/-- The WS thread does nothing to the JS thread, except to wake it up. -/
theorem WsStep.js {a : Act} (h : WsStep s a s') : s'.js = s.js ∨ s'.js = wakeJs s.js := by
  cases h with
  | notifyPause _ | notify _ => exact Or.inr rfl
  | _ => exact Or.inl rfl

end

/-! ## 2. The stack -/

/-- A call that can have another one on top: it runs JavaScript. -/
def Activation.suspended : Activation → Bool
  | .code => true
  | .handler _ (.condition _) => true
  | .pause _ _ _ .walk => true
  | .pause _ _ _ .evaluating => true
  | _ => false

/-- Every call but the innermost runs JavaScript. -/
def Nested (js : List Activation) : Prop := ∀ a ∈ js.tail, a.suspended = true

section

variable {a b : Activation} {callers : List Activation}

/-- Another call in the place of the innermost one. -/
theorem Nested.replace (h : Nested (a :: callers)) : Nested (b :: callers) := h

/-- The innermost call returns. -/
theorem Nested.pop (h : Nested (a :: callers)) : Nested callers := fun b hb =>
  h b (List.mem_of_mem_tail hb)

/-- A call on top of one that runs JavaScript. -/
theorem Nested.push (h : Nested (a :: callers)) (ha : a.suspended = true) :
    Nested (b :: a :: callers) := by
  intro c hc
  rcases List.mem_cons.mp hc with rfl | hc
  · exact ha
  · exact h c hc

theorem Nested.wakeJs {js : List Activation} (h : Nested js) : Nested (wakeJs js) := by
  unfold Threads.wakeJs
  split
  · exact h.replace
  · exact h

theorem Nested.stack {e : Event} {pc : HandlerPc} {next : HandlerNext}
    (h : Nested (.handler e pc :: callers)) : Nested (next.stack e callers) := by
  cases next with
  | goto pc' => exact h.replace
  | evaluate bpId => exact Nested.push h.replace rfl
  | doPause reason bpId => exact h.replace
  | done => exact h.pop

end

theorem PauseStep.nested {s s' : State} {e : Event} {reason : PauseReason} {bpId : Int}
    {callers : List Activation} {pc : PausePc} (hjs : s.js = .pause e reason bpId pc :: callers)
    (h : PauseStep s e reason bpId callers pc s') (hn : Nested s.js) : Nested s'.js := by
  rw [hjs] at hn
  cases h with
  | evaluate _ => exact Nested.push hn.replace rfl
  | sendResumed => exact hn.pop
  | _ => exact hn.replace

theorem finishEval_js (s : State) (result : Value) (js : List Activation) :
    (finishEval s result js).js = js := by
  unfold finishEval
  split <;> rfl

/-- **The stack stays nested.** -/
theorem nested_step {host : Host} {s s' : State} {a : Act}
    (h : (machine host).step s a = some s') (hn : Nested s.js) : Nested s'.js := by
  rcases step_cases h with ⟨c, rfl, hs⟩ | hs
  · cases hs with
    | statement hjs => rw [hjs] at hn; exact hn.push rfl
    | fires hjs => rw [hjs] at hn; exact hn.pop.replace
    | falsy hjs => rw [hjs] at hn; exact hn.pop.pop
    | getterDone hjs => rw [hjs] at hn; exact hn.pop
    | evaluated hjs => rw [hjs] at hn; rw [finishEval_js]; exact hn.pop.replace
    | handler hjs _ => rw [hjs] at hn; exact hn.stack
    | getter hjs => rw [hjs] at hn; exact hn.push rfl
    | spurious hjs => rw [hjs] at hn; exact hn.replace
    | pause hjs hnext => exact hnext.nested hjs hn
  · rcases hs.js with hjs | hjs
    · rw [hjs]; exact hn
    · rw [hjs]; exact hn.wakeJs

theorem nested_of_reach {host : Host} {ok : State → Act → Prop} {s : State}
    (h : (machine host).Reach ok s) : Nested s.js := by
  refine h.invariant (I := fun s => Nested s.js) ?_ ?_
  · intro s hi a ha
    rw [hi.js] at ha
    exact absurd ha (by simp)
  · intro s a s' hn _ hstep
    exact nested_step hstep hn

/-! ## 3. The handler -/

/-- The handler does not touch what the pause protocol looks at. -/
theorem handlerNext_frame {host : Host} {s s' : Session} {e : Event} {pc : HandlerPc}
    {next : HandlerNext} (h : handlerNext host s e pc = some (s', next)) :
    s'.paused = s.paused ∧ s'.pendingEval = s.pendingEval := by
  cases pc with
  | testEntry mode =>
    simp only [handlerNext] at h
    split at h <;> obtain ⟨rfl, rfl⟩ := Prod.mk.inj (Option.some.inj h) <;> exact ⟨rfl, rfl⟩
  | condition bpId => exact absurd h (by simp [handlerNext])
  | _ => obtain ⟨rfl, rfl⟩ := Prod.mk.inj (Option.some.inj h); exact ⟨rfl, rfl⟩

/-- The handler has decided to pause. -/
def HandlerPc.committed : HandlerPc → Bool
  | .clearRequest | .commit _ _ => true
  | _ => false

/-- The JS thread's next step, when it is a test of the handler that decides to pause: the
calls below that handler. -/
def decision (host : Host) (s : State) : Choice → Option (List Activation)
  | .next =>
    match s.js with
    | .handler _ (.testRequest _) :: callers =>
      if s.session.pauseRequested then some callers else none
    | .handler _ (.testEntry _) :: callers => if s.session.pauseOnStart then some callers else none
    | .handler e .findBreakpoint :: callers =>
      if (findBreakpoint host e.file e.line s.session.breakpoints).2 = [] then some callers
      else none
    | .handler e (.switchMode mode) :: callers =>
      if stepStops s.session mode e then some callers else none
    | _ => none
  | .finish _ truthy =>
    match s.js with
    | .code :: .handler _ (.condition _) :: callers => if truthy then some callers else none
    | _ => none
  | _ => none

/-- A handler that has decided to pause had done so before, or decides now. -/
theorem committed_of_goto {host : Host} {s : State} {e : Event} {pc pc' : HandlerPc}
    {callers : List Activation} {session : Session} (hjs : s.js = .handler e pc :: callers)
    (h : handlerNext host s.session e pc = some (session, .goto pc')) (hc : pc'.committed = true) :
    pc.committed = true ∨ decision host s .next = some callers := by
  cases pc with
  | entry =>
    simp only [handlerNext, Option.some.injEq, Prod.mk.injEq] at h
    split at h
    · obtain ⟨-, h⟩ := h
      obtain rfl := HandlerNext.goto.inj h
      exact absurd hc (by simp [HandlerPc.committed])
    · exact absurd h.2 (by simp)
  | track =>
    obtain ⟨-, h⟩ := Prod.mk.inj (Option.some.inj h)
    obtain rfl := HandlerNext.goto.inj h
    exact absurd hc (by simp [HandlerPc.committed])
  | loadMode =>
    obtain ⟨-, h⟩ := Prod.mk.inj (Option.some.inj h)
    obtain rfl := HandlerNext.goto.inj h
    exact absurd hc (by simp [HandlerPc.committed])
  | testRequest mode =>
    obtain ⟨-, h⟩ := Prod.mk.inj (Option.some.inj h)
    obtain rfl := HandlerNext.goto.inj h
    cases hp : s.session.pauseRequested with
    | true => exact Or.inr (by simp [decision, hjs, hp])
    | false => exact absurd hc (by simp [hp, HandlerPc.committed])
  | clearRequest => exact Or.inl rfl
  | testEntry mode =>
    cases hp : s.session.pauseOnStart with
    | true => exact Or.inr (by simp [decision, hjs, hp])
    | false =>
      simp only [handlerNext, hp, Bool.false_eq_true, if_false] at h
      obtain ⟨-, h⟩ := Prod.mk.inj (Option.some.inj h)
      obtain rfl := HandlerNext.goto.inj h
      exact absurd hc (by simp [HandlerPc.committed])
  | checkBreakpoint mode =>
    obtain ⟨-, h⟩ := Prod.mk.inj (Option.some.inj h)
    obtain rfl := HandlerNext.goto.inj h
    split at hc <;> exact absurd hc (by simp [HandlerPc.committed])
  | findBreakpoint =>
    by_cases hb : (QjsDebug.findBreakpoint host e.file e.line s.session.breakpoints).2 = []
    · exact Or.inr (by simp [decision, hjs, hb])
    · obtain ⟨-, h⟩ := Prod.mk.inj (Option.some.inj h)
      rw [if_neg hb] at h
      exact absurd h (by simp)
  | condition bpId => exact absurd h (by simp [handlerNext])
  | switchMode mode =>
    cases hb : stepStops s.session mode e with
    | true => exact Or.inr (by simp [decision, hjs, hb])
    | false => exact absurd h (by simp [handlerNext, hb])
  | commit reason bpId => exact absurd h (by simp [handlerNext])

/-- A condition that turns out true decides to pause. -/
theorem decision_of_fires {host : Host} {s : State} {e : Event} {bpId : Int}
    {callers : List Activation} {result : Value}
    (hjs : s.js = .code :: .handler e (.condition bpId) :: callers) :
    decision host s (.finish result true) = some callers := by
  rw [decision, hjs]
  rfl

/-- `do_pause` is called by a handler that has decided to pause. -/
theorem committed_of_doPause {host : Host} {s session : Session} {e : Event} {pc : HandlerPc}
    {reason : PauseReason} {bpId : Int}
    (h : handlerNext host s e pc = some (session, .doPause reason bpId)) :
    pc.committed = true := by
  cases pc with
  | commit _ _ => rfl
  | condition _ => exact absurd h (by simp [handlerNext])
  | entry => simp only [handlerNext] at h; split at h <;> exact absurd h (by simp)
  | testEntry _ => simp only [handlerNext] at h; split at h <;> exact absurd h (by simp)
  | findBreakpoint =>
    simp only [handlerNext, Option.some.injEq, Prod.mk.injEq] at h
    split at h <;> exact absurd h.2 (by simp)
  | switchMode _ =>
    simp only [handlerNext, Option.some.injEq, Prod.mk.injEq] at h
    split at h <;> exact absurd h.2 (by simp)
  | _ => exact absurd h (by simp [handlerNext])

/-! ## 4. The handler on its own -/

/-- The JS thread gets from `s` to `s'` by steps of its own. -/
def JsRun (host : Host) (s s' : State) : Prop :=
  ∃ choices : List Choice, (machine host).run s (choices.map .js) = some s'

/-- The stack behind a call of the sequential handler. -/
def returnTo (e : Event) (callers : List Activation) : Option Pause → List Activation
  | none => callers
  | some p => .pause e p.reason p.bpId .capture :: callers

section

variable {host : Host} {s s' : State} {e : Event} {callers : List Activation}

theorem JsRun.refl (s : State) : JsRun host s s := ⟨[], rfl⟩

theorem JsRun.head {t : State} (c : Choice) (h : jsStep host s c = some t)
    (hrun : JsRun host t s') : JsRun host s s' := by
  obtain ⟨choices, hrun⟩ := hrun
  refine ⟨c :: choices, ?_⟩
  rw [List.map_cons, StepSystem.run_cons]
  exact Option.bind_eq_some_iff.mpr ⟨t, h, hrun⟩

theorem JsRun.trans {t : State} (h : JsRun host s t) (h' : JsRun host t s') :
    JsRun host s s' := by
  obtain ⟨choices, h⟩ := h
  obtain ⟨choices', h'⟩ := h'
  refine ⟨choices ++ choices', ?_⟩
  rw [List.map_append, StepSystem.run_append]
  exact Option.bind_eq_some_iff.mpr ⟨t, h, h'⟩

/-- One step of the handler. -/
theorem JsRun.next {session session' : Session} {pc : HandlerPc} (next : HandlerNext)
    (h : handlerNext host session e pc = some (session', next))
    (hrun : JsRun host { s with session := session', js := next.stack e callers } s') :
    JsRun host { s with session := session, js := .handler e pc :: callers } s' :=
  hrun.head .next (Option.map_eq_some_iff.mpr ⟨_, h, rfl⟩)

/-- A step of the handler that stays in it. -/
theorem JsRun.goto {session session' : Session} {pc : HandlerPc} (pc' : HandlerPc)
    (h : handlerNext host session e pc = some (session', .goto pc'))
    (hrun : JsRun host { s with session := session', js := .handler e pc' :: callers } s') :
    JsRun host { s with session := session, js := .handler e pc :: callers } s' :=
  hrun.next (.goto pc') h

/-- A test of the handler: the session is left alone. -/
theorem JsRun.test {session : Session} {pc : HandlerPc} (pc' : HandlerPc)
    (h : handlerNext host session e pc = some (session, .goto pc'))
    (hrun : JsRun host { s with session := session, js := .handler e pc' :: callers } s') :
    JsRun host { s with session := session, js := .handler e pc :: callers } s' :=
  hrun.goto pc' h

/-- The handler returns. -/
theorem JsRun.return {session : Session} {pc : HandlerPc}
    (h : handlerNext host session e pc = some (session, .done)) :
    JsRun host { s with session := session, js := .handler e pc :: callers }
      { s with session := session, js := callers } :=
  .next .done h (.refl _)

/-- From the commitment to pause on, nothing is decided any more. -/
theorem JsRun.commit (session : Session) (reason : PauseReason) (bpId : Int) :
    JsRun host { s with session := session, js := .handler e (.commit reason bpId) :: callers }
      { s with
        session := { session with stepMode := .none }
        js := .pause e reason bpId .capture :: callers } :=
  .next (.doPause reason bpId) rfl (.refl _)

/-- **A decision is final.**  Once a test of the handler has decided to pause, the JS thread
comes to `do_pause` on top of the same calls by steps of its own. -/
theorem decision_runs {c : Choice} (h : decision host s c = some callers) :
    ∃ e reason bpId, JsRun host s
      { s with
        session := s.session.stopFor reason
        js := .pause e reason bpId .capture :: callers } := by
  have hself : ∀ js, s.js = js → s = { s with session := s.session, js := js } := by
    rintro js rfl
    rfl
  unfold decision at h
  split at h
  · split at h
    · rename_i e mode below hjs
      obtain ⟨hreq, ⟨⟩⟩ := Option.ite_none_right_eq_some.mp h
      refine ⟨e, .pauseRequest, 0, ?_⟩
      rw [hself _ hjs]
      refine .test .clearRequest (by simp [handlerNext, hreq]) ?_
      exact .goto (.commit .pauseRequest 0) rfl (.commit _ .pauseRequest 0)
    · rename_i e mode below hjs
      obtain ⟨hstart, ⟨⟩⟩ := Option.ite_none_right_eq_some.mp h
      refine ⟨e, .entry, 0, ?_⟩
      rw [hself _ hjs]
      refine .goto (.commit .entry 0) (by simp [handlerNext, hstart]; rfl) ?_
      exact .commit _ .entry 0
    · rename_i e below hjs
      obtain ⟨hcond, ⟨⟩⟩ := Option.ite_none_right_eq_some.mp h
      generalize hbp : findBreakpoint host e.file e.line s.session.breakpoints = bp at hcond
      refine ⟨e, .breakpoint, bp.1, ?_⟩
      rw [hself _ hjs]
      refine .test (.commit .breakpoint bp.1) (by simp [handlerNext, hbp, hcond]) ?_
      exact .commit _ .breakpoint bp.1
    · rename_i e mode below hjs
      obtain ⟨hstop, ⟨⟩⟩ := Option.ite_none_right_eq_some.mp h
      refine ⟨e, .step, 0, ?_⟩
      rw [hself _ hjs]
      exact .test (.commit .step 0) (by simp [handlerNext, hstop]) (.commit _ .step 0)
    · exact absurd h (by simp)
  · rename_i result truthy
    split at h
    · rename_i e bpId below hjs
      obtain ⟨rfl, ⟨⟩⟩ := Option.ite_none_right_eq_some.mp h
      refine ⟨e, .breakpoint, bpId, ?_⟩
      rw [hself _ hjs]
      exact .head (.finish result true) rfl (.commit _ .breakpoint bpId)
    · exact absurd h (by simp)
  · exact absurd h (by simp)

/-- The breakpoint found, the handler stops unless its condition is falsy. -/
theorem findBreakpoint_runs (truthy : Bytes → Bool) {session : Session} {bp : Int × Bytes}
    (hbp : findBreakpoint host e.file e.line session.breakpoints = bp) :
    JsRun host { s with session := session, js := .handler e .findBreakpoint :: callers }
      (if bp.2 ≠ [] ∧ evaluateCondition truthy bp.2 = false then
        { s with session := session, js := callers }
      else
        { s with
          session := { session with stepMode := .none }
          js := .pause e .breakpoint bp.1 .capture :: callers }) := by
  by_cases hc : bp.2 = []
  · rw [if_neg (by simp [hc])]
    refine .test (.commit .breakpoint bp.1) ?_ (.commit session .breakpoint bp.1)
    simp [handlerNext, hbp, hc]
  · have hnext : handlerNext host session e .findBreakpoint = some (session, .evaluate bp.1) := by
      simp [handlerNext, hbp, hc]
    refine .next (.evaluate bp.1) hnext ?_
    have heval : evaluateCondition truthy bp.2 = truthy bp.2 := by simp [evaluateCondition, hc]
    rw [heval]
    cases truthy bp.2 with
    | false =>
      rw [if_pos ⟨hc, rfl⟩]
      exact .head (.finish .null false) rfl (.refl _)
    | true =>
      rw [if_neg (by simp)]
      exact .head (.finish .null true) rfl (.commit session .breakpoint bp.1)

/-- **The machine computes the handler.**  Without interference the steps of
`debug_trace_handler` lead to the session and the pause of `debugTraceHandler`. -/
theorem handler_runs (truthy : Bytes → Bool) (session : Session) :
    JsRun host { s with session := session, js := .handler e .entry :: callers }
      { s with
        session := (debugTraceHandler host truthy session e).1
        js := returnTo e callers (debugTraceHandler host truthy session e).2 } := by
  unfold debugTraceHandler
  cases hen : session.enabled with
  | false => exact .return (by simp [handlerNext, hen])
  | true =>
    simp only [Event.skipped_iff, Bool.not_true, Bool.false_eq_true, if_false]
    cases hhandled : e.handled with
    | false => exact .return (by simp [handlerNext, hhandled])
    | true =>
      simp only [Bool.true_eq_false, if_false]
      refine .test .track (by simp [handlerNext, hen, hhandled]) ?_
      refine .goto .loadMode rfl ?_
      generalize session.track e = session
      refine .test (.testRequest session.stepMode) rfl ?_
      cases hreq : session.pauseRequested with
      | true =>
        refine .test .clearRequest (by simp [handlerNext, hreq]) ?_
        exact .goto (.commit .pauseRequest 0) rfl (.commit _ .pauseRequest 0)
      | false =>
        refine .test (.testEntry session.stepMode) (by simp [handlerNext, hreq]) ?_
        cases hstart : session.pauseOnStart with
        | true =>
          refine .goto (.commit .entry 0) (by simp [handlerNext, hstart]; rfl) ?_
          exact .commit _ .entry 0
        | false =>
          refine .test (.checkBreakpoint session.stepMode) (by simp [handlerNext, hstart]) ?_
          cases hcheck : checkBreakpoint host session e.file e.line with
          | true =>
            refine .test .findBreakpoint (by simp [handlerNext, hcheck]) ?_
            generalize hbp : findBreakpoint host e.file e.line session.breakpoints = bp
            have hrun := @findBreakpoint_runs host s e callers truthy session bp hbp
            simp only [Bool.false_eq_true, if_false, if_true]
            split at hrun
            · rename_i hfalsy; rw [if_pos hfalsy]; exact hrun
            · rename_i hwanted; rw [if_neg hwanted]; exact hrun
          | false =>
            refine .test (.switchMode session.stepMode) (by simp [handlerNext, hcheck]) ?_
            cases hstep : stepStops session session.stepMode e with
            | true =>
              refine .test (.commit .step 0) (by simp [handlerNext, hstep]) ?_
              exact .commit _ .step 0
            | false => exact .return (by simp [handlerNext, hstep])

end

/-! ## 5. The request -/

/-- The WS thread has posted its request and not cleared it. -/
def EvalPc.posted : EvalPc → Bool
  | .unlock | .notify | .relock | .await | .asleep | .clear => true
  | _ => false

/-- The request the WS thread has in the session. -/
def Ws.posted : Ws → Option Nat
  | .evaluate q pc => if pc.posted then some q.id else none
  | _ => none

/-- `pending_eval_` is the request of the WS thread, as long as that one waits for it. -/
def Posted (s : State) : Prop := s.session.pendingEval.map EvalRequest.id = s.ws.posted

/-- Of the writes of the WS thread only one clears `paused_`, and none touches the request. -/
theorem Write.frame (w : Write) (s : Session) :
    (w.apply s).pendingEval = s.pendingEval ∧ (w ≠ .unpause → (w.apply s).paused = s.paused) := by
  cases w with
  | unpause => exact ⟨rfl, fun h => absurd rfl h⟩
  | _ => exact ⟨rfl, fun _ => rfl⟩

theorem posted_wake (ws : Ws) : ws.wake.posted = ws.posted := by
  unfold Ws.wake
  split <;> rfl

theorem posted_start (c : Command) (id : Nat) : (c.start id).posted = none := by
  cases c <;> rfl

theorem finishEval_ws (s : State) (result : Value) (js : List Activation) :
    (finishEval s result js).ws = s.ws := by
  unfold finishEval
  split <;> rfl

section

variable {host : Host} {s s' : State} {c : Choice}

/-- The JS thread does nothing to the WS thread, except to wake it up. -/
theorem JsStep.ws (h : JsStep host s c s') : s'.ws = s.ws ∨ s'.ws = s.ws.wake := by
  cases h with
  | evaluated _ => exact Or.inl (finishEval_ws _ _ _)
  | pause _ hnext =>
    cases hnext with
    | notifyDone => exact Or.inr rfl
    | _ => exact Or.inl rfl
  | _ => exact Or.inl rfl

/-- The JS thread leaves the request in its place. -/
theorem JsStep.pendingEval (h : JsStep host s c s') :
    s'.session.pendingEval.map EvalRequest.id = s.session.pendingEval.map EvalRequest.id := by
  cases h with
  | handler _ hnext => rw [(handlerNext_frame hnext).2]
  | evaluated _ =>
    unfold finishEval
    split
    · rename_i hr; rw [hr]; rfl
    · rfl
  | pause _ hnext =>
    cases hnext with
    | setReady => cases s.session.pendingEval <;> rfl
    | _ => rfl
  | _ => rfl

/-- The WS thread never stores true to `paused_`. -/
theorem WsStep.paused {a : Act} (h : WsStep s a s') (hp : s.session.paused = false) :
    s'.session.paused = false := by
  cases h with
  | @store w _ _ =>
    by_cases hw : w = .unpause
    · subst hw; rfl
    · exact ((w.frame s.session).2 hw).trans hp
  | _ => exact hp

/-- **The request is the WS thread's.** -/
theorem posted_step {a : Act} (h : Posted s) (hstep : (machine host).step s a = some s') :
    Posted s' := by
  unfold Posted at h ⊢
  rcases step_cases hstep with ⟨c, rfl, hjstep⟩ | hwstep
  · rw [hjstep.pendingEval, h]
    rcases hjstep.ws with hws | hws
    · rw [hws]
    · rw [hws, posted_wake]
  · cases hwstep with
    | client hws => rw [hws] at h; rw [posted_start]; exact h
    | store hws => rw [hws] at h; rw [(Write.frame _ _).1]; exact h
    | post _ => rfl
    | clear _ _ => rfl
    | notifyPause hws | notifyWait hws | leave hws => rw [hws] at h; exact h
    | testPaused hws | notPaused hws | unlock hws | notify hws => rw [hws] at h; exact h
    | lock hws _ | relock hws _ | ready hws _ _ => rw [hws] at h; exact h
    | notReady hws | unlockAfter hws | reply hws | spurious hws => rw [hws] at h; exact h

theorem posted_of_reach {ok : State → Act → Prop} (h : (machine host).Reach ok s) : Posted s := by
  refine h.invariant (I := Posted) ?_ ?_
  · intro s hi
    rw [Posted, hi.pendingEval, hi.ws]
    rfl
  · intro s a s' hi _ hstep
    exact posted_step hi hstep

end

/-! ## 6. Schedules -/

/-- The two threads before the first statement. -/
def State.start (session : Session) : State where
  session := session
  pauseLocked := false
  evalOwner := none
  js := [.code]
  ws := .run []
  log := []
  nextRequest := 0

/-- A session a client has enabled. -/
def enabledSession : Session := { Session.new with enabled := true }

theorem initial_start : State.Initial (.start enabledSession) := ⟨rfl, rfl, rfl, rfl, rfl, rfl, rfl⟩

/-- Steps of the JS thread. -/
def jsSteps (n : Nat) : List Act := .replicate n (.js .next)

/-- Steps of the WS thread. -/
def wsSteps (n : Nat) : List Act := .replicate n .ws

/-- The client asks for a pause. -/
def askForPause : List Act := [.client .requestPause, .ws]

/-- A statement whose handler pauses on the request; the pause is about to test its
predicate. -/
def pauseOnRequest (e : Event) : List Act := .js (.statement e) :: jsSteps 12

/-- The pause finds its predicate false and goes to sleep. -/
def fallAsleep : List Act := jsSteps 2

/-- The client asks for a value; the WS thread has posted the request and notified. -/
def postRequest (expression : Bytes) : List Act :=
  .client (.evaluateOnCallFrame (ascii "0") expression) :: wsSteps 5

/-- The JS thread, woken up, comes to the evaluation. -/
def serveRequest : List Act := jsSteps 5

end QjsDebug.Threads
