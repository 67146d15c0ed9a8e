/-
# Two threads and a session

The debugged process runs two threads over one `DebugSession`.  The JS thread executes the
script; every statement calls `debug_trace_handler`, which may end in `do_pause`.  The WS
thread executes the client's commands.  This module is the step semantics of the two: one
step is one access to shared data (an atomic load or store, an acquisition or a release of a
mutex, a predicate test, a notify, a section under `bp_mutex_`), and any interleaving of the
steps is a run.

**The JS thread is a stack.**  The debugger itself runs JavaScript -- breakpoint conditions,
getters met while frames are captured, evaluated expressions -- and that code calls the
handler again.  So the thread's state is the stack of the calls in progress, innermost
first.  `do_pause` is the handler's last call and takes its place on the stack.

**What is left open.**  Which statements run, what an expression evaluates to and whether a
condition is truthy is chosen by the action; so a property of every run holds for every
script.  `wait_for_debugger` is over before the first statement and is not part of the
machine; nothing waits on `wait_cv_` here.
-/
import QjsDebug.Lib.StepSystem
import QjsDebug.Session.Handler

namespace QjsDebug.Threads

open Json (Value)

/-! ## 1. The JS thread's calls -/

/-- Where `debug_trace_handler` is.  The mode it loaded on the way is a local variable. -/
inductive HandlerPc
  | entry
  | track
  | loadMode
  | testRequest (mode : StepMode)
  | clearRequest
  | testEntry (mode : StepMode)
  | checkBreakpoint (mode : StepMode)
  | findBreakpoint
  /-- `evaluate_condition` runs the condition. -/
  | condition (bpId : Int)
  | switchMode (mode : StepMode)
  /-- About to store `StepMode::None` and call `do_pause`. -/
  | commit (reason : PauseReason) (bpId : Int)
  deriving DecidableEq

/-- Where `do_pause` is. -/
inductive PausePc
  | capture
  /-- `capture_frames` walks over the variables; getters may run. -/
  | walk
  | storePaused
  | sendPaused
  | lock
  /-- The test of the `while` loop. -/
  | loop
  /-- Inside `pause_cv_.wait`, the mutex held: the predicate. -/
  | predicate
  /-- The predicate was false; the thread is about to release the mutex and sleep. -/
  | park
  | parked
  /-- Woken up, about to take the mutex again. -/
  | relock
  /-- The test in front of the service of a request. -/
  | serve
  | lockEval
  | testPending
  | evaluating
  | setReady
  | notifyDone
  | unlockEval
  | unlock
  | sendResumed
  deriving DecidableEq

/-- A call on the JS thread's stack: running JavaScript, the handler, or `do_pause`. -/
inductive Activation
  | code
  | handler (e : Event) (pc : HandlerPc)
  | pause (e : Event) (reason : PauseReason) (bpId : Int) (pc : PausePc)
  deriving DecidableEq

/-! ## 2. The WS thread -/

inductive Thread
  | js
  | ws
  deriving DecidableEq

/-- A store of the WS thread to the session, or a section under `bp_mutex_`. -/
inductive Write
  | recordStart
  | stepMode (m : StepMode)
  | pauseRequested (b : Bool)
  /-- `paused_.store(false)`. -/
  | unpause
  /-- `waiting_.store(false)`. -/
  | stopWaiting
  | enabled (b : Bool)
  | setBreakpoint (url : Bytes) (line column : Int) (isRegex : Bool) (condition : Bytes)
  | removeBreakpoint (id : Int)
  | breakpointsActive (b : Bool)

def Write.apply (s : Session) : Write → Session
  | .recordStart => s.recordStart
  | .stepMode m => { s with stepMode := m }
  | .pauseRequested b => { s with pauseRequested := b }
  | .unpause => { s with paused := false }
  | .stopWaiting => { s with waiting := false }
  | .enabled b => s.setEnabled b
  | .setBreakpoint url line column isRegex condition =>
    s.setBreakpoint url line column isRegex condition
  | .removeBreakpoint id => s.removeBreakpoint id
  | .breakpointsActive b => s.setBreakpointsActive b

/-- One step of a command. -/
inductive Instr
  | store (w : Write)
  | notifyPause
  | notifyWait
  /-- Out of the loop of the thread. -/
  | leave

/-- The commands a client can give, and its disconnecting. -/
inductive Command
  | resume
  | stepOver
  | stepInto
  | stepOut
  | requestPause
  | runIfWaiting
  | setEnabled (b : Bool)
  | setBreakpoint (url : Bytes) (line column : Int) (isRegex : Bool) (condition : Bytes)
  | removeBreakpoint (id : Int)
  | setBreakpointsActive (b : Bool)
  | evaluateOnCallFrame (callFrameId expression : Bytes)
  | disconnect

/-- The shared tail of `resume` and the step commands. -/
def wakeUp (mode : StepMode) : List Instr :=
  [.store (.stepMode mode), .store (.pauseRequested false), .store .unpause, .notifyPause]

/-- `step_over`, `step_into` and `step_out`. -/
def stepWith (mode : StepMode) : List Instr := .store .recordStart :: wakeUp mode

/-- `on_disconnect`, and the `break` behind it in `main`. -/
def onDisconnect : List Instr :=
  [.store (.pauseRequested false), .store (.stepMode .«continue»), .store .unpause, .notifyPause,
    .store .stopWaiting, .notifyWait, .leave]

/-- A request of `evaluate_on_call_frame`. -/
structure Query where
  id : Nat
  callFrameId : Bytes
  expression : Bytes

/-- Where `evaluate_on_call_frame` is. -/
inductive EvalPc
  | testPaused
  | lock
  | post
  | unlock
  | notify
  | relock
  /-- Inside `eval_done_cv_.wait`, the mutex held: the predicate. -/
  | await
  /-- Asleep on `eval_done_cv_`. -/
  | asleep
  | clear
  | unlockAfter (result : Value)
  | reply (result : Value)

/-- The WS thread: in a command, in `evaluate_on_call_frame`, or out of its loop.  With nothing
left to do in the command it waits for the next message. -/
inductive Ws
  | run (todo : List Instr)
  | evaluate (q : Query) (pc : EvalPc)
  | gone

/-- What the thread does on a command; `id` names a request. -/
def Command.start (id : Nat) : Command → Ws
  | .resume => .run (wakeUp .«continue»)
  | .stepOver => .run (stepWith .over)
  | .stepInto => .run (stepWith .into)
  | .stepOut => .run (stepWith .out)
  | .requestPause => .run [.store (.pauseRequested true)]
  | .runIfWaiting => .run [.store (.stepMode .«continue»), .store .stopWaiting, .notifyWait]
  | .setEnabled b => .run [.store (.enabled b)]
  | .setBreakpoint url line column isRegex condition =>
    .run [.store (.setBreakpoint url line column isRegex condition)]
  | .removeBreakpoint id => .run [.store (.removeBreakpoint id)]
  | .setBreakpointsActive b => .run [.store (.breakpointsActive b)]
  | .evaluateOnCallFrame callFrameId expression =>
    .evaluate ⟨id, callFrameId, expression⟩ .testPaused
  | .disconnect => .run onDisconnect

/-! ## 3. States and actions -/

/-- What can be observed from outside. -/
inductive Obs
  | paused
  | resumed
  | evalBegin (id : Nat)
  | evalEnd (id : Nat) (result : Value)
  | evalReturn (id : Nat) (result : Value)

structure State where
  session : Session
  /-- `pause_mutex_` is held; only the JS thread takes it. -/
  pauseLocked : Bool
  /-- Who holds `eval_mutex_`. -/
  evalOwner : Option Thread
  /-- The calls of the JS thread, innermost first. -/
  js : List Activation
  ws : Ws
  /-- The observations so far, newest first. -/
  log : List Obs
  nextRequest : Nat

/-- The two threads before the first statement, with any session that is not paused. -/
structure State.Initial (s : State) : Prop where
  paused : s.session.paused = false
  pendingEval : s.session.pendingEval = none
  pauseLocked : s.pauseLocked = false
  evalOwner : s.evalOwner = none
  js : s.js = [.code]
  ws : s.ws = .run []
  log : s.log = []

/-- A choice of the JS thread. -/
inductive Choice
  /-- The next step of the handler or of `do_pause`. -/
  | next
  /-- The running code comes to a statement. -/
  | statement (e : Event)
  /-- A getter runs while frames are captured. -/
  | getter
  /-- The code the debugger runs ends, with its value and its truth. -/
  | finish (result : Value) (truthy : Bool)
  /-- A wake-up out of nothing. -/
  | spurious

inductive Act
  | js (c : Choice)
  | ws
  | client (c : Command)
  /-- The WS thread wakes up out of nothing. -/
  | wsSpurious

/-! ## 4. Steps of the JS thread -/

section

variable (host : Host)

/-- How a step of the handler goes on. -/
inductive HandlerNext
  | goto (pc : HandlerPc)
  | evaluate (bpId : Int)
  | doPause (reason : PauseReason) (bpId : Int)
  | done

/-- `debug_trace_handler`, step by step. -/
def handlerNext (s : Session) (e : Event) : HandlerPc → Option (Session × HandlerNext)
  | .entry => some (s, if s.enabled && e.handled then .goto .track else .done)
  | .track => some (s.track e, .goto .loadMode)
  | .loadMode => some (s, .goto (.testRequest s.stepMode))
  | .testRequest mode =>
    some (s, .goto (if s.pauseRequested then .clearRequest else .testEntry mode))
  | .clearRequest => some ({ s with pauseRequested := false }, .goto (.commit .pauseRequest 0))
  | .testEntry mode =>
    if s.pauseOnStart then some ({ s with pauseOnStart := false }, .goto (.commit .entry 0))
    else some (s, .goto (.checkBreakpoint mode))
  | .checkBreakpoint mode =>
    some (s, .goto (if QjsDebug.checkBreakpoint host s e.file e.line then .findBreakpoint
      else .switchMode mode))
  | .findBreakpoint =>
    let bp := QjsDebug.findBreakpoint host e.file e.line s.breakpoints
    some (s, if bp.2 = [] then .goto (.commit .breakpoint bp.1) else .evaluate bp.1)
  | .condition _ => none
  | .switchMode mode => some (s, if stepStops s mode e then .goto (.commit .step 0) else .done)
  | .commit reason bpId => some ({ s with stepMode := .none }, .doPause reason bpId)

/-- The stack behind a step of the handler on top of `callers`. -/
def HandlerNext.stack (e : Event) (callers : List Activation) : HandlerNext → List Activation
  | .goto pc' => .handler e pc' :: callers
  | .evaluate bpId => .code :: .handler e (.condition bpId) :: callers
  | .doPause reason bpId => .pause e reason bpId .capture :: callers
  | .done => callers

/-- `eval_done_cv_.notify_all()`. -/
def Ws.wake : Ws → Ws
  | .evaluate q .asleep => .evaluate q .relock
  | ws => ws

/-- `do_pause`, step by step, on top of `callers`. -/
def pauseNext (s : State) (e : Event) (reason : PauseReason) (bpId : Int)
    (callers : List Activation) (pc : PausePc) : Option State :=
  let goto (pc : PausePc) : List Activation := .pause e reason bpId pc :: callers
  match pc with
  | .capture => some { s with session := s.session.track e, js := goto .walk }
  | .walk => some { s with js := goto .storePaused }
  | .storePaused =>
    some { s with session := { s.session with paused := true }, js := goto .sendPaused }
  | .sendPaused => some { s with js := goto .lock, log := .paused :: s.log }
  | .lock => if s.pauseLocked then none else some { s with pauseLocked := true, js := goto .loop }
  | .loop => some { s with js := goto (if s.session.paused then .predicate else .unlock) }
  | .predicate =>
    some { s with
      js := goto (if s.session.paused && s.session.pendingEval.isNone then .park else .serve) }
  | .park => some { s with pauseLocked := false, js := goto .parked }
  | .parked => none
  | .relock =>
    if s.pauseLocked then none else some { s with pauseLocked := true, js := goto .predicate }
  | .serve =>
    some { s with
      js := goto (if s.session.paused && s.session.pendingEval.isSome then .lockEval else .loop) }
  | .lockEval =>
    if s.evalOwner.isNone then some { s with evalOwner := some .js, js := goto .testPending }
    else none
  | .testPending =>
    match s.session.pendingEval with
    | some r => some { s with js := .code :: goto .evaluating, log := .evalBegin r.id :: s.log }
    | none => some { s with js := goto .unlockEval }
  | .evaluating => none
  | .setReady =>
    some { s with
      session := { s.session with
        pendingEval := s.session.pendingEval.map fun r => { r with ready := true } }
      js := goto .notifyDone }
  | .notifyDone => some { s with ws := s.ws.wake, js := goto .unlockEval }
  | .unlockEval => some { s with evalOwner := none, js := goto .loop }
  | .unlock => some { s with pauseLocked := false, js := goto .sendResumed }
  | .sendResumed => some { s with js := callers, log := .resumed :: s.log }

/-- The code run for a request ends; its value is stored in the request. -/
def finishEval (s : State) (result : Value) (js : List Activation) : State :=
  match s.session.pendingEval with
  | some r =>
    { s with
      session := { s.session with pendingEval := some { r with result := result } }
      js := js
      log := .evalEnd r.id result :: s.log }
  | none => { s with js := js }

/-- A step of the JS thread. -/
def jsStep (s : State) (c : Choice) : Option State :=
  match s.js, c with
  | .code :: callers, .statement e =>
    some { s with js := .handler e .entry :: .code :: callers }
  | .code :: .handler e (.condition bpId) :: callers, .finish _ truthy =>
    some { s with
      js := if truthy then .handler e (.commit .breakpoint bpId) :: callers else callers }
  | .code :: .pause e reason bpId .walk :: callers, .finish _ _ =>
    some { s with js := .pause e reason bpId .walk :: callers }
  | .code :: .pause e reason bpId .evaluating :: callers, .finish result _ =>
    some (finishEval s result (.pause e reason bpId .setReady :: callers))
  | .handler e pc :: callers, .next =>
    (handlerNext host s.session e pc).map fun r =>
      { s with session := r.1, js := r.2.stack e callers }
  | .pause e reason bpId .walk :: callers, .getter =>
    some { s with js := .code :: .pause e reason bpId .walk :: callers }
  | .pause e reason bpId .parked :: callers, .spurious =>
    some { s with js := .pause e reason bpId .relock :: callers }
  | .pause e reason bpId pc :: callers, .next => pauseNext s e reason bpId callers pc
  | _, _ => none

/-! ## 5. Steps of the WS thread -/

/-- `pause_cv_.notify_all()`: a parked JS thread wakes up. -/
def wakeJs : List Activation → List Activation
  | .pause e reason bpId .parked :: callers => .pause e reason bpId .relock :: callers
  | js => js

def Instr.exec (s : State) (todo : List Instr) : Instr → State
  | .store w => { s with session := w.apply s.session, ws := .run todo }
  | .notifyPause => { s with js := wakeJs s.js, ws := .run todo }
  | .notifyWait => { s with ws := .run todo }
  | .leave => { s with ws := .gone }

/-- `evaluate_on_call_frame`, step by step. -/
def evalNext (s : State) (q : Query) (pc : EvalPc) : Option State :=
  match pc with
  | .testPaused =>
    some { s with ws := if s.session.paused then .evaluate q .lock else .run [] }
  | .lock =>
    if s.evalOwner.isNone then some { s with evalOwner := some .ws, ws := .evaluate q .post }
    else none
  | .post =>
    some { s with
      session := { s.session with
        pendingEval := some ⟨q.id, q.callFrameId, q.expression, .null, false⟩ }
      ws := .evaluate q .unlock }
  | .unlock => some { s with evalOwner := none, ws := .evaluate q .notify }
  | .notify => some { s with js := wakeJs s.js, ws := .evaluate q .relock }
  | .relock =>
    if s.evalOwner.isNone then some { s with evalOwner := some .ws, ws := .evaluate q .await }
    else none
  | .await =>
    if s.session.pendingEval.any EvalRequest.ready then some { s with ws := .evaluate q .clear }
    else some { s with evalOwner := none, ws := .evaluate q .asleep }
  | .asleep => none
  | .clear =>
    s.session.pendingEval.map fun r =>
      { s with
        session := { s.session with pendingEval := none }
        ws := .evaluate q (.unlockAfter r.result) }
  | .unlockAfter result => some { s with evalOwner := none, ws := .evaluate q (.reply result) }
  | .reply result => some { s with ws := .run [], log := .evalReturn q.id result :: s.log }

/-- A step of the WS thread. -/
def wsStep (s : State) : Option State :=
  match s.ws with
  | .run [] => none
  | .run (i :: todo) => some (i.exec s todo)
  | .evaluate q pc => evalNext s q pc
  | .gone => none

/-- A step of the machine. -/
def step (s : State) : Act → Option State
  | .js c => jsStep host s c
  | .ws => wsStep s
  | .client c =>
    match s.ws with
    | .run [] => some { s with ws := c.start s.nextRequest, nextRequest := s.nextRequest + 1 }
    | _ => none
  | .wsSpurious =>
    match s.ws with
    | .evaluate q .asleep => some { s with ws := .evaluate q .relock }
    | _ => none

/-- The two threads. -/
def machine : StepSystem State Act where
  init := State.Initial
  step := step host

end

end QjsDebug.Threads
