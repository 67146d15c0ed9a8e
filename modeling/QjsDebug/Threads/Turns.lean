/-
# One thing at a time

`sequential_runs_realized` says that the two threads can do whatever the sequential debugger does.
The other way round is what a client has to rely on, and it takes a client that waits its turn: it
says something only while the script is paused or between two statements, and the script comes to
no statement before the command has stored what it has to.  Even so the threads overlap.  The script
goes on while the WS thread has not yet notified, a request is evaluated between the steps of
`evaluate_on_call_frame`, the JS thread wakes up out of nothing, and a command may come before the
JS thread has fallen asleep.

* §1  the conditions on a run (`InTurn`): commands come from messages and in turn, the debugger's
      own code is answered by `Env.answer` and comes to no statement, and no request is served a
      second time (`unserved`);
* §3  how the threads stand to the sequential debugger, at any moment (`Follows`).  It is behind
      while the handler runs, and ahead of the events of a pause that are still to be sent;
* §8  so such a run is one of the sequential debugger, wherever it comes to rest
      (`runs_in_turn_sequential`).  A wake-up that was lost is no rest.
-/
import QjsDebug.Threads.Progress
import QjsDebug.Threads.Sequential

namespace QjsDebug.Threads

open Json (Value)
open Cdp (Env handleParsed)

/-! ## 1. Runs -/

/-- The command of a message, or that the client leaves. -/
def Spoken (env : Env) (c : Command) : Prop :=
  c = .disconnect ∨ ∃ text msg, Json.parse env.stod text = .ok msg ∧ requested msg = some c

def Instr.isStore : Instr → Bool
  | .store _ => true
  | _ => false

/-- The WS thread has nothing to do that the script could notice. -/
def Ws.stored : Ws → Bool
  | .run todo => !todo.any Instr.isStore
  | .evaluate _ _ => false
  | .gone => true

/-- The side condition of a step: the threads take turns. -/
def InTurn (env : Env) (s : State) : Act → Prop
  | .client c => Spoken env c ∧ (s.session.paused = true ∨ s.js = [.code])
  | .js (.statement _) => s.js = [.code] ∧ s.ws.stored = true
  | .js (.finish result _) =>
    ∀ r, s.session.pendingEval = some r → result = env.answer r.callFrameId r.expression
  | a => unserved s a = true

theorem InTurn.unserved {env : Env} {s : State} {a : Act} (h : InTurn env s a) :
    unserved s a = true := by
  cases a with
  | js c =>
    cases c with
    | statement e | finish result truthy => rfl
    | _ => exact h
  | client c => rfl
  | _ => exact h

/-- The script is running or paused, and the WS thread waits for a message or has left. -/
structure State.Still (s : State) : Prop where
  js : s.js = [.code] ∨
    s.session.paused = true ∧ ∃ e reason bpId, s.js = [.pause e reason bpId .parked, .code]
  ws : s.ws = .run [] ∨ s.ws = .gone

/-! ## 2. What is left to do -/

/-- The session behind the stores that are left of a command. -/
def flush (todo : List Instr) (s : Session) : Session :=
  todo.foldl (fun s i => match i with
    | .store w => w.apply s
    | _ => s) s

section

variable (host : Host) (truth : Bool) (s : Session) (e : Event)

/-- The handler from its commitment to pause on. -/
def commitRest (reason : PauseReason) (bpId : Int) : Session × Option Pause :=
  ({ s with stepMode := .none }, some ⟨reason, bpId⟩)

/-- From the `switch` on. -/
def switchRest (mode : StepMode) : Session × Option Pause :=
  if stepStops s mode e then commitRest s .step 0 else (s, none)

/-- From the end of a condition on, which came out as `truth`. -/
def conditionRest (bpId : Int) : Session × Option Pause :=
  if truth then commitRest s .breakpoint bpId else (s, none)

def findRest : Session × Option Pause :=
  let bp := findBreakpoint host e.file e.line s.breakpoints
  if bp.2 = [] then commitRest s .breakpoint bp.1 else conditionRest truth s bp.1

def checkRest (mode : StepMode) : Session × Option Pause :=
  if checkBreakpoint host s e.file e.line then findRest host truth s e else switchRest s e mode

def entryRest (mode : StepMode) : Session × Option Pause :=
  if s.pauseOnStart then commitRest { s with pauseOnStart := false } .entry 0
  else checkRest host truth s e mode

def requestRest (mode : StepMode) : Session × Option Pause :=
  if s.pauseRequested then commitRest { s with pauseRequested := false } .pauseRequest 0
  else entryRest host truth s e mode

/-- What the handler makes of a session from here on, and its pause, if a condition comes out as
`truth`. -/
def resumeAt : HandlerPc → Session × Option Pause
  | .entry =>
    if s.enabled && e.handled then requestRest host truth (s.track e) e (s.track e).stepMode
    else (s, none)
  | .track => requestRest host truth (s.track e) e (s.track e).stepMode
  | .loadMode => requestRest host truth s e s.stepMode
  | .testRequest mode => requestRest host truth s e mode
  | .clearRequest => commitRest { s with pauseRequested := false } .pauseRequest 0
  | .testEntry mode => entryRest host truth s e mode
  | .checkBreakpoint mode => checkRest host truth s e mode
  | .findBreakpoint => findRest host truth s e
  | .condition bpId => conditionRest truth s bpId
  | .switchMode mode => switchRest s e mode
  | .commit reason bpId => commitRest s reason bpId

/-- The same behind one of its steps. -/
def HandlerNext.rest : HandlerNext → Session × Option Pause
  | .goto pc => resumeAt host truth s e pc
  | .evaluate bpId => conditionRest truth s bpId
  | .doPause reason bpId => (s, some ⟨reason, bpId⟩)
  | .done => (s, none)

end

section

variable {host : Host} {truth : Bool} {s s' : Session} {e : Event}

/-- What becomes of a breakpoint that was found. -/
theorem findRest_eq (truth : Bool) (s : Session) (e : Event) :
    findRest host truth s e =
      if (findBreakpoint host e.file e.line s.breakpoints).2 ≠ [] ∧
          evaluateCondition (fun _ => truth) (findBreakpoint host e.file e.line s.breakpoints).2 =
            false then (s, none)
      else (s.stopFor .breakpoint,
        some ⟨.breakpoint, (findBreakpoint host e.file e.line s.breakpoints).1⟩) := by
  unfold findRest conditionRest evaluateCondition
  generalize findBreakpoint host e.file e.line s.breakpoints = bp
  by_cases hbp : bp.2 = []
  · simp only [hbp, if_true, ne_eq, not_true, false_and, if_false]
    rfl
  · cases truth with
    | true => simp only [hbp, if_false, if_true, Bool.true_eq_false, and_false]; rfl
    | false => simp [hbp]

/-- **The whole handler.** -/
theorem resumeAt_entry (truth : Bool) (s : Session) (e : Event) :
    resumeAt host truth s e .entry = debugTraceHandler host (fun _ => truth) s e := by
  unfold debugTraceHandler resumeAt
  simp only [Event.skipped_iff]
  cases s.enabled with
  | false => rfl
  | true =>
    cases e.handled with
    | false => rfl
    | true =>
      simp only [Bool.and_self, if_true, Bool.not_true, Bool.false_eq_true, Bool.true_eq_false,
        if_false]
      -- the tests, one by one
      refine ite_congr rfl (fun _ => rfl) fun _ => ?_
      refine ite_congr rfl (fun _ => rfl) fun _ => ?_
      refine ite_congr rfl (fun _ => findRest_eq truth _ e) fun _ => ?_
      exact ite_congr rfl (fun _ => rfl) fun _ => rfl

/-- **One step of it.** -/
theorem resumeAt_next {pc : HandlerPc} {next : HandlerNext}
    (h : handlerNext host s e pc = some (s', next)) :
    resumeAt host truth s e pc = next.rest host truth s' e := by
  cases pc with
  | condition bpId => cases h
  | testEntry mode =>
    simp only [handlerNext] at h
    simp only [resumeAt, entryRest]
    split at h <;> obtain ⟨rfl, rfl⟩ := Prod.mk.inj (Option.some.inj h)
    · rename_i hstart
      rw [if_pos hstart]
      rfl
    · rename_i hstart
      rw [if_neg hstart]
      rfl
  | track | loadMode | clearRequest | commit reason bpId =>
    obtain ⟨rfl, rfl⟩ := Prod.mk.inj (Option.some.inj h)
    rfl
  | entry | testRequest mode | checkBreakpoint mode | switchMode mode =>
    obtain ⟨rfl, rfl⟩ := Prod.mk.inj (Option.some.inj h)
    simp only [resumeAt, requestRest, checkRest, switchRest]
    split <;> rfl
  | findBreakpoint =>
    obtain ⟨rfl, rfl⟩ := Prod.mk.inj (Option.some.inj h)
    simp only [resumeAt, findRest]
    split <;> rfl

end

/-! ## 3. How the threads stand to the sequential debugger -/

/-- `do_pause` has not set `paused_` yet. -/
def PausePc.entering : PausePc → Bool
  | .capture | .walk | .storePaused => true
  | _ => false

section

variable (host : Host) (env : Env) (q : Sequential)

/-- The handler is at work on a statement, for which the session was `start`. -/
inductive Handles (start : Session) : Session → List Activation → Prop
  | handler {e pc s}
      (h : ∀ truth, resumeAt host truth s e pc = debugTraceHandler host (fun _ => truth) start e) :
      Handles start s [.handler e pc, .code]
  | condition {e bpId s}
      (h : ∀ truth, conditionRest truth s bpId =
        debugTraceHandler host (fun _ => truth) start e) :
      Handles start s [.code, .handler e (.condition bpId), .code]
  /-- A condition has come out as `truth`. -/
  | commits {e reason bpId s truth}
      (h : commitRest s reason bpId = debugTraceHandler host (fun _ => truth) start e) :
      Handles start s [.handler e (.commit reason bpId), .code]
  | captures {e p s truth} (h : debugTraceHandler host (fun _ => truth) start e = (s, some p)) :
      Handles start s [.pause e p.reason p.bpId .capture, .code]
  | enters {e p pc s tracked truth} (hpc : pc = .walk ∨ pc = .storePaused)
      (h : debugTraceHandler host (fun _ => truth) start e = (s, some p))
      (ht : tracked = s.track e) : Handles start tracked [.pause e p.reason p.bpId pc, .code]
  | getter {e p s tracked truth}
      (h : debugTraceHandler host (fun _ => truth) start e = (s, some p))
      (ht : tracked = s.track e) :
      Handles start tracked [.code, .pause e p.reason p.bpId .walk, .code]

/-- The script stands where the sequential debugger has it. -/
inductive Stands : Option (Event × Pause) → Session → List Activation → Prop
  | running {s} (h : s.paused = false) : Stands none s [.code]
  | paused {e p pc s} (hpc : pc.opened = true) (h : s.paused = true) :
      Stands (some (e, p)) s [.pause e p.reason p.bpId pc, .code]
  | evaluating {e p s} (h : s.paused = true) (hr : s.pendingEval.isSome = true) :
      Stands (some (e, p)) s [.code, .pause e p.reason p.bpId .evaluating, .code]
  /-- A pause that is over and does not know it. -/
  | leaving {e reason bpId pc s} (hpc : pc.entering = false) (h : s.paused = false) :
      Stands none s [.pause e reason bpId pc, .code]

/-- What the log holds of a request that has not returned. -/
inductive Part (query : Query) : List Obs → Prop
  | fresh : Part query []
  | begun : Part query [.evalBegin query.id]
  | ended : Part query [.evalEnd query.id (env.answer query.callFrameId query.expression),
      .evalBegin query.id]

/-- Whether the WS thread is on its way out. -/
def Ws.leaving : Ws → Bool
  | .run todo => todo.any Instr.isLeave
  | .evaluate _ _ => false
  | .gone => true

/-- The WS thread does what the sequential debugger has done, or is about to do: the session and
the next request, as the threads have them, and what the log holds of a request. -/
inductive Speaks (s : Session) (next : Nat) : List Obs → Ws → Prop
  /-- A command that the sequential debugger has executed. -/
  | done {todo} (hpaused : todo.any Instr.isUnpause = false)
      (hsession : flush todo s = q.server.session) (hleave : todo.any Instr.isLeave = !q.connected)
      (hnext : next = q.nextRequest) : Speaks s next [] (.run todo)
  | gone (hsession : s = q.server.session) (hconn : q.connected = false)
      (hnext : next = q.nextRequest) : Speaks s next [] .gone
  /-- A command that will clear `paused_`, and then counts. -/
  | waking {c pre post todo} (hspoken : Spoken env c) (hwakes : c.wakes = true)
      (hconn : q.connected = true) (htodo : todo = pre ++ .store .unpause :: post)
      (hpre : ∀ i ∈ pre, ∃ w, i = .store w ∧ w ≠ .unpause)
      (hpost : post.any Instr.isUnpause = false) (hleave : post.any Instr.isLeave = c.leaves)
      (hsession : flush todo s = c.onSession q.server.session)
      (hpaused : s.paused = q.server.session.paused) (hnext : next = q.nextRequest + 1) :
      Speaks s next [] (.run todo)
  /-- A request, which counts when it returns. -/
  | asking {query pc part}
      (hspoken : Spoken env (.evaluateOnCallFrame query.callFrameId query.expression))
      (hconn : q.connected = true) (hsession : { s with pendingEval := none } = q.server.session)
      (hid : query.id = q.nextRequest) (hnext : next = q.nextRequest + 1)
      (hfresh : Fresh query.id q.log) (hpart : Part env query part)
      (hpaused : pc = .testPaused ∨ s.paused = true)
      (hr : ∀ r, s.pendingEval = some r →
        r.callFrameId = query.callFrameId ∧ r.expression = query.expression) :
      Speaks s next part (.evaluate query pc)

end

/-- The events of a pause that the JS thread has still to send. -/
def unsent (paused : Bool) : List Activation → List Obs
  | .pause _ _ _ pc :: _ =>
    (if paused then [] else [.resumed]) ++ if pc = .sendPaused then [.paused] else []
  | _ => []

/-- The handler is ahead of the sequential debugger. -/
structure Ahead (host : Host) (s : State) (q : Sequential) : Prop where
  handles : Handles host q.server.session s.session s.js
  paused : s.session.paused = false
  pause : q.pause = none
  before : q.server.session.paused = false
  stored : s.ws.stored = true
  leaving : s.ws.leaving = !q.connected
  next : s.nextRequest = q.nextRequest
  log : s.log = q.log

/-- The script stands still, or runs between two statements. -/
structure Level (env : Env) (s : State) (q : Sequential) : Prop where
  stands : Stands q.pause s.session s.js
  speaks : ∃ part, Speaks env q s.session s.nextRequest part s.ws ∧
    unsent s.session.paused s.js ++ s.log = part ++ q.log

/-- **How the threads follow the sequential debugger.** -/
def Follows (host : Host) (env : Env) (s : State) (q : Sequential) : Prop :=
  Ahead host s q ∨ Level env s q


/-! ## 4. What the sequential debugger can do -/

/-- What it does on a command. -/
structure Obeys (env : Env) (q : Sequential) (c : Command) (q' : Sequential) : Prop where
  session : q'.server.session = c.onSession q.server.session
  pause : q'.pause = if q'.server.session.paused then q.pause else none
  connected : q'.connected = !c.leaves
  log : q'.log = logBehind env q c q'.server.session
  nextRequest : q'.nextRequest = q.nextRequest + 1

section

variable {host : Host} {env : Env} {q : Sequential}

theorem exists_obeys {c : Command} (h : Spoken env c) (hconn : q.connected = true) :
    ∃ q', (sequential host env).Leads q q' ∧ Obeys env q c q' := by
  rcases h with rfl | ⟨text, msg, hparse, hreq⟩
  · refine ⟨_, .single .disconnects (if_pos hconn), ?_⟩
    constructor <;> rfl
  · have hsession := session_handleParsed env q.server msg
    rw [hreq] at hsession
    refine ⟨q.after env (handleParsed env q.server msg) (some c), .single (.message text) ?_, ?_⟩
    · simp only [sequential, Sequential.step, hconn, if_true, hparse, hreq]
    · constructor
      · exact hsession
      · rfl
      · rw [leaves_of_requested hreq]
        exact hconn
      · rfl
      · rfl

/-- A statement at which the script does not stop. -/
theorem statement_passes {e : Event} {truth : Bool} {session : Session}
    (hpaused : q.server.session.paused = false)
    (h : debugTraceHandler host (fun _ => truth) q.server.session e = (session, none)) :
    (sequential host env).Leads q { q with server := { q.server with session := session } } := by
  refine .single (.statement e fun _ => truth) ?_
  simp only [sequential, Sequential.step, hpaused, Bool.false_eq_true, if_false, h]

/-- A statement at which it does. -/
theorem statement_stops {e : Event} {truth : Bool} {session : Session} {p : Pause}
    (hpaused : q.server.session.paused = false)
    (h : debugTraceHandler host (fun _ => truth) q.server.session e = (session, some p)) :
    (sequential host env).Leads q
      { q with
        server := { q.server with session := session.enterPause e }
        pause := some (e, p)
        log := .paused :: q.log } := by
  refine .single (.statement e fun _ => truth) ?_
  simp only [sequential, Sequential.step, hpaused, Bool.false_eq_true, if_false, h]

end

/-! ## 5. The handler at work -/

section

variable {host : Host} {env : Env} {s s' : State} {q : Sequential}

theorem flush_of_stored {todo : List Instr} (h : (Ws.run todo).stored = true) (session : Session) :
    flush todo session = session := by
  have hnone : ∀ i ∈ todo, i.isStore = false := by simpa [Ws.stored] using h
  clear h
  induction todo with
  | nil => rfl
  | cons i todo ih =>
    obtain ⟨hi, hrest⟩ := List.forall_mem_cons.mp hnone
    cases i with
    | store w => cases hi
    | _ => exact ih hrest

theorem unpause_of_stored {todo : List Instr} (h : (Ws.run todo).stored = true) :
    todo.any Instr.isUnpause = false := by
  have hnone : ∀ i ∈ todo, i.isStore = false := by simpa [Ws.stored] using h
  rw [List.any_eq_false]
  intro i hi hunpause
  have hstore := hnone i hi
  cases i with
  | store w => cases hstore
  | _ => cases hunpause

/-- Where the WS thread has nothing to store, it is level with the sequential debugger. -/
theorem Speaks.of_stored {session : Session} {next : Nat} {part : List Obs} {ws : Ws}
    (h : Speaks env q session next part ws) (hstored : ws.stored = true) :
    part = [] ∧ session = q.server.session ∧ next = q.nextRequest ∧ ws.leaving = !q.connected := by
  cases h with
  | done _ hsession hleave hnext =>
    exact ⟨rfl, (flush_of_stored hstored session).symm.trans hsession, hnext, hleave⟩
  | gone hsession hconn hnext => exact ⟨rfl, hsession, hnext, by rw [hconn]; rfl⟩
  | waking _ _ _ htodo => simp [htodo, Ws.stored, Instr.isStore] at hstored
  | asking => cases hstored

theorem speaks_of_stored {session : Session} {ws : Ws} (hstored : ws.stored = true)
    (hsession : session = q.server.session) (hleave : ws.leaving = !q.connected) :
    Speaks env q session q.nextRequest [] ws := by
  cases ws with
  | run todo =>
    exact .done (unpause_of_stored hstored) ((flush_of_stored hstored session).trans hsession)
      hleave rfl
  | evaluate query pc => cases hstored
  | gone => exact .gone hsession (by simpa [Ws.leaving] using hleave) rfl

/-- Nothing wakes up a handler. -/
theorem Handles.wakeJs {start session : Session} {js : List Activation}
    (h : Handles host start session js) : Threads.wakeJs js = js := by
  cases h with
  | enters hpc _ _ => rcases hpc with rfl | rfl <;> rfl
  | _ => rfl

/-- The steps of the WS thread while the handler is at work. -/
theorem Ahead.ws (h : Ahead host s q) {a : Act} (hok : InTurn env s a) (hstep : WsStep s a s') :
    Ahead host s' q := by
  have hstored := h.stored
  have hleaving := h.leaving
  cases hstep with
  | client hws =>
    rcases hok.2 with hpaused | hjs
    · rw [h.paused] at hpaused
      cases hpaused
    · have hhandles := h.handles
      rw [hjs] at hhandles
      cases hhandles
  | store hws => rw [hws] at hstored; cases hstored
  | @notifyPause todo hws =>
    rw [hws] at hstored hleaving
    exact { h with
      handles := h.handles.wakeJs.symm ▸ h.handles, stored := hstored, leaving := hleaving }
  | notifyWait hws =>
    rw [hws] at hstored hleaving
    exact { h with stored := hstored, leaving := hleaving }
  | leave hws =>
    rw [hws] at hleaving
    exact { h with stored := rfl, leaving := hleaving }
  | testPaused hws | notPaused hws | lock hws | post hws | unlock hws | notify hws | relock hws
  | ready hws | notReady hws | clear hws | unlockAfter hws | reply hws | spurious hws =>
    rw [hws] at hstored
    cases hstored

variable {e : Event} {truth : Bool} {session : Session}

/-- The handler returns. -/
theorem Ahead.passes (h : Ahead host s q)
    (hdebug : debugTraceHandler host (fun _ => truth) q.server.session e = (session, none)) :
    ∃ q', (sequential host env).Leads q q' ∧
      Level env { s with session := session, js := [.code] } q' := by
  obtain ⟨hframe, -⟩ := @frame_debugTraceHandler host (fun _ => truth) q.server.session e
  rw [hdebug, h.before] at hframe
  refine ⟨_, statement_passes h.before hdebug, ?_, [], ?_, ?_⟩
  · rw [h.pause]
    exact .running hframe
  · rw [h.next]
    exact speaks_of_stored h.stored rfl h.leaving
  · exact h.log

/-- The handler calls `do_pause`, which sets `paused_`. -/
theorem Ahead.stops (h : Ahead host s q) {p : Pause}
    (hdebug : debugTraceHandler host (fun _ => truth) q.server.session e = (session, some p)) :
    ∃ q', (sequential host env).Leads q q' ∧
      Level env
        { s with
          session := { session.track e with paused := true }
          js := [.pause e p.reason p.bpId .sendPaused, .code] } q' := by
  refine ⟨_, statement_stops h.before hdebug, ?_, [], ?_, ?_⟩
  · exact .paused rfl rfl
  · rw [h.next]
    exact speaks_of_stored h.stored rfl h.leaving
  · exact congrArg (Obs.paused :: ·) h.log

/-- One step of the handler. -/
theorem Ahead.handler (h : Ahead host s q) {pc : HandlerPc} {callers : List Activation}
    {next : HandlerNext} (hjs : s.js = .handler e pc :: callers)
    (hnext : handlerNext host s.session e pc = some (session, next)) :
    ∃ q', (sequential host env).Leads q q' ∧
      Follows host env { s with session := session, js := next.stack e callers } q' := by
  have hpaused := (handlerNext_frame hnext).1.trans h.paused
  have hhandles := h.handles
  rw [hjs] at hhandles
  cases hhandles with
  | handler hrest =>
    have hrest' := fun truth => (@resumeAt_next host truth _ _ _ _ _ hnext).symm.trans (hrest truth)
    cases next with
    | goto pc' => exact ⟨q, .refl q, .inl { h with handles := .handler hrest', paused := hpaused }⟩
    | evaluate bpId =>
      exact ⟨q, .refl q, .inl { h with handles := .condition hrest', paused := hpaused }⟩
    | doPause reason bpId =>
      have hcaptures :
          Handles host q.server.session session [.pause e reason bpId .capture, .code] :=
        @Handles.captures host _ e ⟨reason, bpId⟩ session false (hrest' false).symm
      exact ⟨q, .refl q, .inl { h with handles := hcaptures, paused := hpaused }⟩
    | done =>
      obtain ⟨q', hlead, hlevel⟩ := h.passes (hrest' true).symm
      exact ⟨q', hlead, .inr hlevel⟩
  | @commits _ reason bpId _ truth hrest =>
    obtain ⟨rfl, rfl⟩ := Prod.mk.inj (Option.some.inj hnext)
    have hcaptures := @Handles.captures host _ e ⟨reason, bpId⟩ _ truth hrest.symm
    exact ⟨q, .refl q, .inl { h with handles := hcaptures, paused := hpaused }⟩

/-- One step of `do_pause`, before it has set `paused_`. -/
theorem Ahead.pause_step (h : Ahead host s q) {reason : PauseReason} {bpId : Int} {pc : PausePc}
    {callers : List Activation} (hjs : s.js = .pause e reason bpId pc :: callers)
    (hnext : PauseStep s e reason bpId callers pc s') :
    ∃ q', (sequential host env).Leads q q' ∧ Follows host env s' q' := by
  have hhandles := h.handles
  rw [hjs] at hhandles
  cases hhandles with
  | captures hdebug =>
    cases hnext
    exact ⟨q, .refl q, .inl { h with handles := .enters (.inl rfl) hdebug rfl, paused := h.paused }⟩
  | enters hpc hdebug htracked =>
    rcases hpc with rfl | rfl
    · cases hnext
      exact ⟨q, .refl q, .inl { h with handles := .enters (.inr rfl) hdebug htracked }⟩
    · cases hnext
      obtain ⟨q', hlead, hlevel⟩ := h.stops hdebug
      rw [← htracked] at hlevel
      exact ⟨q', hlead, .inr hlevel⟩

/-- **The steps of the JS thread in the handler.** -/
theorem Ahead.js (h : Ahead host s q) {c : Choice} (hok : InTurn env s (.js c))
    (hstep : JsStep host s c s') :
    ∃ q', (sequential host env).Leads q q' ∧ Follows host env s' q' := by
  have hhandles := h.handles
  cases hstep with
  | statement hjs =>
    rw [hok.1] at hhandles
    cases hhandles
  | fires hjs =>
    rw [hjs] at hhandles
    cases hhandles with
    | condition hrest => exact ⟨q, .refl q, .inl { h with handles := .commits (hrest true) }⟩
  | falsy hjs =>
    rw [hjs] at hhandles
    cases hhandles with
    | condition hrest =>
      obtain ⟨q', hlead, hlevel⟩ := h.passes (hrest false).symm
      exact ⟨q', hlead, .inr hlevel⟩
  | getterDone hjs =>
    rw [hjs] at hhandles
    cases hhandles with
    | getter hdebug htracked =>
      exact ⟨q, .refl q, .inl { h with handles := .enters (.inl rfl) hdebug htracked }⟩
  | evaluated hjs =>
    rw [hjs] at hhandles
    cases hhandles
  | handler hjs hnext => exact h.handler hjs hnext
  | getter hjs =>
    rw [hjs] at hhandles
    cases hhandles with
    | enters _ hdebug htracked =>
      exact ⟨q, .refl q, .inl { h with handles := .getter hdebug htracked }⟩
  | spurious hjs =>
    rw [hjs] at hhandles
    cases hhandles with
    | enters hpc _ _ => rcases hpc with hpc | hpc <;> cases hpc
  | pause hjs hnext => exact h.pause_step hjs hnext

end

/-! ## 6. Between statements -/

section

variable {env : Env} {query : Query} {part log : List Obs} {v : Value}

/-- The log tells how far a request is. -/
theorem Part.of_fresh (h : Part env query part) (hf : Fresh query.id (part ++ log)) :
    part = [] := by
  cases h with
  | fresh => rfl
  | begun | ended => simp [Fresh, begins] at hf

theorem Part.of_begun (h : Part env query part) (hlog : Fresh query.id log)
    (hb : Begun query.id (part ++ log)) : part = [.evalBegin query.id] := by
  cases h with
  | fresh => simp [Begun, hlog.1] at hb
  | begun => rfl
  | ended => simp [Begun, results] at hb

theorem Part.of_once (h : Part env query part) (hlog : Fresh query.id log)
    (ho : Once query.id v (part ++ log)) :
    part = [.evalEnd query.id v, .evalBegin query.id] ∧
      v = env.answer query.callFrameId query.expression := by
  cases h with
  | fresh => simp [Once, hlog.1] at ho
  | begun => simp [Once, results, hlog.2] at ho
  | ended =>
    simp only [Once, List.cons_append, List.nil_append, results, hlog.2, if_true,
      List.cons.injEq, and_true] at ho
    rw [ho.2]
    exact ⟨rfl, rfl⟩

end

section

variable {host : Host} {env : Env} {s s' : State} {q : Sequential} {pause : Option (Event × Pause)}
  {session : Session} {e : Event} {reason : PauseReason} {bpId : Int} {callers : List Activation}

/-- A step that the sequential debugger does not take part in. -/
theorem Level.move (h : Level env s q) (hstands : Stands q.pause s'.session s'.js)
    (hspeaks : ∀ part, Speaks env q s.session s.nextRequest part s.ws →
      Speaks env q s'.session s'.nextRequest part s'.ws)
    (hlog : unsent s'.session.paused s'.js ++ s'.log = unsent s.session.paused s.js ++ s.log) :
    Level env s' q := by
  obtain ⟨part, hspeak, hpart⟩ := h.speaks
  exact ⟨hstands, part, hspeaks part hspeak, hlog.trans hpart⟩

/-- What the protocol looks at decides where the script stands. -/
theorem Stands.congr {js : List Activation} {session' : Session} (h : Stands pause session js)
    (hpaused : session'.paused = session.paused)
    (hr : session.pendingEval.isSome = true → session'.pendingEval.isSome = true) :
    Stands pause session' js := by
  cases h with
  | running h => exact .running (hpaused.trans h)
  | paused hpc h => exact .paused hpc (hpaused.trans h)
  | evaluating h hsome => exact .evaluating (hpaused.trans h) (hr hsome)
  | leaving hpc h => exact .leaving hpc (hpaused.trans h)

/-- A pause on top. -/
theorem Stands.of_pause {pc : PausePc}
    (h : Stands pause session (.pause e reason bpId pc :: callers)) :
    callers = [.code] ∧
      (session.paused = true ∧ pc.opened = true ∧ pause = some (e, ⟨reason, bpId⟩) ∨
        session.paused = false ∧ pc.entering = false ∧ pause = none) := by
  cases h with
  | paused hpc h => exact ⟨rfl, .inl ⟨h, hpc, rfl⟩⟩
  | leaving hpc h => exact ⟨rfl, .inr ⟨h, hpc, rfl⟩⟩

/-- The code of a request on top. -/
theorem Stands.of_evaluating
    (h : Stands pause session (.code :: .pause e reason bpId .evaluating :: callers)) :
    callers = [.code] ∧ session.paused = true ∧ session.pendingEval.isSome = true ∧
      pause = some (e, ⟨reason, bpId⟩) := by
  cases h with
  | evaluating h hr => exact ⟨rfl, h, hr, rfl⟩

/-- A pause goes on. -/
theorem Stands.next {pc : PausePc} (pc' : PausePc)
    (h : Stands pause session (.pause e reason bpId pc :: callers))
    (hopened : pc.opened = true → session.paused = true → pc'.opened = true)
    (hentering : pc'.entering = false) :
    Stands pause session (.pause e reason bpId pc' :: callers) := by
  cases h with
  | paused hpc h => exact .paused (hopened hpc h) h
  | leaving _ h => exact .leaving hentering h

theorem Stands.wakeJs {js : List Activation} (h : Stands pause session js) :
    Stands pause session (wakeJs js) := by
  unfold Threads.wakeJs
  split
  · exact h.next .relock (fun _ _ => rfl) rfl
  · exact h

theorem unsent_wakeJs (paused : Bool) (js : List Activation) :
    unsent paused (wakeJs js) = unsent paused js := by
  unfold wakeJs
  split <;> rfl

/-- A request is somebody's. -/
theorem Speaks.of_pending {next : Nat} {part : List Obs} {r : EvalRequest}
    (h : Speaks env q s.session next part s.ws) (hposted : Posted s)
    (hr : s.session.pendingEval = some r) :
    ∃ query pc, s.ws = .evaluate query pc ∧ query.id = r.id ∧ s.session.paused = true ∧
      r.callFrameId = query.callFrameId ∧ r.expression = query.expression ∧
      Fresh query.id q.log ∧ Part env query part := by
  rw [Posted, hr] at hposted
  generalize hws : s.ws = ws at h hposted
  cases h with
  | done | gone | waking => cases hposted
  | @asking query pc _ _ _ _ _ _ hfresh hpart hpaused hrequest =>
    have hp : pc.posted = true ∧ query.id = r.id := by
      cases hp : pc.posted <;> simp_all [Ws.posted]
    rcases hpaused with rfl | hpaused
    · cases hp.1
    · exact ⟨query, pc, rfl, hp.2, hpaused, (hrequest r hr).1, (hrequest r hr).2, hfresh, hpart⟩

/-- A change of the request alone. -/
theorem Speaks.request {next : Nat} {part part' : List Obs} {query : Query} {pc : EvalPc}
    {session' : Session} (pc' : EvalPc)
    (h : Speaks env q session next part (.evaluate query pc))
    (hsession : { session' with pendingEval := none } = { session with pendingEval := none })
    (hpaused : session.paused = true) (hpart : Part env query part')
    (hr : ∀ r, session'.pendingEval = some r →
      r.callFrameId = query.callFrameId ∧ r.expression = query.expression) :
    Speaks env q session' next part' (.evaluate query pc') := by
  cases h with
  | asking hspoken hconn hsame hid hnext hfresh _ _ _ =>
    have hpaused' : session'.paused = session.paused := by injection hsession
    exact .asking hspoken hconn (hsession.trans hsame) hid hnext hfresh hpart
      (.inr (hpaused'.trans hpaused)) hr

/-- A step of `do_pause` that looks at the session and leaves it alone. -/
theorem Level.goto (h : Level env s q) {pc : PausePc} (pc' : PausePc)
    (hjs : s.js = .pause e reason bpId pc :: callers)
    (hs' : s'.session = s.session ∧ s'.ws = s.ws ∧ s'.nextRequest = s.nextRequest ∧
      s'.log = s.log ∧ s'.js = .pause e reason bpId pc' :: callers)
    (hopened : pc.opened = true → s.session.paused = true → pc'.opened = true)
    (hentering : pc'.entering = false) (hpc : pc ≠ .sendPaused) (hpc' : pc' ≠ .sendPaused) :
    Level env s' q := by
  obtain ⟨hsession, hws, hnext, hlog, hjs'⟩ := hs'
  have hstands := h.stands
  rw [hjs] at hstands
  refine h.move ?_ ?_ ?_
  · rw [hsession, hjs']
    exact hstands.next pc' hopened hentering
  · rw [hsession, hws, hnext]
    exact fun _ hspeak => hspeak
  · rw [hsession, hlog, hjs, hjs']
    simp only [unsent, if_neg hpc, if_neg hpc']

/-- Serving begins. -/
theorem Level.evalBegin (h : Level env s q) (hposted : Posted s) (hserved : Served s)
    (hjs : s.js = .pause e reason bpId .testPending :: callers) {r : EvalRequest}
    (hr : s.session.pendingEval = some r) :
    Level env
      { s with
        js := .code :: .pause e reason bpId .evaluating :: callers
        log := .evalBegin r.id :: s.log } q := by
  obtain ⟨part, hspeak, hlog⟩ := h.speaks
  obtain ⟨query, pc, hws, hid, hpaused, hframe, hexpr, hfresh, hpart⟩ :=
    hspeak.of_pending hposted hr
  have hstands := h.stands
  rw [hjs] at hstands hlog
  rw [hws] at hspeak
  obtain ⟨rfl, ⟨-, -, hpause⟩ | ⟨hp, -, -⟩⟩ := hstands.of_pause
  · have hstatus := hserved.pending r hr
    rw [hjs] at hstatus
    simp only [unsent, hpaused, if_true, List.nil_append, reduceCtorEq, if_false] at hlog
    have hf : Fresh query.id (part ++ q.log) := by
      rw [← hlog, hid]
      exact hstatus.2
    obtain rfl := hpart.of_fresh hf
    refine ⟨?_, [.evalBegin query.id], ?_, ?_⟩
    · rw [hpause]
      exact @Stands.evaluating e ⟨reason, bpId⟩ s.session hpaused (by rw [hr]; rfl)
    · rw [hws]
      refine hspeak.request _ rfl hpaused .begun fun r' hr' => ?_
      rw [hr] at hr'
      obtain rfl := Option.some.inj hr'
      exact ⟨hframe, hexpr⟩
    · rw [hid]
      exact congrArg (Obs.evalBegin r.id :: ·) hlog
  · rw [hpaused] at hp
    cases hp

/-- The code of a request ends. -/
theorem Level.evalEnd (h : Level env s q) (hposted : Posted s) (hserved : Served s)
    {result : Value} (hresult : ∀ r, s.session.pendingEval = some r →
      result = env.answer r.callFrameId r.expression)
    (hjs : s.js = .code :: .pause e reason bpId .evaluating :: callers) :
    Level env (finishEval s result (.pause e reason bpId .setReady :: callers)) q := by
  obtain ⟨part, hspeak, hlog⟩ := h.speaks
  have hstands := h.stands
  rw [hjs] at hstands hlog
  obtain ⟨rfl, hpaused, hsome, hpause⟩ := hstands.of_evaluating
  obtain ⟨r, hr⟩ := Option.isSome_iff_exists.mp hsome
  obtain ⟨query, pc, hws, hid, -, hframe, hexpr, hfresh, hpart⟩ := hspeak.of_pending hposted hr
  have hstatus := hserved.pending r hr
  rw [hjs] at hstatus
  have hb : Begun query.id (part ++ q.log) := by
    rw [← hlog, hid]
    exact hstatus.2
  obtain rfl := hpart.of_begun hfresh hb
  have hanswer : result = env.answer query.callFrameId query.expression := by
    rw [hresult r hr, hframe, hexpr]
  rw [hws] at hspeak
  unfold finishEval
  rw [hr]
  refine ⟨?_, [.evalEnd query.id result, .evalBegin query.id], ?_, ?_⟩
  · rw [hpause]
    exact @Stands.paused e ⟨reason, bpId⟩ .setReady _ rfl hpaused
  · rw [hws, hanswer]
    refine hspeak.request _ rfl hpaused .ended fun r' hr' => ?_
    obtain rfl := Option.some.inj hr'
    exact ⟨hframe, hexpr⟩
  · simp only [unsent, hpaused, if_true, List.nil_append, reduceCtorEq, if_false]
    rw [hid] at hlog ⊢
    exact congrArg (Obs.evalEnd r.id result :: ·) hlog

/-- The request becomes ready. -/
theorem Level.setReady (h : Level env s q) (hposted : Posted s)
    (hjs : s.js = .pause e reason bpId .setReady :: callers) :
    Level env
      { s with
        session := { s.session with
          pendingEval := s.session.pendingEval.map fun r => { r with ready := true } }
        js := .pause e reason bpId .notifyDone :: callers } q := by
  have hstands := h.stands
  rw [hjs] at hstands
  refine h.move ?_ ?_ ?_
  · exact (hstands.next .notifyDone (fun _ _ => rfl) rfl).congr rfl fun hsome => by
      rwa [Option.isSome_map]
  · intro part hspeak
    cases hr : s.session.pendingEval with
    | none =>
      have hsame : { s.session with pendingEval := none } = s.session := by rw [← hr]
      simp only [Option.map_none, hsame]
      exact hspeak
    | some r =>
      obtain ⟨query, pc, hws, -, hpaused, hframe, hexpr, -, hpart⟩ := hspeak.of_pending hposted hr
      dsimp only
      rw [hws] at hspeak ⊢
      refine hspeak.request pc rfl hpaused hpart fun r' hr' => ?_
      obtain rfl := Option.some.inj hr'
      exact ⟨hframe, hexpr⟩
  · rw [hjs]
    simp [unsent]

theorem Speaks.wake {next : Nat} {part : List Obs} {ws : Ws}
    (h : Speaks env q session next part ws) : Speaks env q session next part ws.wake := by
  cases h with
  | done h₁ h₂ h₃ h₄ => exact .done h₁ h₂ h₃ h₄
  | gone h₁ h₂ h₃ => exact .gone h₁ h₂ h₃
  | waking h₁ h₂ h₃ h₄ h₅ h₆ h₇ h₈ h₉ h₁₀ => exact .waking h₁ h₂ h₃ h₄ h₅ h₆ h₇ h₈ h₉ h₁₀
  | @asking query pc part h₁ h₂ h₃ h₄ h₅ h₆ h₇ hpaused h₈ =>
    cases pc with
    | asleep =>
      have hp : session.paused = true := hpaused.resolve_left (by simp)
      exact .asking h₁ h₂ h₃ h₄ h₅ h₆ h₇ (.inr hp) h₈
    | _ => exact .asking h₁ h₂ h₃ h₄ h₅ h₆ h₇ hpaused h₈

/-- **The steps of `do_pause`.** -/
theorem Level.pause_step (h : Level env s q) (hposted : Posted s) (hserved : Served s)
    {pc : PausePc} (hjs : s.js = .pause e reason bpId pc :: callers)
    (hnext : PauseStep s e reason bpId callers pc s') : Level env s' q := by
  have hstands := h.stands
  rw [hjs] at hstands
  have hentering : pc.entering = false := by
    obtain ⟨-, ⟨-, hpc, -⟩ | ⟨-, hpc, -⟩⟩ := hstands.of_pause
    · cases pc <;> first | rfl | cases hpc
    · exact hpc
  cases hnext with
  | capture | walk | storePaused => cases hentering
  | sendPaused =>
    refine h.move (hstands.next .lock (fun _ _ => rfl) rfl) (fun _ hspeak => hspeak) ?_
    rw [hjs]
    simp [unsent]
  | lock | again | sleep | awake | park | relock | request | noRequest | lockEval | noPending
  | unlockEval =>
    exact h.goto _ hjs ⟨rfl, rfl, rfl, rfl, rfl⟩ (fun _ _ => rfl) rfl (by decide) (by decide)
  | leave hp =>
    refine h.goto .unlock hjs ⟨rfl, rfl, rfl, rfl, rfl⟩ (fun _ hpaused => ?_) rfl (by decide)
      (by decide)
    rw [hp] at hpaused
    cases hpaused
  | evaluate hr => exact h.evalBegin hposted hserved hjs hr
  | setReady => exact h.setReady hposted hjs
  | notifyDone =>
    refine h.move (hstands.next .unlockEval (fun _ _ => rfl) rfl) (fun _ hspeak => hspeak.wake) ?_
    rw [hjs]
    simp [unsent]
  | unlock =>
    exact h.goto .sendResumed hjs ⟨rfl, rfl, rfl, rfl, rfl⟩ (fun hpc _ => by cases hpc) rfl
      (by decide) (by decide)
  | sendResumed =>
    obtain ⟨rfl, ⟨-, hpc, -⟩ | ⟨hpaused, -, hpause⟩⟩ := hstands.of_pause
    · cases hpc
    · refine h.move (by rw [hpause]; exact .running hpaused) (fun _ hspeak => hspeak) ?_
      rw [hjs]
      simp [unsent, hpaused]

/-- A statement begins. -/
theorem Level.statement (h : Level env s q) (hok : InTurn env s (.js (.statement e)))
    (hjs : s.js = .code :: callers) :
    Follows host env { s with js := .handler e .entry :: .code :: callers } q := by
  obtain ⟨part, hspeak, hlog⟩ := h.speaks
  obtain ⟨rfl, hsession, hnext, hleave⟩ := hspeak.of_stored hok.2
  have hstands := h.stands
  have hcode := hok.1
  rw [hjs] at hcode
  obtain rfl := (List.cons.inj hcode).2
  rw [hjs] at hstands hlog
  generalize hpause : q.pause = pause at hstands
  cases hstands with
  | running hpaused =>
    refine .inl ⟨.handler fun truth => ?_, hpaused, hpause, hsession ▸ hpaused, hok.2, hleave,
      hnext, hlog⟩
    rw [resumeAt_entry, hsession]

/-- **The steps of the JS thread between statements.** -/
theorem Level.js (h : Level env s q) (hposted : Posted s) (hserved : Served s) {c : Choice}
    (hok : InTurn env s (.js c)) (hstep : JsStep host s c s') : Follows host env s' q := by
  have hstands := h.stands
  generalize hpause : q.pause = pause at hstands
  cases hstep with
  | statement hjs => exact h.statement hok hjs
  | fires hjs | falsy hjs | getterDone hjs | handler hjs _ =>
    rw [hjs] at hstands
    cases hstands
  | evaluated hjs => exact .inr (h.evalEnd hposted hserved hok hjs)
  | getter hjs =>
    rw [hjs] at hstands
    obtain ⟨-, ⟨-, hpc, -⟩ | ⟨-, hpc, -⟩⟩ := hstands.of_pause <;> cases hpc
  | spurious hjs =>
    exact .inr (h.goto .relock hjs ⟨rfl, rfl, rfl, rfl, rfl⟩ (fun _ _ => rfl) rfl (by decide)
      (by decide))
  | pause hjs hnext => exact .inr (h.pause_step hposted hserved hjs hnext)

end

/-! ## 7. Commands -/

/-- A command that clears `paused_`. -/
theorem Command.start_wakes {c : Command} (h : c.wakes = true) (id : Nat) :
    ∃ pre post, c.start id = .run (pre ++ .store .unpause :: post) ∧
      (∀ i ∈ pre, ∃ w, i = .store w ∧ w ≠ .unpause) ∧ post.any Instr.isUnpause = false ∧
      post.any Instr.isLeave = c.leaves ∧
      ∀ s, flush (pre ++ .store .unpause :: post) s = c.onSession s := by
  cases c with
  | resume =>
    exact ⟨[.store (.stepMode .«continue»), .store (.pauseRequested false)], [.notifyPause], rfl,
      by simp, rfl, rfl, fun _ => rfl⟩
  | stepOver =>
    exact ⟨[.store .recordStart, .store (.stepMode .over), .store (.pauseRequested false)],
      [.notifyPause], rfl, by simp, rfl, rfl, fun _ => rfl⟩
  | stepInto =>
    exact ⟨[.store .recordStart, .store (.stepMode .into), .store (.pauseRequested false)],
      [.notifyPause], rfl, by simp, rfl, rfl, fun _ => rfl⟩
  | stepOut =>
    exact ⟨[.store .recordStart, .store (.stepMode .out), .store (.pauseRequested false)],
      [.notifyPause], rfl, by simp, rfl, rfl, fun _ => rfl⟩
  | disconnect =>
    exact ⟨[.store (.pauseRequested false), .store (.stepMode .«continue»)],
      [.notifyPause, .store .stopWaiting, .notifyWait, .leave], rfl, by simp, rfl, rfl,
      fun _ => rfl⟩
  | _ => cases h

/-- A command that does not, and is no request. -/
theorem Command.start_plain {c : Command} (h : c.wakes = false) (hc : c.evaluates = false)
    (id : Nat) :
    ∃ todo, c.start id = .run todo ∧ todo.any Instr.isUnpause = false ∧
      todo.any Instr.isLeave = c.leaves ∧ ∀ s, flush todo s = c.onSession s := by
  cases c with
  | resume | stepOver | stepInto | stepOut | disconnect => cases h
  | evaluateOnCallFrame _ _ => cases hc
  | _ => exact ⟨_, rfl, rfl, rfl, fun _ => rfl⟩

section

variable {host : Host} {env : Env} {s s' : State} {q q' : Sequential} {c : Command}

/-- No request is posted unless the WS thread says so. -/
theorem Posted.none (hposted : Posted s) (hws : s.ws.posted = none) :
    s.session.pendingEval = none := by
  rw [Posted, hws] at hposted
  exact Option.map_eq_none_iff.mp hposted

theorem Obeys.paused (h : Obeys env q c q') :
    q'.server.session.paused = if c.wakes then false else q.server.session.paused := by
  rw [h.session]
  exact (c.frame _).1

/-- Behind a command that leaves `paused_` alone. -/
theorem Obeys.stands (h : Obeys env q c q') {session : Session} {js : List Activation}
    (hc : c.wakes = false) (hpaused : session.paused = q.server.session.paused)
    (hstands : Stands q.pause session js) : Stands q'.pause session js := by
  have hpaused' : q'.server.session.paused = session.paused := by
    rw [h.paused, hc, hpaused]
    rfl
  rw [h.pause, hpaused']
  generalize q.pause = pause at hstands
  cases hstands with
  | running hp => rw [hp]; exact .running hp
  | paused hpc hp => rw [hp]; exact .paused hpc hp
  | evaluating hp hr => rw [hp]; exact .evaluating hp hr
  | leaving hpc hp => rw [hp]; exact .leaving hpc hp

theorem Obeys.log_of_not_wakes (h : Obeys env q c q') (hc : c.wakes = false) :
    q'.log = (if q.server.session.paused then evaluated env q.nextRequest c else []) ++ q.log := by
  have hpaused : q'.server.session.paused = q.server.session.paused := by
    rw [h.paused, hc]
    rfl
  rw [h.log, logBehind, hpaused, Bool.and_not_self]
  rfl

/-- The events of pauses say nothing of requests. -/
theorem fresh_unsent {id : Nat} {log : List Obs} (paused : Bool) (js : List Activation)
    (h : Fresh id log) : Fresh id (unsent paused js ++ log) := by
  unfold unsent
  split
  · rename_i pc _
    by_cases hpc : pc = .sendPaused
    · cases paused <;> simp only [hpc, if_true] <;> exact h
    · cases paused <;> simp only [hpc, if_false] <;> exact h
  · exact h

/-- The client says something. -/
theorem Level.client (h : Level env s q) (hposted : Posted s) (hserved : Served s)
    (hspoken : Spoken env c) (hws : s.ws = .run []) :
    ∃ q', (sequential host env).Leads q q' ∧
      Level env { s with ws := c.start s.nextRequest, nextRequest := s.nextRequest + 1 } q' := by
  obtain ⟨part, hspeak, hlog⟩ := h.speaks
  obtain ⟨rfl, hsession, hnext, hleave⟩ := hspeak.of_stored (by rw [hws]; rfl)
  rw [hws] at hleave
  have hconn : q.connected = true := by simpa [Ws.leaving] using hleave
  cases hwakes : c.wakes with
  | true =>
    obtain ⟨pre, post, hstart, hpre, hpost, hleaves, hflush⟩ :=
      Command.start_wakes hwakes s.nextRequest
    refine ⟨q, .refl q, h.stands, [], ?_, hlog⟩
    rw [hstart]
    exact .waking hspoken hwakes hconn rfl hpre hpost hleaves (by rw [hflush, hsession])
      (congrArg Session.paused hsession) (congrArg (· + 1) hnext)
  | false =>
    cases hevaluates : c.evaluates with
    | true =>
      cases c with
      | evaluateOnCallFrame callFrameId expression =>
        have hpending := hposted.none (by rw [hws]; rfl)
        have hfresh : Fresh s.nextRequest q.log := by
          have hf := fresh_unsent s.session.paused s.js (hserved.future s.nextRequest le_rfl)
          rw [hlog] at hf
          exact hf
        refine ⟨q, .refl q, h.stands, [], ?_, hlog⟩
        refine .asking hspoken hconn ?_ hnext (congrArg (· + 1) hnext) hfresh .fresh (.inl rfl)
          fun r hr => ?_
        · rw [← hsession, ← hpending]
        · rw [hpending] at hr
          cases hr
      | _ => cases hevaluates
    | false =>
      obtain ⟨todo, hstart, hunpause, hleaves, hflush⟩ :=
        Command.start_plain hwakes hevaluates s.nextRequest
      obtain ⟨q', hlead, hobeys⟩ := @exists_obeys host env q c hspoken hconn
      have hstands := hobeys.stands hwakes (congrArg Session.paused hsession) h.stands
      refine ⟨q', hlead, hstands, [], ?_, ?_⟩
      · rw [hstart]
        refine .done hunpause ?_ ?_ ?_
        · rw [hflush, hobeys.session, hsession]
        · rw [hleaves, hobeys.connected, Bool.not_not]
        · rw [hobeys.nextRequest, hnext]
      · rw [hobeys.log_of_not_wakes hwakes, evaluated_of_not hevaluates, ite_self]
        exact hlog

/-- `paused_` is cleared: the command counts from here on. -/
theorem Level.unpause (h : Level env s q) (hposted : Posted s) {todo : List Instr}
    (hws : s.ws = .run (.store .unpause :: todo)) :
    ∃ q', (sequential host env).Leads q q' ∧
      Level env { s with session := { s.session with paused := false }, ws := .run todo } q' := by
  obtain ⟨part, hspeak, hlog⟩ := h.speaks
  have hpending := hposted.none (by rw [hws]; rfl)
  rw [hws] at hspeak
  cases hspeak with
  | done hpaused => cases hpaused
  | @waking c pre post _ hspoken hwakes hconn htodo hpre hpost hleave hsession hsame hnext =>
    -- what is left begins with the store
    obtain ⟨rfl, rfl⟩ : pre = [] ∧ todo = post := by
      cases pre with
      | nil => exact ⟨rfl, (List.cons.inj htodo).2⟩
      | cons i pre =>
        obtain ⟨w, hw, hne⟩ := hpre i List.mem_cons_self
        rw [← (List.cons.inj htodo).1] at hw
        exact absurd (Instr.store.inj hw).symm hne
    obtain ⟨q', hlead, hobeys⟩ := @exists_obeys host env q c hspoken hconn
    have hpaused' : q'.server.session.paused = false := by rw [hobeys.paused, hwakes]; rfl
    have hevaluates : c.evaluates = false := by
      cases c with
      | evaluateOnCallFrame _ _ => cases hwakes
      | _ => rfl
    have hlog' : q'.log = (if s.session.paused then [.resumed] else []) ++ q.log := by
      rw [hobeys.log, logBehind, hpaused', evaluated_of_not hevaluates, ite_self, hsame,
        Bool.not_false, Bool.and_true]
      rfl
    have hstands := h.stands
    have hpause' : q'.pause = none := by rw [hobeys.pause, hpaused']; rfl
    refine ⟨q', hlead, ?_, [], ?_, ?_⟩
    · rw [hpause']
      generalize q.pause = pause at hstands
      generalize s.js = js at hstands
      cases hstands with
      | running hp => exact .running rfl
      | @paused _ _ pc _ hpc hp =>
        exact .leaving (by cases pc <;> first | rfl | cases hpc) rfl
      | evaluating hp hr => rw [hpending] at hr; cases hr
      | leaving hpc hp => exact .leaving hpc rfl
    · refine .done hpost ?_ ?_ ?_
      · rw [hobeys.session, ← hsession]
        rfl
      · rw [hleave, hobeys.connected, Bool.not_not]
      · rw [hobeys.nextRequest, hnext]
    · rw [hlog', List.nil_append]
      rw [List.nil_append] at hlog
      rw [← hlog, ← List.append_assoc]
      refine congrArg (· ++ s.log) ?_
      generalize q.pause = pause at hstands
      generalize s.js = js at hstands ⊢
      cases hstands with
      | running hp => rw [hp]; rfl
      | paused hpc hp => rw [hp]; simp [unsent]
      | evaluating hp hr => rw [hpending] at hr; cases hr
      | leaving hpc hp => rw [hp]; simp [unsent]

/-- A request returns, or is not made because the script is running. -/
theorem Level.counts (h : Level env s q) (hposted : Posted s) {query : Query} {pc : EvalPc}
    (hws : s.ws = .evaluate query pc) (hpc : pc.posted = false) (log : List Obs)
    (hlog : ∀ part, Part env query part → Fresh query.id q.log →
      unsent s.session.paused s.js ++ s.log = part ++ q.log →
      unsent s.session.paused s.js ++ (log ++ s.log) =
        (if s.session.paused then
          evaluated env query.id (.evaluateOnCallFrame query.callFrameId query.expression)
        else []) ++ q.log) :
    ∃ q', (sequential host env).Leads q q' ∧
      Level env { s with ws := .run [], log := log ++ s.log } q' := by
  obtain ⟨part, hspeak, hpart⟩ := h.speaks
  have hpending := hposted.none (by rw [hws]; simp [Ws.posted, hpc])
  rw [hws] at hspeak
  cases hspeak with
  | asking hspoken hconn hsession hid hnext hfresh hstage _ _ =>
    have hsame : s.session = q.server.session := by rw [← hsession, ← hpending]
    obtain ⟨q', hlead, hobeys⟩ := @exists_obeys host env q _ hspoken hconn
    refine ⟨q', hlead, hobeys.stands rfl (congrArg Session.paused hsame) h.stands, [], ?_, ?_⟩
    · refine .done rfl ?_ ?_ ?_
      · rw [hobeys.session]
        exact hsame
      · rw [hobeys.connected]
        rfl
      · rw [hobeys.nextRequest, hnext]
    · rw [hobeys.log_of_not_wakes rfl, ← hsame, ← hid]
      exact hlog part hstage hfresh hpart

/-- A request is answered. -/
theorem Level.reply (h : Level env s q) (hposted : Posted s) (hserved : Served s) {query : Query}
    {v : Value} (hws : s.ws = .evaluate query (.reply v)) :
    ∃ q', (sequential host env).Leads q q' ∧
      Level env { s with ws := .run [], log := .evalReturn query.id v :: s.log } q' := by
  have hpaused : s.session.paused = true := by
    obtain ⟨part, hspeak, -⟩ := h.speaks
    rw [hws] at hspeak
    cases hspeak with
    | asking _ _ _ _ _ _ _ hpaused _ => exact hpaused.resolve_left (by simp)
  have honce : Once query.id v s.log := by
    have hcurrent := hserved.current
    rw [hws] at hcurrent
    exact hcurrent
  refine h.counts hposted hws rfl [.evalReturn query.id v] fun part hpart hfresh hlog => ?_
  -- while there is an answer, nothing of a pause is still to be sent
  have hnone : unsent s.session.paused s.js = [] := by
    rw [hpaused] at hlog ⊢
    unfold unsent at hlog ⊢
    split at hlog
    · rename_i pc _ _
      by_cases hsend : pc = .sendPaused
      · subst hsend
        cases hpart with
        | fresh =>
          simp only [if_true, List.nil_append, List.singleton_append] at hlog
          rw [← hlog] at hfresh
          have hone := honce.1
          have hzero : begins query.id s.log = 0 := hfresh.1
          rw [hzero] at hone
          cases hone
        | begun | ended => simp at hlog
      · simp [hsend]
    · rfl
  rw [hnone, List.nil_append] at hlog ⊢
  rw [hlog] at honce
  obtain ⟨rfl, hv⟩ := hpart.of_once hfresh honce
  rw [hlog, hpaused, hv]
  rfl

/-- The test in front of a request. -/
theorem Level.testPaused (h : Level env s q) (hposted : Posted s) (hserved : Served s)
    {query : Query} (hws : s.ws = .evaluate query .testPaused) (hstep : wsStep s = some s') :
    ∃ q', (sequential host env).Leads q q' ∧ Level env s' q' := by
  simp only [wsStep, hws, evalNext, Option.some.injEq] at hstep
  subst hstep
  cases hpaused : s.session.paused with
  | true =>
    refine ⟨q, .refl q, h.move h.stands (fun part hspeak => ?_) rfl⟩
    rw [hws] at hspeak
    cases hspeak with
    | asking hspoken hconn hsession hid hnext hfresh hstage _ hr =>
      exact .asking hspoken hconn hsession hid hnext hfresh hstage (.inr hpaused) hr
  | false =>
    have hfresh : Fresh query.id s.log := by
      have hcurrent := hserved.current
      rw [hws] at hcurrent
      exact hcurrent
    refine h.counts hposted hws rfl [] fun part hpart _ hlog => ?_
    have hf := fresh_unsent s.session.paused s.js hfresh
    rw [hlog] at hf
    obtain rfl := hpart.of_fresh hf
    rw [List.nil_append, hlog, hpaused]
    rfl

/-- A step of a request while the script stands still. -/
theorem Level.asks (h : Level env s q) {query : Query} {pc : EvalPc} (pc' : EvalPc)
    (hws : s.ws = .evaluate query pc) (hpc : pc ≠ .testPaused)
    (hs' : s'.ws = .evaluate query pc' ∧ s'.nextRequest = s.nextRequest ∧ s'.log = s.log ∧
      (s'.js = s.js ∨ s'.js = wakeJs s.js))
    (hsession : { s'.session with pendingEval := none } = { s.session with pendingEval := none })
    (hstands : Stands q.pause s.session s.js → Stands q.pause s'.session s.js)
    (hr : (∀ r, s.session.pendingEval = some r →
        r.callFrameId = query.callFrameId ∧ r.expression = query.expression) →
      ∀ r, s'.session.pendingEval = some r →
        r.callFrameId = query.callFrameId ∧ r.expression = query.expression) :
    Level env s' q := by
  obtain ⟨hws', hnext', hlog', hjs'⟩ := hs'
  obtain ⟨part, hspeak, hlog⟩ := h.speaks
  have hstill := hstands h.stands
  have hpaused' : s'.session.paused = s.session.paused := by injection hsession
  rw [hws] at hspeak
  cases hspeak with
  | asking hspoken hconn hsame hid hnext hfresh hpart hpaused hr₀ =>
    refine ⟨?_, part, ?_, ?_⟩
    · rcases hjs' with hjs | hjs <;> rw [hjs]
      · exact hstill
      · exact hstill.wakeJs
    · rw [hws', hnext']
      exact .asking hspoken hconn (hsession.trans hsame) hid hnext hfresh hpart
        (.inr (hpaused'.trans (hpaused.resolve_left hpc))) (hr hr₀)
    · rw [hlog', hpaused']
      rcases hjs' with hjs | hjs <;> rw [hjs]
      · exact hlog
      · rw [unsent_wakeJs]
        exact hlog

/-- The next thing to do is no store: the sequential debugger has executed the command. -/
theorem Speaks.tail {i : Instr} {todo : List Instr} {session : Session} {next : Nat}
    {part : List Obs} (h : Speaks env q session next part (.run (i :: todo)))
    (hstore : i.isStore = false) (hleave : i.isLeave = false) :
    Speaks env q session next part (.run todo) := by
  cases h with
  | done hpaused hsession hleaves hnext =>
    rw [List.any_cons] at hpaused hleaves
    rw [hleave] at hleaves
    refine .done (Bool.or_eq_false_iff.mp hpaused).2 ?_ hleaves hnext
    cases i with
    | store w => cases hstore
    | _ => exact hsession
  | @waking _ pre _ _ _ _ _ htodo hpre _ _ _ _ _ =>
    -- a store is due
    cases pre with
    | nil =>
      obtain rfl := (List.cons.inj htodo).1
      cases hstore
    | cons j pre =>
      obtain ⟨w, hw, -⟩ := hpre j List.mem_cons_self
      rw [(List.cons.inj htodo).1, hw] at hstore
      cases hstore

/-- A store that leaves `paused_` alone. -/
theorem Level.store (h : Level env s q) {w : Write} {todo : List Instr}
    (hws : s.ws = .run (.store w :: todo)) (hw : w ≠ .unpause) :
    Level env { s with session := w.apply s.session, ws := .run todo } q := by
  obtain ⟨hpending, hpaused⟩ := w.frame s.session
  have hsame := hpaused hw
  refine h.move (h.stands.congr hsame fun hsome => by rwa [hpending]) (fun part hspeak => ?_) ?_
  · rw [hws] at hspeak
    cases hspeak with
    | done hunpause hsession hleave hnext =>
      exact .done (Bool.or_eq_false_iff.mp hunpause).2 hsession hleave hnext
    | @waking c pre post _ hspoken hwakes hconn htodo hpre hpost hleave hsession hp hnext =>
      cases pre with
      | nil => exact absurd (Instr.store.inj (List.cons.inj htodo).1) hw
      | cons i pre =>
        obtain rfl := (List.cons.inj htodo).2
        exact .waking hspoken hwakes hconn rfl (fun j hj => hpre j (List.mem_cons_of_mem i hj))
          hpost hleave hsession (hsame.trans hp) hnext
  · rw [hsame]

/-- The WS thread leaves its loop. -/
theorem Level.leave (h : Level env s q) (hsignals : s.ws.signals = true) {todo : List Instr}
    (hws : s.ws = .run (.leave :: todo)) : Level env { s with ws := .gone } q := by
  rw [hws] at hsignals
  obtain rfl := List.isEmpty_iff.mp hsignals
  refine h.move h.stands (fun part hspeak => ?_) rfl
  rw [hws] at hspeak
  cases hspeak with
  | done _ hsession hleave hnext =>
    exact .gone hsession (by simpa [Instr.isLeave] using hleave.symm) hnext
  | @waking _ pre _ _ _ _ _ htodo hpre _ _ _ _ _ =>
    cases pre with
    | nil => cases (List.cons.inj htodo).1
    | cons i pre =>
      obtain ⟨w, hw, -⟩ := hpre i List.mem_cons_self
      rw [hw] at htodo
      cases (List.cons.inj htodo).1

/-- What holds in every run without a second service. -/
structure Tidy (s : State) : Prop where
  posted : Posted s
  owner : Owner s
  served : Served s
  signals : s.ws.signals = true

/-- **The steps of the WS thread between statements.** -/
theorem Level.ws (h : Level env s q) (htidy : Tidy s) {a : Act} (hok : InTurn env s a)
    (hraw : (machine host).step s a = some s') (hstep : WsStep s a s') :
    ∃ q', (sequential host env).Leads q q' ∧ Level env s' q' := by
  cases hstep with
  | client hws => exact h.client htidy.posted htidy.served hok.1 hws
  | @store w todo hws =>
    by_cases hw : w = .unpause
    · subst hw
      exact h.unpause htidy.posted hws
    · exact ⟨q, .refl q, h.store hws hw⟩
  | notifyPause hws =>
    refine ⟨q, .refl q, h.move h.stands.wakeJs (fun part hspeak => ?_) ?_⟩
    · rw [hws] at hspeak
      exact hspeak.tail rfl rfl
    · rw [unsent_wakeJs]
  | notifyWait hws =>
    refine ⟨q, .refl q, h.move h.stands (fun part hspeak => ?_) rfl⟩
    rw [hws] at hspeak
    exact hspeak.tail rfl rfl
  | leave hws => exact ⟨q, .refl q, h.leave htidy.signals hws⟩
  | testPaused hws | notPaused hws => exact h.testPaused htidy.posted htidy.served hws hraw
  | reply hws => exact h.reply htidy.posted htidy.served hws
  | @post query hws =>
    refine ⟨q, .refl q, h.asks .unlock hws (by simp) ⟨rfl, rfl, rfl, .inl rfl⟩ rfl ?_ ?_⟩
    · exact fun hstands => hstands.congr rfl fun _ => rfl
    · rintro - r hr
      obtain rfl := Option.some.inj hr
      exact ⟨rfl, rfl⟩
  | @clear query r hws _ =>
    refine ⟨q, .refl q, h.asks (.unlockAfter r.result) hws (by simp) ⟨rfl, rfl, rfl, .inl rfl⟩ rfl
      ?_ ?_⟩
    · -- the mutex is held, so no request is being evaluated
      have hfree := htidy.owner.no_holders (by rw [hws]; rfl)
      intro hstands
      generalize q.pause = pause at hstands
      generalize s.js = js at hstands hfree
      cases hstands with
      | running hp => exact .running hp
      | paused hpc hp => exact .paused hpc hp
      | evaluating => cases hfree
      | leaving hpc hp => exact .leaving hpc hp
    · rintro - r hr
      cases hr
  | notify hws =>
    exact ⟨q, .refl q, h.asks _ hws (by simp) ⟨rfl, rfl, rfl, .inr rfl⟩ rfl id id⟩
  | lock hws | unlock hws | relock hws | ready hws | notReady hws | unlockAfter hws
  | spurious hws =>
    exact ⟨q, .refl q, h.asks _ hws (by simp) ⟨rfl, rfl, rfl, .inl rfl⟩ rfl id id⟩

end

/-! ## 8. Runs -/

section

variable {host : Host} {env : Env} {s s' : State} {q : Sequential}

theorem tidy_of_reach (h : (machine host).Reach (InTurn env) s) : Tidy s where
  posted := posted_of_reach h
  owner := owner_of_reach h
  served := served_of_reach (h.mono fun _ _ hok => hok.unserved)
  signals := signals_of_reach h

/-- The client waits its turn, so no pause is opened inside another one. -/
theorem Follows.single (h : Follows host env s q) : Single s.js := by
  have hpair : ∀ a : Activation, Single [a, .code] := fun a =>
    List.pairwise_pair.mpr fun _ => rfl
  rcases h with hahead | hlevel
  · have hhandles := hahead.handles
    generalize s.js = js at hhandles
    cases hhandles with
    | condition | getter => exact (hpair _).push rfl
    | _ => exact hpair _
  · have hstands := hlevel.stands
    generalize q.pause = pause at hstands
    generalize s.js = js at hstands
    cases hstands with
    | running => exact List.pairwise_singleton _ _
    | evaluating => exact (hpair _).push rfl
    | _ => exact hpair _

/-- The threads follow, and the mutex of the pauses is held as it should be. -/
def Followed (host : Host) (env : Env) (s : State) (q : Sequential) : Prop :=
  Follows host env s q ∧ Locked s

/-- Before the first statement. -/
theorem followed_initial (host : Host) (env : Env) (h : s.Initial) :
    ∃ q, (sequential host env).init q ∧ Followed host env s q := by
  refine ⟨{
    server := { Cdp.Server.new with session := s.session }
    pause := none
    connected := true
    log := []
    nextRequest := s.nextRequest }, ⟨h.paused, h.pendingEval, rfl, rfl, rfl⟩, .inr ⟨?_, [], ?_, ?_⟩,
    ?_⟩
  · rw [h.js]
    exact .running h.paused
  · rw [h.ws]
    exact .done rfl rfl rfl rfl
  · rw [h.js, h.log]
    rfl
  · rw [Locked, h.pauseLocked, h.js]
    rfl

/-- **One step.** -/
theorem Followed.step (h : Followed host env s q) (htidy : Tidy s) {a : Act}
    (hok : InTurn env s a) (hstep : (machine host).step s a = some s') :
    ∃ q', (sequential host env).Leads q q' ∧ Followed host env s' q' := by
  obtain ⟨hfollows, hlocked⟩ := h
  have hlocked' := locked_step hfollows.single hlocked hstep
  rcases step_cases hstep with ⟨c, rfl, hjs⟩ | hws
  · rcases hfollows with hahead | hlevel
    · obtain ⟨q', hlead, hfollows'⟩ := hahead.js hok hjs
      exact ⟨q', hlead, hfollows', hlocked'⟩
    · exact ⟨q, .refl q, hlevel.js htidy.posted htidy.served hok hjs, hlocked'⟩
  · rcases hfollows with hahead | hlevel
    · exact ⟨q, .refl q, .inl (hahead.ws hok hws), hlocked'⟩
    · obtain ⟨q', hlead, hlevel'⟩ := hlevel.ws htidy hok hstep hws
      exact ⟨q', hlead, .inr hlevel', hlocked'⟩

/-- **The threads at rest** are the sequential debugger. -/
theorem Level.threads_eq (h : Level env s q) (howner : Owner s) (hlocked : Locked s)
    (hrest : s.Still) : q.threads = s := by
  obtain ⟨hjs, hws⟩ := hrest
  have hfree : s.evalOwner = none ∧ s.pauseLocked = false := by
    refine ⟨howner.free ?_ ?_, hlocked.trans ?_⟩
    · rcases hjs with hjs | ⟨-, e, reason, bpId, hjs⟩ <;> rw [hjs] <;> rfl
    · rcases hws with hws | hws <;> rw [hws] <;> rfl
    · rcases hjs with hjs | ⟨-, e, reason, bpId, hjs⟩ <;> rw [hjs] <;> rfl
  -- nothing is left to be sent
  have hunsent : unsent s.session.paused s.js = [] := by
    rcases hjs with hjs | ⟨hpaused, e, reason, bpId, hjs⟩
    · rw [hjs]
      rfl
    · rw [hjs, hpaused]
      rfl
  obtain ⟨part, hspeak, hlog⟩ := h.speaks
  have hstored : s.ws.stored = true := by
    rcases hws with hws | hws <;> rw [hws] <;> rfl
  obtain ⟨rfl, hsession, hnext, hleave⟩ := hspeak.of_stored hstored
  rw [hunsent, List.nil_append, List.nil_append] at hlog
  have hpause : q.threads.js = s.js := by
    have hstands := h.stands
    unfold Sequential.threads
    generalize q.pause = pause at hstands
    rcases hjs with hjs | ⟨hpaused, e, reason, bpId, hjs⟩
    · rw [hjs] at hstands ⊢
      cases hstands
      rfl
    · rw [hjs] at hstands ⊢
      cases hstands with
      | paused => rfl
      | leaving _ hp => exact absurd (hpaused.symm.trans hp) (by simp)
  have hthread : q.threads.ws = s.ws := by
    unfold Sequential.threads
    rcases hws with hws | hws <;> rw [hws] at hleave ⊢
    · have hconn : q.connected = true := by simpa [Ws.leaving] using hleave
      exact if_pos hconn
    · have hconn : q.connected = false := by simpa [Ws.leaving] using hleave
      exact if_neg (by simp [hconn])
  have hthreads : q.threads =
      { q.threads with js := q.threads.js, ws := q.threads.ws, log := q.log } := rfl
  rw [hthreads, hpause, hthread, ← hlog]
  unfold Sequential.threads
  rw [← hsession, ← hnext, ← hfree.1, ← hfree.2]

end

/-- **A client that waits its turn talks to the sequential debugger.**  In every interleaving in
which the client says something only before the script has begun or while it is paused, and no
request is served a second time: wherever the two threads come to rest, with the script running or
asleep in its pause, the sequential debugger comes to, with the same session, the same pause and the
same events in the same order. -/
theorem runs_in_turn_sequential {host : Host} {env : Env} {s : State}
    (h : (machine host).Reach (InTurn env) s) (hrest : s.Still) :
    ∃ q q', (sequential host env).init q ∧ (sequential host env).Leads q q' ∧ q'.threads = s := by
  obtain ⟨q, q', hinit, hlead, hfollows, hlocked⟩ :=
    h.simulate (fun _ hr => tidy_of_reach hr) (fun _ hi => followed_initial host env hi)
      fun _ _ _ _ htidy hfollowed hok hstep => hfollowed.step htidy hok hstep
  refine ⟨q, q', hinit, hlead, ?_⟩
  rcases hfollows with hahead | hlevel
  · -- the handler is at work, so the threads are not at rest
    have hhandles := hahead.handles
    rcases hrest.js with hjs | ⟨hpaused, -⟩
    · rw [hjs] at hhandles
      cases hhandles
    · rw [hahead.paused] at hpaused
      cases hpaused
  · exact hlevel.threads_eq (tidy_of_reach h).owner hlocked hrest

/-- `Debugger.pause`, as the client sends it. -/
def pauseMessage : Bytes := ascii "\x7b\"id\":1,\"method\":\"Debugger.pause\"\x7d"

/-- The steps of the threads between what the client and the script do. -/
def ownStep (s : State) : Act → Bool
  | .ws => true
  | .js .next => unserved s (.js .next)
  | _ => false

theorem inTurn_of_ownStep {env : Env} (s : State) (a : Act) (h : ownStep s a = true) :
    InTurn env s a := by
  cases a with
  | ws => rfl
  | client c | wsSpurious => cases h
  | js c =>
    cases c with
    | next => exact h
    | _ => cases h

theorem inTurn_statement {env : Env} {s : State} (e : Event) (hjs : s.js = [.code])
    (hws : s.ws.stored = true) : InTurn env s (.js (.statement e)) := ⟨hjs, hws⟩

/-- The client asks for a pause, and the script comes to it. -/
theorem runs_in_turn_sequential_parked :
    ∃ s : State, s.log = [.paused] ∧ s.session.paused = true ∧
      ∃ q q', (sequential posixHost Cdp.integerEnv).init q ∧
        (sequential posixHost Cdp.integerEnv).Leads q q' ∧ q'.threads = s := by
  have hspoken : Spoken Cdp.integerEnv .requestPause :=
    .inr ⟨pauseMessage, _, rfl, rfl⟩
  -- the request, the statement, and the pause until it sleeps
  have hstart : (machine posixHost).Reach (InTurn Cdp.integerEnv) (.start enabledSession) :=
    .init initial_start
  have hasks : InTurn Cdp.integerEnv (.start enabledSession) (.client .requestPause) :=
    ⟨hspoken, .inr rfl⟩
  have hasked := hstart.step hasks rfl
  have hstored := hasked.run_guard inTurn_of_ownStep [.ws] rfl
  have hbegun := hstored.step (inTurn_statement lineThree rfl rfl) rfl
  have hparked := hbegun.run_guard inTurn_of_ownStep (jsSteps 14) rfl
  exact ⟨_, rfl, rfl, runs_in_turn_sequential hparked ⟨.inr ⟨rfl, _, _, _, rfl⟩, .inl rfl⟩⟩

end QjsDebug.Threads
