/-
# The sequential debugger and the two threads

`debugTraceHandler` runs a statement's handler at one go, and `Cdp.handleMessage` a message; what
is proved of them is about a debugger in which one thing happens after the other.  This module
puts the two together: the script executes statements until one of them pauses, then it stands
still, and messages are handled at any time (`sequential`).  Whether the threads of
`Threads.Machine` ever behave so is another question, since a message is many small steps there,
and so is an evaluation, of both threads.

* §1  a method does to the session what the instructions of a command do, and every command comes
      from a method (`dispatch_session`);
* §3  one step of the sequential debugger is a run of the threads, from rest to rest: the handler
      and its pause, a command and the wake-up it causes, a request and its answer.  The code that
      the debugger itself runs, for a condition or a request, comes to no statement here (for what
      it does when it comes to one see `Session.Nested` and `Threads.Reentrancy`);
* §4  so every run of the sequential debugger is a run of the machine, with the same session and
      the same events at its end (`sequential_runs_realized`).
-/
import QjsDebug.Cdp.Conversation
import QjsDebug.Threads.Steps

namespace QjsDebug

open Json (Value)

namespace Threads

open Cdp (Server Env dispatch handleParsed stringOr intOrZero)

/-! ## 1. Methods and commands -/

/-- What a command does to the session. -/
def Command.onSession (s : Session) : Command → Session
  | .resume => s.resume
  | .stepOver => s.stepOver
  | .stepInto => s.stepInto
  | .stepOut => s.stepOut
  | .requestPause => s.requestPause
  | .runIfWaiting => s.runIfWaiting
  | .setEnabled b => s.setEnabled b
  | .setBreakpoint url line column isRegex condition =>
    s.setBreakpoint url line column isRegex condition
  | .removeBreakpoint id => s.removeBreakpoint id
  | .setBreakpointsActive b => s.setBreakpointsActive b
  | .evaluateOnCallFrame _ _ => s
  | .disconnect =>
    { s with pauseRequested := false, stepMode := .«continue», paused := false, waiting := false }

/-- The breakpoint that the parameters ask for. -/
def breakpointCommand (params : Value) : Command :=
  .setBreakpoint
    (if params.has (ascii "url") then Cdp.stripFileScheme (params.index (ascii "url")).getString
      else if params.has (ascii "urlRegex") then (params.index (ascii "urlRegex")).getString
      else [])
    (intOrZero params "lineNumber") (intOrZero params "columnNumber")
    (!params.has (ascii "url") && params.has (ascii "urlRegex")) (stringOr params "condition" "")

/-- The command of a method; the other methods only answer. -/
def commandOf (method : Bytes) (params : Value) : Option Command :=
  if method = ascii "Debugger.enable" then some (.setEnabled true)
  else if method = ascii "Debugger.disable" then some (.setEnabled false)
  else if method = ascii "Debugger.setBreakpointByUrl" then some (breakpointCommand params)
  else if method = ascii "Debugger.removeBreakpoint" then
    (stoi (stringOr params "breakpointId" "")).toOption.map .removeBreakpoint
  else if method = ascii "Debugger.resume" then some .resume
  else if method = ascii "Debugger.stepOver" then some .stepOver
  else if method = ascii "Debugger.stepInto" then some .stepInto
  else if method = ascii "Debugger.stepOut" then some .stepOut
  else if method = ascii "Debugger.pause" then some .requestPause
  else if method = ascii "Debugger.setBreakpointsActive" then
    some (.setBreakpointsActive
      (if params.has (ascii "active") then (params.index (ascii "active")).getBool else true))
  else if method = ascii "Debugger.evaluateOnCallFrame" then
    some (.evaluateOnCallFrame (stringOr params "callFrameId" "0")
      (stringOr params "expression" ""))
  else if method = ascii "Runtime.runIfWaitingForDebugger" then some .runIfWaiting
  else none

/-- The command of a message. -/
def requested (msg : Value) : Option Command :=
  if msg.isObject then
    commandOf (stringOr msg "method" "")
      (if msg.has (ascii "params") then msg.index (ascii "params") else .object [])
  else none

/-- The session behind a command, if there is one. -/
def obey (s : Session) (c : Option Command) : Session := (c.map (Command.onSession s)).getD s

section

variable (env : Env)

theorem session_sendEvents (scripts : List Cdp.Script) (s : Server) :
    (scripts.foldl (fun s script =>
      s.sendEvent env "Debugger.scriptParsed" (Cdp.scriptParsed script)) s).session =
        s.session := by
  induction scripts generalizing s with
  | nil => rfl
  | cons script scripts ih => exact ih _

/-- One comparison of the chain of `handle_message`. -/
theorem session_ite {c : Prop} [Decidable c] {a b : Server × Value} {t : Session}
    (ha : a.1.session = t) (hb : b.1.session = t) : (if c then a else b).1.session = t := by
  split
  · exact ha
  · exact hb

/-- **A method does what its command does.** -/
theorem dispatch_session (s : Server) (method : Bytes) (params : Value) :
    (dispatch env s method params).1.session = obey s.session (commandOf method params) := by
  unfold commandOf
  by_cases h₁ : method = ascii "Debugger.enable"
  · subst h₁
    exact session_sendEvents env _ _
  by_cases h₂ : method = ascii "Debugger.disable"
  · subst h₂; rfl
  by_cases h₃ : method = ascii "Debugger.setBreakpointByUrl"
  · subst h₃; rfl
  by_cases h₄ : method = ascii "Debugger.removeBreakpoint"
  · subst h₄
    have hremove : (dispatch env s (ascii "Debugger.removeBreakpoint") params).1.session =
        Cdp.removeBreakpoint s.session (stringOr params "breakpointId" "") := rfl
    rw [hremove, if_neg h₁, if_neg h₂, if_neg h₃, if_pos rfl]
    unfold Cdp.removeBreakpoint obey
    cases stoi (stringOr params "breakpointId" "") <;> rfl
  by_cases h₅ : method = ascii "Debugger.resume"
  · subst h₅; rfl
  by_cases h₆ : method = ascii "Debugger.stepOver"
  · subst h₆; rfl
  by_cases h₇ : method = ascii "Debugger.stepInto"
  · subst h₇; rfl
  by_cases h₈ : method = ascii "Debugger.stepOut"
  · subst h₈; rfl
  by_cases h₉ : method = ascii "Debugger.pause"
  · subst h₉; rfl
  by_cases h₁₀ : method = ascii "Debugger.setBreakpointsActive"
  · subst h₁₀; rfl
  by_cases h₁₁ : method = ascii "Debugger.evaluateOnCallFrame"
  · subst h₁₁; rfl
  by_cases h₁₂ : method = ascii "Runtime.runIfWaitingForDebugger"
  · subst h₁₂; rfl
  -- what is left only answers
  simp only [h₁, h₂, h₃, h₄, h₅, h₆, h₇, h₈, h₉, h₁₀, h₁₁, h₁₂, if_false]
  unfold dispatch
  simp only [h₁, h₂, h₃, h₄, h₅, h₆, h₇, h₈, h₉, h₁₀, h₁₁, h₁₂, if_false]
  repeat' apply session_ite
  all_goals rfl

theorem session_handleParsed (s : Server) (msg : Value) :
    (handleParsed env s msg).session = obey s.session (requested msg) := by
  unfold handleParsed requested
  split
  · dsimp only
    split
    · exact dispatch_session env s _ _
    · exact dispatch_session env s _ _
  · rfl

end

/-! ## 2. One thing after the other -/

/-- The debugger between two things. -/
structure Sequential where
  server : Server
  /-- The statement that the script stands still at, if it is paused. -/
  pause : Option (Event × Pause)
  /-- The client has not left. -/
  connected : Bool
  /-- The observations so far, newest first. -/
  log : List Obs
  nextRequest : Nat

inductive SequentialAct
  /-- The script executes a statement, with these outcomes of the conditions in its frame. -/
  | statement (e : Event) (truthy : Bytes → Bool)
  | message (text : Bytes)
  | disconnects

/-- What an evaluation in a pause adds to the log. -/
def evaluated (env : Env) (id : Nat) : Command → List Obs
  | .evaluateOnCallFrame callFrameId expression =>
    let result := env.answer callFrameId expression
    [.evalReturn id result, .evalEnd id result, .evalBegin id]
  | _ => []

/-- The log behind a command, given whether the session was paused before it and is after it. -/
def logBehind (env : Env) (s : Sequential) (c : Command) (session : Session) : List Obs :=
  (if s.server.session.paused && !session.paused then [.resumed] else []) ++
    ((if s.server.session.paused then evaluated env s.nextRequest c else []) ++ s.log)

/-- The debugger behind a command. -/
def Sequential.after (env : Env) (s : Sequential) (server : Server) : Option Command → Sequential
  | some c =>
    { s with
      server := server
      pause := if server.session.paused then s.pause else none
      log := logBehind env s c server.session
      nextRequest := s.nextRequest + 1 }
  | none => { s with server := server }

def Sequential.step (host : Host) (env : Env) (s : Sequential) : SequentialAct → Option Sequential
  | .statement e truthy =>
    if s.server.session.paused then none
    else
      let r := debugTraceHandler host truthy s.server.session e
      match r.2 with
      | none => some { s with server := { s.server with session := r.1 } }
      | some p =>
        some { s with
          server := { s.server with session := r.1.enterPause e }
          pause := some (e, p)
          log := .paused :: s.log }
  | .message text =>
    if s.connected then
      match Json.parse env.stod text with
      | .ok msg => some (s.after env (handleParsed env s.server msg) (requested msg))
      | .error _ => none
    else none
  | .disconnects =>
    if s.connected then
      let session := Command.disconnect.onSession s.server.session
      some { s.after env { s.server with session := session } (some .disconnect) with
        connected := false }
    else none

/-- The sequential debugger, from any session that is not paused. -/
def sequential (host : Host) (env : Env) : StepSystem Sequential SequentialAct where
  init s := s.server.session.paused = false ∧ s.server.session.pendingEval = none ∧
    s.pause = none ∧ s.log = [] ∧ s.connected = true
  step := Sequential.step host env

/-- The threads at rest: the script is running or parked in its pause, and no lock is held. -/
def Sequential.threads (s : Sequential) : State where
  session := s.server.session
  pauseLocked := false
  evalOwner := none
  js :=
    match s.pause with
    | none => [.code]
    | some (e, p) => [.pause e p.reason p.bpId .parked, .code]
  ws := if s.connected then .run [] else .gone
  log := s.log
  nextRequest := s.nextRequest

/-- The script stands still exactly while the session is paused. -/
structure Sequential.Consistent (s : Sequential) : Prop where
  pause : s.pause.isSome = s.server.session.paused
  pendingEval : s.server.session.pendingEval = none

/-! ## 3. One step -/

section

variable {host : Host} {s : State} {e : Event} {reason : PauseReason} {bpId : Int}
  {callers : List Activation} {session : Session}

theorem JsRun.leads {s' : State} (h : JsRun host s s') : (machine host).Leads s s' := by
  obtain ⟨choices, hrun⟩ := h
  exact ⟨_, hrun⟩

/-- `do_pause` comes to rest. -/
theorem pause_leads (hpending : session.pendingEval = none) :
    (machine host).Leads
      { s with
        session := session
        pauseLocked := false
        js := .pause e reason bpId .capture :: callers }
      { s with
        session := session.enterPause e
        pauseLocked := false
        js := .pause e reason bpId .parked :: callers
        log := .paused :: s.log } := by
  obtain ⟨rest, rfl⟩ : ∃ rest : Session, session = { rest with pendingEval := none } :=
    ⟨session, by rw [← hpending]⟩
  exact ⟨jsSteps 8, rfl⟩

/-- A pause that is woken up and finds `paused_` false ends. -/
theorem resume_leads (hpaused : session.paused = false) :
    (machine host).Leads
      { s with
        session := session
        pauseLocked := false
        js := .pause e reason bpId .relock :: callers }
      { s with
        session := session
        pauseLocked := false
        js := callers
        log := .resumed :: s.log } := by
  obtain ⟨rest, rfl⟩ : ∃ rest : Session, session = { rest with paused := false } :=
    ⟨session, by rw [← hpaused]⟩
  exact ⟨jsSteps 6, rfl⟩

/-- The command clears `paused_` and notifies. -/
def Command.wakes : Command → Bool
  | .resume | .stepOver | .stepInto | .stepOut | .disconnect => true
  | _ => false

def Command.leaves : Command → Bool
  | .disconnect => true
  | _ => false

def Command.evaluates : Command → Bool
  | .evaluateOnCallFrame _ _ => true
  | _ => false

theorem evaluated_of_not {env : Env} {id : Nat} {c : Command} (hc : c.evaluates = false) :
    evaluated env id c = [] := by
  cases c with
  | evaluateOnCallFrame _ _ => cases hc
  | _ => rfl

/-- The WS thread executes a command. -/
theorem command_leads (c : Command) (hc : c.evaluates = false) :
    (machine host).Leads { s with session := session, ws := .run [] }
      { s with
        session := c.onSession session
        js := if c.wakes then wakeJs s.js else s.js
        ws := if c.leaves then .gone else .run []
        nextRequest := s.nextRequest + 1 } := by
  cases c with
  | evaluateOnCallFrame _ _ => exact absurd hc (by simp [Command.evaluates])
  | resume => exact ⟨.client .resume :: wsSteps 4, rfl⟩
  | stepOver => exact ⟨.client .stepOver :: wsSteps 5, rfl⟩
  | stepInto => exact ⟨.client .stepInto :: wsSteps 5, rfl⟩
  | stepOut => exact ⟨.client .stepOut :: wsSteps 5, rfl⟩
  | requestPause => exact ⟨.client .requestPause :: wsSteps 1, rfl⟩
  | runIfWaiting => exact ⟨.client .runIfWaiting :: wsSteps 3, rfl⟩
  | setEnabled b => exact ⟨.client (.setEnabled b) :: wsSteps 1, rfl⟩
  | setBreakpoint url line column isRegex condition =>
    exact ⟨.client (.setBreakpoint url line column isRegex condition) :: wsSteps 1, rfl⟩
  | removeBreakpoint id => exact ⟨.client (.removeBreakpoint id) :: wsSteps 1, rfl⟩
  | setBreakpointsActive b => exact ⟨.client (.setBreakpointsActive b) :: wsSteps 1, rfl⟩
  | disconnect => exact ⟨.client .disconnect :: wsSteps 7, rfl⟩

/-- An evaluation while the script is running is answered at once. -/
theorem evaluate_running_leads (callFrameId expression : Bytes) (hpaused : session.paused = false) :
    (machine host).Leads { s with session := session, ws := .run [] }
      { s with session := session, ws := .run [], nextRequest := s.nextRequest + 1 } := by
  obtain ⟨rest, rfl⟩ : ∃ rest : Session, session = { rest with paused := false } :=
    ⟨session, by rw [← hpaused]⟩
  exact ⟨.client (.evaluateOnCallFrame callFrameId expression) :: wsSteps 1, rfl⟩

/-- **A request and its answer.**  The WS thread posts the request and sleeps; the JS thread wakes
up, serves it and notifies; the WS thread takes the answer and clears the request before the JS
thread looks at it again, and both are at rest. -/
theorem evaluate_paused_leads (callFrameId expression : Bytes) (result : Value)
    (hpaused : session.paused = true) (hpending : session.pendingEval = none) :
    (machine host).Leads
      { s with
        session := session
        pauseLocked := false
        evalOwner := none
        js := .pause e reason bpId .parked :: callers
        ws := .run [] }
      { s with
        session := session
        pauseLocked := false
        evalOwner := none
        js := .pause e reason bpId .parked :: callers
        ws := .run []
        log := .evalReturn s.nextRequest result :: .evalEnd s.nextRequest result ::
          .evalBegin s.nextRequest :: s.log
        nextRequest := s.nextRequest + 1 } := by
  obtain ⟨rest, rfl⟩ : ∃ rest : Session,
      session = { rest with paused := true, pendingEval := none } :=
    ⟨session, by rw [← hpaused, ← hpending]⟩
  -- post and sleep, serve, take the answer, go back to sleep
  exact ⟨.client (.evaluateOnCallFrame callFrameId expression) :: wsSteps 7 ++
    (jsSteps 5 ++ (.js (.finish result true) :: jsSteps 3 ++ (wsSteps 5 ++ jsSteps 3))), rfl⟩

end

/-! ## 4. Every run -/

section

variable {host : Host} {env : Env} {s s' : Sequential}

theorem frame_debugTraceHandler (truthy : Bytes → Bool) (session : Session) (e : Event) :
    (debugTraceHandler host truthy session e).1.paused = session.paused ∧
      (debugTraceHandler host truthy session e).1.pendingEval = session.pendingEval := by
  rw [debugTraceHandler_eq]
  split
  · cases verdict host truthy session e with
    | none => exact ⟨rfl, rfl⟩
    | some p => rcases p with ⟨reason, bpId⟩; cases reason <;> exact ⟨rfl, rfl⟩
  · exact ⟨rfl, rfl⟩

/-- A command never stores true to `paused_`, and leaves the request alone. -/
theorem Command.frame (c : Command) (session : Session) :
    ((c.onSession session).paused = if c.wakes then false else session.paused) ∧
      (c.onSession session).pendingEval = session.pendingEval := by
  cases c <;> exact ⟨rfl, rfl⟩

theorem frame_obey (c : Option Command) (session : Session) :
    (session.paused = false → (obey session c).paused = false) ∧
      (obey session c).pendingEval = session.pendingEval := by
  cases c with
  | none => exact ⟨id, rfl⟩
  | some c =>
    obtain ⟨hpaused, hpending⟩ := c.frame session
    refine ⟨fun h => hpaused.trans ?_, hpending⟩
    rw [h, ite_self]

theorem Sequential.Consistent.after (h : s.Consistent) {server : Server} {c : Option Command}
    (hsession : server.session = obey s.server.session c) :
    (s.after env server c).Consistent := by
  obtain ⟨hfalse, hpending⟩ := frame_obey c s.server.session
  rw [← hsession] at hfalse hpending
  have hpending' : server.session.pendingEval = none := hpending.trans h.pendingEval
  cases c with
  | none => exact ⟨h.pause.trans (congrArg Session.paused hsession).symm, hpending'⟩
  | some c =>
    refine ⟨?_, hpending'⟩
    simp only [Sequential.after]
    cases hpaused : server.session.paused with
    | false => rfl
    | true =>
      rw [if_pos rfl, h.pause]
      by_contra hc
      rw [hfalse (by simpa using hc)] at hpaused
      cases hpaused

theorem consistent_step (h : s.Consistent) {a : SequentialAct}
    (hstep : (sequential host env).step s a = some s') : s'.Consistent := by
  cases a with
  | statement e truthy =>
    obtain ⟨hpaused, hpending⟩ := @frame_debugTraceHandler host truthy s.server.session e
    simp only [sequential, Sequential.step] at hstep
    split at hstep
    · cases hstep
    · split at hstep
      · obtain rfl := Option.some.inj hstep
        exact ⟨h.pause.trans hpaused.symm, hpending.trans h.pendingEval⟩
      · obtain rfl := Option.some.inj hstep
        exact ⟨rfl, hpending.trans h.pendingEval⟩
  | message text =>
    simp only [sequential, Sequential.step] at hstep
    split at hstep
    · split at hstep
      · obtain rfl := Option.some.inj hstep
        exact h.after (session_handleParsed env _ _)
      · cases hstep
    · cases hstep
  | disconnects =>
    simp only [sequential, Sequential.step] at hstep
    split at hstep
    · obtain rfl := Option.some.inj hstep
      have hafter := @Sequential.Consistent.after env s h
        { s.server with session := Command.disconnect.onSession s.server.session }
        (some .disconnect) rfl
      exact ⟨hafter.pause, hafter.pendingEval⟩
    · cases hstep

/-- A statement. -/
theorem statement_leads (h : s.Consistent) {e : Event} {truthy : Bytes → Bool}
    (hstep : (sequential host env).step s (.statement e truthy) = some s') :
    (machine host).Leads s.threads s'.threads := by
  obtain ⟨-, hpending⟩ := @frame_debugTraceHandler host truthy s.server.session e
  simp only [sequential, Sequential.step] at hstep
  split at hstep
  · cases hstep
  · rename_i hrunning
    have hpause : s.pause = none := by
      have hp := h.pause
      rw [Bool.not_eq_true] at hrunning
      rw [hrunning] at hp
      exact Option.isNone_iff_eq_none.mp (Option.isSome_eq_false_iff.mp hp)
    have hcall : (machine host).Leads s.threads
        { s.threads with
          session := (debugTraceHandler host truthy s.server.session e).1
          js := returnTo e [.code] (debugTraceHandler host truthy s.server.session e).2 } := by
      have hrun := @handler_runs host s.threads e [.code] truthy s.server.session
      have hstart : jsStep host s.threads (.statement e) =
          some { s.threads with js := .handler e .entry :: [.code] } := by
        simp [jsStep, Sequential.threads, hpause]
      exact (JsRun.head (.statement e) hstart hrun).leads
    split at hstep
    · rename_i hnone
      obtain rfl := Option.some.inj hstep
      rw [hnone] at hcall
      simpa [Sequential.threads, hpause, returnTo] using hcall
    · rename_i p hsome
      obtain rfl := Option.some.inj hstep
      rw [hsome] at hcall
      have hrest := @pause_leads host s.threads e p.reason p.bpId [.code]
        (debugTraceHandler host truthy s.server.session e).1 (hpending.trans h.pendingEval)
      exact hcall.trans hrest

/-- A command while the script is running. -/
theorem after_running_leads (hpause : s.pause = none) (hpaused : s.server.session.paused = false)
    (hconn : s.connected = true) {server : Server} {c : Command}
    (hsession : server.session = c.onSession s.server.session) :
    (machine host).Leads s.threads
      { (s.after env server (some c)).threads with
        ws := if c.leaves then .gone else .run [] } := by
  have hend : { (s.after env server (some c)).threads with
        ws := if c.leaves then .gone else .run [] } =
      { s.threads with
        session := c.onSession s.server.session
        ws := if c.leaves then .gone else .run []
        nextRequest := s.nextRequest + 1 } := by
    have hpaused' : server.session.paused = false := by
      rw [hsession, (c.frame _).1, hpaused, ite_self]
    simp [Sequential.threads, Sequential.after, logBehind, hpause, hpaused, ← hsession]
  have hstart : s.threads = { s.threads with session := s.server.session, ws := .run [] } := by
    simp [Sequential.threads, hconn]
  rw [hend, hstart]
  cases hc : c.evaluates with
  | true =>
    cases c with
    | evaluateOnCallFrame callFrameId expression =>
      exact evaluate_running_leads callFrameId expression hpaused
    | _ => cases hc
  | false =>
    have hrun := @command_leads host s.threads s.server.session c hc
    have hjs : (if c.wakes then wakeJs s.threads.js else s.threads.js) = s.threads.js := by
      simp [Sequential.threads, hpause, wakeJs]
    rw [hjs] at hrun
    exact hrun

/-- A command while the script is parked: an evaluation is answered, and a command that clears
`paused_` ends the pause. -/
theorem after_paused_leads {e : Event} {p : Pause} (hpause : s.pause = some (e, p))
    (h : s.Consistent) (hconn : s.connected = true) {server : Server} {c : Command}
    (hsession : server.session = c.onSession s.server.session) :
    (machine host).Leads s.threads
      { (s.after env server (some c)).threads with
        ws := if c.leaves then .gone else .run [] } := by
  have hpaused : s.server.session.paused = true := by rw [← h.pause, hpause]; rfl
  obtain ⟨hpaused', -⟩ := c.frame s.server.session
  rw [← hsession] at hpaused'
  have hstart : s.threads =
      { s.threads with
        session := s.server.session
        pauseLocked := false
        evalOwner := none
        js := [.pause e p.reason p.bpId .parked, .code]
        ws := .run [] } := by
    simp [Sequential.threads, hpause, hconn]
  cases hc : c.evaluates with
  | true =>
    cases c with
    | evaluateOnCallFrame callFrameId expression =>
      have hsame : server.session = s.server.session := hsession
      have hend : { (s.after env server
            (some (.evaluateOnCallFrame callFrameId expression))).threads with
            ws := .run [] } =
          { s.threads with
            session := s.server.session
            pauseLocked := false
            evalOwner := none
            js := [.pause e p.reason p.bpId .parked, .code]
            ws := .run []
            log := .evalReturn s.nextRequest (env.answer callFrameId expression) ::
              .evalEnd s.nextRequest (env.answer callFrameId expression) ::
              .evalBegin s.nextRequest :: s.log
            nextRequest := s.nextRequest + 1 } := by
        simp [Sequential.threads, Sequential.after, logBehind, evaluated, hpause, hpaused, hsame]
      have hrun := @evaluate_paused_leads host s.threads e p.reason p.bpId [.code]
        s.server.session callFrameId expression (env.answer callFrameId expression) hpaused
        h.pendingEval
      rw [hstart]
      simp only [Command.leaves, Bool.false_eq_true, if_false]
      rw [hend]
      exact hrun
    | _ => cases hc
  | false =>
    have hevaluated : ∀ id, evaluated env id c = [] := fun id => evaluated_of_not hc
    have hrun := @command_leads host s.threads s.server.session c hc
    rw [← hsession] at hrun
    cases hw : c.wakes with
    | false =>
      rw [hw, if_neg Bool.false_ne_true, hpaused] at hpaused'
      have hend : { (s.after env server (some c)).threads with
            ws := if c.leaves then .gone else .run [] } =
          { s.threads with
            session := server.session
            ws := if c.leaves then .gone else .run []
            nextRequest := s.nextRequest + 1 } := by
        simp [Sequential.threads, Sequential.after, logBehind, hevaluated, hpause, hpaused,
          hpaused']
      rw [hend, hstart]
      simp only [hw, Bool.false_eq_true, if_false] at hrun
      simpa [Sequential.threads, hpause] using hrun
    | true =>
      rw [hw, if_pos rfl] at hpaused'
      have hend : { (s.after env server (some c)).threads with
            ws := if c.leaves then .gone else .run [] } =
          { s.threads with
            session := server.session
            pauseLocked := false
            js := [.code]
            ws := if c.leaves then .gone else .run []
            log := .resumed :: s.log
            nextRequest := s.nextRequest + 1 } := by
        simp [Sequential.threads, Sequential.after, logBehind, hevaluated, hpause, hpaused,
          hpaused']
      have hresume := @resume_leads host
        { s.threads with
          ws := if c.leaves then .gone else .run []
          nextRequest := s.nextRequest + 1 } e p.reason p.bpId [.code] server.session hpaused'
      have hwake : wakeJs s.threads.js = [.pause e p.reason p.bpId .relock, .code] := by
        simp [Sequential.threads, hpause, wakeJs]
      rw [hw, if_pos rfl, hwake] at hrun
      have hrest : s.threads = { s.threads with session := s.server.session, ws := .run [] } := by
        simp [Sequential.threads, hconn]
      rw [hend, hrest]
      exact hrun.trans hresume

/-- A command, from rest to rest. -/
theorem after_leads (h : s.Consistent) (hconn : s.connected = true) {server : Server}
    {c : Command} (hsession : server.session = c.onSession s.server.session) :
    (machine host).Leads s.threads
      { (s.after env server (some c)).threads with
        ws := if c.leaves then .gone else .run [] } := by
  cases hpause : s.pause with
  | none =>
    have hpaused : s.server.session.paused = false := by rw [← h.pause, hpause]; rfl
    exact after_running_leads hpause hpaused hconn hsession
  | some x => exact after_paused_leads hpause h hconn hsession

/-- One comparison of the chain of `commandOf`. -/
theorem leaves_ite {p : Prop} [Decidable p] {a b : Option Command}
    (ha : ∀ c ∈ a, c.leaves = false) (hb : ∀ c ∈ b, c.leaves = false) :
    ∀ c ∈ (if p then a else b), c.leaves = false := by
  split
  · exact ha
  · exact hb

theorem leaves_some {c : Command} (h : c.leaves = false) : ∀ c' ∈ some c, c'.leaves = false := by
  intro c' hc
  rwa [← Option.mem_some_iff.mp hc]

/-- The commands of methods do not leave. -/
theorem leaves_of_commandOf (method : Bytes) (params : Value) :
    ∀ c ∈ commandOf method params, c.leaves = false := by
  unfold commandOf
  refine leaves_ite (leaves_some rfl) (leaves_ite (leaves_some rfl) (leaves_ite (leaves_some rfl)
    (leaves_ite ?_ ?_)))
  · intro c hc
    obtain ⟨id, -, rfl⟩ := Option.map_eq_some_iff.mp hc
    rfl
  · repeat' apply leaves_ite
    all_goals first
      | exact leaves_some rfl
      | intro c hc
        cases hc

theorem leaves_of_requested {msg : Value} {c : Command} (h : requested msg = some c) :
    c.leaves = false := by
  unfold requested at h
  split at h
  · exact leaves_of_commandOf _ _ c h
  · cases h

/-- **One step of the sequential debugger is a run of the threads.** -/
theorem step_leads (h : s.Consistent) {a : SequentialAct}
    (hstep : (sequential host env).step s a = some s') :
    (machine host).Leads s.threads s'.threads := by
  cases a with
  | statement e truthy => exact statement_leads h hstep
  | message text =>
    simp only [sequential, Sequential.step] at hstep
    split at hstep
    · rename_i hconn
      split at hstep
      · rename_i msg _
        obtain rfl := Option.some.inj hstep
        have hsession := session_handleParsed env s.server msg
        cases hreq : requested msg with
        | none =>
          rw [hreq] at hsession
          have hsame : (s.after env (handleParsed env s.server msg) none).threads = s.threads := by
            simp only [Sequential.threads, Sequential.after]
            rw [hsession]
            rfl
          rw [hsame]
          exact .refl _
        | some c =>
          rw [hreq] at hsession
          have hrun := @after_leads host env s h hconn (handleParsed env s.server msg) c hsession
          rw [leaves_of_requested hreq] at hrun
          have hws :
              (s.after env (handleParsed env s.server msg) (some c)).threads.ws = .run [] := by
            simp [Sequential.threads, Sequential.after, hconn]
          rw [if_neg Bool.false_ne_true, ← hws] at hrun
          exact hrun
      · cases hstep
    · cases hstep
  | disconnects =>
    simp only [sequential, Sequential.step] at hstep
    split at hstep
    · rename_i hconn
      obtain rfl := Option.some.inj hstep
      exact @after_leads host env s h hconn
        { s.server with session := Command.disconnect.onSession s.server.session } .disconnect rfl
    · cases hstep

end

/-- **The threads realize the sequential debugger.**  Every run in which the script pauses, messages
are handled and the client leaves, one thing after the other, is a run of the two threads: it ends
with the same session and the same events in the same order, with the script running or parked in
the same pause, and with no lock held. -/
theorem sequential_runs_realized (host : Host) (env : Env) {s s' : Sequential}
    (hinit : (sequential host env).init s) (hrun : (sequential host env).Leads s s') :
    State.Initial s.threads ∧ (machine host).Leads s.threads s'.threads := by
  obtain ⟨hpaused, hpending, hpause, hlog, hconn⟩ := hinit
  refine ⟨?_, ?_⟩
  · constructor
    · exact hpaused
    · exact hpending
    · rfl
    · rfl
    · simp [Sequential.threads, hpause]
    · simp [Sequential.threads, hconn]
    · exact hlog
  · have hstart : s.Consistent := ⟨by rw [hpause, hpaused]; rfl, hpending⟩
    exact hrun.realize (fun _ _ _ h hstep => consistent_step h hstep)
      (fun _ _ _ h hstep => step_leads h hstep) hstart

/-- The client has a pause, evaluates `f()` in it and resumes. -/
def evaluateInPause : List SequentialAct :=
  [.message (ascii "\x7b\"id\":1,\"method\":\"Debugger.pause\"\x7d"),
    .statement lineThree fun _ => false,
    .message (ascii "\x7b\"id\":2,\"method\":\"Debugger.evaluateOnCallFrame\"," ++
      ascii "\"params\":\x7b\"expression\":\"f()\"\x7d\x7d"),
    .message (ascii "\x7b\"id\":3,\"method\":\"Debugger.resume\"\x7d")]

theorem sequential_runs_realized_evaluate :
    ∃ s s' : Sequential, s'.log =
        [.resumed, .evalReturn 1 Cdp.undefinedResult, .evalEnd 1 Cdp.undefinedResult, .evalBegin 1,
          .paused] ∧
      State.Initial s.threads ∧ (machine posixHost).Leads s.threads s'.threads := by
  obtain ⟨s', hrun, hlog⟩ : ∃ s', (sequential posixHost Cdp.integerEnv).run
      { server := { Server.new with session := enabledSession }
        pause := none
        connected := true
        log := []
        nextRequest := 0 } evaluateInPause = some s' ∧ s'.log =
        [.resumed, .evalReturn 1 Cdp.undefinedResult, .evalEnd 1 Cdp.undefinedResult, .evalBegin 1,
          .paused] := ⟨_, rfl, rfl⟩
  exact ⟨_, s', hlog, sequential_runs_realized posixHost Cdp.integerEnv
    ⟨rfl, rfl, rfl, rfl, rfl⟩ ⟨evaluateInPause, hrun⟩⟩

end Threads

end QjsDebug
