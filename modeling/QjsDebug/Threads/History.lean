/-
# The debugger does what it was told

A debugger keeps flags, a mode and a table between one statement and the next.  A client knows
nothing of these.  It knows what it said and at which statements the script has stopped, and from
that it can tell at which statement the script stops next: `asked` reads the answer off the history
alone, by looking back for the last thing that has a say in it.

* A pause is due if `Debugger.pause` came behind the last stop and the last command to go on.
* A step is due if it was commanded behind these, and ends as seen from the statement that was
  the last one when it was commanded.
* A breakpoint stands if it was set and its number has not been removed since; its number counts
  the breakpoints set before it.
* Nothing stops the script while the last word was `Debugger.disable`.

`handler_follows_history` says that the handler agrees, after any run of the sequential debugger
that begins as `main` begins it.  Such runs are runs of the two threads
(`sequential_runs_realized`).  The numbers of breakpoints are integers here, so that the count of
them is not bounded by `int`.
-/
import QjsDebug.Cdp.BreakpointTable
import QjsDebug.Threads.Sequential

namespace QjsDebug

open Json (Value)

namespace Threads

open Cdp (Env Server handleParsed)

/-! ## 1. Histories -/

/-- What a client sees of a run. -/
inductive Happening
  | said (c : Command)
  /-- The script came to a statement, and stopped there for a reason, or did not. -/
  | executed (e : Event) (stopped : Option PauseReason)

/-- What has happened so far, newest first. -/
abbrev History := List Happening

/-- The last word on something. -/
def lastly {α : Type} (say : Happening → Option α) (first : α) (h : History) : α :=
  (h.findSome? say).getD first

/-- `Debugger.enable` and `Debugger.disable`. -/
def enabling : Happening → Option Bool
  | .said (.setEnabled b) => some b
  | _ => none

/-- `Debugger.setBreakpointsActive`. -/
def activating : Happening → Option Bool
  | .said (.setBreakpointsActive b) => some b
  | _ => none

/-- Whether a pause is due. -/
def pausing : Happening → Option Bool
  | .said .requestPause => some true
  | .said .resume | .said .stepOver | .said .stepInto | .said .stepOut | .said .disconnect =>
    some false
  | .executed _ (some _) => some false
  | _ => none

/-- What is to be done between stops. -/
def stepping : Happening → Option StepMode
  | .said .stepOver => some .over
  | .said .stepInto => some .into
  | .said .stepOut => some .out
  | .said .resume | .said .runIfWaiting | .said .disconnect => some .«continue»
  | .executed _ (some _) => some .none
  | _ => none

/-- Whether the first statement is yet to come. -/
def entering : Happening → Option Bool
  | .executed _ (some .entry) => some false
  | _ => none

/-- The number of breakpoints set. -/
def settings : History → Nat
  | [] => 0
  | .said (.setBreakpoint ..) :: h => settings h + 1
  | _ :: h => settings h

/-- The breakpoints that stand, by number. -/
def standing : History → List (Int × Breakpoint)
  | [] => []
  | .said (.setBreakpoint url line column isRegex condition) :: h =>
    let id : Int := settings h + 1
    let setting : Cdp.Setting :=
      { url := url
        line := line
        column := column
        isRegex := isRegex
        condition := condition }
    standing h ++ [(id, setting.breakpoint id)]
  | .said (.removeBreakpoint id) :: h => (standing h).filter fun p => p.1 != id
  | _ :: h => standing h

section

variable (brk : Bool)

/-- The last statement that the debugger looked at. -/
def lastSeen : History → Option Event
  | [] => none
  | .executed e _ :: h => if lastly enabling brk h && e.handled then some e else lastSeen h
  | .said _ :: h => lastSeen h

/-- The statement that the last step was commanded behind. -/
def stepStart : History → Option Event
  | [] => none
  | .said .stepOver :: h | .said .stepInto :: h | .said .stepOut :: h => lastSeen brk h
  | _ :: h => stepStart h

end

/-- The depth, the line and the file of a statement, if the stack has a frame for it. -/
def place : Option Event → Nat × Int × Bytes
  | some e => if e.depth = 0 then (0, 0, []) else (e.depth, e.line, e.file)
  | none => (0, 0, [])

/-- Whether a step from `start` ends at a statement. -/
def stepEnds (mode : StepMode) (start : Option Event) (e : Event) : Bool :=
  let (depth, line, file) := place start
  let elsewhere := decide (e.line ≠ line) || (e.filename.isSome && file != e.file)
  match mode with
  | .into => elsewhere
  | .over => decide (e.depth ≤ depth) && elsewhere
  | .out => decide (e.depth < depth)
  | .none | .«continue» | .pause => false

section

variable (host : Host)

/-- **Where the script stops next**: the pause at a statement, with these outcomes of the
conditions, of a debugger that was started with or without `--inspect-brk`. -/
def asked (brk : Bool) (truthy : Bytes → Bool) (h : History) (e : Event) : Option Pause :=
  if !(lastly enabling brk h && e.handled) then none
  else if lastly pausing false h then some ⟨.pauseRequest, 0⟩
  else if lastly entering brk h then some ⟨.entry, 0⟩
  else
    let hit := if lastly activating true h then (hitting host e.file e.line (standing h)).head?
      else none
    match hit with
    | some p => if p.2.wants truthy then some ⟨.breakpoint, p.1⟩ else none
    | none =>
      if stepEnds (lastly stepping .none h) (stepStart brk h) e then some ⟨.step, 0⟩ else none

variable (env : Env)

/-- What a step of the sequential debugger is to the client. -/
def happening (s : Sequential) : SequentialAct → Option Happening
  | .statement e truthy =>
    some (.executed e ((debugTraceHandler host truthy s.server.session e).2.map Pause.reason))
  | .message text =>
    match Json.parse env.stod text with
    | .ok msg => (requested msg).map .said
    | .error _ => none
  | .disconnects => some (.said .disconnect)

/-- The history of a run. -/
def history (past : List (Sequential × SequentialAct)) : History :=
  past.filterMap fun x => happening host env x.1 x.2

@[simp]
theorem history_cons (s : Sequential) (a : SequentialAct)
    (past : List (Sequential × SequentialAct)) :
    history host env ((s, a) :: past) =
      (happening host env s a).toList ++ history host env past := by
  unfold history
  rw [List.filterMap_cons]
  cases happening host env s a <;> rfl

/-- The sequential debugger as `main` starts it, with or without `--inspect-brk`. -/
def started (brk : Bool) : StepSystem Sequential SequentialAct where
  init s := (sequential host env).init s ∧
    ∃ waiting, s.server.session =
      { Session.new with enabled := brk, pauseOnStart := brk, waiting := waiting }
  step := Sequential.step host env

end

/-! ## 2. The session and the history -/

/-- What a step command reads off `frame_stack_`. -/
def top (frames : List FrameInfo) : Nat × Int × Bytes :=
  (frames.length, (frames.head?.map FrameInfo.line).getD 0,
    (frames.head?.map FrameInfo.filename).getD [])

/-- What the session keeps is what the history says. -/
structure Told (brk : Bool) (h : History) (s : Session) : Prop where
  enabled : s.enabled = lastly enabling brk h
  bpActive : s.bpActive = lastly activating true h
  pauseRequested : s.pauseRequested = lastly pausing false h
  stepMode : s.stepMode = lastly stepping .none h
  pauseOnStart : s.pauseOnStart = lastly entering brk h
  nextBpId : s.nextBpId = settings h + 1
  breakpoints : s.breakpoints = standing h
  frames : top s.frameStack = place (lastSeen brk h)
  start : (s.stepStartDepth, s.stepStartLine, s.stepStartFile) = place (stepStart brk h)

section

variable {host : Host} {truthy : Bytes → Bool} {brk : Bool} {h : History} {s : Session}

/-- The numbers given so far are not above the count. -/
theorem number_le_settings {p : Int × Breakpoint} (hp : p ∈ standing h) : p.1 ≤ settings h := by
  induction h with
  | nil => cases hp
  | cons x h ih =>
    cases x with
    | executed e stopped => exact ih hp
    | said c =>
      cases c with
      | setBreakpoint url line column isRegex condition =>
        rcases List.mem_append.mp hp with hp | hp
        · have hle := ih hp
          simp only [settings]
          omega
        · obtain rfl := List.mem_singleton.mp hp
          exact le_of_eq (by simp [settings])
      | removeBreakpoint id => exact ih (List.mem_filter.mp hp).1
      | _ => exact ih hp

/-- The top of the stack is the statement that was tracked last. -/
theorem top_trackFrames (frames : List FrameInfo) (e : Event) :
    top (trackFrames frames e) = place (some e) := by
  show top (trackFrames frames e) = if e.depth = 0 then (0, 0, []) else (e.depth, e.line, e.file)
  unfold top
  by_cases hdepth : e.depth = 0
  · have hnil : trackFrames frames e = [] :=
      List.eq_nil_of_length_eq_zero (by rw [length_trackFrames, hdepth])
    rw [hnil, if_pos hdepth]
    rfl
  · rw [length_trackFrames, trackFrames_eq _ _ (Nat.pos_of_ne_zero hdepth), if_neg hdepth]
    rfl

/-- The session does what it is told. -/
theorem Told.said (hs : Told brk h s) (c : Command) :
    Told brk (.said c :: h) (c.onSession s) := by
  cases c with
  | resume => exact { hs with pauseRequested := rfl, stepMode := rfl }
  | stepOver | stepInto | stepOut =>
    exact { hs with pauseRequested := rfl, stepMode := rfl, start := hs.frames }
  | requestPause => exact { hs with pauseRequested := rfl }
  | runIfWaiting => exact { hs with stepMode := rfl }
  | setEnabled b => exact { hs with enabled := rfl }
  | setBreakpoint url line column isRegex condition =>
    have habove : ∀ p ∈ standing h, compare p.1 ((settings h : Int) + 1) = .lt := fun p hp =>
      Int.compare_eq_lt.mpr (Int.lt_add_one_of_le (number_le_settings hp))
    refine { hs with nextBpId := ?_, breakpoints := ?_ }
    · show s.nextBpId + 1 = _
      rw [hs.nextBpId]
      simp [settings]
    · show SortedMap.insert s.nextBpId _ s.breakpoints = _
      rw [hs.breakpoints, hs.nextBpId, SortedMap.insert_of_forall_lt habove]
      rfl
  | removeBreakpoint id =>
    refine { hs with breakpoints := ?_ }
    show SortedMap.erase id s.breakpoints = _
    rw [hs.breakpoints]
    refine List.filter_congr fun p _ => ?_
    have hcmp : (compare id p.1 = .eq) ↔ id = p.1 := compare_eq_iff_eq
    rw [Bool.eq_iff_iff, bne_iff_ne, bne_iff_ne]
    exact (not_congr hcmp).trans ne_comm
  | setBreakpointsActive b => exact { hs with bpActive := rfl }
  | evaluateOnCallFrame callFrameId expression => exact { hs with }
  | disconnect => exact { hs with pauseRequested := rfl, stepMode := rfl }

/-- A statement that the handler does not stop at. -/
theorem Told.passed (hs : Told brk h s) {e : Event}
    (hpass : (debugTraceHandler host truthy s e).2 = none) :
    Told brk (.executed e none :: h) (debugTraceHandler host truthy s e).1 := by
  rw [debugTraceHandler_of_none hpass]
  have hseen : lastSeen brk (.executed e none :: h) =
      if s.enabled && e.handled then some e else lastSeen brk h := by
    rw [hs.enabled]
    rfl
  cases hlook : s.enabled && e.handled with
  | false =>
    rw [hlook] at hseen
    exact { hs with frames := hs.frames.trans (congrArg place hseen.symm) }
  | true =>
    rw [hlook] at hseen
    exact { hs with frames := (top_trackFrames _ e).trans (congrArg place hseen.symm) }

/-- What the handler stops for behind its first two tests. -/
theorem verdict_eq_some {e : Event} {p : Pause} (hp : verdict host truthy s e = some p) :
    p.reason = .pauseRequest ∨ s.pauseRequested = false := by
  unfold verdict at hp
  split at hp
  · obtain rfl := Option.some.inj hp
    exact .inl rfl
  · rename_i hnot
    exact .inr (Bool.eq_false_iff.mpr hnot)

/-- A statement that it stops at. -/
theorem Told.stopped (hs : Told brk h s) {e : Event} {p : Pause}
    (hstop : (debugTraceHandler host truthy s e).2 = some p) :
    Told brk (.executed e (some p.reason) :: h)
      ((debugTraceHandler host truthy s e).1.enterPause e) := by
  have hlook : (s.enabled && e.handled) = true := by
    rw [debugTraceHandler_snd] at hstop
    by_contra hnot
    rw [if_neg hnot] at hstop
    cases hstop
  rw [debugTraceHandler_snd, if_pos hlook] at hstop
  have hsession : (debugTraceHandler host truthy s e).1 = (s.track e).stopFor p.reason := by
    rw [debugTraceHandler_eq, if_pos hlook, hstop]
  have hfirst := verdict_eq_some hstop
  rw [hsession]
  generalize p.reason = reason at hfirst ⊢
  have hseen : lastSeen brk (.executed e (some reason) :: h) = some e := by
    show (if lastly enabling brk h && e.handled then some e else lastSeen brk h) = some e
    rw [← hs.enabled, hlook, if_pos rfl]
  have hframes : top (trackFrames (trackFrames s.frameStack e) e) =
      place (lastSeen brk (.executed e (some reason) :: h)) := by
    rw [hseen]
    exact top_trackFrames _ e
  -- the session as one record
  cases reason with
  | pauseRequest =>
    simp only [Session.enterPause, Session.stopFor, Session.track]
    exact { hs with pauseRequested := rfl, stepMode := rfl, frames := hframes }
  | entry =>
    have hrequest : s.pauseRequested = false := by simpa using hfirst
    simp only [Session.enterPause, Session.stopFor, Session.track]
    exact { hs with
      pauseRequested := hrequest, stepMode := rfl, pauseOnStart := rfl, frames := hframes }
  | breakpoint | step =>
    have hrequest : s.pauseRequested = false := by simpa using hfirst
    simp only [Session.enterPause, Session.stopFor, Session.track]
    exact { hs with pauseRequested := hrequest, stepMode := rfl, frames := hframes }

/-- The end of a step, by the session and by the history. -/
theorem Told.stepStops_eq (hs : Told brk h s) (e : Event) :
    stepStops s s.stepMode e = stepEnds (lastly stepping .none h) (stepStart brk h) e := by
  have hstart := hs.start
  rw [← hs.stepMode]
  unfold stepEnds
  generalize place (stepStart brk h) = p at hstart ⊢
  subst hstart
  rfl

/-- **The handler stops where the history says.** -/
theorem Told.handler (hs : Told brk h s) (e : Event) :
    (debugTraceHandler host truthy s e).2 = asked host brk truthy h e := by
  rw [debugTraceHandler_snd]
  unfold asked verdict hitBreakpoint
  rw [← hs.stepStops_eq, ← hs.enabled, ← hs.pauseRequested, ← hs.pauseOnStart, ← hs.bpActive,
    ← hs.breakpoints]
  cases s.enabled && e.handled <;> rfl

end

/-! ## 3. Every run -/

section

variable {host : Host} {env : Env} {brk : Bool}

theorem told_step {past : List (Sequential × SequentialAct)} {s s' : Sequential}
    {a : SequentialAct} (hs : Told brk (history host env past) s.server.session)
    (hstep : (sequential host env).step s a = some s') :
    Told brk (history host env ((s, a) :: past)) s'.server.session := by
  cases a with
  | statement e truthy =>
    simp only [sequential, Sequential.step] at hstep
    split at hstep
    · cases hstep
    · split at hstep
      · rename_i hpass
        obtain rfl := Option.some.inj hstep
        rw [history_cons, happening, hpass]
        exact hs.passed hpass
      · rename_i p hstop
        obtain rfl := Option.some.inj hstep
        rw [history_cons, happening, hstop]
        exact hs.stopped hstop
  | message text =>
    simp only [sequential, Sequential.step] at hstep
    split at hstep
    · split at hstep
      · rename_i msg hparse
        obtain rfl := Option.some.inj hstep
        have hsession := session_handleParsed env s.server msg
        rw [history_cons]
        simp only [happening, hparse]
        cases hreq : requested msg with
        | none =>
          rw [hreq] at hsession
          exact hsession.symm ▸ hs
        | some c =>
          rw [hreq] at hsession
          exact hsession.symm ▸ hs.said c
      · cases hstep
    · cases hstep
  | disconnects =>
    simp only [sequential, Sequential.step] at hstep
    split at hstep
    · obtain rfl := Option.some.inj hstep
      exact hs.said .disconnect
    · cases hstep

theorem told_of_trace {past : List (Sequential × SequentialAct)} {s : Sequential}
    (h : (started host env brk).Trace (fun _ _ => True) past s) :
    s.Consistent ∧ Told brk (history host env past) s.server.session := by
  refine h.invariant (I := fun past s => s.Consistent ∧
    Told brk (history host env past) s.server.session) ?_ ?_
  · rintro s ⟨⟨hpaused, hpending, hpause, -, -⟩, waiting, hsession⟩
    refine ⟨⟨by rw [hpause, hpaused]; rfl, hpending⟩, ?_⟩
    rw [hsession]
    constructor <;> rfl
  · rintro past s a s' - ⟨hconsistent, htold⟩ - hstep
    exact ⟨consistent_step hconsistent hstep, told_step htold hstep⟩

/-- **The debugger does what it was told.**  After any run of a debugger that `main` started with or
without `--inspect-brk`, as long as the script is not paused: it executes its next statement, and
stops there just in the case and for the reason that the history of the run says. -/
theorem handler_follows_history {past : List (Sequential × SequentialAct)} {s : Sequential}
    (h : (started host env brk).Trace (fun _ _ => True) past s)
    (hrunning : s.server.session.paused = false) (e : Event) (truthy : Bytes → Bool) :
    ∃ s', (started host env brk).step s (.statement e truthy) = some s' ∧
      s'.pause = (asked host brk truthy (history host env past) e).map fun p => (e, p) := by
  obtain ⟨hconsistent, htold⟩ := told_of_trace h
  have hnone : s.pause = none := by
    have hpause := hconsistent.pause
    rw [hrunning] at hpause
    exact Option.isNone_iff_eq_none.mp (Option.isSome_eq_false_iff.mp hpause)
  rw [← htold.handler]
  simp only [started, Sequential.step, hrunning, Bool.false_eq_true, if_false]
  cases hstop : (debugTraceHandler host truthy s.server.session e).2 with
  | none => exact ⟨_, rfl, hnone⟩
  | some p => exact ⟨_, rfl, rfl⟩

end

/-- The debugger of `main` without `--inspect-brk`, before anything has happened. -/
def inspected : Sequential where
  server := Server.new
  pause := none
  connected := true
  log := []
  nextRequest := 0

/-- A client that enables the debugger and sets a breakpoint on line three. -/
def setBreakpointThree : Bytes :=
  ascii "\x7b\"id\":2,\"method\":\"Debugger.setBreakpointByUrl\"," ++
    ascii "\"params\":\x7b\"url\":\"/a.js\",\"lineNumber\":2\x7d\x7d"

theorem handler_follows_history_lineThree :
    ∃ past s s', (started posixHost Cdp.integerEnv false).Trace (fun _ _ => True) past s ∧
      (started posixHost Cdp.integerEnv false).step s (.statement lineThree fun _ => false) =
        some s' ∧ s'.pause = some (lineThree, ⟨.breakpoint, 1⟩) := by
  have hinit : (started posixHost Cdp.integerEnv false).init inspected :=
    ⟨⟨rfl, rfl, rfl, rfl, rfl⟩, false, rfl⟩
  have hstart : (started posixHost Cdp.integerEnv false).Trace (fun _ _ => True) [] inspected :=
    .init hinit
  have henable := hstart.step trivial
    (show (started posixHost Cdp.integerEnv false).step inspected
      (.message (ascii "\x7b\"id\":1,\"method\":\"Debugger.enable\"\x7d")) = some _ from rfl)
  have hset := henable.step trivial
    (show (started posixHost Cdp.integerEnv false).step _ (.message setBreakpointThree) = some _
      from rfl)
  obtain ⟨s', hstep, hpause⟩ := handler_follows_history hset rfl lineThree fun _ => false
  exact ⟨_, _, s', hset, hstep, hpause⟩

end Threads

end QjsDebug
