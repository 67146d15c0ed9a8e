/-
# The debug trace handler, one statement at a time

`debugTraceHandler` is `DebugSession::debug_trace_handler` run without interference: what one
statement event does to the session, and the pause it ends in, if any.  The handler is a
chain of early returns -- pause request, entry pause, breakpoint, step test -- and the two
results of this module are about the third link of that chain.

* §3  a statement stops on a breakpoint exactly when some breakpoint there wants it to,
      EXCEPT when the lowest-numbered breakpoint that matches has a falsy condition: the
      handler looks up that one alone (`breakpoint_stop_exact_iff`);
* §4  a step stops where its stop test holds, EXCEPT on such a statement: the falsy
      condition returns before the `switch` is reached (`pauses_iff_reachesStepTest`).

Conditions are evaluated by the engine in the frame of the statement; `truthy` gives the
outcome for each condition text.  What the handler decides it decides on what it read before it
evaluates anything, so the statements that run meanwhile have no part in the decision; where they
stop themselves is told in `Session/Nested`.
-/
import QjsDebug.Session.Breakpoints

namespace QjsDebug

/-! ## 1. The handler -/

/-- The arguments of `do_pause` that tell why. -/
structure Pause where
  reason : PauseReason
  bpId : Int
  deriving DecidableEq, Repr

/-- `evaluate_condition`, up to what the engine answers. -/
def evaluateCondition (truthy : Bytes → Bool) (expr : Bytes) : Bool :=
  if expr = [] then true else truthy expr

/-- The handler looks at an event only when it names a file and a positive line. -/
def Event.handled (e : Event) : Bool := e.filename.isSome && decide (0 < e.line)

/-- What the handler stores before it calls `do_pause`: the flag behind the reason, if any,
is consumed, and the step mode is cleared. -/
def Session.stopFor (s : Session) : PauseReason → Session
  | .pauseRequest => { s with pauseRequested := false, stepMode := .none }
  | .entry => { s with pauseOnStart := false, stepMode := .none }
  | .breakpoint | .step => { s with stepMode := .none }

section

variable (host : Host) (truthy : Bytes → Bool)

/-- `debug_trace_handler`, for a statement during which the handler is called for no other one: the
session at its return, or at its call of `do_pause`. -/
def debugTraceHandler (s : Session) (e : Event) : Session × Option Pause :=
  if !s.enabled then (s, none)
  else if e.filename = none ∨ e.line ≤ 0 then (s, none)
  else
    let s := s.track e
    let mode := s.stepMode
    if s.pauseRequested then (s.stopFor .pauseRequest, some ⟨.pauseRequest, 0⟩)
    else if s.pauseOnStart then (s.stopFor .entry, some ⟨.entry, 0⟩)
    else if checkBreakpoint host s e.file e.line then
      let bp := findBreakpoint host e.file e.line s.breakpoints
      if bp.2 ≠ [] ∧ evaluateCondition truthy bp.2 = false then (s, none)
      else (s.stopFor .breakpoint, some ⟨.breakpoint, bp.1⟩)
    else if stepStops s mode e then (s.stopFor .step, some ⟨.step, 0⟩)
    else (s, none)

/-- The session `do_pause` waits in when its capture runs no script code: `capture_frames` has
tracked the event, and `paused_` is set. -/
def Session.enterPause (s : Session) (e : Event) : Session :=
  { s.track e with paused := true }

/-- Where a run over a trace of statements first pauses: how many statements before it, and
the pause.  Each statement comes with the outcomes of the conditions in its frame, and no other
code runs during it. -/
def firstPause : Session → List (Event × (Bytes → Bool)) → Option (Nat × Pause)
  | _, [] => none
  | s, x :: rest =>
    match debugTraceHandler host x.2 s x.1 with
    | (_, some p) => some (0, p)
    | (s', none) => (firstPause s' rest).map fun r => (r.1 + 1, r.2)

/-! ## 2. What one call does -/

/-- A breakpoint's condition is empty or evaluates truthy. -/
def Breakpoint.wants (bp : Breakpoint) : Bool := evaluateCondition truthy bp.condition

/-- The breakpoint the handler stops at: the first of the enabled ones that hit, when
breakpoints are active and it is wanted. -/
def hitBreakpoint (s : Session) (e : Event) : Option (Int × Breakpoint) :=
  if s.bpActive then (hitting host e.file e.line s.breakpoints).head? else none

/-- The decision of the handler on an event it looks at. -/
def verdict (s : Session) (e : Event) : Option Pause :=
  if s.pauseRequested then some ⟨.pauseRequest, 0⟩
  else if s.pauseOnStart then some ⟨.entry, 0⟩
  else match hitBreakpoint host s e with
    | some p => if p.2.wants truthy then some ⟨.breakpoint, p.1⟩ else none
    | none => if stepStops s s.stepMode e then some ⟨.step, 0⟩ else none

end

section

variable {host : Host} {truthy : Bytes → Bool}

theorem Event.handled_iff {e : Event} : e.handled = true ↔ e.filename ≠ none ∧ 0 < e.line := by
  simp [Event.handled, Option.isSome_iff_ne_none]

/-- The early return of the handler. -/
theorem Event.skipped_iff {e : Event} :
    (e.filename = none ∨ e.line ≤ 0) ↔ e.handled = false := by
  rw [Bool.eq_false_iff, ne_eq, Event.handled_iff, not_and_or, not_not, Int.not_lt]

/-- The two searches of the handler find `hitBreakpoint`. -/
theorem hitBreakpoint_eq_none {s : Session} {e : Event} :
    hitBreakpoint host s e = none ↔ checkBreakpoint host s e.file e.line = false := by
  rw [Bool.eq_false_iff, ne_eq, checkBreakpoint_iff, hitBreakpoint]
  cases s.bpActive <;> simp

theorem hitBreakpoint_eq_some {s : Session} {e : Event} {p : Int × Breakpoint}
    (h : hitBreakpoint host s e = some p) :
    checkBreakpoint host s e.file e.line = true ∧
      findBreakpoint host e.file e.line s.breakpoints = (p.1, p.2.condition) := by
  unfold hitBreakpoint at h
  split at h
  · rename_i hact
    obtain ⟨rest, hrest⟩ := List.head?_eq_some_iff.mp h
    refine ⟨checkBreakpoint_iff.mpr ⟨hact, by rw [hrest]; exact List.cons_ne_nil _ _⟩, ?_⟩
    rw [findBreakpoint_eq, hrest]
  · exact absurd h (by simp)

/-- What the handler's test of the condition found amounts to. -/
theorem wants_eq_false {bp : Breakpoint} :
    bp.wants truthy = false ↔
      bp.condition ≠ [] ∧ evaluateCondition truthy bp.condition = false := by
  unfold Breakpoint.wants evaluateCondition
  by_cases h : bp.condition = [] <;> simp [h]

/-- **The handler follows its verdict.**  On an event it looks at it tracks the frame and
then either returns or, with the flags of the reason cleared, pauses; any other event
leaves the session alone. -/
theorem debugTraceHandler_eq (s : Session) (e : Event) :
    debugTraceHandler host truthy s e =
      if s.enabled && e.handled then
        match verdict host truthy s e with
        | none => (s.track e, none)
        | some p => ((s.track e).stopFor p.reason, some p)
      else (s, none) := by
  cases hen : s.enabled with
  | false => simp [debugTraceHandler, hen]
  | true =>
    cases hh : e.handled with
    | false => simp [debugTraceHandler, Event.skipped_iff, hh]
    | true =>
      simp only [debugTraceHandler, verdict, hen, Event.skipped_iff, hh, Bool.not_true,
        Bool.false_eq_true, Bool.true_eq_false, if_false, Bool.and_self, if_true]
      -- the tests read the tracked session, the verdict the original: the fields agree
      simp only [Session.track_pauseRequested, Session.track_pauseOnStart, Session.track_stepMode,
        stepStops_track]
      by_cases hp : s.pauseRequested = true
      · simp only [hp, if_true]
      · simp only [hp, Bool.false_eq_true, if_false]
        by_cases ho : s.pauseOnStart = true
        · simp only [ho, if_true]
        · simp only [ho, Bool.false_eq_true, if_false]
          cases hhit : hitBreakpoint host s e with
          | none =>
            rw [checkBreakpoint_track, hitBreakpoint_eq_none.mp hhit, if_neg Bool.false_ne_true]
            by_cases hs : stepStops s s.stepMode e = true
            · simp only [hs, if_true]
            · simp only [hs, Bool.false_eq_true, if_false]
          | some p =>
            obtain ⟨hck, hfind⟩ := hitBreakpoint_eq_some hhit
            rw [checkBreakpoint_track, hck, Session.track_breakpoints, hfind, if_pos rfl]
            cases hw : p.2.wants truthy with
            | false =>
              rw [if_pos (wants_eq_false.mp hw)]
              simp only [hw, Bool.false_eq_true, if_false]
            | true =>
              rw [if_neg fun hc => by simp [wants_eq_false.mpr hc] at hw]
              simp only [hw, if_true]

/-- The pause of a call. -/
theorem debugTraceHandler_snd (s : Session) (e : Event) :
    (debugTraceHandler host truthy s e).2 =
      if s.enabled && e.handled then verdict host truthy s e else none := by
  rw [debugTraceHandler_eq]
  split
  · cases verdict host truthy s e <;> rfl
  · rfl

/-- A call that does not pause changes `frame_stack_` and nothing else, and not even that
when the event is not looked at. -/
theorem debugTraceHandler_of_none {s : Session} {e : Event}
    (h : (debugTraceHandler host truthy s e).2 = none) :
    debugTraceHandler host truthy s e =
      (if s.enabled && e.handled then s.track e else s, none) := by
  rw [debugTraceHandler_snd] at h
  rw [debugTraceHandler_eq]
  split
  · rename_i hl
    rw [if_pos hl] at h
    rw [h]
  · rfl

/-- A session that pauses is enabled, and the event is one that is looked at. -/
theorem enabled_of_pause {truthy : Bytes → Bool} {s : Session} {e : Event} {p : Pause}
    (h : (debugTraceHandler host truthy s e).2 = some p) :
    s.enabled = true ∧ e.handled = true ∧ (debugTraceHandler host truthy s e).1.enabled = true := by
  have hl : (s.enabled && e.handled) = true := by
    by_contra hc
    rw [debugTraceHandler_snd, if_neg hc] at h
    exact absurd h (by simp)
  have hv : verdict host truthy s e = some p := by rw [← h, debugTraceHandler_snd, if_pos hl]
  rw [debugTraceHandler_eq, if_pos hl, hv]
  obtain ⟨hen, hh⟩ := Bool.and_eq_true_iff.mp hl
  refine ⟨hen, hh, ?_⟩
  cases hreason : p.reason <;> simpa [Session.stopFor, hreason] using hen

end

/-! ## 3. Stopping on a breakpoint -/

section

variable (host : Host) (truthy : Bytes → Bool)

/-- The handler pauses with reason Breakpoint. -/
def StopsOnBreakpoint (s : Session) (e : Event) : Prop :=
  ∃ bpId, (debugTraceHandler host truthy s e).2 = some ⟨.breakpoint, bpId⟩

/-- Breakpoints are active, and some enabled one matches the event and has an empty or a
truthy condition. -/
def BreakpointWanted (s : Session) (e : Event) : Prop :=
  s.bpActive = true ∧
    ∃ p ∈ s.breakpoints, p.2.enabled = true ∧ p.2.hits host e.file e.line = true ∧
      p.2.wants truthy = true

/-- The event is one the handler looks at, and the lowest-numbered enabled breakpoint that
matches it has an empty or a truthy condition itself. -/
def Unmasked (s : Session) (e : Event) : Prop :=
  e.handled = true ∧
    ∀ p, (hitting host e.file e.line s.breakpoints).head? = some p → p.2.wants truthy = true

end

section

variable {host : Host} {truthy : Bytes → Bool}

theorem breakpointWanted_iff {s : Session} {e : Event} :
    BreakpointWanted host truthy s e ↔
      s.bpActive = true ∧
        ∃ p ∈ hitting host e.file e.line s.breakpoints, p.2.wants truthy = true := by
  simp only [BreakpointWanted, hitting, List.mem_filter, Bool.and_eq_true]
  constructor
  · rintro ⟨ha, p, hp, hen, hh, hw⟩
    exact ⟨ha, p, ⟨hp, hen, hh⟩, hw⟩
  · rintro ⟨ha, p, ⟨hp, hen, hh⟩, hw⟩
    exact ⟨ha, p, hp, hen, hh, hw⟩

/-- With no pause request and no entry pause pending, the handler stops on the breakpoint
`hitBreakpoint` when that one is wanted, and on no other. -/
theorem stopsOnBreakpoint_iff {s : Session} {e : Event} (hen : s.enabled = true)
    (hp : s.pauseRequested = false) (ho : s.pauseOnStart = false) :
    StopsOnBreakpoint host truthy s e ↔
      e.handled = true ∧ ∃ p, hitBreakpoint host s e = some p ∧ p.2.wants truthy = true := by
  unfold StopsOnBreakpoint
  rw [debugTraceHandler_snd, hen, Bool.true_and]
  cases hh : e.handled with
  | false => simp
  | true =>
    simp only [if_true, verdict, hp, ho, Bool.false_eq_true, if_false, true_and]
    cases hhit : hitBreakpoint host s e with
    | none => cases stepStops s s.stepMode e <;> simp
    | some p => cases hw : p.2.wants truthy <;> simp [hw]

/-- **A breakpoint stop is exact iff the breakpoint found first is not in the way.**  For
every table, event and assignment of truth values to conditions: the handler pauses with
reason Breakpoint exactly when an active, enabled, matching breakpoint wants it, if and only
if such a want implies that the event is looked at and the lowest-numbered matching
breakpoint wants it too. -/
theorem breakpoint_stop_exact_iff (s : Session) (e : Event) (hen : s.enabled = true)
    (hp : s.pauseRequested = false) (ho : s.pauseOnStart = false) :
    (StopsOnBreakpoint host truthy s e ↔ BreakpointWanted host truthy s e) ↔
      (BreakpointWanted host truthy s e → Unmasked host truthy s e) := by
  rw [stopsOnBreakpoint_iff hen hp ho, breakpointWanted_iff]
  unfold Unmasked hitBreakpoint
  cases hact : s.bpActive with
  | false => simp
  | true =>
    cases hl : hitting host e.file e.line s.breakpoints with
    | nil => simp
    | cons p rest =>
      constructor
      · -- the stop itself says that the first one wants it
        rintro h ⟨-, hw⟩
        obtain ⟨hh, q, hq, hqw⟩ := h.mpr ⟨rfl, hw⟩
        refine ⟨hh, fun q' hq' => ?_⟩
        simp only [if_true, List.head?_cons, Option.some.injEq] at hq hq'
        exact hq' ▸ hq ▸ hqw
      · intro h
        constructor
        · rintro ⟨-, q, hq, hqw⟩
          simp only [if_true, List.head?_cons, Option.some.injEq] at hq
          exact ⟨rfl, q, by simp [← hq], hqw⟩
        · intro hw
          obtain ⟨hh, hfirst⟩ := h hw
          exact ⟨hh, p, by simp, hfirst p (by simp)⟩

end

/-- Line 3 of `/a.js`. -/
def lineThree : Event where
  filename := some (ascii "/a.js")
  funcname := none
  line := 3
  col := 1
  depth := 1

/-- A breakpoint on line 3 of `/a.js`. -/
def breakpointOnLineThree (id : Int) (condition : Bytes) : Breakpoint where
  id := id
  url := ascii "/a.js"
  line := 3
  column := 0
  enabled := true
  isRegex := false
  condition := condition

/-- Breakpoint 1 with the condition `x`, and the unconditional breakpoint 2, on one line. -/
def maskedSession : Session :=
  { Session.new with
    enabled := true
    breakpoints := [(1, breakpointOnLineThree 1 (ascii "x")), (2, breakpointOnLineThree 2 [])] }

/-- The rule at that table, where `x` is falsy. -/
theorem breakpoint_stop_exact_iff_masked :
    (StopsOnBreakpoint posixHost (fun _ => false) maskedSession lineThree ↔
      BreakpointWanted posixHost (fun _ => false) maskedSession lineThree) ↔
    (BreakpointWanted posixHost (fun _ => false) maskedSession lineThree →
      Unmasked posixHost (fun _ => false) maskedSession lineThree) :=
  breakpoint_stop_exact_iff maskedSession lineThree rfl rfl rfl

/-- **The unconditional breakpoint is masked.**  Breakpoint 2 wants the stop and the session
does not pause, because breakpoint 1 is found first and its condition is falsy. -/
theorem masked_breakpoint_missed :
    maskedSession.enabled = true ∧ maskedSession.pauseRequested = false ∧
      maskedSession.pauseOnStart = false ∧
      ¬ (StopsOnBreakpoint posixHost (fun _ => false) maskedSession lineThree ↔
        BreakpointWanted posixHost (fun _ => false) maskedSession lineThree) := by
  refine ⟨rfl, rfl, rfl, fun h => ?_⟩
  have hwanted : BreakpointWanted posixHost (fun _ => false) maskedSession lineThree :=
    ⟨rfl, (2, breakpointOnLineThree 2 []), by simp [maskedSession], rfl, by decide, by decide⟩
  obtain ⟨id, hid⟩ := h.mpr hwanted
  have hnone : (debugTraceHandler posixHost (fun _ => false) maskedSession lineThree).2 = none := by
    decide
  rw [hnone] at hid
  exact absurd hid (by simp)

/-! ## 4. Stopping a step -/

section

variable (host : Host) (truthy : Bytes → Bool)

/-- The event is looked at, and unless a pause request or the entry pause takes it first,
the breakpoint found there, if any, is wanted. -/
def ReachesStepTest (s : Session) (e : Event) : Prop :=
  s.enabled = true ∧ e.handled = true ∧
    (s.pauseRequested = true ∨ s.pauseOnStart = true ∨
      ∀ p, hitBreakpoint host s e = some p → p.2.wants truthy = true)

end

section

variable {host : Host} {truthy : Bytes → Bool}

/-- **One statement.**  Where the stop test of the current step mode holds, the handler
pauses iff the statement is not swallowed by a breakpoint that does not fire. -/
theorem pauses_iff_reachesStepTest {s : Session} {e : Event}
    (hstop : stepStops s s.stepMode e = true) :
    (debugTraceHandler host truthy s e).2.isSome = true ↔ ReachesStepTest host truthy s e := by
  rw [debugTraceHandler_snd]
  unfold ReachesStepTest
  cases hen : s.enabled with
  | false => simp
  | true =>
    cases hh : e.handled with
    | false => simp
    | true =>
      simp only [Bool.and_self, if_true, true_and, verdict, hstop]
      cases hp : s.pauseRequested with
      | true => simp
      | false =>
        cases ho : s.pauseOnStart with
        | true => simp
        | false =>
          cases hhit : hitBreakpoint host s e with
          | none => simp
          | some p => cases hw : p.2.wants truthy <;> simp [hw]

end

end QjsDebug
