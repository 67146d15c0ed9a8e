/-
# The state of a debug session

The control state of `DebugSession`: the fields its handler and its command methods branch
on.  Scripts and captured values are not part of it, because no decision reads them.

A statement event (`Event`) is one call of the engine's OP_debug callback together with the
`JS_GetStackDepth` it would answer at that moment.  `frame_stack_` is kept innermost frame
first, so that its `back()` is the head of the list.
-/
import QjsDebug.Basic
import QjsDebug.Json.Value

namespace QjsDebug

/-- `FrameInfo`, with the default member values of the header. -/
structure FrameInfo where
  filename : Bytes := []
  funcname : Bytes := []
  line : Int := 0
  col : Int := 0
  deriving DecidableEq, Repr

/-- `Breakpoint`. -/
structure Breakpoint where
  id : Int
  url : Bytes
  line : Int
  column : Int
  enabled : Bool
  isRegex : Bool
  condition : Bytes
  deriving DecidableEq, Repr

/-- `PauseReason`. -/
inductive PauseReason
  | breakpoint
  | step
  | pauseRequest
  | entry
  deriving DecidableEq, Repr

/-- `DebugSession::StepMode`. -/
inductive StepMode
  | none
  | «continue»
  | over
  | into
  | out
  | pause
  deriving DecidableEq, Repr

/-- `DebugSession::EvalRequest`.  `id` tells the requests of a run apart; the code tells
them apart by their address. -/
structure EvalRequest where
  id : Nat
  callFrameId : Bytes
  expression : Bytes
  result : Json.Value
  ready : Bool

/-- One call of the debug trace callback: its arguments, and the stack depth the engine
reports during the call. -/
structure Event where
  filename : Option Bytes
  funcname : Option Bytes
  line : Int
  col : Int
  depth : Nat
  deriving DecidableEq, Repr

/-- The file of the event, `""` for a null pointer. -/
def Event.file (e : Event) : Bytes := e.filename.getD []

/-- The control state of a `DebugSession`. -/
structure Session where
  breakpoints : List (Int × Breakpoint)
  nextBpId : Int
  bpActive : Bool
  enabled : Bool
  paused : Bool
  stepMode : StepMode
  pauseRequested : Bool
  stepStartDepth : Nat
  stepStartFile : Bytes
  stepStartLine : Int
  frameStack : List FrameInfo
  pauseOnStart : Bool
  waiting : Bool
  /-- `pending_eval_`: null, or the request it points at. -/
  pendingEval : Option EvalRequest

/-- A freshly constructed session (the default member initialisers). -/
def Session.new : Session where
  breakpoints := []
  nextBpId := 1
  bpActive := true
  enabled := false
  paused := false
  stepMode := .none
  pauseRequested := false
  stepStartDepth := 0
  stepStartFile := []
  stepStartLine := 0
  frameStack := []
  pauseOnStart := false
  waiting := false
  pendingEval := none

/-! ## Frame tracking -/

/-- The two `while` loops that `debug_trace_handler` and `capture_frames` share: pop down or
push blank frames until there are `depth` of them. -/
def resizeFrames (frames : List FrameInfo) (depth : Nat) : List FrameInfo :=
  let kept := frames.drop (frames.length - depth)
  List.replicate (depth - kept.length) ({} : FrameInfo) ++ kept

/-- What an event tells about the innermost frame. -/
def Event.frame (e : Event) : FrameInfo where
  filename := e.file
  funcname := e.funcname.getD []
  line := e.line
  col := e.col

/-- The update of `frame_stack_` on an event: resize, then write the event to `back()`. -/
def trackFrames (frames : List FrameInfo) (e : Event) : List FrameInfo :=
  match resizeFrames frames e.depth with
  | [] => []
  | _ :: callers => e.frame :: callers

@[simp] theorem length_resizeFrames (frames : List FrameInfo) (depth : Nat) :
    (resizeFrames frames depth).length = depth := by
  simp only [resizeFrames, List.length_append, List.length_replicate, List.length_drop]
  omega

/-- Past its first entry the tracked stack is the resized one. -/
theorem trackFrames_eq (frames : List FrameInfo) (e : Event) (h : 0 < e.depth) :
    trackFrames frames e = e.frame :: (resizeFrames frames e.depth).tail := by
  have hlen := length_resizeFrames frames e.depth
  unfold trackFrames
  cases hr : resizeFrames frames e.depth with
  | nil => rw [hr] at hlen; simp at hlen; omega
  | cons _ callers => rfl

@[simp] theorem length_trackFrames (frames : List FrameInfo) (e : Event) :
    (trackFrames frames e).length = e.depth := by
  have hlen := length_resizeFrames frames e.depth
  unfold trackFrames
  split
  · rename_i heq; rw [heq] at hlen; exact hlen
  · rename_i heq; rw [heq] at hlen; exact hlen

/-- `frame_stack_` brought up to date with an event. -/
def Session.track (s : Session) (e : Event) : Session :=
  { s with frameStack := trackFrames s.frameStack e }

@[simp] theorem Session.track_frameStack (s : Session) (e : Event) :
    (s.track e).frameStack = trackFrames s.frameStack e := rfl
@[simp] theorem Session.track_enabled (s : Session) (e : Event) :
    (s.track e).enabled = s.enabled := rfl
@[simp] theorem Session.track_stepMode (s : Session) (e : Event) :
    (s.track e).stepMode = s.stepMode := rfl
@[simp] theorem Session.track_pauseRequested (s : Session) (e : Event) :
    (s.track e).pauseRequested = s.pauseRequested := rfl
@[simp] theorem Session.track_pauseOnStart (s : Session) (e : Event) :
    (s.track e).pauseOnStart = s.pauseOnStart := rfl
@[simp] theorem Session.track_breakpoints (s : Session) (e : Event) :
    (s.track e).breakpoints = s.breakpoints := rfl

/-! ## Commands -/

/-- `resume`, up to the wake-up. -/
def Session.resume (s : Session) : Session :=
  { s with stepMode := .«continue», pauseRequested := false, paused := false }

/-- `request_pause`. -/
def Session.requestPause (s : Session) : Session := { s with pauseRequested := true }

/-- `run_if_waiting`, up to the wake-up. -/
def Session.runIfWaiting (s : Session) : Session :=
  { s with stepMode := .«continue», waiting := false }

/-- `set_enabled`. -/
def Session.setEnabled (s : Session) (v : Bool) : Session := { s with enabled := v }

/-- Where a step command starts from: the depth, line and file it reads off `frame_stack_`. -/
def Session.recordStart (s : Session) : Session :=
  { s with
    stepStartDepth := s.frameStack.length
    stepStartLine := (s.frameStack.head?.map FrameInfo.line).getD 0
    stepStartFile := (s.frameStack.head?.map FrameInfo.filename).getD [] }

/-- The part of `step_over`, `step_into` and `step_out` before the wake-up. -/
def Session.stepWith (mode : StepMode) (s : Session) : Session :=
  { s.recordStart with stepMode := mode, pauseRequested := false, paused := false }

def Session.stepOver (s : Session) : Session := s.stepWith .over
def Session.stepInto (s : Session) : Session := s.stepWith .into
def Session.stepOut (s : Session) : Session := s.stepWith .out

/-- The stop test of the step modes, the `switch (mode)` of `debug_trace_handler`. -/
def stepStops (s : Session) (mode : StepMode) (e : Event) : Bool :=
  let moved := decide (e.line ≠ s.stepStartLine) || (e.filename.isSome && s.stepStartFile != e.file)
  match mode with
  | .into => moved
  | .over => decide (e.depth ≤ s.stepStartDepth) && moved
  | .out => decide (e.depth < s.stepStartDepth)
  | .none | .«continue» | .pause => false

/-- Tracking does not move the start of a step. -/
@[simp] theorem stepStops_track (s : Session) (mode : StepMode) (e e' : Event) :
    stepStops (s.track e') mode e = stepStops s mode e := rfl

end QjsDebug
