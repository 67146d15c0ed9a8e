/-
# Statements that run other statements

The handler is not the only one to run during a statement: the condition of a breakpoint is
evaluated in the middle of it, and while a pause captures its frames the getters of the objects it
describes run.  Their statements call the handler in their turn, before the outer call is at its
end.  A `Statement` is an event with all the code that the debugger may run for it, and `handle` is
`debug_trace_handler` with these calls inside.

* §1  `handle`, its verdict (`handle_eq`), and the statements without code inside, for which it is
      `debugTraceHandler` (`handle_plain`);
* §2  where a call stops does not depend on `frame_stack_` (`handle_snd`), a call that stops nowhere
      changes nothing else (`handle_of_none`), and the decision is the one of the atomic handler
      (`debugTraceHandler_snd_of_handle`).
-/
import QjsDebug.Session.Handler

namespace QjsDebug

/-! ## 1. The handler, with the calls inside -/

/-- One statement event, and what the debugger runs for it if it has to. -/
structure Statement where
  event : Event
  /-- The outcomes of conditions in the frame of the statement. -/
  truthy : Bytes → Bool
  /-- The statements that run while a condition is evaluated. -/
  condition : Bytes → List Statement
  /-- The statements that run while `capture_frames` describes the objects. -/
  captured : List Statement

/-- A statement with the statements inside it. -/
@[elab_as_elim]
theorem Statement.induction {motive : Statement → Prop}
    (step : ∀ x : Statement, (∀ expr, ∀ y ∈ x.condition expr, motive y) →
      (∀ y ∈ x.captured, motive y) → motive x) (x : Statement) : motive x := by
  refine Statement.rec (motive_1 := motive) (motive_2 := fun xs => ∀ y ∈ xs, motive y) ?_ ?_ ?_ x
  · intro event truthy condition captured hcondition hcaptured
    exact step ⟨event, truthy, condition, captured⟩ hcondition hcaptured
  · exact fun y hy => absurd hy List.not_mem_nil
  · intro x xs hx hxs
    exact List.forall_mem_cons.mpr ⟨hx, hxs⟩

/-- A property of the statement and of all the statements inside it. -/
inductive Statement.All (P : Event → (Bytes → Bool) → Prop) : Statement → Prop
  | mk {x : Statement} (here : P x.event x.truthy)
      (condition : ∀ expr, ∀ y ∈ x.condition expr, All P y)
      (captured : ∀ y ∈ x.captured, All P y) : All P x

/-- What code runs inside a statement. -/
inductive Work
  | condition (expr : Bytes)
  | capture
  deriving DecidableEq, Repr

/-- Where a statement stops: in `do_pause` of its own, or inside, so many statements into the code
that runs for it. -/
inductive Stop
  | here (pause : Pause)
  | inside (work : Work) (before : Nat) (stop : Stop)
  deriving DecidableEq, Repr

section

variable (host : Host)

/-- `do_pause` up to its waiting loop: `capture_frames` tracks the event and describes the objects,
then `paused_` is set. -/
def doPause (capture : Session → Session × Option (Nat × Stop)) (s : Session) (e : Event)
    (p : Pause) : Session × Option Stop :=
  match capture (s.track e) with
  | (s, some stop) => (s, some (.inside .capture stop.1 stop.2))
  | (s, none) => ({ s with paused := true }, some (.here p))

mutual

/-- `debug_trace_handler` with the calls it is made to inside: the session at its return, or at the
first `do_pause` that waits. -/
def handle : Statement → Session → Session × Option Stop
  | ⟨e, truthy, condition, captured⟩, s =>
    if !s.enabled then (s, none)
    else if e.filename = none ∨ e.line ≤ 0 then (s, none)
    else
      let s := s.track e
      let mode := s.stepMode
      if s.pauseRequested then
        doPause (handleAll captured) (s.stopFor .pauseRequest) e ⟨.pauseRequest, 0⟩
      else if s.pauseOnStart then doPause (handleAll captured) (s.stopFor .entry) e ⟨.entry, 0⟩
      else if checkBreakpoint host s e.file e.line then
        let bp := findBreakpoint host e.file e.line s.breakpoints
        -- `evaluate_condition` runs nothing for an empty text
        match (if bp.2 = [] then (s, none) else handleAll (condition bp.2) s) with
        | (s, some stop) => (s, some (.inside (.condition bp.2) stop.1 stop.2))
        | (s, none) =>
          if bp.2 ≠ [] ∧ evaluateCondition truthy bp.2 = false then (s, none)
          else doPause (handleAll captured) (s.stopFor .breakpoint) e ⟨.breakpoint, bp.1⟩
      else if stepStops s mode e then
        doPause (handleAll captured) (s.stopFor .step) e ⟨.step, 0⟩
      else (s, none)

/-- Statements one after the other, up to the first stop, with the number of those before it. -/
def handleAll : List Statement → Session → Session × Option (Nat × Stop)
  | [], s => (s, none)
  | x :: xs, s =>
    match handle x s with
    | (s, some stop) => (s, some (0, stop))
    | (s, none) => ((handleAll xs s).1, (handleAll xs s).2.map fun r => (r.1 + 1, r.2))

end

/-- Where a run first stops: at which statement, and where in it. -/
def firstStop (s : Session) (trace : List Statement) : Option (Nat × Stop) :=
  (handleAll host trace s).2

end

/-- The statements that `evaluate_condition` runs. -/
def Statement.code (x : Statement) (expr : Bytes) : List Statement :=
  if expr = [] then [] else x.condition expr

/-- How a pause begins: `inside` is where the capture stops, if it does. -/
def Stop.ofCapture (inside : Option (Nat × Stop)) (p : Pause) : Stop :=
  match inside with
  | some r => .inside .capture r.1 r.2
  | none => .here p

section

variable {host : Host}

/-- **The handler follows its verdict**, with the code that runs on the way. -/
theorem handle_eq (x : Statement) (s : Session) :
    handle host x s =
      if s.enabled && x.event.handled then
        if s.pauseRequested then
          doPause (handleAll host x.captured) ((s.track x.event).stopFor .pauseRequest) x.event
            ⟨.pauseRequest, 0⟩
        else if s.pauseOnStart then
          doPause (handleAll host x.captured) ((s.track x.event).stopFor .entry) x.event ⟨.entry, 0⟩
        else match hitBreakpoint host s x.event with
          | some p =>
            match handleAll host (x.code p.2.condition) (s.track x.event) with
            | (t, some stop) => (t, some (.inside (.condition p.2.condition) stop.1 stop.2))
            | (t, none) =>
              if p.2.wants x.truthy then
                doPause (handleAll host x.captured) (t.stopFor .breakpoint) x.event
                  ⟨.breakpoint, p.1⟩
              else (t, none)
          | none =>
            if stepStops s s.stepMode x.event then
              doPause (handleAll host x.captured) ((s.track x.event).stopFor .step) x.event
                ⟨.step, 0⟩
            else (s.track x.event, none)
      else (s, none) := by
  obtain ⟨e, truthy, condition, captured⟩ := x
  rw [handle]
  cases hen : s.enabled with
  | false => simp
  | true =>
    cases hh : e.handled with
    | false => simp [Event.skipped_iff, hh]
    | true =>
      simp only [Event.skipped_iff, hh, Bool.not_true, Bool.false_eq_true, Bool.true_eq_false,
        if_false, Bool.and_self, if_true, Session.track_pauseRequested,
        Session.track_pauseOnStart, Session.track_stepMode, stepStops_track]
      by_cases hp : s.pauseRequested = true
      · simp only [hp, if_true]
      · simp only [hp, Bool.false_eq_true, if_false]
        by_cases ho : s.pauseOnStart = true
        · simp only [ho, if_true]
        · simp only [ho, Bool.false_eq_true, if_false]
          cases hhit : hitBreakpoint host s e with
          | none =>
            rw [checkBreakpoint_track, hitBreakpoint_eq_none.mp hhit, if_neg Bool.false_ne_true]
            rfl
          | some p =>
            obtain ⟨hck, hfind⟩ := hitBreakpoint_eq_some hhit
            rw [checkBreakpoint_track, hck, Session.track_breakpoints, hfind, if_pos rfl]
            have hcode : (if p.2.condition = [] then (s.track e, none)
                else handleAll host (condition p.2.condition) (s.track e)) =
                handleAll host (Statement.code ⟨e, truthy, condition, captured⟩ p.2.condition)
                  (s.track e) := by
              unfold Statement.code
              split
              · rw [handleAll]
              · rfl
            simp only [hcode]
            split
            · rfl
            · rename_i t hrun
              cases hw : p.2.wants truthy with
              | false =>
                rw [if_pos (wants_eq_false.mp hw)]
                rfl
              | true =>
                rw [if_neg fun hc => by simp [wants_eq_false.mpr hc] at hw]
                rfl

/-- A statement for which no other one runs is the handler's call and no more. -/
theorem handle_plain {x : Statement} (hcondition : ∀ expr, x.condition expr = [])
    (hcaptured : x.captured = []) (s : Session) :
    handle host x s = match debugTraceHandler host x.truthy s x.event with
      | (t, none) => (t, none)
      | (t, some p) => (t.enterPause x.event, some (.here p)) := by
  have hcapture : ∀ t : Session, handleAll host x.captured t = (t, none) := by
    intro t
    rw [hcaptured, handleAll]
  have hevaluate : ∀ expr (t : Session), handleAll host (x.code expr) t = (t, none) := by
    intro expr t
    rw [Statement.code, hcondition, ite_self, handleAll]
  rw [handle_eq, debugTraceHandler_eq]
  unfold verdict doPause
  simp only [hcapture, hevaluate]
  cases s.enabled && x.event.handled with
  | false => rfl
  | true =>
    cases s.pauseRequested with
    | true => rfl
    | false =>
      cases s.pauseOnStart with
      | true => rfl
      | false =>
        cases hitBreakpoint host s x.event with
        | some p => cases hw : p.2.wants x.truthy <;> simp [hw, Session.enterPause]
        | none =>
          cases stepStops s s.stepMode x.event <;> simp [Session.enterPause]

/-- How a statement goes on with the breakpoint it has found: the code of the condition, then the
pause if it is wanted. -/
def Stop.atBreakpoint (expr : Bytes) (code : Option (Nat × Stop)) (wanted : Bool) (stop : Stop) :
    Option Stop :=
  match code with
  | some r => some (.inside (.condition expr) r.1 r.2)
  | none => if wanted then some stop else none

/-- Where a call stops, in terms of where the code inside does. -/
def stopOf (host : Host) (s : Session) (x : Statement) : Option Stop :=
  if s.enabled && x.event.handled then
    if s.pauseRequested then
      some (.ofCapture (firstStop host (s.stopFor .pauseRequest) x.captured) ⟨.pauseRequest, 0⟩)
    else if s.pauseOnStart then
      some (.ofCapture (firstStop host (s.stopFor .entry) x.captured) ⟨.entry, 0⟩)
    else match hitBreakpoint host s x.event with
      | some p =>
        Stop.atBreakpoint p.2.condition (firstStop host s (x.code p.2.condition))
          (p.2.wants x.truthy)
          (.ofCapture (firstStop host (s.stopFor .breakpoint) x.captured) ⟨.breakpoint, p.1⟩)
      | none =>
        if stepStops s s.stepMode x.event then
          some (.ofCapture (firstStop host (s.stopFor .step) x.captured) ⟨.step, 0⟩)
        else none
  else none

/-! ## 2. Only the stops count -/

/-- The session with another `frame_stack_`. -/
def Session.withFrames (s : Session) (frames : List FrameInfo) : Session :=
  { s with frameStack := frames }

theorem doPause_snd (capture : Session → Session × Option (Nat × Stop)) (s : Session) (e : Event)
    (p : Pause) :
    (doPause capture s e p).2 = some (.ofCapture (capture (s.track e)).2 p) := by
  unfold doPause
  split <;> rename_i heq <;> rw [heq] <;> rfl

theorem firstStop_nil (s : Session) : firstStop host s [] = none := by
  rw [firstStop, handleAll]

theorem handleAll_of_none_of_forall {xs : List Statement}
    (hx : ∀ x ∈ xs, ∀ s, (handle host x s).2 = none →
      ∃ frames, (handle host x s).1 = s.withFrames frames) :
    ∀ s, (handleAll host xs s).2 = none →
      ∃ frames, (handleAll host xs s).1 = s.withFrames frames := by
  induction xs with
  | nil =>
    intro s _
    rw [handleAll]
    exact ⟨s.frameStack, rfl⟩
  | cons x xs ih =>
    intro s h
    obtain ⟨hone, hrest⟩ := List.forall_mem_cons.mp hx
    rw [handleAll] at h ⊢
    split at h
    · exact absurd h (by simp)
    · rename_i t hrun
      obtain ⟨frames, ht⟩ := hone s (by rw [hrun])
      rw [hrun] at ht
      obtain ⟨frames', ht'⟩ := ih hrest t (Option.map_eq_none_iff.mp h)
      simp only at ht ⊢
      rw [ht', ht]
      exact ⟨frames', rfl⟩

theorem forall_mem_code {motive : Statement → Prop} {x : Statement}
    (h : ∀ expr, ∀ y ∈ x.condition expr, motive y) (expr : Bytes) :
    ∀ y ∈ x.code expr, motive y := by
  intro y hy
  unfold Statement.code at hy
  split at hy
  · exact absurd hy List.not_mem_nil
  · exact h _ y hy

/-- **A call that stops nowhere** changes `frame_stack_` and nothing else. -/
theorem handle_of_none (x : Statement) : ∀ s, (handle host x s).2 = none →
    ∃ frames, (handle host x s).1 = s.withFrames frames := by
  induction x using Statement.induction with
  | step x hcondition hcaptured =>
    intro s h
    have hpause : ∀ capture t p, (doPause capture t x.event p).2 ≠ none := by
      intro capture t p
      rw [doPause_snd]
      exact Option.some_ne_none _
    rw [handle_eq] at h ⊢
    split at h
    · split at h
      · exact absurd h (hpause _ _ _)
      · split at h
        · exact absurd h (hpause _ _ _)
        · rename_i hlook hreq hent
          rw [if_pos hlook, if_neg hreq, if_neg hent]
          cases hhit : hitBreakpoint host s x.event with
          | none =>
            rw [hhit] at h
            simp only at h ⊢
            split at h
            · exact absurd h (hpause _ _ _)
            · rename_i hstop
              rw [if_neg hstop]
              exact ⟨_, rfl⟩
          | some p =>
            rw [hhit] at h
            simp only at h ⊢
            split at h
            · exact absurd h (by simp)
            · rename_i t hrun
              split at h
              · exact absurd h (hpause _ _ _)
              · rename_i hwants
                obtain ⟨frames, ht⟩ := handleAll_of_none_of_forall
                  (forall_mem_code hcondition p.2.condition) (s.track x.event) (by rw [hrun])
                rw [hrun] at ht
                simp only at ht
                rw [if_neg hwants, ht]
                exact ⟨frames, rfl⟩
    · rename_i hlook
      rw [if_neg hlook]
      exact ⟨s.frameStack, rfl⟩

theorem handleAll_of_none (xs : List Statement) (s : Session)
    (h : (handleAll host xs s).2 = none) :
    ∃ frames, (handleAll host xs s).1 = s.withFrames frames :=
  handleAll_of_none_of_forall (fun x _ => handle_of_none x) s h

/-- Statements whose stops do not depend on `frame_stack_`, one after the other. -/
theorem firstStop_withFrames_of_forall {xs : List Statement}
    (hx : ∀ x ∈ xs, ∀ s frames, (handle host x (s.withFrames frames)).2 = (handle host x s).2) :
    ∀ s frames, firstStop host (s.withFrames frames) xs = firstStop host s xs := by
  induction xs with
  | nil =>
    intro s frames
    rw [firstStop_nil, firstStop_nil]
  | cons x xs ih =>
    intro s frames
    obtain ⟨hone, hrest⟩ := List.forall_mem_cons.mp hx
    have hsame := hone s frames
    unfold firstStop at ih ⊢
    rw [handleAll, handleAll]
    cases hstop : (handle host x s).2 with
    | some stop =>
      rw [hstop] at hsame
      rw [← Prod.eta (handle host x s), ← Prod.eta (handle host x (s.withFrames frames)), hstop,
        hsame]
    | none =>
      rw [hstop] at hsame
      obtain ⟨f, hf⟩ := handle_of_none x s hstop
      obtain ⟨f', hf'⟩ := handle_of_none x (s.withFrames frames) hsame
      rw [← Prod.eta (handle host x s), ← Prod.eta (handle host x (s.withFrames frames)), hstop,
        hsame, hf, hf']
      have hagain : (s.withFrames frames).withFrames f' = s.withFrames f' := rfl
      simp only
      rw [hagain, ih hrest s f, ih hrest s f']

/-- Where a pause begins, whatever the frames of the stack were. -/
theorem doPause_snd_of_forall {xs : List Statement}
    (hx : ∀ x ∈ xs, ∀ s frames, (handle host x (s.withFrames frames)).2 = (handle host x s).2)
    (s : Session) (frames : List FrameInfo) (e : Event) (p : Pause) :
    (doPause (handleAll host xs) (s.withFrames frames) e p).2 =
      some (.ofCapture (firstStop host s xs) p) := by
  rw [doPause_snd]
  have hframes := firstStop_withFrames_of_forall hx s (trackFrames frames e)
  rw [← hframes]
  rfl

/-- A call stops where the code inside does, on any frame stack. -/
theorem handle_snd_withFrames {x : Statement}
    (hcode : ∀ expr, ∀ y ∈ x.code expr, ∀ s frames,
      (handle host y (s.withFrames frames)).2 = (handle host y s).2)
    (hcaptured : ∀ y ∈ x.captured, ∀ s frames,
      (handle host y (s.withFrames frames)).2 = (handle host y s).2)
    (s : Session) (frames : List FrameInfo) :
    (handle host x (s.withFrames frames)).2 = stopOf host s x := by
  have hpause : ∀ reason f p,
      (doPause (handleAll host x.captured) ((s.withFrames f).stopFor reason) x.event p).2 =
        some (.ofCapture (firstStop host (s.stopFor reason) x.captured) p) := by
    intro reason f p
    have hcomm : (s.withFrames f).stopFor reason = (s.stopFor reason).withFrames f := by
      cases reason <;> rfl
    rw [hcomm]
    exact doPause_snd_of_forall hcaptured _ f x.event p
  have htrack : (s.withFrames frames).track x.event =
      s.withFrames (trackFrames frames x.event) := rfl
  have hhit : hitBreakpoint host (s.withFrames frames) x.event = hitBreakpoint host s x.event := rfl
  have hsteps : stepStops (s.withFrames frames) (s.withFrames frames).stepMode x.event =
      stepStops s s.stepMode x.event := rfl
  have hen : (s.withFrames frames).enabled = s.enabled := rfl
  have hreq : (s.withFrames frames).pauseRequested = s.pauseRequested := rfl
  have hent : (s.withFrames frames).pauseOnStart = s.pauseOnStart := rfl
  rw [handle_eq, htrack, hhit, hsteps, hen, hreq, hent]
  unfold stopOf Stop.atBreakpoint
  cases s.enabled && x.event.handled with
  | false => rfl
  | true =>
    simp only [if_true]
    cases s.pauseRequested with
    | true => exact hpause _ _ _
    | false =>
      cases s.pauseOnStart with
      | true => exact hpause _ _ _
      | false =>
        simp only [Bool.false_eq_true, if_false]
        cases hitBreakpoint host s x.event with
        | none =>
          simp only
          split
          · exact hpause _ _ _
          · rfl
        | some p =>
          simp only
          have hfirst := firstStop_withFrames_of_forall (hcode p.2.condition) s
            (trackFrames frames x.event)
          rw [← hfirst]
          cases hrun : firstStop host (s.withFrames (trackFrames frames x.event))
              (x.code p.2.condition) with
          | some r =>
            unfold firstStop at hrun
            rw [← Prod.eta (handleAll host (x.code p.2.condition) _), hrun]
          | none =>
            unfold firstStop at hrun
            obtain ⟨f, hf⟩ := handleAll_of_none _ _ hrun
            rw [← Prod.eta (handleAll host (x.code p.2.condition) _), hrun, hf]
            simp only
            split
            · exact hpause _ _ _
            · rfl

/-- **Where a call stops does not depend on `frame_stack_`.** -/
theorem handle_withFrames (x : Statement) : ∀ s frames,
    (handle host x (s.withFrames frames)).2 = (handle host x s).2 := by
  induction x using Statement.induction with
  | step x hcondition hcaptured =>
    intro s frames
    have hboth := handle_snd_withFrames (forall_mem_code hcondition) hcaptured s
    exact (hboth frames).trans (hboth s.frameStack).symm

/-- **Where a call stops**, and the calls inside it. -/
theorem handle_snd (x : Statement) (s : Session) : (handle host x s).2 = stopOf host s x :=
  handle_snd_withFrames (fun _ y _ => handle_withFrames y) (fun y _ => handle_withFrames y) s
    s.frameStack

/-- **A run stops where its first statement does, or else where the rest does.** -/
theorem firstStop_cons (x : Statement) (xs : List Statement) (s : Session) :
    firstStop host s (x :: xs) = match (handle host x s).2 with
      | some stop => some (0, stop)
      | none => (firstStop host s xs).map fun r => (r.1 + 1, r.2) := by
  have hrun : firstStop host s (x :: xs) = match handle host x s with
      | (_, some stop) => some (0, stop)
      | (t, none) => (firstStop host t xs).map fun r => (r.1 + 1, r.2) := by
    unfold firstStop
    rw [handleAll]
    split <;> rfl
  rw [hrun]
  cases hstop : (handle host x s).2 with
  | some stop => rw [← Prod.eta (handle host x s), hstop]
  | none =>
    obtain ⟨frames, hframes⟩ := handle_of_none x s hstop
    rw [← Prod.eta (handle host x s), hstop, hframes]
    simp only
    rw [firstStop_withFrames_of_forall fun y _ => handle_withFrames y]

/-- **The decision is the atomic handler's**: a call that stops nowhere has decided to return, and
one that comes to the waiting loop of its own pause has decided on that pause. -/
theorem debugTraceHandler_snd_of_handle (x : Statement) (s : Session) :
    ((handle host x s).2 = none → (debugTraceHandler host x.truthy s x.event).2 = none) ∧
      ∀ p, (handle host x s).2 = some (.here p) →
        (debugTraceHandler host x.truthy s x.event).2 = some p := by
  have hcapture : ∀ (inside : Option (Nat × Stop)) (p : Pause),
      (some (Stop.ofCapture inside p) = none → some p = none) ∧
        ∀ q, some (Stop.ofCapture inside p) = some (.here q) → some p = some q := by
    intro inside p
    refine ⟨fun h => absurd h (Option.some_ne_none _), fun q h => ?_⟩
    cases inside with
    | none => exact congrArg some (Stop.here.inj (Option.some.inj h))
    | some r => exact Stop.noConfusion (Option.some.inj h)
  have hreturn : ((none : Option Stop) = none → (none : Option Pause) = none) ∧
      ∀ q, none = some (Stop.here q) → (none : Option Pause) = some q :=
    ⟨fun _ => rfl, fun q h => absurd h.symm (Option.some_ne_none _)⟩
  rw [handle_snd, debugTraceHandler_snd]
  unfold stopOf verdict Stop.atBreakpoint
  split
  · split
    · exact hcapture _ _
    · split
      · exact hcapture _ _
      · cases hitBreakpoint host s x.event with
        | none =>
          simp only
          split
          · exact hcapture _ _
          · exact hreturn
        | some q =>
          simp only
          cases firstStop host s (x.code q.2.condition) with
          | some r =>
            exact ⟨fun h => absurd h (Option.some_ne_none _),
              fun p h => Stop.noConfusion (Option.some.inj h)⟩
          | none =>
            simp only
            split
            · exact hcapture _ _
            · exact hreturn
  · exact hreturn

end

/-- A statement for which no other code runs, and in whose frame every condition is falsy. -/
def Statement.plain (e : Event) : Statement where
  event := e
  truthy := fun _ => false
  condition := fun _ => []
  captured := []

end QjsDebug
