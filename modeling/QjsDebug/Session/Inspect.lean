/-
# Inspecting a paused session

A pause runs script code twice.  `capture_frames` converts what the frames and the global object
hold, and trips over getters; and while `do_pause` waits it serves `evaluateOnCallFrame` and
`getProperties`, and serving an evaluation may run `JS_Eval` and more getters.  Every statement that
runs calls the trace handler, and the handler updates `frame_stack_` before it decides anything.

The step commands issued later read their start position off `frame_stack_`.  So the question
whether inspecting disturbs stepping is the question whether a statement that the handler looks at
ran in between, and the answer is exactly that (`inspection_undisturbed_iff`).
-/
import QjsDebug.Conversions
import QjsDebug.Session.Nested

namespace QjsDebug

/-! ## 1. A pause and its requests -/

/-- The client requests that read a paused session. -/
inductive Request
  | getProperties (objectId : Bytes)
  | evaluateOnCallFrame (callFrameId expression : Bytes)

/-- What the engine does for the debugger while a pause waits. -/
structure Engine where
  /-- The names `JS_GetLocalVariablesAtLevel` reports at a level. -/
  locals : Int → List Bytes
  /-- The statements that run while a local's value is converted. -/
  convertLocal : Int → Bytes → List Statement
  /-- The statements that run while `JS_Eval` runs an expression and its result is converted. -/
  eval : Bytes → List Statement

/-- The level of a `callFrameId`: `std::stoi`, and 0 when that throws. -/
def frameLevel (callFrameId : Bytes) : Int := (stoi callFrameId).toOption.getD 0

/-- The statements that run while `do_pause` serves a request: a local of the frame is looked
up first, and the global evaluation is the fallback. -/
def Engine.statements (engine : Engine) : Request → List Statement
  | .getProperties _ => []
  | .evaluateOnCallFrame callFrameId expression =>
    let level := frameLevel callFrameId
    if expression ∈ engine.locals level then engine.convertLocal level expression
    else engine.eval expression

section

variable (host : Host) (engine : Engine)

/-- The statements that a capture runs, for a pause at that depth.  One of them may stop.  The
client deals with that pause before this one begins, and may do so in any way; but what runs then
runs above the frames of this pause, so `frame_stack_` is left deeper than they are. -/
inductive Captures (depth : Nat) : Session → List Statement → Session → Prop
  | nil (s : Session) : Captures depth s [] s
  | passed {s s' t : Session} {x : Statement} {xs : List Statement}
      (run : handle host x s = (s', none)) (rest : Captures depth s' xs t) :
      Captures depth s (x :: xs) t
  | stopped {s s' t : Session} {x : Statement} {xs : List Statement}
      (stop : (handle host x s).2.isSome = true) (above : depth < s'.frameStack.length)
      (rest : Captures depth s' xs t) : Captures depth s (x :: xs) t

/-- A `do_pause`, called in the session `s` for the event, waits in the session `t`. -/
def Waits (s : Session) (e : Event) (captured : List Statement) (t : Session) : Prop :=
  ∃ u, Captures host e.depth (s.track e) captured u ∧ t = { u with paused := true }

/-- A statement that runs during a pause.  A nested `do_pause` would lock `pause_mutex_`,
which the waiting one holds, and never return: `none`. -/
def nestedStatement (s : Session) (x : Statement) : Option Session :=
  match handle host x s with
  | (s', none) => some s'
  | (_, some _) => none

/-- Serve one request. -/
def serve (s : Session) (r : Request) : Option Session :=
  (engine.statements r).foldlM (nestedStatement host) s

/-- Serve a sequence of requests. -/
def serveAll (s : Session) (rs : List Request) : Option Session := rs.foldlM (serve host engine) s

/-- After the requests each step command starts from the position of the event the session
paused at, and every later trace first stops where it does without the requests. -/
def Undisturbed (s : Session) (e : Event) (rs : List Request) : Prop :=
  ∃ s', serveAll host engine s rs = some s' ∧
    ∀ step ∈ [Session.stepOver, Session.stepInto, Session.stepOut],
      (step s').stepStartDepth = e.depth ∧ (step s').stepStartLine = e.line ∧
      (step s').stepStartFile = e.file ∧
      ∀ trace : List Statement, firstStop host (step s') trace = firstStop host (step s) trace

end

/-- **The pauses of the handler** wait in this way. -/
theorem waits_of_handle {host : Host} {x : Statement} {s t : Session} {p : Pause}
    (h : handle host x s = (t, some (.here p))) : ∃ u, Waits host u x.event x.captured t := by
  have hall : ∀ (xs : List Statement) (u v : Session), handleAll host xs u = (v, none) →
      Captures host x.event.depth u xs v := by
    intro xs
    induction xs with
    | nil =>
      intro u v huv
      rw [handleAll] at huv
      obtain ⟨rfl, -⟩ := Prod.mk.inj huv
      exact .nil u
    | cons y ys ih =>
      intro u v huv
      rw [handleAll] at huv
      split at huv
      · exact absurd (Prod.mk.inj huv).2 (by simp)
      · rename_i w hw
        obtain ⟨hv, hnone⟩ := Prod.mk.inj huv
        refine .passed hw (ih w v (Prod.ext hv (Option.map_eq_none_iff.mp hnone)))
  have hpause : ∀ (u : Session) (q : Pause),
      doPause (handleAll host x.captured) u x.event q = (t, some (.here p)) →
        ∃ u, Waits host u x.event x.captured t := by
    intro u q hu
    unfold doPause at hu
    split at hu
    · exact Stop.noConfusion (Option.some.inj (Prod.mk.inj hu).2)
    · rename_i v hv
      exact ⟨u, v, hall _ _ _ hv, (Prod.mk.inj hu).1.symm⟩
  rw [handle_eq] at h
  split at h
  · split at h
    · exact hpause _ _ h
    · split at h
      · exact hpause _ _ h
      · split at h
        · split at h
          · exact Stop.noConfusion (Option.some.inj (Prod.mk.inj h).2)
          · split at h
            · exact hpause _ _ h
            · exact absurd (Prod.mk.inj h).2 (by simp)
        · split at h
          · exact hpause _ _ h
          · exact absurd (Prod.mk.inj h).2 (by simp)
  · exact absurd (Prod.mk.inj h).2 (by simp)

/-! ## 2. What a statement does to the frame stack -/

section

variable {host : Host} {engine : Engine}

/-- A statement the handler does not look at leaves the session alone. -/
theorem handle_of_not_looked {x : Statement} {s : Session}
    (h : (s.enabled && x.event.handled) = false) : handle host x s = (s, none) := by
  rw [handle_eq, h, if_neg Bool.false_ne_true]

theorem lt_length_track {d : Nat} {e : Event} (h : d < e.depth) (s : Session) :
    d < (s.track e).frameStack.length := by
  rw [Session.track_frameStack, length_trackFrames]
  exact h

/-- A pause on top of `d` frames leaves the stack there. -/
theorem lt_length_doPause {d : Nat} {e : Event} (h : d < e.depth)
    {capture : Session → Session × Option (Nat × Stop)}
    (hcapture : ∀ s, d < s.frameStack.length → d < (capture s).1.frameStack.length) (s : Session)
    (p : Pause) : d < (doPause capture s e p).1.frameStack.length := by
  have hlt := hcapture (s.track e) (lt_length_track h s)
  unfold doPause
  split <;> rename_i heq <;> rw [heq] at hlt <;> exact hlt

theorem lt_length_handleAll_of_forall {d : Nat} {xs : List Statement}
    (hx : ∀ x ∈ xs, ∀ s, d < s.frameStack.length → d < (handle host x s).1.frameStack.length) :
    ∀ s, d < s.frameStack.length → d < (handleAll host xs s).1.frameStack.length := by
  induction xs with
  | nil =>
    intro s h
    rw [handleAll]
    exact h
  | cons x xs ih =>
    intro s h
    obtain ⟨hone, hrest⟩ := List.forall_mem_cons.mp hx
    have hlt := hone s h
    rw [handleAll]
    split <;> rename_i heq <;> rw [heq] at hlt
    · exact hlt
    · exact ih hrest _ hlt

/-- A statement that is looked at leaves `frame_stack_` above `d`, if it runs above `d` and so does
the code inside it. -/
theorem lt_length_handle_of_looked {d : Nat} {x : Statement} (hdepth : d < x.event.depth)
    (hcode : ∀ expr, ∀ y ∈ x.code expr, ∀ s, d < s.frameStack.length →
      d < (handle host y s).1.frameStack.length)
    (hcaptured : ∀ y ∈ x.captured, ∀ s, d < s.frameStack.length →
      d < (handle host y s).1.frameStack.length)
    {s : Session} (hlook : (s.enabled && x.event.handled) = true) :
    d < (handle host x s).1.frameStack.length := by
  have hpause := lt_length_doPause hdepth (lt_length_handleAll_of_forall hcaptured)
  rw [handle_eq, if_pos hlook]
  split
  · exact hpause _ _
  · split
    · exact hpause _ _
    · split
      · rename_i p _
        have hrun := lt_length_handleAll_of_forall (hcode p.2.condition) (s.track x.event)
          (lt_length_track hdepth s)
        split <;> rename_i heq <;> rw [heq] at hrun
        · exact hrun
        · split
          · exact hpause _ _
          · exact hrun
      · split
        · exact hpause _ _
        · exact lt_length_track hdepth s

/-- **The stack stays on top.**  Once it is deeper than `d`, statements that run deeper than
`d` keep it there. -/
theorem lt_length_handle {d : Nat} {x : Statement} (hx : x.All fun e _ => d < e.depth) :
    ∀ s, d < s.frameStack.length → d < (handle host x s).1.frameStack.length := by
  induction x using Statement.induction with
  | step x hcondition hcaptured =>
    intro s h
    cases hx with
    | mk hdepth hallCondition hallCaptured =>
      have hcode := forall_mem_code fun expr y hy => hcondition expr y hy (hallCondition expr y hy)
      cases hlook : s.enabled && x.event.handled with
      | true =>
        exact lt_length_handle_of_looked hdepth hcode
          (fun y hy => hcaptured y hy (hallCaptured y hy)) hlook
      | false =>
        rw [handle_of_not_looked hlook]
        exact h

/-- ... and a statement that is looked at puts it there. -/
theorem Statement.All.lt_length_of_looked {d : Nat} {x : Statement}
    (hx : x.All fun e _ => d < e.depth) {s : Session}
    (hlook : (s.enabled && x.event.handled) = true) :
    d < (handle host x s).1.frameStack.length := by
  cases hx with
  | mk hdepth hcondition hcaptured =>
    exact lt_length_handle_of_looked hdepth
      (forall_mem_code fun expr y hy => lt_length_handle (hcondition expr y hy))
      (fun y hy => lt_length_handle (hcaptured y hy)) hlook

/-- **A capture** in which a statement is looked at leaves the stack too deep, -/
theorem Captures.lt_length {d : Nat} {s t : Session} {xs : List Statement}
    (h : Captures host d s xs t) (htop : ∀ x ∈ xs, x.All fun e _ => d < e.depth)
    (hd : d < s.frameStack.length ∨ ∃ x ∈ xs, (s.enabled && x.event.handled) = true) :
    d < t.frameStack.length := by
  induction h with
  | nil s => exact hd.elim id fun ⟨x, hx, _⟩ => absurd hx List.not_mem_nil
  | @passed s s' t x xs run rest ih =>
    obtain ⟨hone, hrest⟩ := List.forall_mem_cons.mp htop
    refine ih hrest ?_
    cases hlook : s.enabled && x.event.handled with
    | true =>
      have hlt := @Statement.All.lt_length_of_looked host d x hone s hlook
      rw [run] at hlt
      exact .inl hlt
    | false =>
      rw [handle_of_not_looked hlook] at run
      obtain ⟨rfl, -⟩ := Prod.mk.inj run
      refine hd.imp id ?_
      rintro ⟨y, hy, hlooked⟩
      rcases List.mem_cons.mp hy with rfl | hy
      · rw [hlook] at hlooked
        exact absurd hlooked Bool.false_ne_true
      · exact ⟨y, hy, hlooked⟩
  | stopped _ above _ ih => exact ih (List.forall_mem_cons.mp htop).2 (.inl above)

/-- ... and one in which none is looked at is invisible. -/
theorem Captures.eq_of_not_looked {d : Nat} {s t : Session} {xs : List Statement}
    (h : Captures host d s xs t) (hquiet : ∀ x ∈ xs, (s.enabled && x.event.handled) = false) :
    t = s := by
  induction h with
  | nil s => rfl
  | passed run _ ih =>
    obtain ⟨hone, hrest⟩ := List.forall_mem_cons.mp hquiet
    rw [handle_of_not_looked hone] at run
    obtain ⟨rfl, -⟩ := Prod.mk.inj run
    exact ih hrest
  | stopped stop _ _ _ =>
    rw [handle_of_not_looked (List.forall_mem_cons.mp hquiet).1] at stop
    exact absurd stop Bool.false_ne_true

/-- Requests that are answered run their statements in the same way, without a stop. -/
theorem captures_of_foldlM {d : Nat} {xs : List Statement} {s t : Session}
    (h : xs.foldlM (nestedStatement host) s = some t) : Captures host d s xs t := by
  induction xs generalizing s with
  | nil =>
    obtain rfl := Option.some.inj h
    exact .nil s
  | cons x xs ih =>
    rw [List.foldlM_cons] at h
    obtain ⟨s', hs', hrest⟩ := Option.bind_eq_some_iff.mp h
    unfold nestedStatement at hs'
    split at hs'
    · rename_i heq
      obtain rfl := Option.some.inj hs'
      exact .passed heq (ih hrest)
    · exact absurd hs' (by simp)

theorem foldlM_nestedStatement_of_not_looked {xs : List Statement} {s : Session}
    (h : ∀ x ∈ xs, (s.enabled && x.event.handled) = false) :
    xs.foldlM (nestedStatement host) s = some s := by
  induction xs with
  | nil => rfl
  | cons x xs ih =>
    obtain ⟨hone, hrest⟩ := List.forall_mem_cons.mp h
    have hx : nestedStatement host s x = some s := by
      rw [nestedStatement, handle_of_not_looked hone]
    rw [List.foldlM_cons, hx]
    exact ih hrest

/-- The statements of a sequence of requests, one after the other. -/
theorem serveAll_eq (s : Session) (rs : List Request) :
    serveAll host engine s rs = (rs.flatMap engine.statements).foldlM (nestedStatement host) s := by
  induction rs generalizing s with
  | nil => rfl
  | cons r rs ih =>
    rw [List.flatMap_cons, List.foldlM_append]
    simp only [serveAll, List.foldlM_cons, serve] at ih ⊢
    cases (engine.statements r).foldlM (nestedStatement host) s with
    | none => rfl
    | some t => exact ih t

/-! ## 3. Inspecting and stepping -/

/-- **Inspecting leaves stepping undisturbed exactly when no statement was looked at.**  For every
`do_pause`, whatever its capture runs, and every sequence of requests served during it, where all
this code runs on top of the paused frames: the start that each step command records is the
position of the pause, and every later trace first stops where it does without the requests, iff
the pause has a live frame and no statement that its capture or the requests run is one the handler
looks at. -/
theorem inspection_undisturbed_iff {s t : Session} {e : Event} {captured : List Statement}
    {rs : List Request} (hhandled : e.handled = true) (hpause : Waits host s e captured t)
    (htop : ∀ x ∈ captured ++ rs.flatMap engine.statements, x.All fun e' _ => e.depth < e'.depth) :
    Undisturbed host engine t e rs ↔
      0 < e.depth ∧ ∀ x ∈ captured ++ rs.flatMap engine.statements,
        (s.enabled && x.event.handled) = false := by
  obtain ⟨u, hcapture, rfl⟩ := hpause
  obtain ⟨htopCaptured, htopServed⟩ := List.forall_mem_append.mp htop
  constructor
  · rintro ⟨t', hserve, hstep⟩
    obtain ⟨hd, hl, -, -⟩ := hstep Session.stepOver (by simp)
    have hd' : t'.frameStack.length = e.depth := hd
    rw [serveAll_eq] at hserve
    have hserved := captures_of_foldlM (d := e.depth) hserve
    have hquiet : ∀ x ∈ captured, (s.enabled && x.event.handled) = false := by
      intro x hx
      by_contra hc
      have hlt := hcapture.lt_length htopCaptured (.inr ⟨x, hx, by simpa using hc⟩)
      have := hserved.lt_length htopServed (.inl hlt)
      omega
    obtain rfl := hcapture.eq_of_not_looked hquiet
    have hquiet' : ∀ x ∈ rs.flatMap engine.statements,
        (s.enabled && x.event.handled) = false := by
      intro x hx
      by_contra hc
      have := hserved.lt_length htopServed (.inr ⟨x, hx, by simpa using hc⟩)
      omega
    refine ⟨?_, List.forall_mem_append.mpr ⟨hquiet, hquiet'⟩⟩
    -- with no frame at all the recorded line would be 0, and an event has a positive one
    by_contra h0
    have hnil : t'.frameStack = [] := List.length_eq_zero_iff.mp (by omega)
    have hline : (0 : Int) = e.line := by
      rw [← hl]
      simp [Session.stepOver, Session.stepWith, Session.recordStart, hnil]
    have := (Event.handled_iff.mp hhandled).2
    omega
  · rintro ⟨hpos, hquiet⟩
    obtain ⟨hcaptured, hserved⟩ := List.forall_mem_append.mp hquiet
    obtain rfl := hcapture.eq_of_not_looked hcaptured
    refine ⟨_, by rw [serveAll_eq]; exact foldlM_nestedStatement_of_not_looked hserved, ?_⟩
    intro step hstep
    have hframe : (trackFrames s.frameStack e).head? = some e.frame :=
      congrArg List.head? (trackFrames_eq _ _ hpos)
    have hlen : (trackFrames s.frameStack e).length = e.depth := length_trackFrames _ _
    simp only [List.mem_cons, List.not_mem_nil, or_false] at hstep
    rcases hstep with rfl | rfl | rfl <;>
      refine ⟨hlen, ?_, ?_, fun _ => rfl⟩ <;>
      simp [Session.stepOver, Session.stepInto, Session.stepOut, Session.stepWith,
        Session.recordStart, hframe, Event.frame]

end

/-- A session that pauses at the next statement, by a pause request. -/
def requestedSession : Session :=
  { Session.new with enabled := true, pauseRequested := true }

/-- A statement of `file`, in a frame on top of line 3. -/
def onTop (file : String) (line : Int) : Statement :=
  .plain { filename := some (ascii file), funcname := none, line := line, col := 1, depth := 2 }

/-- An engine without locals, in which evaluating anything but the empty text runs one
statement of the evaluated script, in a frame on top of the paused one. -/
def evaluatingEngine : Engine where
  locals := fun _ => []
  convertLocal := fun _ _ => []
  eval := fun expression => if expression = [] then [] else [onTop "<debugger-eval>" 1]

/-- The pause at line 3, when its capture runs these statements. -/
def pausedOnLineThree (captured : List Statement) : Session :=
  (handle posixHost { Statement.plain lineThree with captured := captured } requestedSession).1

theorem waits_pausedOnLineThree {captured : List Statement}
    (h : (handle posixHost { Statement.plain lineThree with captured := captured }
      requestedSession).2 = some (.here ⟨.pauseRequest, 0⟩)) :
    ∃ u, Waits posixHost u lineThree captured (pausedOnLineThree captured) :=
  waits_of_handle (Prod.ext rfl h)

/-- The session in which the handler calls `do_pause` on line 3. -/
def stoppedSession : Session := (requestedSession.track lineThree).stopFor .pauseRequest

/-- The rule at a pause whose capture runs code without line numbers only, which the handler does
not look at, and in which nothing but properties is asked for. -/
theorem inspection_undisturbed_iff_properties :
    Undisturbed posixHost evaluatingEngine { stoppedSession.track lineThree with paused := true }
        lineThree [.getProperties []] ↔
      0 < lineThree.depth ∧
        ∀ x ∈ [onTop "/a.js" 0] ++ [Request.getProperties []].flatMap evaluatingEngine.statements,
          (stoppedSession.enabled && x.event.handled) = false := by
  have hwaits : Waits posixHost stoppedSession lineThree [onTop "/a.js" 0]
      { stoppedSession.track lineThree with paused := true } :=
    ⟨_, .passed (handle_of_not_looked (by decide)) (.nil _), rfl⟩
  refine inspection_undisturbed_iff (by decide) hwaits fun x hx => ?_
  rw [List.mem_singleton.mp hx]
  exact .mk (by decide) (fun _ y hy => absurd hy List.not_mem_nil)
    fun y hy => absurd hy List.not_mem_nil

/-- The start that a step over records after the requests. -/
def recordedStart (captured : List Statement) (rs : List Request) : Option (Nat × Int) :=
  (serveAll posixHost evaluatingEngine (pausedOnLineThree captured) rs).map fun t =>
    (t.stepOver.stepStartDepth, t.stepOver.stepStartLine)

theorem not_undisturbed_of_recordedStart {captured : List Statement} {rs : List Request}
    {line : Int} (h : recordedStart captured rs = some (2, line)) :
    ¬ Undisturbed posixHost evaluatingEngine (pausedOnLineThree captured) lineThree rs := by
  rintro ⟨s', hserve, hstep⟩
  rw [recordedStart, hserve] at h
  have hd := (hstep Session.stepOver (by simp)).1
  simp only [Option.map_some, Option.some.injEq, Prod.mk.injEq] at h
  rw [h.1] at hd
  exact absurd hd (by decide)

/-- **A watched expression moves the start of the step.**  The session is paused at depth 1
on line 3; after evaluating `x + 1` a step over starts from depth 2 on line 1, so that the
next statement of a function called from line 4 already counts as a stop.  **So does a getter** that
the capture runs, on line 7, before anything is asked for. -/
theorem evaluating_disturbs_step :
    (∃ u, Waits posixHost u lineThree [] (pausedOnLineThree [])) ∧
      ¬ Undisturbed posixHost evaluatingEngine (pausedOnLineThree []) lineThree
        [.evaluateOnCallFrame (ascii "0") (ascii "x + 1")] ∧
      (∃ u, Waits posixHost u lineThree [onTop "/a.js" 7] (pausedOnLineThree [onTop "/a.js" 7])) ∧
      ¬ Undisturbed posixHost evaluatingEngine (pausedOnLineThree [onTop "/a.js" 7]) lineThree [] :=
  ⟨waits_pausedOnLineThree (by decide +kernel),
    @not_undisturbed_of_recordedStart [] _ 1 (by decide +kernel),
    waits_pausedOnLineThree (by decide +kernel),
    @not_undisturbed_of_recordedStart [onTop "/a.js" 7] [] 7 (by decide +kernel)⟩

end QjsDebug
