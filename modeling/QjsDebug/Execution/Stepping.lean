/-
# Where a step ends

`step_over` and `step_out` remember the depth they start at, and the handler ends the step at
the first statement that is shallow enough.  But a depth is not a frame.  When a function
returns and its caller calls another one before it comes to a statement of its own, as in
`f() + g()`, the next statement has the depth of the function that has gone.

* §1  without breakpoints and requests the handler pauses at the first statement at which the
      stop test holds;
* §2  that statement belongs to the starting frame or one of its callers iff no such statement
      runs above the lowest depth since the command before one runs at it
      (`step_ends_inside_iff`).
-/
import QjsDebug.Execution.Frames
import QjsDebug.Session.Handler

namespace QjsDebug.Execution

open CallStack (Stack Frame Op Executed)

/-! ## 1. The first statement that stops -/

section

variable {host : Host} {truthy : Bytes → Bool}

/-- The handler looks at the event, and the stop test of the step holds there. -/
def stops (s : Session) (e : Event) : Bool := e.handled && stepStops s s.stepMode e

/-- Nothing but a step can pause the session. -/
structure Undistracted (s : Session) : Prop where
  enabled : s.enabled = true
  no_request : s.pauseRequested = false
  no_entry : s.pauseOnStart = false
  no_breakpoint : s.breakpoints = []

theorem Undistracted.track {s : Session} (h : Undistracted s) (e : Event) :
    Undistracted (s.track e) :=
  ⟨h.enabled, h.no_request, h.no_entry, h.no_breakpoint⟩

theorem hitBreakpoint_nil {s : Session} (h : s.breakpoints = []) (e : Event) :
    hitBreakpoint host s e = none := by
  unfold hitBreakpoint hitting
  rw [h]
  simp

/-- One statement of a step. -/
theorem Undistracted.pause_eq {s : Session} (h : Undistracted s) (e : Event) :
    (debugTraceHandler host truthy s e).2 = if stops s e then some ⟨.step, 0⟩ else none := by
  rw [debugTraceHandler_snd, h.enabled, Bool.true_and]
  unfold stops
  cases he : e.handled with
  | false => simp
  | true =>
    simp only [if_true, verdict, h.no_request, h.no_entry, hitBreakpoint_nil h.no_breakpoint,
      Bool.false_eq_true, if_false, Bool.true_and]

/-- **A step ends at the first statement that stops it.** -/
theorem Undistracted.firstPause_eq {s : Session} (h : Undistracted s) (es : List Event) :
    firstPause host s (es.map fun e => (e, truthy)) =
      (es.findIdx? (stops s)).map fun i => (i, ⟨.step, 0⟩) := by
  induction es generalizing s with
  | nil => rfl
  | cons e es ih =>
    have hpause := @Undistracted.pause_eq host truthy s h e
    rw [List.map_cons, firstPause, List.findIdx?_cons]
    cases hstop : stops s e with
    | true =>
      rw [hstop, if_pos rfl] at hpause
      rw [← Prod.eta (debugTraceHandler host truthy s e), hpause]
      rfl
    | false =>
      rw [hstop, if_neg Bool.false_ne_true] at hpause
      rw [debugTraceHandler_of_none hpause, h.enabled, Bool.true_and]
      -- the statement moves `frame_stack_` at most, which the stop test does not read
      have hrest : ∀ s', (s' = s.track e ∨ s' = s) →
          firstPause host s' (es.map fun e => (e, truthy)) =
            (es.findIdx? (stops s)).map fun i => (i, ⟨.step, 0⟩) := by
        rintro s' (rfl | rfl)
        · exact ih (h.track e)
        · exact ih h
      simp only [Bool.false_eq_true, if_false, Option.map_map]
      split
      · rw [hrest _ (.inl rfl)]
        cases es.findIdx? (stops s) <;> rfl
      · rw [hrest _ (.inr rfl)]
        cases es.findIdx? (stops s) <;> rfl

/-- With an entry pause pending no step ends first. -/
theorem firstPause_of_entry {s : Session} (hrequest : s.pauseRequested = false)
    (hentry : s.pauseOnStart = true) {xs : List (Event × (Bytes → Bool))} {i : Nat} {p : Pause}
    (h : firstPause host s xs = some (i, p)) : p.reason = .entry := by
  induction xs generalizing i with
  | nil => exact absurd h (by simp [firstPause])
  | cons x xs ih =>
    rw [firstPause] at h
    split at h
    · rename_i q hq
      have hpause := congrArg Prod.snd hq
      rw [debugTraceHandler_snd] at hpause
      simp only [Option.some.injEq, Prod.mk.injEq] at h
      obtain ⟨-, rfl⟩ := h
      split at hpause
      · simp only [verdict, hrequest, hentry, Bool.false_eq_true, if_false, if_true,
          Option.some.injEq] at hpause
        rw [← hpause]
      · exact absurd hpause (by simp)
    · rename_i s' hq
      have hpause := congrArg Prod.snd hq
      have hnone := debugTraceHandler_of_none hpause
      rw [debugTraceHandler_snd] at hpause
      split at hpause
      · -- a statement that is looked at would have paused
        exact absurd hpause (by simp [verdict, hrequest, hentry])
      · rename_i hskip
        rw [hq, if_neg hskip] at hnone
        obtain rfl := (Prod.mk.inj hnone).1
        obtain ⟨r, hr, hri⟩ := Option.map_eq_some_iff.mp h
        obtain rfl : r.2 = p := congrArg Prod.snd hri
        exact ih hr

end

/-! ## 2. Whose statement that is -/

/-- The statement as an event, and the outcomes of conditions in its frame. -/
def observed (truthy : Bytes → Bool) (x : Executed Stmt) : Event × (Bytes → Bool) :=
  (x.statement.event x.depth, truthy)

/-- The session in which `do_pause` waits at a statement of a stack's innermost frame. -/
def pausedAt (host : Host) (truthy : Bytes → Bool) (s : Session) (stack : Stack Stmt) (x : Stmt) :
    Session :=
  (debugTraceHandler host truthy s (x.event stack.live.length)).1.enterPause
    (x.event stack.live.length)

/-- The frames a step may end in: the innermost one, for a step over, and its callers. -/
def mayEndIn (mode : StepMode) (stack : Stack Stmt) : List Nat :=
  if mode = .over then stack.ids else stack.ids.tail

/-- The next Step pause is in one of these frames. -/
def EndsInside (host : Host) (truthy : Bytes → Bool) (s : Session) (stack : Stack Stmt)
    (xs : List (Executed Stmt)) : Prop :=
  ∀ i bpId x, firstPause host s (xs.map (observed truthy)) = some (i, ⟨.step, bpId⟩) →
    xs[i]? = some x → x.activation ∈ mayEndIn s.stepMode stack

/-- The step would end at the statement if it got there. -/
def landsAt (s : Session) (x : Executed Stmt) : Bool := stops s (x.statement.event x.depth)

/-- No statement at which the step would end runs above the lowest depth since the command
before one runs at that depth. -/
def NoneAbove (s : Session) (xs : List (Executed Stmt)) : Prop :=
  ∀ pre x post, xs = pre ++ x :: post → landsAt s x = true → x.low < x.depth →
    ∃ y ∈ pre, landsAt s y = true ∧ y.depth ≤ y.low

/-- The first element that passes a test has a property iff no element without the property
passes the test before one with it does. -/
theorem findIdx?_forall_iff {α : Type} {p : α → Bool} {q : α → Prop} {xs : List α} :
    (∀ i x, xs.findIdx? p = some i → xs[i]? = some x → q x) ↔
      ∀ pre x post, xs = pre ++ x :: post → p x = true → ¬ q x → ∃ y ∈ pre, p y = true ∧ q y := by
  induction xs with
  | nil => simp
  | cons a xs ih =>
    rw [List.findIdx?_cons]
    cases ha : p a with
    | true =>
      simp only [if_true, Option.some.injEq]
      constructor
      · intro h pre x post hxs hx hnot
        have hqa : q a := h 0 a rfl rfl
        cases pre with
        | nil =>
          obtain ⟨rfl, -⟩ := List.cons.inj hxs
          exact absurd hqa hnot
        | cons b pre =>
          obtain ⟨rfl, -⟩ := List.cons.inj hxs
          exact ⟨a, List.mem_cons_self, ha, hqa⟩
      · rintro h i x rfl hx
        obtain rfl := Option.some.inj hx
        by_contra hnot
        obtain ⟨y, hy, -⟩ := h [] a xs rfl ha hnot
        exact absurd hy (by simp)
    | false =>
      simp only [Bool.false_eq_true, if_false]
      constructor
      · intro h pre x post hxs hx hnot
        cases pre with
        | nil =>
          obtain ⟨rfl, -⟩ := List.cons.inj hxs
          rw [ha] at hx
          exact absurd hx (by simp)
        | cons b pre =>
          obtain ⟨rfl, hrest⟩ := List.cons.inj hxs
          obtain ⟨y, hy, hpy, hqy⟩ := ih.mp (fun i x hi hx => h (i + 1) x (by rw [hi]; rfl) hx)
            pre x post hrest hx hnot
          exact ⟨y, List.mem_cons_of_mem _ hy, hpy, hqy⟩
      · intro h i x hi hx
        obtain ⟨k, hk, rfl⟩ := Option.map_eq_some_iff.mp hi
        refine ih.mpr ?_ k x hk hx
        intro pre y post hxs hpy hnot
        obtain ⟨z, hz, hpz, hqz⟩ := h (a :: pre) y post (by rw [hxs]; rfl) hpy hnot
        rcases List.mem_cons.mp hz with rfl | hz
        · rw [ha] at hpz
          exact absurd hpz (by simp)
        · exact ⟨z, hz, hpz, hqz⟩

section

variable {host : Host} {truthy : Bytes → Bool}

theorem breakpoints_debugTraceHandler (s : Session) (e : Event) :
    (debugTraceHandler host truthy s e).1.breakpoints = s.breakpoints := by
  rw [debugTraceHandler_eq]
  split
  · cases verdict host truthy s e with
    | none => rfl
    | some p => cases hp : p.reason <;> simp [Session.stopFor, hp]
  · rfl

/-- A step that starts in a pause compares depths with the depth of the pause. -/
theorem stepStartDepth_pausedAt (s : Session) (stack : Stack Stmt) (x : Stmt) (mode : StepMode) :
    ((pausedAt host truthy s stack x).stepWith mode).stepStartDepth = stack.live.length :=
  length_trackFrames _ _

/-- At a statement that would end the step, the frames it may end in are told by depth. -/
theorem mem_mayEndIn_iff {s : Session} {stack : Stack Stmt}
    (hmode : s.stepMode = .over ∨ s.stepMode = .out)
    (hstart : s.stepStartDepth = stack.live.length) {ops : List (Op Stmt)}
    {xs : List (Executed Stmt)} (hops : stack.executed stack.live.length ops = some xs)
    {x : Executed Stmt} (hx : x ∈ xs) (hlands : landsAt s x = true) :
    x.activation ∈ mayEndIn s.stepMode stack ↔ x.depth ≤ x.low := by
  obtain ⟨hids, htail⟩ := (Stack.since_self stack).executed hops x hx
  rcases hmode with hmode | hmode
  · rw [mayEndIn, if_pos hmode]
    exact hids
  · have hlt : x.depth < stack.live.length := by
      simp only [landsAt, stops, hmode, stepStops, hstart, Bool.and_eq_true,
        decide_eq_true_eq] at hlands
      exact hlands.2
    rw [mayEndIn, if_neg (by rw [hmode]; exact StepMode.noConfusion)]
    exact ⟨fun hmem => hids.mp (List.mem_of_mem_tail hmem), fun hle => htail hle hlt⟩

/-- The next Step pause is at the first statement at which the step would end. -/
theorem Undistracted.endsInside_iff {s : Session} (h : Undistracted s) (stack : Stack Stmt)
    (xs : List (Executed Stmt)) :
    EndsInside host truthy s stack xs ↔
      ∀ i x, xs.findIdx? (landsAt s) = some i → xs[i]? = some x →
        x.activation ∈ mayEndIn s.stepMode stack := by
  have hfirst : firstPause host s (xs.map (observed truthy)) =
      (xs.findIdx? (landsAt s)).map fun i => (i, ⟨.step, 0⟩) := by
    have hevents := @Undistracted.firstPause_eq host truthy s h
      (xs.map fun x => x.statement.event x.depth)
    rw [List.map_map, List.findIdx?_map] at hevents
    exact hevents
  unfold EndsInside
  rw [hfirst]
  constructor
  · intro hin i x hi hx
    exact hin i 0 x (by rw [hi]; rfl) hx
  · intro hin i bpId x hi hx
    obtain ⟨j, hj, hji⟩ := Option.map_eq_some_iff.mp hi
    obtain ⟨rfl, -⟩ := Prod.mk.inj hji
    exact hin j x hj hx

/-- ... which is in a frame it may end in iff none such runs above the lowest depth first. -/
theorem Undistracted.endsInside_iff_noneAbove {s : Session} {stack : Stack Stmt}
    (h : Undistracted s) (hmode : s.stepMode = .over ∨ s.stepMode = .out)
    (hstart : s.stepStartDepth = stack.live.length) {ops : List (Op Stmt)}
    {xs : List (Executed Stmt)} (hops : stack.executed stack.live.length ops = some xs) :
    EndsInside host truthy s stack xs ↔ NoneAbove s xs := by
  have hdepth : ∀ x ∈ xs, landsAt s x = true →
      (x.activation ∈ mayEndIn s.stepMode stack ↔ x.depth ≤ x.low) :=
    fun _ hx hlands => mem_mayEndIn_iff hmode hstart hops hx hlands
  rw [h.endsInside_iff, findIdx?_forall_iff]
  constructor
  · intro hin pre x post hxs hlands hlow
    have hnot : ¬ x.activation ∈ mayEndIn s.stepMode stack := by
      rw [hdepth x (by simp [hxs]) hlands]
      omega
    obtain ⟨y, hy, hlandsy, hiny⟩ := hin pre x post hxs hlands hnot
    exact ⟨y, hy, hlandsy, (hdepth y (by simp [hxs, hy]) hlandsy).mp hiny⟩
  · intro hnone pre x post hxs hlands hnot
    rw [hdepth x (by simp [hxs]) hlands] at hnot
    obtain ⟨y, hy, hlandsy, hlowy⟩ := hnone pre x post hxs hlands (by omega)
    exact ⟨y, hy, hlandsy, (hdepth y (by simp [hxs, hy]) hlandsy).mpr hlowy⟩

/-- With an entry pause pending there is no Step pause to speak of. -/
theorem endsInside_of_entry {s : Session} (hrequest : s.pauseRequested = false)
    (hentry : s.pauseOnStart = true) (stack : Stack Stmt) (xs : List (Executed Stmt)) :
    EndsInside host truthy s stack xs := by
  intro i bpId x hfirst _
  exact absurd (firstPause_of_entry hrequest hentry hfirst) PauseReason.noConfusion

/-- **Where a step over or out ends.**  The session is paused in the innermost frame of a stack,
without breakpoints, and the client steps over or out.  For every sequence of calls, returns and
statements behind it: the next Step pause is in that frame (step over only) or in one of its
callers, iff an entry pause comes first or no statement at which the step would end runs above
the lowest depth since the command before one runs at that depth. -/
theorem step_ends_inside_iff {stack : Stack Stmt} {s : Session} (hbps : s.breakpoints = [])
    {x₀ : Stmt} {p : Pause}
    (hpause : (debugTraceHandler host truthy s (x₀.event stack.live.length)).2 = some p)
    {mode : StepMode} (hmode : mode = .over ∨ mode = .out) {ops : List (Op Stmt)}
    {xs : List (Executed Stmt)} (hops : stack.executed stack.live.length ops = some xs) :
    EndsInside host truthy ((pausedAt host truthy s stack x₀).stepWith mode) stack xs ↔
      (pausedAt host truthy s stack x₀).pauseOnStart = true ∨
        NoneAbove ((pausedAt host truthy s stack x₀).stepWith mode) xs := by
  obtain ⟨-, -, henabled⟩ := enabled_of_pause hpause
  have hnone : (pausedAt host truthy s stack x₀).breakpoints = [] := by
    rw [← hbps]
    exact breakpoints_debugTraceHandler s _
  have hactive : (pausedAt host truthy s stack x₀).enabled = true := henabled
  have hstart : ((pausedAt host truthy s stack x₀).stepWith mode).stepStartDepth =
      stack.live.length := stepStartDepth_pausedAt s stack x₀ mode
  generalize pausedAt host truthy s stack x₀ = paused at hnone hactive hstart
  cases hpend : paused.pauseOnStart with
  | true =>
    refine iff_of_true ?_ (.inl rfl)
    exact @endsInside_of_entry host truthy (paused.stepWith mode) rfl hpend stack xs
  | false =>
    have hundistracted : Undistracted (paused.stepWith mode) := ⟨hactive, rfl, hpend, hnone⟩
    rw [hundistracted.endsInside_iff_noneAbove hmode hstart hops]
    simp only [Bool.false_eq_true, false_or]

end

/-- `main` has called `f`. -/
def inF : Stack Stmt := Stack.empty.call.call

/-- ... through `k`. -/
def inFThroughK : Stack Stmt := inF.call

/-- A session that pauses at the next statement. -/
def pausing : Session := { Session.new with enabled := true, pauseRequested := true }

/-- The rule at a step over that ends in the next line of `f`. -/
theorem step_ends_inside_iff_next :
    EndsInside posixHost (fun _ => false)
        ((pausedAt posixHost (fun _ => false) pausing inF (lineOf "f" 10)).stepWith .over) inF
        [⟨1, 2, 2, lineOf "f" 11⟩] ↔
      (pausedAt posixHost (fun _ => false) pausing inF (lineOf "f" 10)).pauseOnStart = true ∨
        NoneAbove
          ((pausedAt posixHost (fun _ => false) pausing inF (lineOf "f" 10)).stepWith .over)
          [⟨1, 2, 2, lineOf "f" 11⟩] := by
  have hops : inF.executed inF.live.length [.exec (lineOf "f" 11)] =
      some [⟨1, 2, 2, lineOf "f" 11⟩] := rfl
  exact step_ends_inside_iff (p := ⟨.pauseRequest, 0⟩) rfl rfl (.inl rfl) hops

/-- **`f() + g()`.**  A step over issued in `f` ends in `g`, which `main` calls when `f` has
returned, before a statement of its own.  A step out of `f` does when `k`, which called `f`,
returns as well. -/
theorem sibling_call_ends_step :
    inF.executed 2 [.ret, .call, .exec (lineOf "g" 20)] = some [⟨2, 2, 1, lineOf "g" 20⟩] ∧
      inF.ids = [1, 0] ∧
      ¬ EndsInside posixHost (fun _ => false)
        ((pausedAt posixHost (fun _ => false) pausing inF (lineOf "f" 10)).stepOver) inF
        [⟨2, 2, 1, lineOf "g" 20⟩] ∧
      inFThroughK.executed 3 [.ret, .ret, .call, .exec (lineOf "g" 20)] =
        some [⟨3, 2, 1, lineOf "g" 20⟩] ∧
      inFThroughK.ids = [2, 1, 0] ∧
      ¬ EndsInside posixHost (fun _ => false)
        ((pausedAt posixHost (fun _ => false) pausing inFThroughK (lineOf "f" 10)).stepOut)
        inFThroughK [⟨3, 2, 1, lineOf "g" 20⟩] := by
  refine ⟨rfl, rfl, ?_, rfl, rfl, ?_⟩
  · intro h
    have hmem := h 0 0 ⟨2, 2, 1, lineOf "g" 20⟩ (by decide) rfl
    exact absurd hmem (by decide)
  · intro h
    have hmem := h 0 0 ⟨3, 2, 1, lineOf "g" 20⟩ (by decide) rfl
    exact absurd hmem (by decide)

end QjsDebug.Execution
