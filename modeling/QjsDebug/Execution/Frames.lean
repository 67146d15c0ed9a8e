/-
# The reconstructed call stack

The engine tells the debugger about statements only: where they are, and through
`JS_GetStackDepth` how many frames are live.  From that the handler keeps `frame_stack_`: it pops
or pushes blank entries until the depth fits and writes the statement into the innermost one.
Calls and returns are not reported, and nothing is while the debugger is disabled.

This module runs the two threads beside the real stack.  An entry that stays in `frame_stack_` from
one recording to the next is right as long as the frame at its depth is the same one and has
executed nothing on the way; `untouched` counts the outermost frames of which that holds.  And the
code that the debugger runs itself is recorded like any other: a condition, a getter, an evaluated
expression leave `frame_stack_` with frames that are gone when they end.

So when the handler returns, and when a pause begins, the entries belong to the live frames as long
as two things hold (`ownFrames_of_reach`): where something was recorded, every frame beyond the
untouched ones that is left behind as a caller found a blank entry, or none; and nothing has been
recorded since the event in question.  Neither can be dropped (`not_ownFrames_of_foreign`,
`not_ownFrames_of_disturbed`).
-/
import QjsDebug.Lib.CallStack
import QjsDebug.Execution.Calls

namespace QjsDebug.Execution

open CallStack (Stack Frame outer)
open Threads (Activation Act machine)

/-! ## 1. Entries by depth -/

/-- The entry at a depth after the pop and push loops. -/
theorem outer_resizeFrames (frames : List FrameInfo) (depth j : Nat) :
    outer (resizeFrames frames depth) j =
      if j < depth then some ((outer frames j).getD {}) else none := by
  have hkept : (frames.drop (frames.length - depth)).reverse = frames.reverse.take depth := by
    rw [List.take_reverse]
  unfold outer resizeFrames
  simp only [List.reverse_append, List.reverse_replicate, hkept]
  by_cases hj : j < depth
  · rw [if_pos hj]
    by_cases hin : j < frames.length
    · rw [List.getElem?_append_left (by simp; omega), List.getElem?_take_of_lt hj,
        List.getElem?_eq_getElem (by simpa using hin)]
      rfl
    · rw [List.getElem?_append_right (by simp; omega), List.getElem?_replicate,
        if_pos (by simp; omega), List.getElem?_eq_none (by simp; omega)]
      rfl
  · rw [if_neg hj, List.getElem?_eq_none]
    simp
    omega

/-- ... and after an event. -/
theorem outer_trackFrames (frames : List FrameInfo) (e : Event) (j : Nat) :
    outer (trackFrames frames e) j =
      if j + 1 < e.depth then some ((outer frames j).getD {})
      else if j + 1 = e.depth then some e.frame else none := by
  have hlen := length_resizeFrames frames e.depth
  by_cases hlt : j + 1 < e.depth
  · rw [if_pos hlt, trackFrames_eq frames e (by omega),
      CallStack.outer_cons_of_lt _ (by rw [List.length_tail]; omega),
      CallStack.outer_tail (by omega), outer_resizeFrames, if_pos (by omega)]
  · rw [if_neg hlt]
    by_cases htop : j + 1 = e.depth
    · have hj : (resizeFrames frames e.depth).tail.length = j := by
        rw [List.length_tail]
        omega
      rw [if_pos htop, trackFrames_eq frames e (by omega), ← hj, CallStack.outer_cons_length]
    · rw [if_neg htop, CallStack.outer_eq_none]
      rw [length_trackFrames]
      omega

/-! ## 2. The threads beside the engine -/

/-- A statement as the callback gets it: the arguments of `debug_trace_handler`. -/
structure Stmt where
  filename : Option Bytes
  funcname : Option Bytes
  line : Int
  col : Int
  deriving DecidableEq

/-- The statement as an event, with the answer of `JS_GetStackDepth`. -/
def Stmt.event (x : Stmt) (depth : Nat) : Event where
  filename := x.filename
  funcname := x.funcname
  line := x.line
  col := x.col
  depth := depth

/-- What the handler records of the statement. -/
def Stmt.frame (x : Stmt) : FrameInfo := (x.event 0).frame

/-- The two threads and the engine.  `untouched` counts the outermost live frames that were live
when an event was last recorded and have executed nothing since; `last` is that event. -/
structure State where
  threads : Threads.State
  stack : Stack Stmt
  untouched : Nat
  last : Option Event

/-- What happens next: the running code calls, returns or executes a statement, or one of the
threads takes a step. -/
inductive Action
  | call
  | ret
  | statement (x : Stmt)
  | act (a : Act)

/-- Statements come from the stack, and the code that the debugger runs ends when its frames are
gone. -/
def mayAct (s : State) : Act → Bool
  | .js (.statement _) => false
  | .js (.finish _ _) => s.stack.live.length == floor s.threads.js
  | _ => true

def step (host : Host) (s : State) : Action → Option State
  | .call =>
    match s.threads.js with
    | .code :: _ => some { s with stack := s.stack.call }
    | _ => none
  | .ret =>
    match s.threads.js with
    | .code :: _ =>
      if floor s.threads.js < s.stack.live.length then
        some { s with
          stack := s.stack.ret
          untouched := min s.untouched (s.stack.live.length - 1) }
      else none
    | _ => none
  | .statement x =>
    if floor s.threads.js < s.stack.live.length then
      ((machine host).step s.threads (.js (.statement (x.event s.stack.live.length)))).map fun t =>
        { s with
          threads := t
          stack := s.stack.exec x
          untouched := min s.untouched (s.stack.live.length - 1) }
    else none
  | .act a =>
    if mayAct s a then
      ((machine host).step s.threads a).map fun t =>
        { s with
          threads := t
          untouched := ((recording s.threads a).map Event.depth).getD s.untouched
          last := (recording s.threads a).or s.last }
    else none

/-- Before the first call, with nothing recorded. -/
def system (host : Host) : StepSystem State Action where
  init s := s.threads.Initial ∧ s.threads.session.frameStack = [] ∧ s.stack = Stack.empty ∧
    s.untouched = 0 ∧ s.last = none
  step := step host

/-- The event that the action records. -/
def recorded (s : State) : Action → Option Event
  | .act a => recording s.threads a
  | .call | .ret | .statement _ => none

/-- The event whose handling the action ends, or whose pause it begins: the handler returns at the
end of its `switch`, behind a falsy condition or behind its pause, and `do_pause` sets `paused_`. -/
def reported (s : State) : Action → Option Event
  | .act (.js .next) =>
    match s.threads.js with
    | .handler e (.switchMode mode) :: _ =>
      if stepStops s.threads.session mode e then none else some e
    | .pause e _ _ .storePaused :: _ => some e
    | .pause e _ _ .sendResumed :: _ => some e
    | _ => none
  | .act (.js (.finish _ false)) =>
    match s.threads.js with
    | .code :: .handler e (.condition _) :: _ => some e
    | _ => none
  | _ => none

/-- `frame_stack_` has an entry for each live frame, and it is blank or the last statement that
this frame executed. -/
def OwnFrames (s : State) : Prop :=
  s.threads.session.frameStack.length = s.stack.live.length ∧
    ∀ j f a, outer s.threads.session.frameStack j = some f → outer s.stack.live j = some a →
      f = {} ∨ a.last.map Stmt.frame = some f

/-- Each frame below the innermost one that is not among the untouched ones has a blank entry or
none. -/
def Clear (s : State) : Prop :=
  ∀ j < s.stack.live.length, s.untouched ≤ j → j + 1 < s.stack.live.length →
    (outer s.threads.session.frameStack j).getD {} = {}

/-- The condition of the runs.  Where an event is recorded, no frame that is left behind as a caller
has come to an entry of somebody else; and where the handler returns or a pause begins, the event
is the last one recorded: the code that the debugger ran for it has come to no statement that the
handler looked at. -/
def Allowed (s : State) (a : Action) : Prop :=
  (recorded s a = none ∨ Clear s) ∧ (reported s a = none ∨ reported s a = s.last)

instance (s : State) : Decidable (Clear s) := by
  unfold Clear
  infer_instance

instance (s : State) (a : Action) : Decidable (Allowed s a) := by
  unfold Allowed
  infer_instance

/-! ## 3. What every run keeps -/

/-- The calls stand on the live frames, the innermost of which has executed the statement of the
call; and once the call has recorded it, the frames are untouched until something deeper is
recorded. -/
structure Tracked (s : State) : Prop where
  aligned : Aligned s.stack.live.length s.threads.js
  le_length : s.untouched ≤ s.stack.live.length
  length : ∀ l, s.last = some l → s.threads.session.frameStack.length = l.depth
  statement : ∀ a ∈ s.threads.js, ∀ e, eventOf a = some e →
    ∃ f, outer s.stack.live (e.depth - 1) = some f ∧ f.last.map Stmt.frame = some e.frame
  recorded : ∀ a ∈ s.threads.js, ∀ e, recordedOf a = some e →
    ∃ l, s.last = some l ∧ (l = e ∨ e.depth < l.depth)
  kept : ∀ a ∈ s.threads.js, ∀ e, recordedOf a = some e → s.last = some e → e.depth ≤ s.untouched

theorem step_act {host : Host} {s s' : State} {a : Act} (h : step host s (.act a) = some s') :
    mayAct s a = true ∧ ∃ t, (machine host).step s.threads a = some t ∧
      s' = { s with
        threads := t
        untouched := ((recording s.threads a).map Event.depth).getD s.untouched
        last := (recording s.threads a).or s.last } := by
  rw [step] at h
  split at h
  · rename_i hmay
    obtain ⟨t, ht, rfl⟩ := Option.map_eq_some_iff.mp h
    exact ⟨hmay, t, ht, rfl⟩
  · exact absurd h (by simp)

theorem step_statement {host : Host} {s s' : State} {x : Stmt}
    (h : step host s (.statement x) = some s') :
    floor s.threads.js < s.stack.live.length ∧ ∃ callers, s.threads.js = .code :: callers ∧
      s' = { s with
        threads := { s.threads with
          js := .handler (x.event s.stack.live.length) .entry :: .code :: callers }
        stack := s.stack.exec x
        untouched := min s.untouched (s.stack.live.length - 1) } := by
  rw [step] at h
  split at h
  · rename_i hlt
    obtain ⟨t, ht, rfl⟩ := Option.map_eq_some_iff.mp h
    rcases Threads.step_cases ht with ⟨c, hc, hs⟩ | hs
    · obtain rfl := Act.js.inj hc
      cases hs with
      | statement hjs => exact ⟨hlt, _, hjs, rfl⟩
    · cases hs
  · exact absurd h (by simp)

theorem step_call {host : Host} {s s' : State} (h : step host s .call = some s') :
    ∃ callers, s.threads.js = .code :: callers ∧ s' = { s with stack := s.stack.call } := by
  rw [step] at h
  split at h
  · rename_i callers hjs
    exact ⟨callers, hjs, (Option.some.inj h).symm⟩
  · exact absurd h (by simp)

theorem step_ret {host : Host} {s s' : State} (h : step host s .ret = some s') :
    floor s.threads.js < s.stack.live.length ∧ ∃ callers, s.threads.js = .code :: callers ∧
      s' = { s with
        stack := s.stack.ret
        untouched := min s.untouched (s.stack.live.length - 1) } := by
  rw [step] at h
  split at h
  · rename_i callers hjs
    split at h
    · rename_i hlt
      exact ⟨hlt, callers, hjs, (Option.some.inj h).symm⟩
    · exact absurd h (by simp)
  · exact absurd h (by simp)

section

variable {host : Host} {s s' : State}

/-- The frames of the calls are below the floor of the running code. -/
theorem Tracked.below_floor (h : Tracked s) {callers : List Activation}
    (hjs : s.threads.js = .code :: callers) {a : Activation} (ha : a ∈ s.threads.js) {e : Event}
    (he : eventOf a = some e) : 0 < e.depth ∧ e.depth ≤ floor s.threads.js := by
  obtain ⟨hpos, -, hfloor⟩ := h.aligned.depth_le a ha e he
  exact ⟨hpos, hfloor callers hjs⟩

theorem Tracked.call (h : Tracked s) (hstep : step host s .call = some s') : Tracked s' := by
  obtain ⟨callers, hjs, rfl⟩ := step_call hstep
  refine ⟨?_, ?_, h.length, ?_, h.recorded, h.kept⟩
  · have haligned := h.aligned
    simp only [hjs] at haligned ⊢
    rw [Stack.live_call, List.length_cons]
    exact haligned.run (Nat.le_succ_of_le haligned.floor_le)
  · rw [Stack.live_call, List.length_cons]
    exact Nat.le_succ_of_le h.le_length
  · intro a ha e he
    obtain ⟨f, hf, hlast⟩ := h.statement a ha e he
    refine ⟨f, ?_, hlast⟩
    rwa [Stack.live_call, CallStack.outer_cons_of_lt _ (CallStack.lt_of_outer hf)]

theorem Tracked.ret (h : Tracked s) (hstep : step host s .ret = some s') : Tracked s' := by
  obtain ⟨hlt, callers, hjs, rfl⟩ := step_ret hstep
  refine ⟨?_, ?_, h.length, ?_, h.recorded, ?_⟩
  · have haligned := h.aligned
    simp only [hjs] at haligned hlt ⊢
    rw [Stack.live_ret, List.length_tail]
    exact haligned.run (Nat.le_sub_one_of_lt hlt)
  · rw [Stack.live_ret, List.length_tail]
    exact Nat.min_le_right _ _
  · intro a ha e he
    obtain ⟨hpos, hfloor⟩ := h.below_floor hjs ha he
    obtain ⟨f, hf, hlast⟩ := h.statement a ha e he
    refine ⟨f, ?_, hlast⟩
    rwa [Stack.live_ret, CallStack.outer_tail (by omega)]
  · intro a ha e he hl
    obtain ⟨-, hfloor⟩ := h.below_floor hjs ha (recordedOf_eq he)
    have hkept := h.kept a ha e he hl
    simp only
    omega

theorem Tracked.executed (h : Tracked s) {x : Stmt}
    (hstep : step host s (.statement x) = some s') : Tracked s' := by
  obtain ⟨hlt, callers, hjs, rfl⟩ := step_statement hstep
  have hold : ∀ a ∈ Activation.code :: callers, a ∈ s.threads.js := fun a ha => hjs ▸ ha
  have hnew : recordedOf (.handler (x.event s.stack.live.length) .entry) = none := rfl
  refine ⟨?_, ?_, h.length, ?_, ?_, ?_⟩
  · have haligned := h.aligned
    simp only [hjs] at haligned hlt ⊢
    rw [Stack.length_live_exec]
    exact @Aligned.call _ (x.event s.stack.live.length) callers rfl hlt haligned
  · rw [Stack.length_live_exec]
    exact Nat.le_trans (Nat.min_le_left _ _) h.le_length
  · intro a ha e he
    rcases List.mem_cons.mp ha with rfl | ha
    · obtain rfl := Option.some.inj he
      cases hlive : s.stack.live with
      | nil =>
        rw [hlive] at hlt
        exact absurd hlt (Nat.not_lt_zero _)
      | cons b below =>
        refine ⟨{ b with last := some x }, ?_, rfl⟩
        rw [Stack.live_exec_of_cons hlive]
        exact CallStack.outer_cons_length _ _
    · obtain ⟨hpos, hfloor⟩ := h.below_floor hjs (hold a ha) he
      obtain ⟨f, hf, hlast⟩ := h.statement a (hold a ha) e he
      refine ⟨f, ?_, hlast⟩
      rwa [Stack.live_exec, CallStack.outer_modifyHead _ (by omega)]
  · intro a ha e he
    rcases List.mem_cons.mp ha with rfl | ha
    · exact absurd he (by rw [hnew]; simp)
    · exact h.recorded a (hold a ha) e he
  · intro a ha e he hl
    rcases List.mem_cons.mp ha with rfl | ha
    · exact absurd he (by rw [hnew]; simp)
    · obtain ⟨-, hfloor⟩ := h.below_floor hjs (hold a ha) (recordedOf_eq he)
      have hkept := h.kept a (hold a ha) e he hl
      simp only
      omega

/-- **A step of the threads.** -/
theorem Tracked.act (h : Tracked s) {a : Act} (hstep : step host s (.act a) = some s') :
    Tracked s' := by
  obtain ⟨hmay, t, ht, rfl⟩ := step_act hstep
  rcases moves_of_step ht with ⟨e, hrec, hrecords⟩ | ⟨hrec, hquiet⟩
  · obtain ⟨b, b', callers, hjs, hjs', hb, hb'⟩ := hrecords.js
    have haligned := h.aligned
    rw [hjs] at haligned
    obtain ⟨hdepth, -⟩ := haligned.caller hb
    have hbelow : ∀ c ∈ callers, ∀ e', eventOf c = some e' → e'.depth < e.depth :=
      fun c hc e' he' => haligned.depth_lt hb hc he'
    simp only [hrec, Option.map_some, Option.getD_some, Option.some_or]
    refine ⟨?_, Nat.le_of_eq hdepth.symm, ?_, ?_, ?_, ?_⟩
    · simp only [hjs']
      exact haligned.replace hb (recordedOf_eq hb')
    · intro l hl
      obtain rfl := Option.some.inj hl
      simp only [hrecords.frameStack, length_trackFrames]
    · intro c hc e' he'
      simp only [hjs'] at hc
      rcases List.mem_cons.mp hc with rfl | hc
      · rw [recordedOf_eq hb'] at he'
        obtain rfl := Option.some.inj he'
        exact h.statement b (hjs ▸ List.mem_cons_self) e hb
      · exact h.statement c (hjs ▸ List.mem_cons_of_mem _ hc) e' he'
    · intro c hc e' he'
      simp only [hjs'] at hc
      rcases List.mem_cons.mp hc with rfl | hc
      · rw [hb'] at he'
        exact ⟨e, rfl, .inl (Option.some.inj he')⟩
      · exact ⟨e, rfl, .inr (hbelow c hc e' (recordedOf_eq he'))⟩
    · intro c hc e' he' hl
      obtain rfl := Option.some.inj hl
      exact Nat.le_refl _
  · simp only [hrec, Option.map_none, Option.getD_none, Option.none_or]
    have hstatement : ∀ e, a ≠ .js (.statement e) := by
      rintro e rfl
      exact absurd hmay Bool.false_ne_true
    have hfinish : ∀ result truthy, a = .js (.finish result truthy) →
        s.stack.live.length = floor s.threads.js := by
      rintro result truthy rfl
      exact eq_of_beq hmay
    have hmem := hquiet.move.mem hstatement
    refine ⟨?_, h.le_length, ?_, ?_, ?_, ?_⟩
    · exact hquiet.move.aligned h.aligned (fun e he => absurd he (hstatement e)) hfinish
    · intro l hl
      rw [← h.length l hl]
      exact congrArg List.length hquiet.frameStack
    · intro c hc e he
      obtain ⟨b, hb, hbe, -⟩ := hmem c hc e he
      exact h.statement b hb e hbe
    · intro c hc e he
      obtain ⟨b, hb, -, hbrec⟩ := hmem c hc e (recordedOf_eq he)
      exact h.recorded b hb e (hbrec ▸ he)
    · intro c hc e he hl
      obtain ⟨b, hb, -, hbrec⟩ := hmem c hc e (recordedOf_eq he)
      exact h.kept b hb e (hbrec ▸ he) hl

theorem tracked_step {act : Action} (h : Tracked s) (hstep : step host s act = some s') :
    Tracked s' := by
  cases act with
  | call => exact h.call hstep
  | ret => exact h.ret hstep
  | statement x => exact h.executed hstep
  | act a => exact h.act hstep

/-- **Every run** keeps track. -/
theorem tracked_of_reach {ok : State → Action → Prop} (hr : (system host).Reach ok s) :
    Tracked s := by
  refine hr.invariant ?_ ?_
  swap
  · intro _ _ _ h _ hstep
    exact tracked_step h hstep
  rintro s ⟨hinit, hframes, hstack, huntouched, hlast⟩
  have hnone : ∀ a ∈ s.threads.js, eventOf a = none := by
    intro a ha
    rw [hinit.js] at ha
    rw [List.mem_singleton.mp ha]
    rfl
  refine ⟨?_, ?_, ?_, ?_, ?_, ?_⟩
  · rw [hinit.js]
    exact .script _
  · rw [huntouched]
    exact Nat.zero_le _
  · intro l hl
    rw [hlast] at hl
    exact absurd hl (by simp)
  · intro a ha e he
    rw [hnone a ha] at he
    exact absurd he (by simp)
  · intro a ha e he
    exact absurd (recordedOf_eq he) (by rw [hnone a ha]; simp)
  · intro a ha e he
    exact absurd (recordedOf_eq he) (by rw [hnone a ha]; simp)

end

/-! ## 4. The entries -/

/-- The entries of the untouched frames are right. -/
def Own (s : State) : Prop :=
  ∀ j < s.untouched, ∀ f a, outer s.threads.session.frameStack j = some f →
    outer s.stack.live j = some a → f = {} ∨ a.last.map Stmt.frame = some f

section

variable {host : Host} {s s' : State}

/-- **Recording an event.**  When the entries that stay are clear or untouched, all of them
are right afterwards. -/
theorem own_trackFrames (h : Tracked s) (hown : Own s) (hclear : Clear s) {a : Activation}
    {callers : List Activation} (hjs : s.threads.js = a :: callers) {e : Event}
    (ha : eventOf a = some e) {j : Nat} {f : FrameInfo} {b : Frame Stmt}
    (hf : outer (trackFrames s.threads.session.frameStack e) j = some f)
    (hb : outer s.stack.live j = some b) : f = {} ∨ b.last.map Stmt.frame = some f := by
  have haligned := h.aligned
  rw [hjs] at haligned
  obtain ⟨hdepth, -⟩ := haligned.caller ha
  have hj := CallStack.lt_of_outer hb
  rw [outer_trackFrames] at hf
  by_cases hbelow : j + 1 < e.depth
  · rw [if_pos hbelow, Option.some.injEq] at hf
    rcases Nat.lt_or_ge j s.untouched with hold | hnew
    · cases hentry : outer s.threads.session.frameStack j with
      | none =>
        rw [hentry] at hf
        exact .inl hf.symm
      | some g =>
        rw [hentry, Option.getD_some] at hf
        exact hown j hold f b (hf ▸ hentry) hb
    · exact .inl (hf ▸ hclear j hj hnew (hdepth ▸ hbelow))
  · -- the innermost frame has executed the statement of the event
    have htop : j = e.depth - 1 := by omega
    rw [if_neg hbelow, if_pos (by omega), Option.some.injEq] at hf
    obtain ⟨g, hg, hlast⟩ := h.statement a (hjs ▸ List.mem_cons_self) e ha
    rw [htop, hg] at hb
    rw [← Option.some.inj hb, hlast, hf]
    exact .inr rfl

/-- Between two recordings the untouched frames keep their entries. -/
theorem own_step {act : Action} (h : Tracked s) (hown : Own s)
    (hclear : recorded s act = none ∨ Clear s) (hstep : step host s act = some s') : Own s' := by
  have hle := h.le_length
  cases act with
  | call =>
    obtain ⟨callers, -, rfl⟩ := step_call hstep
    intro j hj f a hf ha
    refine hown j hj f a hf ?_
    rwa [Stack.live_call, CallStack.outer_cons_of_lt _ (Nat.lt_of_lt_of_le hj hle)] at ha
  | ret =>
    obtain ⟨-, callers, -, rfl⟩ := step_ret hstep
    intro j hj f a hf ha
    simp only [Nat.lt_min] at hj
    refine hown j hj.1 f a hf ?_
    rwa [Stack.live_ret, CallStack.outer_tail (by omega)] at ha
  | statement x =>
    obtain ⟨-, callers, -, rfl⟩ := step_statement hstep
    intro j hj f a hf ha
    simp only [Nat.lt_min] at hj
    refine hown j hj.1 f a hf ?_
    rwa [Stack.live_exec, CallStack.outer_modifyHead _ (by omega)] at ha
  | act a =>
    obtain ⟨-, t, ht, rfl⟩ := step_act hstep
    rcases moves_of_step ht with ⟨e, hrec, hrecords⟩ | ⟨hrec, hquiet⟩
    · have hclear' := hclear.resolve_left (by
        rw [recorded, hrec]
        exact Option.some_ne_none e)
      obtain ⟨b, b', callers, hjs, -, hb, -⟩ := hrecords.js
      intro j _ f c hf hc
      simp only [hrecords.frameStack] at hf
      exact own_trackFrames h hown hclear' hjs hb hf hc
    · intro j hj f c hf hc
      simp only [hrec, Option.map_none, Option.getD_none] at hj
      simp only [hquiet.frameStack] at hf
      exact hown j hj f c hf hc

/-- A report is made by a call that has recorded its event, on the frames it stands on. -/
theorem reported_cases {act : Action} {e : Event} (h : Tracked s) (hrep : reported s act = some e)
    (hstep : step host s act = some s') :
    (∃ a ∈ s.threads.js, recordedOf a = some e) ∧ s.stack.live.length = e.depth ∧
      s'.threads.session.frameStack = s.threads.session.frameStack ∧ s'.stack = s.stack := by
  have haligned := h.aligned
  have hinner : ∀ {a : Activation} {callers : List Activation}, s.threads.js = a :: callers →
      recordedOf a = some e →
      (∃ a ∈ s.threads.js, recordedOf a = some e) ∧ s.stack.live.length = e.depth := by
    intro a callers hjs ha
    refine ⟨⟨a, hjs ▸ List.mem_cons_self, ha⟩, ?_⟩
    rw [hjs] at haligned
    exact (haligned.caller (recordedOf_eq ha)).1
  unfold reported at hrep
  split at hrep
  · obtain ⟨-, t, ht, rfl⟩ := step_act hstep
    have hquiet : recording s.threads (.js .next) = none →
        t.session.frameStack = s.threads.session.frameStack := by
      intro hnone
      rcases moves_of_step ht with ⟨e', hrec, -⟩ | ⟨-, hquiet⟩
      · rw [hnone] at hrec
        exact absurd hrec (by simp)
      · exact hquiet.frameStack
    split at hrep
    · rename_i hjs
      split at hrep
      · exact absurd hrep (by simp)
      · obtain rfl := Option.some.inj hrep
        obtain ⟨hmem, hdepth⟩ := hinner hjs rfl
        exact ⟨hmem, hdepth, hquiet (by simp only [recording, hjs]), rfl⟩
    · rename_i hjs
      obtain rfl := Option.some.inj hrep
      obtain ⟨hmem, hdepth⟩ := hinner hjs rfl
      exact ⟨hmem, hdepth, hquiet (by simp only [recording, hjs]), rfl⟩
    · rename_i hjs
      obtain rfl := Option.some.inj hrep
      obtain ⟨hmem, hdepth⟩ := hinner hjs rfl
      exact ⟨hmem, hdepth, hquiet (by simp only [recording, hjs]), rfl⟩
    · exact absurd hrep (by simp)
  · obtain ⟨hmay, t, ht, rfl⟩ := step_act hstep
    split at hrep
    · rename_i hjs
      obtain rfl := Option.some.inj hrep
      have hlength := eq_of_beq hmay
      refine ⟨⟨_, hjs ▸ List.mem_cons_of_mem _ List.mem_cons_self, rfl⟩, ?_, ?_, rfl⟩
      · rw [hlength, hjs]
        rfl
      · rcases moves_of_step ht with ⟨e', hrec, -⟩ | ⟨-, hquiet⟩
        · exact absurd hrec (by simp [recording])
        · exact hquiet.frameStack
    · exact absurd hrep (by simp)
  · exact absurd hrep (by simp)

/-! ## 5. Every run -/

theorem own_of_reach (hr : (system host).Reach Allowed s) : Own s := by
  refine hr.invariant_of (fun _ hr' => tracked_of_reach hr') ?_ ?_
  · rintro _ ⟨-, -, -, huntouched, -⟩ j hj
    rw [huntouched] at hj
    exact absurd hj (Nat.not_lt_zero _)
  · intro _ _ _ htracked hown hallowed hstep
    exact own_step htracked hown hallowed.1 hstep

/-- **The reported call stack belongs to the live frames.**  In every run that meets the condition,
whenever the handler returns from an event that it has recorded, and whenever a pause begins:
`frame_stack_` has an entry for each live frame, blank or the last statement of that very frame. -/
theorem ownFrames_of_reach (host : Host) {s s' : State} {a : Action} {e : Event}
    (hr : (system host).Reach Allowed s) (hallowed : Allowed s a) (hrep : reported s a = some e)
    (h : (system host).step s a = some s') : OwnFrames s' := by
  have htracked := tracked_of_reach hr
  have hlast : s.last = some e := by
    rcases hallowed.2 with hnone | hlast
    · rw [hrep] at hnone
      exact absurd hnone (by simp)
    · rw [← hlast, hrep]
  obtain ⟨⟨b, hb, hrec⟩, hdepth, hframes, hstack⟩ := reported_cases htracked hrep h
  unfold OwnFrames
  rw [hframes, hstack]
  refine ⟨by rw [htracked.length e hlast, hdepth], fun j f a hf ha => ?_⟩
  have hkept := htracked.kept b hb e hrec hlast
  have hj := CallStack.lt_of_outer ha
  exact own_of_reach hr j (by omega) f a hf ha

/-- **What goes wrong with a foreign entry.**  A caller that finds an entry which is not its own
last statement, when an event is recorded, is reported with it. -/
theorem not_ownFrames_of_foreign {ok : State → Action → Prop} {act : Action} {e : Event}
    (hr : (system host).Reach ok s) (hrec : recorded s act = some e)
    (h : (system host).step s act = some s') {j : Nat} {f : FrameInfo} {a : Frame Stmt}
    (hj : j + 1 < s.stack.live.length) (hf : outer s.threads.session.frameStack j = some f)
    (hblank : f ≠ {}) (ha : outer s.stack.live j = some a)
    (hlast : a.last.map Stmt.frame ≠ some f) : ¬ OwnFrames s' := by
  cases act with
  | call | ret | statement x => exact absurd hrec (by simp [recorded])
  | act act =>
    obtain ⟨-, t, ht, rfl⟩ := step_act h
    rcases moves_of_step ht with ⟨e', hrec', hrecords⟩ | ⟨hnone, -⟩
    · obtain ⟨b, b', callers, hjs, -, hb, -⟩ := hrecords.js
      have haligned := (tracked_of_reach hr).aligned
      rw [hjs] at haligned
      obtain ⟨hdepth, -⟩ := haligned.caller hb
      rintro ⟨-, hown⟩
      have hentry : outer t.session.frameStack j = some f := by
        rw [hrecords.frameStack, outer_trackFrames, if_pos (by omega), hf]
        rfl
      rcases hown j f a hentry ha with hempty | hsame
      · exact hblank hempty
      · exact hlast hsame
    · rw [recorded, hnone] at hrec
      exact absurd hrec (by simp)

/-- **What goes wrong behind other code.**  When the last event recorded is another one, it is a
deeper one, whose frame is gone. -/
theorem not_ownFrames_of_disturbed {ok : State → Action → Prop} {act : Action} {e : Event}
    (hr : (system host).Reach ok s) (hrep : reported s act = some e) (hlast : s.last ≠ some e)
    (h : (system host).step s act = some s') : ¬ OwnFrames s' := by
  have htracked := tracked_of_reach hr
  obtain ⟨⟨b, hb, hrec⟩, hdepth, hframes, hstack⟩ := reported_cases htracked hrep h
  obtain ⟨l, hl, hdeeper⟩ := htracked.recorded b hb e hrec
  rintro ⟨hlength, -⟩
  rw [hframes, hstack, htracked.length l hl, hdepth] at hlength
  rcases hdeeper with rfl | hdeeper
  · exact hlast hl
  · omega

end

/-- A statement of the script `/a.js`. -/
def lineOf (funcname : String) (line : Int) : Stmt where
  filename := some (ascii "/a.js")
  funcname := some (ascii funcname)
  line := line
  col := 1

/-- The debugger is enabled, with a conditional breakpoint on line 10, and nothing has run yet. -/
def start : State where
  threads := .start { Threads.enabledSession with
    breakpoints := [(1, { breakpointOnLineThree 1 (ascii "x") with line := 10 })] }
  stack := Stack.empty
  untouched := 0
  last := none

theorem init_start (host : Host) : (system host).init start :=
  ⟨⟨rfl, rfl, rfl, rfl, rfl, rfl, rfl⟩, rfl, rfl, rfl, rfl⟩

/-- A statement and as many steps of the handler: seven are the way through it and back, and the way
to the condition where the breakpoint is found. -/
def handling (x : Stmt) (n : Nat) : List Action := .statement x :: .replicate n (.act (.js .next))

/-- The code of the debugger ends, with a falsy value. -/
def endFalsy : Action := .act (.js (.finish .null false))

/-- `main` calls `f`, which runs line 10; the code of the condition calls a function that comes to
no statement. -/
def calledOnce : List Action :=
  .call :: handling (lineOf "main" 1) 7 ++ .call :: handling (lineOf "f" 10) 7 ++
    [.call, .call, .ret, .ret]

/-- The rule where the handler returns from line 10. -/
theorem ownFrames_of_reach_called :
    ∃ s s', (system posixHost).Reach Allowed s ∧
      reported s endFalsy = some ((lineOf "f" 10).event 2) ∧
      (system posixHost).step s endFalsy = some s' ∧ OwnFrames s' := by
  have hrun : (((system posixHost).guard fun s a => decide (Allowed s a)).run start calledOnce).any
      (fun s => decide (Allowed s endFalsy) &&
        decide (reported s endFalsy = some ((lineOf "f" 10).event 2)) &&
        ((system posixHost).step s endFalsy).isSome) = true := by decide +kernel
  obtain ⟨s, hs, htests⟩ := (Option.any_eq_true _ _).mp hrun
  rw [Bool.and_eq_true, Bool.and_eq_true, decide_eq_true_eq, decide_eq_true_eq] at htests
  obtain ⟨⟨hallowed, hrep⟩, hsome⟩ := htests
  obtain ⟨s', hs'⟩ := Option.isSome_iff_exists.mp hsome
  have hreach : (system posixHost).Reach Allowed s :=
    StepSystem.Reach.run_guard (fun _ _ h => of_decide_eq_true h) _ (.init (init_start posixHost)) hs
  exact ⟨s, s', hreach, hrep, hs', ownFrames_of_reach posixHost hreach hallowed hrep hs'⟩

/-- `main` calls `f`, which runs a statement and returns; then `main` calls `g`, and `g` calls
`h` before its own first statement, line 30. -/
def enteredTwice : List Action :=
  .call :: handling (lineOf "main" 1) 7 ++ .call :: handling (lineOf "f" 11) 7 ++
    [.ret, .call, .call] ++ handling (lineOf "h" 30) 6

/-- `main` calls `f`, which comes to line 10, and the code of the condition to a statement. -/
def evaluated : List Action :=
  .call :: handling (lineOf "main" 1) 7 ++ .call :: handling (lineOf "f" 10) 7 ++
    .call :: handling (lineOf "<eval>" 1) 7 ++ [.ret]

/-- A run that ends in a report. -/
theorem exists_report {as : List Action} {act : Action} {e : Event} {test : State → Bool}
    (h : (((system posixHost).run start as).any fun s => decide (reported s act = some e) &&
      ((system posixHost).step s act).any test) = true) :
    ∃ s s', (system posixHost).Reachable s ∧ reported s act = some e ∧
      (system posixHost).step s act = some s' ∧ test s' = true := by
  obtain ⟨s, hs, htests⟩ := (Option.any_eq_true _ _).mp h
  rw [Bool.and_eq_true, decide_eq_true_eq] at htests
  obtain ⟨hrep, hstep⟩ := htests
  obtain ⟨s', hs', htest⟩ := (Option.any_eq_true _ _).mp hstep
  exact ⟨s, s', .run (.init (init_start posixHost)) hs, hrep, hs', htest⟩

/-- The lines that are reported, and whether an entry that is not blank is one of a frame that has
executed nothing. -/
def reportedLines (s : State) : List Int × Bool :=
  (s.threads.session.frameStack.map FrameInfo.line,
    (outer s.threads.session.frameStack 1).any (fun f => decide (f ≠ {})) &&
      (outer s.stack.live 1).any fun a => a.last.isNone)

/-- **A function that has returned is still reported.**  When the handler returns from the first
statement of `h`, the entry of its caller `g` is line 11, the last statement of `f`.  **And so is
the code of a condition**: when the handler returns from line 10, behind the falsy condition,
`frame_stack_` has three entries for two frames. -/
theorem returned_function_reported :
    (∃ s s', (system posixHost).Reachable s ∧
      reported s (.act (.js .next)) = some ((lineOf "h" 30).event 3) ∧
      (system posixHost).step s (.act (.js .next)) = some s' ∧
      s'.threads.session.frameStack.map FrameInfo.line = [30, 11, 1] ∧ ¬ OwnFrames s') ∧
    ∃ s s', (system posixHost).Reachable s ∧
      reported s endFalsy = some ((lineOf "f" 10).event 2) ∧
      (system posixHost).step s endFalsy = some s' ∧
      s'.threads.session.frameStack.map FrameInfo.line = [1, 10, 1] ∧
      s'.stack.live.length = 2 ∧ ¬ OwnFrames s' := by
  constructor
  · obtain ⟨s, s', hs, hrep, hstep, htest⟩ := @exists_report enteredTwice (.act (.js .next))
      ((lineOf "h" 30).event 3) (fun s => decide (reportedLines s = ([30, 11, 1], true)))
      (by decide +kernel)
    obtain ⟨hlines, hforeign⟩ := Prod.mk.inj (of_decide_eq_true htest)
    refine ⟨s, s', hs, hrep, hstep, hlines, ?_⟩
    rintro ⟨-, hown⟩
    obtain ⟨hf, ha⟩ := Bool.and_eq_true_iff.mp hforeign
    obtain ⟨f, hf, hblank⟩ := (Option.any_eq_true _ _).mp hf
    obtain ⟨a, ha, hnothing⟩ := (Option.any_eq_true _ _).mp ha
    rcases hown 1 f a hf ha with hempty | hsame
    · exact of_decide_eq_true hblank hempty
    · rw [Option.isNone_iff_eq_none.mp hnothing] at hsame
      exact absurd hsame (by simp)
  · obtain ⟨s, s', hs, hrep, hstep, htest⟩ := @exists_report evaluated endFalsy
      ((lineOf "f" 10).event 2)
      (fun s => decide ((reportedLines s).1 = [1, 10, 1] ∧ s.stack.live.length = 2))
      (by decide +kernel)
    obtain ⟨hlines, hlive⟩ := of_decide_eq_true htest
    refine ⟨s, s', hs, hrep, hstep, hlines, hlive, ?_⟩
    rintro ⟨hlength, -⟩
    have hthree := congrArg List.length hlines
    rw [hlive] at hlength
    simp only [reportedLines, List.length_map, List.length_cons, List.length_nil] at hthree
    omega

end QjsDebug.Execution
