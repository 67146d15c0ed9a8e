/-
# The calls of the JS thread and the frames beneath them

A call of the handler stands on the frames that are live at its statement, and so does the pause
that it may end in.  The code that the debugger runs for it -- a condition, a getter, an evaluated
expression -- has its frames on top of these, and they are gone when it ends.

* §1  what a step of the two threads does to the calls and to `frame_stack_`, said once (`Move`,
      `Records`);
* §2  the frames that each call stands on (`Aligned`).
-/
import QjsDebug.Threads.Steps

namespace QjsDebug.Execution

open Threads (Activation HandlerPc HandlerNext PausePc PauseStep JsStep WsStep Act Choice machine
  wakeJs step_cases finishEval finishEval_js)

/-! ## 1. What a step does -/

/-- The event that a call was made for. -/
def eventOf : Activation → Option Event
  | .code => none
  | .handler e _ => some e
  | .pause e _ _ _ => some e

/-- ... once the handler has recorded it. -/
def recordedOf : Activation → Option Event
  | .code | .handler _ .entry | .handler _ .track => none
  | .handler e _ => some e
  | .pause e _ _ _ => some e

theorem recordedOf_eq {a : Activation} {e : Event} (h : recordedOf a = some e) :
    eventOf a = some e := by
  unfold recordedOf at h
  split at h
  · exact absurd h (by simp)
  · exact absurd h (by simp)
  · exact absurd h (by simp)
  · exact h
  · exact h

/-- The event that the step records: the handler brings `frame_stack_` up to date, or
`capture_frames` does. -/
def recording (s : Threads.State) : Act → Option Event
  | .js .next =>
    match s.js with
    | .handler e .track :: _ => some e
    | .pause e _ _ .capture :: _ => some e
    | _ => none
  | _ => none

/-- A step that records the event. -/
structure Records (s : Threads.State) (e : Event) (s' : Threads.State) : Prop where
  js : ∃ a b callers, s.js = a :: callers ∧ s'.js = b :: callers ∧ eventOf a = some e ∧
    recordedOf b = some e
  frameStack : s'.session.frameStack = trackFrames s.session.frameStack e

/-- What any other step does to the calls. -/
inductive Move (s : Threads.State) : Act → Threads.State → Prop
  | still {act s'} (hjs : s'.js = s.js) : Move s act s'
  | goto {act s' a b e callers} (hjs : s.js = a :: callers) (hjs' : s'.js = b :: callers)
      (ha : eventOf a = some e) (hb : eventOf b = some e) (hrec : recordedOf b = recordedOf a) :
      Move s act s'
  | statement {e s' callers} (hjs : s.js = .code :: callers)
      (hjs' : s'.js = .handler e .entry :: .code :: callers) : Move s (.js (.statement e)) s'
  /-- The debugger runs code. -/
  | begin {act s' a b e callers} (hjs : s.js = a :: callers) (hjs' : s'.js = .code :: b :: callers)
      (ha : eventOf a = some e) (hb : eventOf b = some e) (hrec : recordedOf b = recordedOf a) :
      Move s act s'
  | finish {result truthy s' a b e callers} (hjs : s.js = .code :: a :: callers)
      (hjs' : s'.js = b :: callers) (ha : eventOf a = some e) (hb : eventOf b = some e)
      (hrec : recordedOf b = recordedOf a) : Move s (.js (.finish result truthy)) s'
  /-- The handler returns behind a condition. -/
  | finishFalsy {result s' a e callers} (hjs : s.js = .code :: a :: callers)
      (hjs' : s'.js = callers) (ha : eventOf a = some e) : Move s (.js (.finish result false)) s'
  | back {act s' a e callers} (hjs : s.js = a :: callers) (hjs' : s'.js = callers)
      (ha : eventOf a = some e) : Move s act s'

/-- Nothing is recorded. -/
structure Quiet (s : Threads.State) (act : Act) (s' : Threads.State) : Prop where
  move : Move s act s'
  frameStack : s'.session.frameStack = s.session.frameStack

section

variable {host : Host} {s s' : Threads.State}

/-- A step of the handler. -/
theorem moves_handler {e : Event} {pc : HandlerPc} {callers : List Activation} {session : Session}
    {next : HandlerNext} (hjs : s.js = .handler e pc :: callers)
    (h : Threads.handlerNext host s.session e pc = some (session, next)) :
    (pc = .track ∧ Records s e { s with session := session, js := next.stack e callers }) ∨
      (pc ≠ .track ∧
        Quiet s (.js .next) { s with session := session, js := next.stack e callers }) := by
  have hback : ∀ {session : Session}, session.frameStack = s.session.frameStack →
      Quiet s (.js .next)
        { s with session := session, js := HandlerNext.done.stack e callers } :=
    fun hframes => ⟨.back hjs rfl rfl, hframes⟩
  cases pc with
  | entry =>
    refine .inr ⟨HandlerPc.noConfusion, ?_⟩
    simp only [Threads.handlerNext, Option.some.injEq, Prod.mk.injEq] at h
    obtain ⟨rfl, rfl⟩ := h
    split
    · exact ⟨.goto hjs rfl rfl rfl rfl, rfl⟩
    · exact hback rfl
  | track =>
    obtain ⟨rfl, rfl⟩ := Prod.mk.inj (Option.some.inj h)
    exact .inl ⟨rfl, ⟨_, _, callers, hjs, rfl, rfl, rfl⟩, rfl⟩
  | loadMode | clearRequest | commit reason bpId =>
    refine .inr ⟨HandlerPc.noConfusion, ?_⟩
    obtain ⟨rfl, rfl⟩ := Prod.mk.inj (Option.some.inj h)
    exact ⟨.goto hjs rfl rfl rfl rfl, rfl⟩
  | testRequest mode =>
    refine .inr ⟨HandlerPc.noConfusion, ?_⟩
    obtain ⟨rfl, rfl⟩ := Prod.mk.inj (Option.some.inj h)
    cases s.session.pauseRequested <;> exact ⟨.goto hjs rfl rfl rfl rfl, rfl⟩
  | testEntry mode =>
    refine .inr ⟨HandlerPc.noConfusion, ?_⟩
    simp only [Threads.handlerNext] at h
    split at h <;> obtain ⟨rfl, rfl⟩ := Prod.mk.inj (Option.some.inj h) <;>
      exact ⟨.goto hjs rfl rfl rfl rfl, rfl⟩
  | checkBreakpoint mode =>
    refine .inr ⟨HandlerPc.noConfusion, ?_⟩
    obtain ⟨rfl, rfl⟩ := Prod.mk.inj (Option.some.inj h)
    cases QjsDebug.checkBreakpoint host s.session e.file e.line <;>
      exact ⟨.goto hjs rfl rfl rfl rfl, rfl⟩
  | findBreakpoint =>
    refine .inr ⟨HandlerPc.noConfusion, ?_⟩
    simp only [Threads.handlerNext, Option.some.injEq, Prod.mk.injEq] at h
    obtain ⟨rfl, rfl⟩ := h
    split
    · exact ⟨.goto hjs rfl rfl rfl rfl, rfl⟩
    · exact ⟨.begin hjs rfl rfl rfl rfl, rfl⟩
  | condition bpId => exact absurd h (by simp [Threads.handlerNext])
  | switchMode mode =>
    refine .inr ⟨HandlerPc.noConfusion, ?_⟩
    obtain ⟨rfl, rfl⟩ := Prod.mk.inj (Option.some.inj h)
    cases stepStops s.session mode e with
    | true => exact ⟨.goto hjs rfl rfl rfl rfl, rfl⟩
    | false => exact hback rfl

/-- A step of `do_pause`. -/
theorem moves_pause {e : Event} {reason : PauseReason} {bpId : Int} {pc : PausePc}
    {callers : List Activation} (hjs : s.js = .pause e reason bpId pc :: callers)
    (h : PauseStep s e reason bpId callers pc s') :
    (pc = .capture ∧ Records s e s') ∨ (pc ≠ .capture ∧ Quiet s (.js .next) s') := by
  cases h with
  | capture => exact .inl ⟨rfl, ⟨_, _, callers, hjs, rfl, rfl, rfl⟩, rfl⟩
  | evaluate _ =>
    exact .inr ⟨PausePc.noConfusion, .begin hjs rfl rfl rfl rfl, rfl⟩
  | sendResumed => exact .inr ⟨PausePc.noConfusion, .back hjs rfl rfl, rfl⟩
  | _ => exact .inr ⟨PausePc.noConfusion, .goto hjs rfl rfl rfl rfl, rfl⟩

theorem frameStack_finishEval (s : Threads.State) (result : Json.Value) (js : List Activation) :
    (finishEval s result js).session.frameStack = s.session.frameStack := by
  unfold finishEval
  split <;> rfl

/-- No command of the client touches the frames. -/
theorem frameStack_write (s : Session) (w : Threads.Write) :
    (w.apply s).frameStack = s.frameStack := by
  cases w <;> rfl

/-- A step of the WS thread wakes the JS thread up at most. -/
theorem moves_ws {act : Act} (h : WsStep s act s') : Quiet s act s' := by
  have hframes : s'.session.frameStack = s.session.frameStack := by
    cases h with
    | store _ => exact frameStack_write _ _
    | _ => rfl
  refine ⟨?_, hframes⟩
  rcases h.js with hjs | hjs
  · exact .still hjs
  · cases hcalls : s.js with
    | nil =>
      rw [hcalls] at hjs
      exact .still (hjs.trans hcalls.symm)
    | cons a callers =>
      rw [hcalls] at hjs
      unfold wakeJs at hjs
      split at hjs
      · rename_i heq
        obtain ⟨rfl, rfl⟩ := List.cons.inj heq
        exact .goto hcalls hjs rfl rfl rfl
      · exact .still (hjs.trans hcalls.symm)

/-- **Every step** records the event of the innermost call, or moves on without. -/
theorem moves_of_step {act : Act} (h : (machine host).step s act = some s') :
    (∃ e, recording s act = some e ∧ Records s e s') ∨
      (recording s act = none ∧ Quiet s act s') := by
  rcases step_cases h with ⟨c, rfl, hs⟩ | hs
  · cases hs with
    | statement hjs => exact .inr ⟨rfl, .statement hjs rfl, rfl⟩
    | fires hjs => exact .inr ⟨rfl, .finish hjs rfl rfl rfl rfl, rfl⟩
    | falsy hjs => exact .inr ⟨rfl, .finishFalsy hjs rfl rfl, rfl⟩
    | getterDone hjs => exact .inr ⟨rfl, .finish hjs rfl rfl rfl rfl, rfl⟩
    | evaluated hjs =>
      refine .inr ⟨rfl, .finish hjs (finishEval_js _ _ _) rfl rfl rfl, frameStack_finishEval _ _ _⟩
    | @handler e pc callers session next hjs hnext =>
      rcases moves_handler hjs hnext with ⟨rfl, hrec⟩ | ⟨hpc, hquiet⟩
      · refine .inl ⟨e, ?_, hrec⟩
        simp only [recording, hjs]
      · refine .inr ⟨?_, hquiet⟩
        simp only [recording, hjs]
        split
        · rename_i heq
          obtain ⟨heq, -⟩ := List.cons.inj heq
          exact absurd (Activation.handler.inj heq).2 hpc
        · rename_i heq
          exact absurd (List.cons.inj heq).1 Activation.noConfusion
        · rfl
    | getter hjs => exact .inr ⟨rfl, .begin hjs rfl rfl rfl rfl, rfl⟩
    | spurious hjs => exact .inr ⟨rfl, .goto hjs rfl rfl rfl rfl, rfl⟩
    | @pause e reason bpId pc callers s' hjs hnext =>
      rcases moves_pause hjs hnext with ⟨rfl, hrec⟩ | ⟨hpc, hquiet⟩
      · refine .inl ⟨e, ?_, hrec⟩
        simp only [recording, hjs]
      · refine .inr ⟨?_, hquiet⟩
        simp only [recording, hjs]
        split
        · rename_i heq
          exact absurd (List.cons.inj heq).1 Activation.noConfusion
        · rename_i heq
          obtain ⟨heq, -⟩ := List.cons.inj heq
          exact absurd (Activation.pause.inj heq).2.2.2 hpc
        · rfl
  · refine .inr ⟨?_, moves_ws hs⟩
    cases hs <;> rfl

end

/-! ## 2. What the calls stand on -/

/-- The frames that running code has to leave alone: those its caller stands on. -/
def floor : List Activation → Nat
  | .code :: .handler e _ :: _ => e.depth
  | .code :: .pause e _ _ _ :: _ => e.depth
  | _ => 0

/-- The calls with so many live frames: running code has its frames on top of those its caller
stands on, and a call of the handler stands on all of them, which are more than its script has
below. -/
inductive Aligned : Nat → List Activation → Prop
  | script (n : Nat) : Aligned n [.code]
  | code {n : Nat} {a : Activation} {e : Event} {js : List Activation} (ha : eventOf a = some e)
      (hle : e.depth ≤ n) (h : Aligned e.depth (a :: js)) : Aligned n (.code :: a :: js)
  | call {a : Activation} {e : Event} {js : List Activation} (ha : eventOf a = some e)
      (hlt : floor (.code :: js) < e.depth) (h : Aligned e.depth (.code :: js)) :
      Aligned e.depth (a :: .code :: js)

theorem floor_eq {a : Activation} {e : Event} (ha : eventOf a = some e) (js : List Activation) :
    floor (.code :: a :: js) = e.depth := by
  cases a with
  | code => exact absurd ha (by simp [eventOf])
  | handler e' pc | pause e' reason bpId pc =>
    obtain rfl := Option.some.inj ha
    rfl

theorem Aligned.floor_le {n : Nat} {js : List Activation} (h : Aligned n (.code :: js)) :
    floor (.code :: js) ≤ n := by
  cases h with
  | script => exact Nat.zero_le _
  | code ha hle _ => rw [floor_eq ha]; exact hle
  | call ha => exact absurd ha (by simp [eventOf])

/-- Calls and returns of the running code, down to its floor. -/
theorem Aligned.run {n m : Nat} {js : List Activation} (h : Aligned n (.code :: js))
    (hm : floor (.code :: js) ≤ m) : Aligned m (.code :: js) := by
  cases h with
  | script => exact .script m
  | code ha _ hjs => exact .code ha (by rwa [floor_eq ha] at hm) hjs
  | call ha => exact absurd ha (by simp [eventOf])

/-- A call of the handler stands on the frames that its script left. -/
theorem Aligned.caller {n : Nat} {a : Activation} {e : Event} {callers : List Activation}
    (h : Aligned n (a :: callers)) (ha : eventOf a = some e) :
    n = e.depth ∧ ∃ js, callers = .code :: js ∧ floor callers < e.depth ∧ Aligned n callers := by
  cases h with
  | script | code => exact absurd ha (by simp [eventOf])
  | @call a e' js ha' hlt hjs =>
    rw [ha] at ha'
    obtain rfl := Option.some.inj ha'
    exact ⟨rfl, js, rfl, hlt, hjs⟩

theorem Aligned.code_caller {n : Nat} {a : Activation} {e : Event} {callers : List Activation}
    (h : Aligned n (.code :: a :: callers)) (ha : eventOf a = some e) :
    e.depth ≤ n ∧ Aligned e.depth (a :: callers) := by
  cases h with
  | @code _ _ e' _ ha' hle hjs =>
    rw [ha] at ha'
    obtain rfl := Option.some.inj ha'
    exact ⟨hle, hjs⟩
  | call ha' => exact absurd ha' (by simp [eventOf])

/-- The same with another place in the same call. -/
theorem Aligned.replace {n : Nat} {a b : Activation} {e : Event} {callers : List Activation}
    (h : Aligned n (a :: callers)) (ha : eventOf a = some e) (hb : eventOf b = some e) :
    Aligned n (b :: callers) := by
  obtain ⟨rfl, js, rfl, hlt, hcallers⟩ := h.caller ha
  exact .call hb hlt hcallers

/-- **All calls stand on live frames**, and all but an innermost call of the handler on frames that
the running code leaves alone. -/
theorem Aligned.depth_le {n : Nat} {js : List Activation} (h : Aligned n js) :
    ∀ a ∈ js, ∀ e, eventOf a = some e → 0 < e.depth ∧ e.depth ≤ n ∧
      ∀ callers, js = .code :: callers → e.depth ≤ floor js := by
  induction h with
  | script n =>
    intro a ha e he
    rw [List.mem_singleton.mp ha] at he
    exact absurd he (by simp [eventOf])
  | @code n b e' js hb hle h ih =>
    intro a ha e he
    rcases List.mem_cons.mp ha with rfl | ha
    · exact absurd he (by simp [eventOf])
    · obtain ⟨hpos, hdepth, -⟩ := ih a ha e he
      refine ⟨hpos, Nat.le_trans hdepth hle, fun _ _ => ?_⟩
      rw [floor_eq hb]
      exact hdepth
  | @call b e' js hb hlt h ih =>
    intro a ha e he
    have hnot : ∀ callers, b :: .code :: js = .code :: callers →
        e.depth ≤ floor (b :: .code :: js) :=
      fun callers heq => by
        rw [(List.cons.inj heq).1] at hb
        exact absurd hb (by simp [eventOf])
    rcases List.mem_cons.mp ha with rfl | ha
    · rw [hb] at he
      obtain rfl := Option.some.inj he
      exact ⟨Nat.lt_of_le_of_lt (Nat.zero_le _) hlt, Nat.le_refl _, hnot⟩
    · obtain ⟨hpos, hdepth, -⟩ := ih a ha e he
      exact ⟨hpos, hdepth, hnot⟩

/-- The calls below an innermost call of the handler stand on fewer frames. -/
theorem Aligned.depth_lt {n : Nat} {a b : Activation} {e e' : Event} {callers : List Activation}
    (h : Aligned n (a :: callers)) (ha : eventOf a = some e) (hb : b ∈ callers)
    (he' : eventOf b = some e') : e'.depth < e.depth := by
  obtain ⟨-, js, rfl, hlt, hcallers⟩ := h.caller ha
  obtain ⟨-, -, hfloor⟩ := hcallers.depth_le b hb e' he'
  exact Nat.lt_of_le_of_lt (hfloor js rfl) hlt

section

variable {s s' : Threads.State} {n : Nat}

/-- **Moving on** keeps the calls aligned, when code ends with its frames gone. -/
theorem Move.aligned {act : Act} (h : Move s act s') (hn : Aligned n s.js)
    (hstatement : ∀ e, act = .js (.statement e) → e.depth = n ∧ floor s.js < n)
    (hfinish : ∀ result truthy, act = .js (.finish result truthy) → n = floor s.js) :
    Aligned n s'.js := by
  cases h with
  | still hjs => rwa [hjs]
  | goto hjs hjs' ha hb _ =>
    rw [hjs] at hn
    rw [hjs']
    exact hn.replace ha hb
  | statement hjs hjs' =>
    obtain ⟨rfl, hlt⟩ := hstatement _ rfl
    rw [hjs] at hn hlt
    rw [hjs']
    exact .call rfl hlt hn
  | begin hjs hjs' ha hb _ =>
    rw [hjs] at hn
    rw [hjs']
    obtain ⟨rfl, -⟩ := hn.caller ha
    exact .code hb (Nat.le_refl _) (hn.replace ha hb)
  | finish hjs hjs' ha hb _ =>
    have hfloor := hfinish _ _ rfl
    rw [hjs] at hn hfloor
    rw [floor_eq ha] at hfloor
    rw [hjs', hfloor]
    exact (hn.code_caller ha).2.replace ha hb
  | finishFalsy hjs hjs' ha =>
    have hfloor := hfinish _ _ rfl
    rw [hjs] at hn hfloor
    rw [floor_eq ha] at hfloor
    obtain ⟨-, -, -, -, hcallers⟩ := (hn.code_caller ha).2.caller ha
    rw [hjs', hfloor]
    exact hcallers
  | back hjs hjs' ha =>
    rw [hjs] at hn
    obtain ⟨-, -, -, -, hcallers⟩ := hn.caller ha
    rwa [hjs']

/-- The calls behind a move were there before, and as far along in recording. -/
theorem Move.mem {act : Act} (h : Move s act s') (hact : ∀ e, act ≠ .js (.statement e)) :
    ∀ b ∈ s'.js, ∀ e, eventOf b = some e →
      ∃ a ∈ s.js, eventOf a = some e ∧ recordedOf b = recordedOf a := by
  intro b hb e he
  have hsame : b ∈ s.js → ∃ a ∈ s.js, eventOf a = some e ∧ recordedOf b = recordedOf a :=
    fun hmem => ⟨b, hmem, he, rfl⟩
  have hreplace : ∀ {a' b' : Activation} {e' : Event} {callers : List Activation},
      (∀ c ∈ a' :: callers, c ∈ s.js) → eventOf a' = some e' → eventOf b' = some e' →
      recordedOf b' = recordedOf a' → b ∈ b' :: callers →
      ∃ a ∈ s.js, eventOf a = some e ∧ recordedOf b = recordedOf a := by
    intro a' b' e' callers hsub ha' hb' hrec hmem
    rcases List.mem_cons.mp hmem with rfl | hmem
    · rw [hb'] at he
      exact ⟨a', hsub a' List.mem_cons_self, ha'.trans he, hrec⟩
    · exact hsame (hsub b (List.mem_cons_of_mem _ hmem))
  cases h with
  | still hjs => exact hsame (hjs ▸ hb)
  | goto hjs hjs' ha' hb' hrec =>
    exact hreplace (fun c hc => hjs ▸ hc) ha' hb' hrec (hjs' ▸ hb)
  | statement => exact absurd rfl (hact _)
  | begin hjs hjs' ha' hb' hrec =>
    rw [hjs'] at hb
    rcases List.mem_cons.mp hb with rfl | hb
    · exact absurd he (by simp [eventOf])
    · exact hreplace (fun c hc => hjs ▸ hc) ha' hb' hrec hb
  | finish hjs hjs' ha' hb' hrec =>
    exact hreplace (fun c hc => hjs ▸ List.mem_cons_of_mem _ hc) ha' hb' hrec (hjs' ▸ hb)
  | finishFalsy hjs hjs' _ =>
    exact hsame (hjs ▸ List.mem_cons_of_mem _ (List.mem_cons_of_mem _ (hjs' ▸ hb)))
  | back hjs hjs' _ => exact hsame (hjs ▸ List.mem_cons_of_mem _ (hjs' ▸ hb))

end

end QjsDebug.Execution
