/-
# Why a breakpoint pause happened

`debug_trace_handler` decides to stop in one section under `bp_mutex_` (`check_breakpoint`) and
looks up in a second one which breakpoint it is and which condition it has.  Between the two the
WS thread may change the table.  When nothing in the table matches any more, the second search
leaves the id 0 and the empty condition, and the handler pauses all the same: the event names no
breakpoint, and no condition was evaluated.

* §1  what justifies a pause: the second search of the same call found the breakpoint, and its
      condition is empty or was evaluated to a truthy value during that call;
* §2  this holds along every run in which each second search finds a match
      (`breakpoint_pause_justified`);
* §3  and of no other run: a second search without a match leads to an event that names no
      breakpoint (`unnamed_of_no_match`, `unnamed_breakpoint_pause`).
-/
import QjsDebug.Cdp.BreakpointTable
import QjsDebug.Threads.Reentrancy

namespace QjsDebug.Threads

/-! ## 1. Justified pauses -/

/-- The steps of a run so far, newest first. -/
abbrev Past := List (State × Act)

section

variable (host : Host)

/-- The steps belong to one call of the handler, on top of `callers`. -/
def SameCall (callers : List Activation) (during : Past) : Prop :=
  ∀ x ∈ during, ∃ top, top ≠ [] ∧ x.1.js = top ++ callers

/-- The second search of the call found the breakpoint in the table, matching the location. -/
def Searched (e : Event) (callers : List Activation) (during : Past) (bpId : Int)
    (bp : Breakpoint) : Prop :=
  ∃ x ∈ during, x.1.js = .handler e .findBreakpoint :: callers ∧
    (bpId, bp) ∈ x.1.session.breakpoints ∧ bp.enabled = true ∧ bp.hits host e.file e.line = true

/-- The condition is empty, or its evaluation in the call came out truthy. -/
def Passed (e : Event) (callers : List Activation) (during : Past) (bpId : Int)
    (bp : Breakpoint) : Prop :=
  bp.condition = [] ∨ ∃ x ∈ during, x.1.js = .code :: .handler e (.condition bpId) :: callers ∧
    ∃ result, x.2 = .js (.finish result true)

/-- The call has found the breakpoint. -/
def Found (past : Past) (e : Event) (callers : List Activation) (bpId : Int)
    (P : Past → Breakpoint → Prop) : Prop :=
  ∃ during bp, during <+: past ∧ SameCall callers during ∧ 0 < bpId ∧
    Searched host e callers during bpId bp ∧ P during bp

/-- A pause on a breakpoint by the call on top of `callers` has its reason. -/
def Justified (past : Past) (e : Event) (callers : List Activation) (bpId : Int) : Prop :=
  Found host past e callers bpId fun during bp => Passed e callers during bpId bp ∧
    hitBreakpoints .breakpoint e.line bpId = [Cdp.bpIdStr bpId (bp.line - 1)]

/-- What must hold of a call in progress for its pause to be justified. -/
def Due (past : Past) (callers : List Activation) : Activation → Prop
  | .handler e (.condition bpId) => Found host past e callers bpId fun _ _ => True
  | .handler e (.commit .breakpoint bpId) =>
    Found host past e callers bpId fun during bp => Passed e callers during bpId bp
  | .pause e .breakpoint bpId _ =>
    Found host past e callers bpId fun during bp => Passed e callers during bpId bp
  | _ => True

/-- Every call in progress is in order. -/
def AllDue (past : Past) (js : List Activation) : Prop :=
  ∀ a callers, a :: callers <:+ js → Due host past callers a

/-- The second search of the handler finds a match, when it is what the step does. -/
def finds (s : State) (a : Act) : Bool :=
  match a, s.js with
  | .js .next, .handler e .findBreakpoint :: _ =>
    hitting host e.file e.line s.session.breakpoints != []
  | _, _ => true

end

/-! ## 2. What a step keeps -/

section

variable {host : Host} {past : Past} {s s' : State} {a : Act}

/-- What a call has found it has still found after another step of its own. -/
theorem Found.step {e : Event} {callers : List Activation} {bpId : Int}
    {P Q : Past → Breakpoint → Prop} (h : Found host past e callers bpId P)
    (htop : ∃ top, top ≠ [] ∧ s.js = top ++ callers)
    (hPQ : ∀ during bp, P during bp → Q ((s, a) :: during) bp) :
    Found host ((s, a) :: past) e callers bpId Q := by
  obtain ⟨during, bp, hpre, hsame, hpos, ⟨x, hx, hfound⟩, hP⟩ := h
  refine ⟨(s, a) :: during, bp, List.cons_prefix_cons.mpr ⟨rfl, hpre⟩, ?_, hpos,
    ⟨x, List.mem_cons_of_mem _ hx, hfound⟩, hPQ during bp hP⟩
  intro y hy
  rcases List.mem_cons.mp hy with rfl | hy
  · exact htop
  · exact hsame y hy

theorem Passed.step {e : Event} {callers : List Activation} {during : Past} {bpId : Int}
    {bp : Breakpoint} (h : Passed e callers during bpId bp) :
    Passed e callers ((s, a) :: during) bpId bp := by
  rcases h with h | ⟨x, hx, h⟩
  · exact Or.inl h
  · exact Or.inr ⟨x, List.mem_cons_of_mem _ hx, h⟩

/-- The stack above a call. -/
theorem top_of_suffix {b : Activation} {callers js : List Activation} (h : b :: callers <:+ js) :
    ∃ top, top ≠ [] ∧ js = top ++ callers := by
  obtain ⟨top, rfl⟩ := h
  exact ⟨top ++ [b], by simp, by simp⟩

/-- A call that stays on the stack stays in order. -/
theorem AllDue.keep (h : AllDue host past s.js) {b : Activation} {callers : List Activation}
    (hb : b :: callers <:+ s.js) : Due host ((s, a) :: past) callers b := by
  have hdue := h b callers hb
  have htop := top_of_suffix hb
  cases b with
  | code => trivial
  | handler e pc =>
    cases pc with
    | condition bpId => exact Found.step hdue htop fun _ _ _ => trivial
    | commit reason bpId =>
      cases reason with
      | breakpoint => exact Found.step hdue htop fun _ _ => Passed.step
      | _ => trivial
    | _ => trivial
  | pause e reason bpId pc =>
    cases reason with
    | breakpoint => exact Found.step hdue htop fun _ _ => Passed.step
    | _ => trivial

/-- The stack after a step is what is left of the stack before it, with one more call that is in
order. -/
theorem AllDue.push (h : AllDue host past s.js) {b : Activation} {callers : List Activation}
    (hcallers : callers <:+ s.js) (hb : Due host ((s, a) :: past) callers b) :
    AllDue host ((s, a) :: past) (b :: callers) := by
  intro c cs hc
  rcases List.suffix_cons_iff.mp hc with heq | hc
  · obtain ⟨rfl, rfl⟩ := List.cons.inj heq
    exact hb
  · exact h.keep (hc.trans hcallers)

theorem AllDue.drop (h : AllDue host past s.js) {callers : List Activation}
    (hcallers : callers <:+ s.js) : AllDue host ((s, a) :: past) callers :=
  fun _ _ hc => h.keep (hc.trans hcallers)

/-- Ids are given out from 1 on. -/
def PositiveIds (s : Session) : Prop := 0 < s.nextBpId ∧ ∀ p ∈ s.breakpoints, 0 < p.1

theorem PositiveIds.congr {s t : Session} (h : PositiveIds s)
    (heq : t.nextBpId = s.nextBpId ∧ t.breakpoints = s.breakpoints) : PositiveIds t := by
  unfold PositiveIds
  rw [heq.1, heq.2]
  exact h

theorem positiveIds_write {s : Session} (h : PositiveIds s) (w : Write) :
    PositiveIds (w.apply s) := by
  cases w with
  | setBreakpoint url line column isRegex condition =>
    refine ⟨Int.add_pos h.1 one_pos, fun p hp => ?_⟩
    rcases SortedMap.mem_insert hp with rfl | hp
    · exact h.1
    · exact h.2 p hp
  | removeBreakpoint id => exact ⟨h.1, fun p hp => h.2 p (List.mem_filter.mp hp).1⟩
  | _ => exact h.congr ⟨rfl, rfl⟩

theorem handlerNext_table {s s' : Session} {e : Event} {pc : HandlerPc} {next : HandlerNext}
    (h : handlerNext host s e pc = some (s', next)) :
    s'.nextBpId = s.nextBpId ∧ s'.breakpoints = s.breakpoints := by
  cases pc with
  | testEntry mode =>
    simp only [handlerNext] at h
    split at h <;> obtain ⟨rfl, rfl⟩ := Prod.mk.inj (Option.some.inj h) <;> exact ⟨rfl, rfl⟩
  | condition bpId => exact absurd h (by simp [handlerNext])
  | _ => obtain ⟨rfl, rfl⟩ := Prod.mk.inj (Option.some.inj h); exact ⟨rfl, rfl⟩

theorem positiveIds_step (hstep : (machine host).step s a = some s') (h : PositiveIds s.session) :
    PositiveIds s'.session := by
  rcases step_cases hstep with ⟨c, rfl, hs⟩ | hs
  · cases hs with
    | handler _ hnext => exact h.congr (handlerNext_table hnext)
    | pause _ hnext => cases hnext <;> exact h.congr ⟨rfl, rfl⟩
    | evaluated _ =>
      unfold finishEval
      split <;> exact h.congr ⟨rfl, rfl⟩
    | _ => exact h
  · cases hs with
    | store _ => exact positiveIds_write h _
    | _ => exact h.congr ⟨rfl, rfl⟩

/-- **The second search**, when it finds something: what is then owed about the breakpoint is that
it was found at this moment, with the condition still to come unless it is empty. -/
theorem allDue_findBreakpoint {e : Event} {callers : List Activation} {session : Session}
    {next : HandlerNext} (h : AllDue host past s.js) (hpos : PositiveIds s.session)
    (hjs : s.js = .handler e .findBreakpoint :: callers)
    (hok : finds host s (.js .next) = true)
    (hnext : handlerNext host s.session e .findBreakpoint = some (session, next)) :
    AllDue host ((s, .js .next) :: past) (next.stack e callers) := by
  have hcallers : callers <:+ s.js := hjs ▸ List.suffix_cons _ _
  have hself : .handler e .findBreakpoint :: callers <:+ s.js := hjs ▸ List.suffix_rfl
  have htop := top_of_suffix hself
  have hne : hitting host e.file e.line s.session.breakpoints ≠ [] := by
    simpa [finds, hjs] using hok
  obtain ⟨p, rest, hhit⟩ := List.exists_cons_of_ne_nil hne
  have hp : p ∈ s.session.breakpoints ∧ p.2.enabled = true ∧
      p.2.hits host e.file e.line = true := by
    have hmem : p ∈ hitting host e.file e.line s.session.breakpoints := by simp [hhit]
    rw [hitting, List.mem_filter, Bool.and_eq_true] at hmem
    exact hmem
  have hfound : ∀ P : Past → Breakpoint → Prop, P [(s, .js .next)] p.2 →
      Found host ((s, .js .next) :: past) e callers p.1 P := by
    intro P hP
    refine ⟨[(s, .js .next)], p.2, List.cons_prefix_cons.mpr ⟨rfl, List.nil_prefix⟩, ?_,
      hpos.2 p hp.1, ⟨_, List.mem_singleton.mpr rfl, hjs, hp⟩, hP⟩
    intro x hx
    exact List.mem_singleton.mp hx ▸ htop
  simp only [handlerNext, findBreakpoint_eq, hhit, Option.some.injEq, Prod.mk.injEq] at hnext
  obtain ⟨-, rfl⟩ := hnext
  by_cases hcond : p.2.condition = []
  · rw [if_pos hcond]
    exact h.push hcallers (hfound _ (Or.inl hcond))
  · rw [if_neg hcond]
    have hdue : Due host ((s, .js .next) :: past) callers (.handler e (.condition p.1)) :=
      hfound (fun _ _ => True) trivial
    intro b cs hb
    rcases List.suffix_cons_iff.mp hb with heq | hb
    · obtain ⟨rfl, rfl⟩ := List.cons.inj heq
      trivial
    · exact h.push hcallers hdue b cs hb

/-- The handler's step, when its second search finds something. -/
theorem allDue_handler {e : Event} {pc : HandlerPc} {callers : List Activation}
    {session : Session} {next : HandlerNext} (h : AllDue host past s.js)
    (hpos : PositiveIds s.session) (hjs : s.js = .handler e pc :: callers)
    (hok : finds host s (.js .next) = true)
    (hnext : handlerNext host s.session e pc = some (session, next)) :
    AllDue host ((s, .js .next) :: past) (next.stack e callers) := by
  have hcallers : callers <:+ s.js := hjs ▸ List.suffix_cons _ _
  have hself : .handler e pc :: callers <:+ s.js := hjs ▸ List.suffix_rfl
  have hgoto : ∀ pc', Due host ((s, .js .next) :: past) callers (.handler e pc') →
      AllDue host ((s, .js .next) :: past) (HandlerNext.stack e callers (.goto pc')) :=
    fun pc' hdue => h.push hcallers hdue
  have hdone : AllDue host ((s, .js .next) :: past) (HandlerNext.stack e callers .done) :=
    h.drop hcallers
  cases pc with
  | findBreakpoint => exact allDue_findBreakpoint h hpos hjs hok hnext
  | commit reason bpId =>
    obtain ⟨-, rfl⟩ := Prod.mk.inj (Option.some.inj hnext)
    have hdue := h.keep (a := .js .next) hself
    cases reason <;> exact h.push hcallers hdue
  | condition bpId => exact absurd hnext (by simp [handlerNext])
  | testEntry mode =>
    simp only [handlerNext] at hnext
    split at hnext <;> obtain ⟨-, rfl⟩ := Prod.mk.inj (Option.some.inj hnext) <;>
      exact hgoto _ trivial
  | entry | switchMode mode =>
    obtain ⟨-, rfl⟩ := Prod.mk.inj (Option.some.inj hnext)
    split
    · exact hgoto _ trivial
    · exact hdone
  | testRequest mode | checkBreakpoint mode =>
    obtain ⟨-, rfl⟩ := Prod.mk.inj (Option.some.inj hnext)
    split <;> exact hgoto _ trivial
  | track | loadMode | clearRequest =>
    obtain ⟨-, rfl⟩ := Prod.mk.inj (Option.some.inj hnext)
    exact hgoto _ trivial

/-- `do_pause` keeps its reason as it goes on. -/
theorem AllDue.samePause (h : AllDue host past s.js) {e : Event} {reason : PauseReason} {bpId : Int}
    {pc pc' : PausePc} {callers : List Activation}
    (hself : .pause e reason bpId pc :: callers <:+ s.js) :
    AllDue host ((s, a) :: past) (.pause e reason bpId pc' :: callers) := by
  have hcallers : callers <:+ s.js := (List.suffix_cons _ _).trans hself
  have hdue := h.keep (a := a) hself
  cases reason <;> exact h.push hcallers hdue

theorem allDue_pause {e : Event} {reason : PauseReason} {bpId : Int} {pc : PausePc}
    {callers : List Activation} {c : Choice} (h : AllDue host past s.js)
    (hjs : s.js = .pause e reason bpId pc :: callers)
    (hnext : PauseStep s e reason bpId callers pc s') :
    AllDue host ((s, .js c) :: past) s'.js := by
  have hcallers : callers <:+ s.js := hjs ▸ List.suffix_cons _ _
  have hself : .pause e reason bpId pc :: callers <:+ s.js := hjs ▸ List.suffix_rfl
  cases hnext with
  | evaluate _ =>
    intro b cs hb
    rcases List.suffix_cons_iff.mp hb with heq | hb
    · obtain ⟨rfl, rfl⟩ := List.cons.inj heq
      trivial
    · exact h.samePause hself b cs hb
  | sendResumed => exact h.drop hcallers
  | _ => exact h.samePause hself

/-- A wake-up changes no reason. -/
theorem AllDue.wakeJs (h : AllDue host past s.js) :
    AllDue host ((s, a) :: past) (wakeJs s.js) := by
  unfold Threads.wakeJs
  split
  · rename_i e reason bpId callers hjs
    have hself : .pause e reason bpId .parked :: callers <:+ s.js := hjs ▸ List.suffix_rfl
    exact h.samePause hself
  · exact h.drop List.suffix_rfl

/-- **One step** of either thread. -/
theorem allDue_step (h : AllDue host past s.js) (hpos : PositiveIds s.session)
    (hok : finds host s a = true) (hstep : (machine host).step s a = some s') :
    AllDue host ((s, a) :: past) s'.js := by
  rcases step_cases hstep with ⟨c, rfl, hs⟩ | hs
  · cases hs with
    | statement hjs => exact h.push (hjs ▸ List.suffix_rfl) trivial
    | fires hjs =>
      rename_i e bpId callers result
      have hself : .handler e (.condition bpId) :: callers <:+ s.js := hjs ▸ List.suffix_cons _ _
      have hfound := Found.step (a := .js (.finish result true)) (h _ _ hself) (top_of_suffix hself)
        (Q := fun during bp => Passed e callers during bpId bp) fun during bp _ =>
          Or.inr ⟨_, List.mem_cons_self, hjs, result, rfl⟩
      exact h.push ((List.suffix_cons _ _).trans hself) hfound
    | falsy hjs => exact h.drop (hjs ▸ (List.suffix_cons _ _).trans (List.suffix_cons _ _))
    | getterDone hjs => exact h.drop (hjs ▸ List.suffix_cons _ _)
    | evaluated hjs =>
      rw [finishEval_js]
      exact h.samePause (hjs ▸ List.suffix_cons _ _)
    | handler hjs hnext => exact allDue_handler h hpos hjs hok hnext
    | getter hjs => exact h.push (hjs ▸ List.suffix_rfl) trivial
    | spurious hjs =>
      rename_i e reason bpId callers
      have hself : .pause e reason bpId .parked :: callers <:+ s.js := hjs ▸ List.suffix_rfl
      exact h.samePause hself
    | pause hjs hnext => exact allDue_pause h hjs hnext
  · rcases hs.js with hjs | hjs
    · rw [hjs]
      exact h.drop List.suffix_rfl
    · rw [hjs]
      exact h.wakeJs

end

/-! ## 3. Runs -/

section

variable (host : Host)

/-- The two threads, with a table whose ids the session gave out. -/
def numbered : StepSystem State Act where
  init := fun s => s.Initial ∧ PositiveIds s.session
  step := step host

/-- The event that the JS thread sends next, when it is a `Debugger.paused`: its reason and its
`hitBreakpoints`. -/
def pausedEvent (s : State) : Option (PauseReason × List Bytes) :=
  match s.js with
  | .pause e reason bpId .sendPaused :: _ => some (reason, hitBreakpoints reason e.line bpId)
  | _ => none

/-- Every `Debugger.paused` with reason Breakpoint names one breakpoint, and it is justified. -/
def PausesJustified (past : Past) (s : State) : Prop :=
  ∀ hits, pausedEvent s = some (.breakpoint, hits) →
    ∃ e callers bpId, s.js = .pause e .breakpoint bpId .sendPaused :: callers ∧
      hits.length = 1 ∧ Justified host past e callers bpId

end

section

variable {host : Host}

theorem positiveIds_of_trace {ok : State → Act → Prop} {past : Past} {s : State}
    (h : (numbered host).Trace ok past s) : PositiveIds s.session := by
  refine h.reach.invariant (I := fun s => PositiveIds s.session) ?_ ?_
  · intro s hi
    exact hi.2
  · intro s a s' hpos _ hstep
    exact positiveIds_step hstep hpos

theorem allDue_of_trace {past : Past} {s : State}
    (h : (numbered host).Trace (fun s a => finds host s a = true) past s) :
    AllDue host past s.js := by
  refine h.invariant (I := fun past s => AllDue host past s.js) ?_ ?_
  · intro s hi b callers hb
    rw [hi.1.js] at hb
    rcases List.suffix_cons_iff.mp hb with heq | hb
    · obtain ⟨rfl, rfl⟩ := List.cons.inj heq
      trivial
    · exact absurd (List.suffix_nil.mp hb) (by simp)
  · intro past s a s' htrace hdue hok hstep
    exact allDue_step hdue (positiveIds_of_trace htrace) hok hstep

/-- **A pause on a breakpoint is justified as long as each second search finds a match.**  For
every interleaving of the two threads in which the table still holds an enabled match whenever
`debug_trace_handler` searches it the second time: every `Debugger.paused` with reason Breakpoint
carries one id, which names a breakpoint that the second search of the same call found in the
table, matching the location, and whose condition is empty or was evaluated truthy in that call. -/
theorem breakpoint_pause_justified {past : Past} {s : State}
    (h : (numbered host).Trace (fun s a => finds host s a = true) past s) :
    PausesJustified host past s := by
  intro hits hevent
  unfold pausedEvent at hevent
  split at hevent
  · rename_i e reason bpId callers hjs
    obtain ⟨rfl, rfl⟩ := Prod.mk.inj (Option.some.inj hevent)
    have hself : .pause e .breakpoint bpId .sendPaused :: callers <:+ s.js := hjs ▸ List.suffix_rfl
    obtain ⟨during, bp, hpre, hsame, hpos, hsearched, hpassed⟩ := allDue_of_trace h _ _ hself
    have hone : hitBreakpoints .breakpoint e.line bpId =
        [decimal bpId ++ ascii ":" ++ decimal (e.line - 1) ++ ascii ":0"] := by
      rw [hitBreakpoints, if_pos hpos]
    refine ⟨e, callers, bpId, hjs, by rw [hone]; rfl, during, bp, hpre, hsame, hpos, hsearched,
      hpassed, ?_⟩
    obtain ⟨x, -, -, -, -, hhits⟩ := hsearched
    have hline : bp.line = e.line := by
      unfold Breakpoint.hits at hhits
      exact of_decide_eq_true (Bool.and_eq_true_iff.mp hhits).1
    rw [hone, hline]
    rfl
  · exact absurd hevent (by simp)

/-- `do_pause` gets to its event without waiting. -/
theorem JsRun.announce {s : State} {e : Event} {callers : List Activation} (session : Session)
    (reason : PauseReason) (bpId : Int) :
    JsRun host { s with session := session, js := .pause e reason bpId .capture :: callers }
      { s with
        session := session.enterPause e
        js := .pause e reason bpId .sendPaused :: callers } :=
  .head .next rfl (.head .next rfl (.head .next rfl (.refl _)))

/-- **The condition is exact.**  Where the second search is about to find nothing, the JS thread
alone gets to an event with reason Breakpoint that names no breakpoint. -/
theorem unnamed_of_no_match {s : State} {a : Act} (h : finds host s a = false) :
    ∃ s', JsRun host s s' ∧ pausedEvent s' = some (.breakpoint, []) := by
  unfold finds at h
  split at h
  · rename_i e callers hjs
    have hnone : hitting host e.file e.line s.session.breakpoints = [] := by simpa using h
    have hfind : findBreakpoint host e.file e.line s.session.breakpoints = (0, []) := by
      rw [findBreakpoint_eq, hnone]
    have hself :
        s = { s with session := s.session, js := .handler e .findBreakpoint :: callers } := by
      rw [← hjs]
    have hrun := @findBreakpoint_runs host s e callers (fun _ => true) _ _ hfind
    rw [← hself, if_neg (by simp)] at hrun
    exact ⟨_, hrun.trans (.announce _ .breakpoint 0), rfl⟩
  · exact absurd h (by simp)

end

/-- The client sets a breakpoint on line 3 of `/a.js`. -/
def setOnLineThree : List Act :=
  [.client (.setBreakpoint (ascii "/a.js") 2 0 false []), .ws]

/-- The script comes to that line, and the handler finds that some breakpoint matches. -/
def checkLineThree : List Act := .js (.statement lineThree) :: jsSteps 6

theorem numbered_start : (numbered posixHost).init (.start enabledSession) :=
  ⟨initial_start, by decide, by simp [State.start, enabledSession, Session.new]⟩

/-- The rule at a run that pauses on the breakpoint. -/
theorem breakpoint_pause_justified_lineThree :
    ∃ past s, (numbered posixHost).Trace (fun s a => finds posixHost s a = true) past s ∧
      pausedEvent s = some (.breakpoint, [ascii "1:2:0"]) ∧ PausesJustified posixHost past s := by
  obtain ⟨s, hs, hevent⟩ := @StepSystem.exists_reach_of_run _ _ (numbered posixHost)
    (.start enabledSession) (setOnLineThree ++ checkLineThree ++ jsSteps 5) (finds posixHost)
    (fun s => pausedEvent s == some (.breakpoint, [ascii "1:2:0"])) numbered_start
    (by decide +kernel)
  obtain ⟨past, hpast⟩ := hs.exists_trace
  exact ⟨past, s, hpast, by simpa using hevent, breakpoint_pause_justified hpast⟩

/-- **A pause on no breakpoint.**  The client removes the breakpoint after `check_breakpoint` has
said that the script stops there and before the second search: the client is told that the script
paused on a breakpoint, and the event names none. -/
theorem unnamed_breakpoint_pause :
    ∃ past s, (numbered posixHost).Trace (fun _ _ => True) past s ∧
      pausedEvent s = some (.breakpoint, []) ∧ ¬ PausesJustified posixHost past s := by
  obtain ⟨s, hs, hevent⟩ := @StepSystem.exists_reachable_of_run _ _ (numbered posixHost)
    (.start enabledSession)
    (setOnLineThree ++ checkLineThree ++ [.client (.removeBreakpoint 1), .ws] ++ jsSteps 5)
    (fun s => pausedEvent s == some (.breakpoint, [])) numbered_start (by decide +kernel)
  obtain ⟨past, hpast⟩ := hs.exists_trace
  have hnone : pausedEvent s = some (.breakpoint, []) := by simpa using hevent
  refine ⟨past, s, hpast, hnone, fun hjust => ?_⟩
  obtain ⟨-, -, -, -, hlen, -⟩ := hjust [] hnone
  exact absurd hlen (by simp)

end QjsDebug.Threads
