/-
# The start-up handshake

With `--inspect-brk` the main thread calls `wait_for_debugger` before it runs the script: it
stores `waiting_ = true` and sleeps on `wait_cv_` until the flag is false.  The WS thread, which
has been started before that, clears the flag and notifies in `run_if_waiting` and in
`on_disconnect`, without `wait_mutex_`.

Two things can go wrong.  The client's command can be over before the flag is set, and then main
waits for a second one.  And a notification can come between main's test of the flag and its
sleep, and then it is lost (`Lib.CondVar`).  In every run in which neither happens the handshake
cannot be missed (`handshake_kept_of_reach`), and where one of them happens it is missed
(`missed_of_not_inTime`).

`wait_mutex_` is taken by main alone, so taking it never waits.
-/
import QjsDebug.Lib.CondVar
import QjsDebug.Threads.Wakeup

namespace QjsDebug.Startup

open Threads (Instr Command Write Ws)

/-! ## 1. The machine -/

/-- Where the main thread is in `wait_for_debugger`. -/
inductive MainPc
  | begin
  | storeFlag
  | lock
  /-- Inside `wait_cv_.wait`, the mutex held: the predicate. -/
  | test
  /-- The predicate was false; the thread is about to release the mutex and sleep. -/
  | park
  | parked
  | relock
  | unlock
  /-- The script runs. -/
  | done
  deriving DecidableEq

structure State where
  session : Session
  main : MainPc
  /-- What is left of the command that the WS thread executes. -/
  todo : List Instr
  /-- The WS thread is out of its loop. -/
  gone : Bool
  /-- The flag has been cleared, as an observation. -/
  cleared : Bool
  /-- A `run_if_waiting` or `on_disconnect` is over, as an observation. -/
  completed : Bool

/-- The main thread before it waits, the WS thread running. -/
structure State.Initial (s : State) : Prop where
  waiting : s.session.waiting = false
  main : s.main = .begin
  todo : s.todo = []
  gone : s.gone = false
  cleared : s.cleared = false
  completed : s.completed = false

inductive Act
  | main
  /-- Main wakes up out of nothing. -/
  | spurious
  | ws
  | client (c : Command)

/-- `wait_for_debugger`, step by step. -/
def mainStep (s : State) : Option State :=
  match s.main with
  | .begin => some { s with main := if s.session.pauseOnStart then .storeFlag else .done }
  | .storeFlag => some { s with session := { s.session with waiting := true }, main := .lock }
  | .lock => some { s with main := .test }
  | .test => some { s with main := if s.session.waiting then .park else .unlock }
  | .park => some { s with main := .parked }
  | .parked => none
  | .relock => some { s with main := .test }
  | .unlock => some { s with main := .done }
  | .done => none

/-- `wait_cv_.notify_all()`. -/
def wake : MainPc → MainPc
  | .parked => .relock
  | pc => pc

/-- The write clears `waiting_`. -/
def clearsFlag : Write → Bool
  | .stopWaiting => true
  | _ => false

/-- A step of the WS thread. -/
def wsStep (s : State) : Option State :=
  match s.todo with
  | [] => none
  | .store w :: todo =>
    some { s with
      session := w.apply s.session, todo := todo, cleared := s.cleared || clearsFlag w }
  | .notifyPause :: todo => some { s with todo := todo }
  | .notifyWait :: todo => some { s with main := wake s.main, todo := todo, completed := true }
  | .leave :: todo => some { s with todo := todo, gone := true }

/-- What the WS thread does on a command.  Nothing is paused yet, so an evaluation is answered at
once. -/
def script (c : Command) : List Instr :=
  match c.start 0 with
  | .run todo => todo
  | .evaluate _ _ | .gone => []

def step (s : State) : Act → Option State
  | .main => mainStep s
  | .spurious => if s.main = .parked then some { s with main := .relock } else none
  | .ws => wsStep s
  | .client c => if s.gone = false ∧ s.todo = [] then some { s with todo := script c } else none

/-- The two threads until the script runs. -/
def startup : StepSystem State Act where
  init := State.Initial
  step := step

/-! ## 2. What is claimed -/

def Instr.isNotifyWait : Instr → Bool
  | .notifyWait => true
  | _ => false

/-- The handshake has not been missed. -/
structure HandshakeKept (s : State) : Prop where
  /-- After a completed release main does not sleep, nor is about to, with the flag set. -/
  released : s.main = .park ∨ s.main = .parked → s.session.waiting = true → s.completed = false
  /-- Main does not sleep with the flag cleared and nobody to notify it. -/
  notified : s.main = .parked → s.session.waiting = false → s.todo.any Instr.isNotifyWait = true

/-- Of the store that clears the flag and the notification, the notification comes next. -/
def due : List Instr → Bool
  | [] => false
  | .store .stopWaiting :: _ => false
  | .notifyWait :: _ => true
  | _ :: todo => due todo

/-- Every store that clears the flag is followed by its notification, the only one. -/
def releases : List Instr → Bool
  | [] => true
  | .store .stopWaiting :: todo => due todo && releases todo
  | .notifyWait :: todo => !todo.any Instr.isNotifyWait && releases todo
  | _ :: todo => releases todo

/-- `wait_cv_`. -/
def waitCv : CondVar State where
  waiter s := match s.main with
    | .park => .window
    | .parked => .asleep
    | _ => .away
  blocked s := s.session.waiting
  due s := due s.todo

/-- The step is in time: main sets the flag before anybody clears it, and no notification meets
main between its test and its sleep. -/
def inTime (s : State) : Act → Bool
  | .main => s.main != .storeFlag || !s.cleared
  | .ws => match s.todo with
    | .notifyWait :: _ => s.main != .park
    | _ => true
  | _ => true

/-! ## 3. What every run keeps -/

/-- The commands release main in the right order. -/
structure InOrder (s : State) : Prop where
  releases : releases s.todo = true
  due_cleared : due s.todo = true → s.cleared = true
  completed_cleared : s.completed = true → s.cleared = true
  cleared_over : s.cleared = true → s.completed = true ∨ due s.todo = true

theorem releases_script (c : Command) :
    releases (script c) = true ∧ due (script c) = false := by
  cases c <;> exact ⟨rfl, rfl⟩

theorem releases_tail {i : Instr} {todo : List Instr} (h : releases (i :: todo) = true) :
    releases todo = true := by
  cases i with
  | store w =>
    cases w with
    | stopWaiting => exact (Bool.and_eq_true_iff.mp h).2
    | _ => exact h
  | notifyWait => exact (Bool.and_eq_true_iff.mp h).2
  | notifyPause => exact h
  | leave => exact h

/-- A step other than the store that clears the flag does not change what is due. -/
theorem due_store {w : Write} (hw : w ≠ .stopWaiting) (todo : List Instr) :
    due (.store w :: todo) = due todo := by
  cases w with
  | stopWaiting => exact absurd rfl hw
  | _ => rfl

/-- Of the writes only one touches the flag. -/
theorem waiting_write (w : Write) (s : Session) :
    (w = .stopWaiting → (w.apply s).waiting = false) ∧
      (w ≠ .stopWaiting → (w.apply s).waiting = s.waiting) := by
  cases w with
  | stopWaiting => exact ⟨fun _ => rfl, fun h => absurd rfl h⟩
  | _ => exact ⟨fun h => absurd h (by simp), fun _ => rfl⟩

section

variable {s s' : State}

/-- The steps of the main thread. -/
inductive MainStep (s : State) : State → Prop
  | enter (hmain : s.main = .begin) : MainStep s { s with main := .storeFlag }
  | skip (hmain : s.main = .begin) : MainStep s { s with main := .done }
  | storeFlag (hmain : s.main = .storeFlag) : MainStep s
      { s with session := { s.session with waiting := true }, main := .lock }
  | lock (hmain : s.main = .lock) : MainStep s { s with main := .test }
  | blocked (hmain : s.main = .test) (hw : s.session.waiting = true) : MainStep s
      { s with main := .park }
  | free (hmain : s.main = .test) : MainStep s { s with main := .unlock }
  | park (hmain : s.main = .park) : MainStep s { s with main := .parked }
  | relock (hmain : s.main = .relock) : MainStep s { s with main := .test }
  | unlock (hmain : s.main = .unlock) : MainStep s { s with main := .done }

theorem mainStep_cases (h : mainStep s = some s') : MainStep s s' := by
  unfold mainStep at h
  split at h
  · rename_i hmain
    obtain rfl := Option.some.inj h
    split
    · exact .enter hmain
    · exact .skip hmain
  · rename_i hmain; obtain rfl := Option.some.inj h; exact .storeFlag hmain
  · rename_i hmain; obtain rfl := Option.some.inj h; exact .lock hmain
  · rename_i hmain
    obtain rfl := Option.some.inj h
    split
    · rename_i hw; exact .blocked hmain hw
    · exact .free hmain
  · rename_i hmain; obtain rfl := Option.some.inj h; exact .park hmain
  · exact absurd h (by simp)
  · rename_i hmain; obtain rfl := Option.some.inj h; exact .relock hmain
  · rename_i hmain; obtain rfl := Option.some.inj h; exact .unlock hmain
  · exact absurd h (by simp)

/-- The steps of the WS thread. -/
inductive WsStep (s : State) : State → Prop
  | clear {todo} (htodo : s.todo = .store .stopWaiting :: todo) : WsStep s
      { s with session := { s.session with waiting := false }, todo := todo, cleared := true }
  | store {w todo} (htodo : s.todo = .store w :: todo) (hw : w ≠ .stopWaiting) : WsStep s
      { s with session := w.apply s.session, todo := todo }
  | notifyPause {todo} (htodo : s.todo = .notifyPause :: todo) : WsStep s { s with todo := todo }
  | notifyWait {todo} (htodo : s.todo = .notifyWait :: todo) : WsStep s
      { s with main := wake s.main, todo := todo, completed := true }
  | leave {todo} (htodo : s.todo = .leave :: todo) : WsStep s { s with todo := todo, gone := true }

theorem wsStep_cases (h : wsStep s = some s') : WsStep s s' := by
  unfold wsStep at h
  split at h
  · exact absurd h (by simp)
  · rename_i w todo htodo
    obtain rfl := Option.some.inj h
    by_cases hw : w = .stopWaiting
    · subst hw
      simpa [Write.apply, clearsFlag] using WsStep.clear htodo
    · have hkeep := WsStep.store htodo hw
      have hclears : clearsFlag w = false := by
        cases w with
        | stopWaiting => exact absurd rfl hw
        | _ => rfl
      simpa [hclears] using hkeep
  · rename_i htodo; obtain rfl := Option.some.inj h; exact .notifyPause htodo
  · rename_i htodo; obtain rfl := Option.some.inj h; exact .notifyWait htodo
  · rename_i htodo; obtain rfl := Option.some.inj h; exact .leave htodo

/-- **The order of the releases** is kept by every step. -/
theorem inOrder_step {a : Act} (h : InOrder s) (hstep : step s a = some s') : InOrder s' := by
  obtain ⟨hrel, hdue, hcompleted, hover⟩ := h
  cases a with
  | main =>
    cases mainStep_cases hstep <;> exact ⟨hrel, hdue, hcompleted, hover⟩
  | spurious =>
    simp only [step] at hstep
    split at hstep
    · obtain rfl := Option.some.inj hstep
      exact ⟨hrel, hdue, hcompleted, hover⟩
    · exact absurd hstep (by simp)
  | client c =>
    simp only [step] at hstep
    split at hstep
    · rename_i hidle
      obtain rfl := Option.some.inj hstep
      obtain ⟨hrel', hdue'⟩ := releases_script c
      refine ⟨hrel', fun hd => ?_, hcompleted, fun hc => ?_⟩
      · rw [hdue'] at hd
        exact absurd hd (by simp)
      · rcases hover hc with hc | hd
        · exact Or.inl hc
        · rw [hidle.2] at hd
          exact absurd hd (by simp [due])
    · exact absurd hstep (by simp)
  | ws =>
    cases wsStep_cases hstep with
    | clear htodo =>
      rw [htodo] at hrel
      obtain ⟨hd, hrel'⟩ := Bool.and_eq_true_iff.mp hrel
      exact ⟨hrel', fun _ => rfl, fun _ => rfl, fun _ => Or.inr hd⟩
    | notifyWait htodo =>
      rw [htodo] at hrel hdue
      obtain ⟨hnone, hrel'⟩ := Bool.and_eq_true_iff.mp hrel
      exact ⟨hrel', fun _ => hdue rfl, fun _ => hdue rfl, fun _ => Or.inl rfl⟩
    | store htodo hw =>
      rename_i w todo
      rw [htodo] at hrel hdue hover
      rw [due_store hw] at hdue hover
      exact ⟨releases_tail hrel, hdue, hcompleted, hover⟩
    | notifyPause htodo | leave htodo =>
      rw [htodo] at hrel hdue hover
      exact ⟨releases_tail hrel, hdue, hcompleted, hover⟩

theorem inOrder_of_reach {ok : State → Act → Prop} (h : startup.Reach ok s) : InOrder s := by
  refine h.invariant (I := InOrder) ?_ ?_
  · intro s hi
    constructor
    · rw [hi.todo]; rfl
    · rw [hi.todo]; exact fun h => absurd h (by simp [due])
    · rw [hi.completed]; exact fun h => absurd h (by simp)
    · rw [hi.cleared]; exact fun h => absurd h (by simp)
  · intro s a s' hin _ hstep
    exact inOrder_step hin hstep

/-! ## 4. Runs in time -/

theorem any_of_due {todo : List Instr} (h : due todo = true) :
    todo.any Instr.isNotifyWait = true := by
  induction todo with
  | nil => exact absurd h (by simp [due])
  | cons i todo ih =>
    rw [List.any_cons, Bool.or_eq_true]
    cases i with
    | notifyWait => exact Or.inl rfl
    | store w =>
      by_cases hw : w = .stopWaiting
      · subst hw
        exact absurd h (by simp [due])
      · rw [due_store hw] at h
        exact Or.inr (ih h)
    | notifyPause => exact Or.inr (ih h)
    | leave => exact Or.inr (ih h)

/-- **Every step in time is a move of the condition variable.** -/
theorem moves_step {a : Act} (hin : InOrder s) (hok : inTime s a = true)
    (hstep : step s a = some s') : waitCv.Moves s s' := by
  cases a with
  | main =>
    cases mainStep_cases hstep with
    | blocked _ hw => exact .test hw
    | park hmain => exact .other (fun _ => by simp [waitCv, hmain]) id id
    | _ => exact .away rfl
  | spurious =>
    simp only [step] at hstep
    split at hstep
    · obtain rfl := Option.some.inj hstep
      exact .away rfl
    · exact absurd hstep (by simp)
  | client c =>
    simp only [step] at hstep
    split at hstep
    · rename_i hidle
      obtain rfl := Option.some.inj hstep
      exact .other id id (by simp [waitCv, hidle.2, due])
    · exact absurd hstep (by simp)
  | ws =>
    cases wsStep_cases hstep with
    | clear htodo =>
      have hrel := hin.releases
      rw [htodo] at hrel
      exact .change (Bool.and_eq_true_iff.mp hrel).1
    | store htodo hw =>
      refine .other id (fun hb => ?_) (fun hd => ?_)
      · exact ((waiting_write _ _).2 hw).trans hb
      · simpa only [waitCv, htodo, due_store hw] using hd
    | notifyPause htodo | leave htodo =>
      refine .other id id fun hd => ?_
      simp only [waitCv, htodo] at hd
      exact hd
    | notifyWait htodo =>
      have hpark : s.main ≠ .park := by simpa [inTime, htodo] using hok
      refine .notify ?_ ?_ ?_ rfl
      · cases hmain : s.main <;> simp [CondVar.heard, waitCv, hmain]
        exact absurd hmain hpark
      · cases hmain : s.main <;> simp [waitCv, hmain, wake]
      · cases hmain : s.main <;> simp [waitCv, hmain, wake]

/-- In runs in time nobody sets the flag again once it has been cleared. -/
theorem flag_step {a : Act} (hflag : s.cleared = true → s.session.waiting = false)
    (hok : inTime s a = true) (hstep : step s a = some s') :
    s'.cleared = true → s'.session.waiting = false := by
  cases a with
  | main =>
    cases mainStep_cases hstep with
    | storeFlag hmain =>
      intro hc
      have hnot : s.cleared = false := by simpa [inTime, hmain] using hok
      exact absurd (hnot.symm.trans hc) (by simp)
    | _ => exact hflag
  | spurious =>
    simp only [step] at hstep
    split at hstep
    · obtain rfl := Option.some.inj hstep
      exact hflag
    · exact absurd hstep (by simp)
  | client c =>
    simp only [step] at hstep
    split at hstep
    · obtain rfl := Option.some.inj hstep
      exact hflag
    · exact absurd hstep (by simp)
  | ws =>
    cases wsStep_cases hstep with
    | clear _ => exact fun _ => rfl
    | store _ hw => exact fun hc => ((waiting_write _ _).2 hw).trans (hflag hc)
    | _ => exact hflag

/-- **The handshake is not missed in runs in time.**  In every run in which main sets the flag
before it is cleared for the first time, and in which no notification falls between main's test
and its sleep: in every state reached, main neither sleeps nor is about to sleep with the flag set
after a release is over, and it does not sleep with the flag cleared unless a notification is on
its way. -/
theorem handshake_kept_of_reach (h : startup.Reach (fun s a => inTime s a = true) s) :
    HandshakeKept s := by
  have hin := inOrder_of_reach h
  have hsafe : waitCv.Safe s := by
    refine h.invariant_of (I := waitCv.Safe) (fun s hr => inOrder_of_reach hr) ?_ ?_
    · intro s hi hw
      exact absurd (by simp [waitCv, hi.main]) hw
    · intro s a s' hin hs hok hstep
      exact (moves_step hin hok hstep).safe hs
  have hflag : s.cleared = true → s.session.waiting = false := by
    refine h.invariant (I := fun s => s.cleared = true → s.session.waiting = false) ?_ ?_
    · intro s hi hc
      exact hi.waiting
    · intro s a s' hf hok hstep
      exact flag_step hf hok hstep
  constructor
  · intro _ hw
    by_contra hc
    have hcompleted : s.completed = true := by simpa using hc
    rw [hflag (hin.completed_cleared hcompleted)] at hw
    exact absurd hw (by simp)
  · intro hparked hw
    rcases hsafe (by simp [waitCv, hparked]) with hb | hd
    · exact absurd (hw.symm.trans hb) (by simp)
    · exact any_of_due hd

/-- While main is about to sleep the WS thread can finish what it is about to notify. -/
theorem finish_release {todo : List Instr} (hdue : due todo = true) :
    ∀ {t : State}, t.todo = todo → t.main = .park → t.session.waiting = true →
      ∃ acts t', startup.run t acts = some t' ∧ t'.main = .park ∧ t'.session.waiting = true ∧
        t'.completed = true := by
  induction todo with
  | nil => exact absurd hdue (by simp [due])
  | cons i todo ih =>
    intro t htodo hmain hw
    -- one step of the WS thread, and then the rest of the command
    have hrest : ∀ u : State, wsStep t = some u → u.todo = todo → u.main = .park →
        u.session.waiting = true → due todo = true →
        ∃ acts t', startup.run t acts = some t' ∧ t'.main = .park ∧ t'.session.waiting = true ∧
          t'.completed = true := by
      intro u hstep hu hm hwu hd
      obtain ⟨acts, t', hrun, h⟩ := ih hd hu hm hwu
      refine ⟨.ws :: acts, t', ?_, h⟩
      rw [StepSystem.run_cons]
      exact Option.bind_eq_some_iff.mpr ⟨u, hstep, hrun⟩
    cases i with
    | notifyWait =>
      refine ⟨[.ws], { t with main := wake t.main, todo := todo, completed := true },
        ?_, ?_, hw, rfl⟩
      · simp [StepSystem.run_cons, startup, step, wsStep, htodo]
      · simp [hmain, wake]
    | store w =>
      by_cases hstop : w = .stopWaiting
      · subst hstop
        exact absurd hdue (by simp [due])
      · rw [due_store hstop] at hdue
        refine hrest { t with
          session := w.apply t.session, todo := todo, cleared := t.cleared || clearsFlag w } ?_ rfl
          hmain ?_ hdue
        · rw [wsStep, htodo]
        · exact ((waiting_write _ _).2 hstop).trans hw
    | notifyPause =>
      exact hrest { t with todo := todo } (by rw [wsStep, htodo]) rfl hmain hw hdue
    | leave =>
      exact hrest { t with todo := todo, gone := true } (by rw [wsStep, htodo]) rfl hmain hw hdue

/-- **The condition is exact.**  From a step that is not in time the two threads get, without any
further command, to a state in which the handshake is missed. -/
theorem missed_of_not_inTime {a : Act} (hin : InOrder s) (h : inTime s a = false) :
    ∃ acts s', startup.run s acts = some s' ∧ ¬ HandshakeKept s' := by
  cases a with
  | main =>
    obtain ⟨hmain, hcleared⟩ : s.main = .storeFlag ∧ s.cleared = true := by
      simpa [inTime] using h
    -- main goes on to its test, which tells it to sleep
    let t : State := { s with session := { s.session with waiting := true }, main := .park }
    have hrun : startup.run s [.main, .main, .main] = some t := by
      simp [StepSystem.run_cons, startup, step, mainStep, hmain, t]
    rcases hin.cleared_over hcleared with hcompleted | hdue
    · refine ⟨_, t, hrun, fun hkept => ?_⟩
      have hnot : s.completed = false := hkept.released (Or.inl rfl) rfl
      exact absurd (hcompleted.symm.trans hnot) (by simp)
    · obtain ⟨acts, t', hrest, hpark, hw, hcompleted⟩ := @finish_release _ hdue t rfl rfl rfl
      refine ⟨[.main, .main, .main] ++ acts, t', ?_, fun hkept => ?_⟩
      · rw [StepSystem.run_append]
        exact Option.bind_eq_some_iff.mpr ⟨t, hrun, hrest⟩
      · have hnot := hkept.released (Or.inl hpark) hw
        exact absurd (hcompleted.symm.trans hnot) (by simp)
  | ws =>
    simp only [inTime] at h
    split at h
    · rename_i todo htodo
      have hmain : s.main = .park := by simpa using h
      have hrel := hin.releases
      rw [htodo] at hrel
      have hnone : todo.any Instr.isNotifyWait = false := by
        simpa using (Bool.and_eq_true_iff.mp hrel).1
      -- the notification wakes nobody, and main falls asleep
      let t : State := { s with main := .parked, todo := todo, completed := true }
      have hrun : startup.run s [.ws, .main] = some t := by
        simp [StepSystem.run_cons, startup, step, wsStep, htodo, hmain, wake, mainStep, t]
      refine ⟨_, t, hrun, fun hkept => ?_⟩
      cases hw : s.session.waiting with
      | true => exact absurd (hkept.released (Or.inr rfl) hw) (by simp [t])
      | false =>
        have hany : todo.any Instr.isNotifyWait = true := hkept.notified rfl hw
        exact absurd (hany.symm.trans hnone) (by simp)
    · exact absurd h (by simp)
  | spurious => exact absurd h (by simp [inTime])
  | client c => exact absurd h (by simp [inTime])

end

/-- `--inspect-brk`, main about to wait. -/
def inspectBrk : State where
  session := { Session.new with pauseOnStart := true, enabled := true }
  main := .begin
  todo := []
  gone := false
  cleared := false
  completed := false

theorem initial_inspectBrk : startup.init inspectBrk := ⟨rfl, rfl, rfl, rfl, rfl, rfl⟩

/-- The client's `runIfWaitingForDebugger`, executed to its end. -/
def runIfWaiting : List Act := .client .runIfWaiting :: .replicate 3 .ws

/-- The rule at a run in which main sleeps when the command comes, and is woken up. -/
theorem handshake_kept_of_reach_runIfWaiting :
    ∃ s, startup.Reach (fun s a => inTime s a = true) s ∧ s.main = .done ∧ HandshakeKept s := by
  obtain ⟨s, hs, hdone⟩ := @StepSystem.exists_reach_of_run _ _ startup inspectBrk
    (.replicate 5 .main ++ runIfWaiting ++ .replicate 3 .main) inTime (fun s => s.main == .done)
    initial_inspectBrk (by decide)
  exact ⟨s, hs, by simpa using hdone, handshake_kept_of_reach hs⟩

/-- **The handshake can be missed in two ways.**  The client's command is over before main sets the
flag, and main sleeps with the flag set; or the command comes between main's test and its sleep,
and main sleeps with the flag cleared and nobody to notify it. -/
theorem handshake_missed :
    (∃ s, startup.Reachable s ∧ s.main = .parked ∧ s.session.waiting = true ∧
      s.completed = true ∧ ¬ HandshakeKept s) ∧
    ∃ s, startup.Reachable s ∧ s.main = .parked ∧ s.session.waiting = false ∧ s.todo = [] ∧
      ¬ HandshakeKept s := by
  constructor
  · obtain ⟨s, hs, hlate⟩ := @StepSystem.exists_reachable_of_run _ _ startup inspectBrk
      (runIfWaiting ++ .replicate 5 .main)
      (fun s => s.main == .parked && s.session.waiting && s.completed) initial_inspectBrk
      (by decide)
    simp only [Bool.and_eq_true, beq_iff_eq] at hlate
    obtain ⟨⟨hmain, hw⟩, hcompleted⟩ := hlate
    refine ⟨s, hs, hmain, hw, hcompleted, fun hkept => ?_⟩
    exact absurd (hcompleted.symm.trans (hkept.released (Or.inr hmain) hw)) (by simp)
  · obtain ⟨s, hs, hlost⟩ := @StepSystem.exists_reachable_of_run _ _ startup inspectBrk
      (.replicate 4 .main ++ runIfWaiting ++ [.main])
      (fun s => s.main == .parked && !s.session.waiting && s.todo.isEmpty) initial_inspectBrk
      (by decide)
    simp only [Bool.and_eq_true, beq_iff_eq, Bool.not_eq_true', List.isEmpty_iff] at hlost
    obtain ⟨⟨hmain, hw⟩, htodo⟩ := hlost
    refine ⟨s, hs, hmain, hw, htodo, fun hkept => ?_⟩
    have hany := hkept.notified hmain hw
    rw [htodo] at hany
    exact absurd hany (by simp)

end QjsDebug.Startup
