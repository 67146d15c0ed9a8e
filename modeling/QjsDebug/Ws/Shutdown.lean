/-
# The end of a session

The cleanup of `main` against the loop of the WS thread: `ws_running.store(false)`, then
`ws.disconnect()`, then `ws_thread.join()`, which returns once the thread has left its loop.  The
loop is that of `wsLoop`.  Added to it are `main` and what is a single place there and has to be
told apart here.  Inside `wait_for_connection`, only in `accept` does the thread wait for a client
that may never come.  Inside `receive`, a thread that is in `recv` already does not notice that
`main` has closed the socket: `close` need not end a `recv`, which then goes on until the client
sends something or hangs up.

The loop tests `ws_running` at its head and nowhere else.  An empty message sends a thread that has
had no message yet back into `accept`, and it does not matter to it that the connection was dropped
by `main` and not by a probe (`joins_behind_accept`).  `no_client_awaited_of_reach` is the
property of the runs in which `main` does not disconnect at such a moment.
-/
import QjsDebug.Ws.Loop

namespace QjsDebug.Ws

/-! ## 1. The two threads -/

/-- Where `main` is. -/
inductive CleanupAt
  /-- The script has not finished. -/
  | script
  | stopped
  /-- In `ws_thread.join()`. -/
  | joining
  | joined
  deriving DecidableEq, Repr

/-- Where the WS thread is in `wait_for_connection`. -/
inductive ClientAt
  | accept
  /-- In `read_http_request`, or answering a request that asks for no upgrade. -/
  | request
  /-- `client_sock_ = sock` is done, `do_websocket_handshake` is not. -/
  | handshake
  /-- About to store `connected_` and return. -/
  | answered
  deriving DecidableEq, Repr

structure Shutdown where
  thread : WsThread
  /-- Read while the thread is in `wait_for_connection`. -/
  client : ClientAt
  /-- `receive` has come to a `recv` that has nothing to read. -/
  inRecv : Bool
  main : CleanupAt
  deriving DecidableEq, Repr

/-- The thread has been started. -/
def Shutdown.start : Shutdown :=
  { thread := WsThread.start, client := .accept, inRecv := false, main := .script }

inductive ShutdownAct
  /-- The client of the connection. -/
  | arrives (f : Frame)
  | hangsUp
  /-- The loop of the WS thread. -/
  | tests
  | receives
  | looks
  /-- `receive` waits in `recv`. -/
  | waits
  /-- The `recv` in which the thread was when `main` disconnected returns: with the last bytes of a
  frame, or with others, or with none. -/
  | wakes (f : Option Frame)
  /-- `wait_for_connection`: `accept` returns a socket or fails; the socket is closed without an
  upgrade; it becomes `client_sock_`; the handshake is answered or fails; the call returns. -/
  | connects
  | acceptFails
  | closes
  | upgrades
  | answers
  | rejects
  | returns
  /-- `main`. -/
  | stores
  | disconnects
  | joins
  deriving DecidableEq, Repr

/-- A step of the loop's own. -/
def Shutdown.loopStep (s : Shutdown) (a : LoopAct) : Option Shutdown :=
  (s.thread.step a).map fun thread => { s with thread := thread }

/-- The thread is in `wait_for_connection`, at `place`. -/
def Shutdown.waitsAt (s : Shutdown) (place : ClientAt) : Bool :=
  s.thread.loop = .accepting && s.client = place

/-- The thread is in a `recv` on the socket that `main` has closed. -/
def Shutdown.stuck (s : Shutdown) : Bool :=
  s.thread.loop = .receiving && s.inRecv && s.thread.ws.clientSock.isNone

/-- What `receive` returns behind such a `recv`.  A frame that is complete counts by its opcode, and
with `connected_` false the call behind a ping or a pong returns at once; a frame that is not would
need another `recv`, on `INVALID_SOCK`. -/
def lastMessage : Option Frame → Bytes
  | some f => if f.isMessage then f.payload else []
  | none => []

/-- `client_sock_ = sock`. -/
def Shutdown.setSock (s : Shutdown) (sock : Option Socket) : Shutdown :=
  { s with thread := { s.thread with ws := { s.thread.ws with clientSock := sock } } }

/-- `connected_.store(true); return true`, and `continue`. -/
def Shutdown.connected (s : Shutdown) : Shutdown :=
  { s with thread := { s.thread with ws := { s.thread.ws with connected := true },
                                     loop := .test } }

def Shutdown.step (s : Shutdown) : ShutdownAct → Option Shutdown
  | .arrives f => s.loopStep (.arrives f)
  | .hangsUp => s.loopStep .hangsUp
  | .tests => s.loopStep .tests
  | .receives =>
    if s.stuck then none else (s.loopStep .receives).map fun s => { s with inRecv := false }
  | .waits =>
    if s.thread.loop = .receiving ∧ (receive s.thread.ws).1 = .waiting then
      some { s with inRecv := true }
    else none
  | .wakes f =>
    if s.stuck then
      some { s with thread := s.thread.received (lastMessage f) s.thread.ws, inRecv := false }
    else none
  | .looks => (s.loopStep .looks).map fun s => { s with client := .accept }
  | .connects => if s.waitsAt .accept then some { s with client := .request } else none
  | .acceptFails => if s.waitsAt .accept then s.loopStep .acceptFails else none
  | .closes => if s.waitsAt .request then some { s with client := .accept } else none
  | .upgrades =>
    if s.waitsAt .request then some { s.setSock (some ⟨[], false⟩) with client := .handshake }
    else none
  | .answers =>
    -- the answer is sent on `client_sock_`, which may be closed by now
    if s.waitsAt .handshake && s.thread.ws.clientSock.isSome then
      some { s with client := .answered }
    else none
  | .rejects =>
    if s.waitsAt .handshake then some { s.setSock none with client := .accept } else none
  | .returns => if s.waitsAt .answered then some s.connected else none
  | .stores =>
    if s.main = .script then
      (s.loopStep .stops).map fun s => { s with main := .stopped }
    else none
  | .disconnects =>
    if s.main = .stopped then
      (s.loopStep .disconnects).map fun s => { s with main := .joining }
    else none
  | .joins =>
    if s.main = .joining ∧ s.thread.loop = .exited then some { s with main := .joined } else none

def shutdown : StepSystem Shutdown ShutdownAct where
  init s := s = Shutdown.start
  step := Shutdown.step

/-! ## 2. The property and its condition -/

/-- Once `main` has disconnected, the thread is not in `accept`. -/
def NoClientAwaited (s : Shutdown) : Prop :=
  s.main = .joining ∨ s.main = .joined → s.waitsAt .accept = false

/-- The thread has had a message or is past `accept`, so that it does not come to `accept` (again)
before its next test of `ws_running`. -/
def Shutdown.settled (s : Shutdown) : Bool :=
  match s.thread.loop with
  | .test | .exited => true
  | .receiving | .empty => s.thread.msgCount != 0
  | .accepting => s.client = .answered

/-- The side condition of a step: `main` disconnects at such a moment. -/
def settles (s : Shutdown) (a : ShutdownAct) : Bool :=
  match a with
  | .disconnects => s.settled
  | _ => true

/-- The steps that no client has a part in. -/
def ShutdownAct.alone : ShutdownAct → Bool
  | .tests | .receives | .looks | .returns | .joins => true
  | _ => false

/-- Then `join` needs no new client: it returns by the thread's own steps, behind the `recv` that
the thread may be in, however that one ends. -/
structure JoinsAlone (s : Shutdown) : Prop where
  free : s.main = .joining → s.stuck = false →
    shutdown.Can ShutdownAct.alone (fun s => s.main = .joined) s
  woken : s.main = .joining → s.stuck = true → ∀ f, ∃ s', shutdown.step s (.wakes f) = some s' ∧
    shutdown.Can ShutdownAct.alone (fun s => s.main = .joined) s'

/-! ## 3. What holds along the runs that meet the condition -/

/-- The invariant.  Behind `main`'s disconnect the connection stays closed: nothing short of a new
client opens it, and none is accepted. -/
structure ShutdownInv (s : Shutdown) : Prop where
  stopped : s.main ≠ .script → s.thread.wsRunning = false
  settled : s.main = .joining ∨ s.main = .joined → s.settled = true
  sock : s.main = .joining ∨ s.main = .joined → s.thread.ws.clientSock = none

variable {s s' : Shutdown}

theorem loopStep_eq_some {a : LoopAct} (h : s.loopStep a = some s') :
    ∃ thread, s.thread.step a = some thread ∧ s' = { s with thread := thread } := by
  obtain ⟨thread, hstep, rfl⟩ := Option.map_eq_some_iff.mp h
  exact ⟨thread, hstep, rfl⟩

theorem waitsAt_eq_true {place : ClientAt} :
    s.waitsAt place = true ↔ s.thread.loop = .accepting ∧ s.client = place := by
  simp [Shutdown.waitsAt]

theorem loop_of_stuck (h : s.stuck = true) : s.thread.loop = .receiving := by
  simp only [Shutdown.stuck, Bool.and_eq_true, decide_eq_true_eq] at h
  exact h.1.1

/-- A settled thread in `wait_for_connection` is on its way out. -/
theorem client_of_settled {place : ClientAt} (hset : s.settled = true)
    (hwait : s.waitsAt place = true) : place = .answered := by
  obtain ⟨hloop, hclient⟩ := waitsAt_eq_true.mp hwait
  simpa [Shutdown.settled, hloop, hclient] using hset

/-- What the thread's part of a step keeps once `main` has disconnected. -/
structure StaysSettled (s s' : Shutdown) : Prop where
  running : s'.thread.wsRunning = s.thread.wsRunning
  main : s'.main = s.main
  settled : s.thread.wsRunning = false → s.settled = true → s.thread.ws.clientSock = none →
    s'.settled = true
  sock : s.settled = true → s.thread.ws.clientSock = none → s'.thread.ws.clientSock = none

/-- A step of the thread or of the client. -/
theorem ShutdownInv.of_staysSettled (hi : ShutdownInv s) (h : StaysSettled s s') :
    ShutdownInv s' := by
  constructor
  · intro hmain
    rw [h.main] at hmain
    rw [h.running]
    exact hi.stopped hmain
  · intro hmain
    rw [h.main] at hmain
    have hstop : s.main ≠ .script := by rcases hmain with hm | hm <;> simp [hm]
    exact h.settled (hi.stopped hstop) (hi.settled hmain) (hi.sock hmain)
  · intro hmain
    rw [h.main] at hmain
    exact h.sock (hi.settled hmain) (hi.sock hmain)

/-- A client of a closed connection does nothing. -/
theorem staysSettled_deliver {f : Option Frame} {ws' : Server}
    (h : s.thread.ws.deliver f = some ws') :
    StaysSettled s { s with thread := { s.thread with ws := ws' } } := by
  have hopen : s.thread.ws.clientSock ≠ none := by
    intro hnone
    cases f <;> simp [Server.deliver, hnone] at h
  exact ⟨rfl, rfl, fun _ _ hnone => absurd hnone hopen, fun _ hnone => absurd hnone hopen⟩

theorem staysSettled_tests (h : s.loopStep .tests = some s') : StaysSettled s s' := by
  obtain ⟨thread, hstep, rfl⟩ := loopStep_eq_some h
  simp only [WsThread.step] at hstep
  split at hstep
  · cases hstep
    refine ⟨rfl, rfl, ?_, fun _ hsock => hsock⟩
    intro hrun _ _
    simp [Shutdown.settled, hrun]
  · cases hstep

/-- Whatever the last `recv` comes to, a thread that has had a message is on its way out. -/
theorem staysSettled_wakes (f : Option Frame) (hloop : s.thread.loop = .receiving) :
    StaysSettled s
      { s with thread := s.thread.received (lastMessage f) s.thread.ws, inRecv := false } := by
  unfold WsThread.received
  split
  · refine ⟨rfl, rfl, fun _ hset _ => ?_, fun _ hnone => hnone⟩
    simpa [Shutdown.settled, hloop] using hset
  · exact ⟨rfl, rfl, fun _ _ _ => rfl, fun _ hnone => hnone⟩

/-- On a closed connection `receive` comes back empty, and the count is as it was. -/
theorem staysSettled_receives (h : s.loopStep .receives = some s') :
    StaysSettled s { s' with inRecv := false } := by
  obtain ⟨thread, hstep, rfl⟩ := loopStep_eq_some h
  simp only [WsThread.step] at hstep
  split at hstep
  · rename_i hloop
    split at hstep
    · rename_i msg ws' hcall
      cases hstep
      have hclosed : s.thread.ws.clientSock = none → msg = [] ∧ ws' = s.thread.ws := by
        intro hnone
        simp only [receive, hnone, Prod.mk.injEq, Outcome.returned.injEq] at hcall
        exact ⟨hcall.1.symm, hcall.2.symm⟩
      constructor
      · unfold WsThread.received
        split <;> rfl
      · rfl
      · intro _ hset hnone
        obtain ⟨rfl, rfl⟩ := hclosed hnone
        simpa [Shutdown.settled, WsThread.received, hloop] using hset
      · intro _ hnone
        obtain ⟨rfl, rfl⟩ := hclosed hnone
        simpa [WsThread.received] using hnone
    · cases hstep
  · cases hstep

/-- A thread that has had a message ends its loop here. -/
theorem staysSettled_looks (h : s.loopStep .looks = some s') :
    StaysSettled s { s' with client := .accept } := by
  obtain ⟨thread, hstep, rfl⟩ := loopStep_eq_some h
  simp only [WsThread.step] at hstep
  split at hstep
  · rename_i hloop
    cases hstep
    unfold WsThread.lookConnected
    have hcount : s.settled = true → s.thread.msgCount ≠ 0 := by
      intro hset
      simpa [Shutdown.settled, hloop] using hset
    split
    · exact ⟨rfl, rfl, fun _ _ _ => rfl, fun _ hsock => hsock⟩
    · split
      · rename_i hzero
        exact ⟨rfl, rfl, fun _ hset _ => absurd hzero (hcount hset), fun _ _ => rfl⟩
      · exact ⟨rfl, rfl, fun _ _ _ => rfl, fun _ hsock => hsock⟩
  · cases hstep

/-- A step inside `wait_for_connection` from any place but the last. -/
theorem staysSettled_of_waitsAt {place : ClientAt} (hwait : s.waitsAt place = true)
    (hplace : place ≠ .answered) (hrun : s'.thread.wsRunning = s.thread.wsRunning)
    (hmain : s'.main = s.main) : StaysSettled s s' :=
  ⟨hrun, hmain, fun _ hset _ => absurd (client_of_settled hset hwait) hplace,
    fun hset _ => absurd (client_of_settled hset hwait) hplace⟩

/-- One step. -/
theorem shutdownInv_step {a : ShutdownAct} (hi : ShutdownInv s) (hok : settles s a = true)
    (h : shutdown.step s a = some s') : ShutdownInv s' := by
  cases a with
  | arrives f | hangsUp =>
    obtain ⟨thread, hstep, rfl⟩ := loopStep_eq_some h
    obtain ⟨ws', hws, rfl⟩ := Option.map_eq_some_iff.mp hstep
    exact hi.of_staysSettled (staysSettled_deliver hws)
  | tests => exact hi.of_staysSettled (staysSettled_tests h)
  | receives =>
    obtain ⟨-, hs⟩ := Option.ite_none_left_eq_some.mp h
    obtain ⟨t, ht, rfl⟩ := Option.map_eq_some_iff.mp hs
    exact hi.of_staysSettled (staysSettled_receives ht)
  | waits =>
    obtain ⟨-, hs⟩ := Option.ite_none_right_eq_some.mp h
    cases hs
    exact hi.of_staysSettled ⟨rfl, rfl, fun _ hset _ => hset, fun _ hsock => hsock⟩
  | wakes f =>
    obtain ⟨hstuck, hs⟩ := Option.ite_none_right_eq_some.mp h
    cases hs
    exact hi.of_staysSettled (staysSettled_wakes f (loop_of_stuck hstuck))
  | looks =>
    obtain ⟨t, ht, rfl⟩ := Option.map_eq_some_iff.mp h
    exact hi.of_staysSettled (staysSettled_looks ht)
  | connects | closes | upgrades | rejects =>
    obtain ⟨hwait, hs⟩ := Option.ite_none_right_eq_some.mp h
    cases hs
    exact hi.of_staysSettled (staysSettled_of_waitsAt hwait (by simp) rfl rfl)
  | acceptFails =>
    obtain ⟨hwait, hs⟩ := Option.ite_none_right_eq_some.mp h
    obtain ⟨thread, hstep, rfl⟩ := loopStep_eq_some hs
    simp only [WsThread.step, (waitsAt_eq_true.mp hwait).1, if_true] at hstep
    cases hstep
    exact hi.of_staysSettled (staysSettled_of_waitsAt hwait (by simp) rfl rfl)
  | answers =>
    obtain ⟨hwait, hs⟩ := Option.ite_none_right_eq_some.mp h
    cases hs
    rw [Bool.and_eq_true] at hwait
    exact hi.of_staysSettled (staysSettled_of_waitsAt hwait.1 (by simp) rfl rfl)
  | returns =>
    obtain ⟨-, hs⟩ := Option.ite_none_right_eq_some.mp h
    cases hs
    exact hi.of_staysSettled ⟨rfl, rfl, fun _ _ _ => rfl, fun _ hsock => hsock⟩
  | stores =>
    obtain ⟨-, hs⟩ := Option.ite_none_right_eq_some.mp h
    cases hs
    refine ⟨fun _ => rfl, ?_, ?_⟩
    all_goals
      intro hmain
      rcases hmain with hm | hm <;> cases hm
  | disconnects =>
    -- the one step that has to meet the condition
    obtain ⟨hmain, hs⟩ := Option.ite_none_right_eq_some.mp h
    have hrun := hi.stopped (by simp [hmain])
    simp only [Shutdown.loopStep, WsThread.step, hrun] at hs
    cases hs
    exact ⟨fun _ => rfl, fun _ => hok, fun _ => rfl⟩
  | joins =>
    obtain ⟨hjoin, hs⟩ := Option.ite_none_right_eq_some.mp h
    cases hs
    have hmain : s.main = .joining ∨ s.main = .joined := .inl hjoin.1
    exact ⟨fun _ => hi.stopped (by simp [hjoin.1]), fun _ => hi.settled hmain,
      fun _ => hi.sock hmain⟩

theorem shutdownInv_start : ShutdownInv Shutdown.start := by
  refine ⟨fun h => absurd rfl h, ?_, ?_⟩
  all_goals
    intro h
    rcases h with h | h <;> cases h

theorem ShutdownInv.noClientAwaited (hi : ShutdownInv s) : NoClientAwaited s := by
  intro hmain
  by_contra hwait
  have hplace := client_of_settled (hi.settled hmain) (by simpa using hwait)
  cases hplace

/-- Out of its loop, the thread is joined. -/
theorem can_join_of_exited (hmain : s.main = .joining) (hloop : s.thread.loop = .exited) :
    shutdown.Can ShutdownAct.alone (fun s => s.main = .joined) s := by
  have hstep : shutdown.step s .joins = some { s with main := .joined } := by
    simp [shutdown, Shutdown.step, hmain, hloop]
  exact .step rfl hstep (.here rfl)

/-- From the test of `ws_running`. -/
theorem can_join_of_test (hmain : s.main = .joining) (hrun : s.thread.wsRunning = false)
    (hloop : s.thread.loop = .test) :
    shutdown.Can ShutdownAct.alone (fun s => s.main = .joined) s := by
  have hstep : shutdown.step s .tests =
      some { s with thread := { s.thread with loop := .exited } } := by
    simp [shutdown, Shutdown.step, Shutdown.loopStep, WsThread.step, hloop, hrun]
  exact .step rfl hstep (can_join_of_exited hmain rfl)

/-- From an empty message after others. -/
theorem can_join_of_empty (hmain : s.main = .joining) (hcount : s.thread.msgCount ≠ 0)
    (hloop : s.thread.loop = .empty) :
    shutdown.Can ShutdownAct.alone (fun s => s.main = .joined) s := by
  have hstep : shutdown.step s .looks =
      some { s with thread := s.thread.lookConnected, client := .accept } := by
    simp [shutdown, Shutdown.step, Shutdown.loopStep, WsThread.step, hloop]
  have hexit : s.thread.lookConnected.loop = .exited := by
    simp only [WsThread.lookConnected, hcount, if_false]
    split <;> rfl
  exact .step rfl hstep (can_join_of_exited hmain hexit)

/-- A call of `receive` that begins on a closed connection returns. -/
theorem step_receives_of_closed (hloop : s.thread.loop = .receiving) (hrecv : s.inRecv = false)
    (hsock : s.thread.ws.clientSock = none) :
    shutdown.step s .receives = some { s with thread := { s.thread with loop := .empty } } := by
  obtain ⟨thread, client, inRecv, main⟩ := s
  obtain rfl : inRecv = false := hrecv
  simp only at hloop hsock
  simp [shutdown, Shutdown.step, Shutdown.stuck, Shutdown.loopStep, WsThread.step, hloop, receive,
    hsock, WsThread.received]

theorem can_join_of_receiving (hmain : s.main = .joining) (hcount : s.thread.msgCount ≠ 0)
    (hsock : s.thread.ws.clientSock = none) (hloop : s.thread.loop = .receiving)
    (hrecv : s.inRecv = false) :
    shutdown.Can ShutdownAct.alone (fun s => s.main = .joined) s :=
  .step rfl (step_receives_of_closed hloop hrecv hsock) (can_join_of_empty hmain hcount rfl)

/-- From a `recv` that has come to its end. -/
theorem can_join_of_stuck (hmain : s.main = .joining) (hrun : s.thread.wsRunning = false)
    (hcount : s.thread.msgCount ≠ 0) (hstuck : s.stuck = true) (f : Option Frame) :
    ∃ s', shutdown.step s (.wakes f) = some s' ∧
      shutdown.Can ShutdownAct.alone (fun s => s.main = .joined) s' := by
  refine ⟨_, if_pos hstuck, ?_⟩
  by_cases hmsg : lastMessage f = []
  · refine can_join_of_empty hmain ?_ ?_
    · simpa [WsThread.received, hmsg] using hcount
    · simp [WsThread.received, hmsg]
  · refine can_join_of_test hmain ?_ ?_
    · simpa [WsThread.received, hmsg] using hrun
    · simp [WsThread.received, hmsg]

/-- The thread's own way out. -/
theorem ShutdownInv.can_join (hi : ShutdownInv s) (hmain : s.main = .joining)
    (hfree : s.stuck = false) : shutdown.Can ShutdownAct.alone (fun s => s.main = .joined) s := by
  have hrun := hi.stopped (by simp [hmain])
  have hset := hi.settled (.inl hmain)
  have hsock := hi.sock (.inl hmain)
  cases hloop : s.thread.loop with
  | exited => exact can_join_of_exited hmain hloop
  | test => exact can_join_of_test hmain hrun hloop
  | receiving =>
    have hcount : s.thread.msgCount ≠ 0 := by simpa [Shutdown.settled, hloop] using hset
    have hrecv : s.inRecv = false := by simpa [Shutdown.stuck, hloop, hsock] using hfree
    exact can_join_of_receiving hmain hcount hsock hloop hrecv
  | empty =>
    have hcount : s.thread.msgCount ≠ 0 := by simpa [Shutdown.settled, hloop] using hset
    exact can_join_of_empty hmain hcount hloop
  | accepting =>
    have hclient : s.client = .answered := by simpa [Shutdown.settled, hloop] using hset
    have hstep : shutdown.step s .returns = some s.connected := by
      simp [shutdown, Shutdown.step, Shutdown.waitsAt, hloop, hclient]
    exact .step rfl hstep (can_join_of_test hmain hrun rfl)

theorem ShutdownInv.joinsAlone (hi : ShutdownInv s) : JoinsAlone s where
  free := hi.can_join
  woken hmain hstuck f := by
    have hset := hi.settled (.inl hmain)
    have hcount : s.thread.msgCount ≠ 0 := by
      simpa [Shutdown.settled, loop_of_stuck hstuck] using hset
    exact can_join_of_stuck hmain (hi.stopped (by simp [hmain])) hcount hstuck f

theorem shutdownInv_of_reach
    (h : StepSystem.Reach shutdown (fun s a => settles s a = true) s) : ShutdownInv s := by
  refine h.invariant (I := ShutdownInv) ?_ ?_
  · intro t ht
    cases ht
    exact shutdownInv_start
  · intro t a t' hi hok ht
    exact shutdownInv_step hi hok ht

/-- From `s`, behind the disconnect, the thread gets to `accept` without a new client. -/
def Awaits (s : Shutdown) : Prop :=
  shutdown.Can (fun a => a != .connects) (fun s => ¬ NoClientAwaited s) s

theorem awaits_of_accept (hmain : s.main = .joining) (hwait : s.waitsAt .accept = true) :
    Awaits s := by
  refine .here ?_
  intro h
  rw [h (.inl hmain)] at hwait
  cases hwait

/-- From an empty message that is the first. -/
theorem awaits_of_empty (hmain : s.main = .joining) (hloop : s.thread.loop = .empty)
    (hcount : s.thread.msgCount = 0) (hconn : s.thread.ws.connected = false) : Awaits s := by
  have hstep : shutdown.step s .looks =
      some { s with thread := { s.thread with ws := s.thread.ws.disconnect, loop := .accepting },
                    client := .accept } := by
    simp [shutdown, Shutdown.step, Shutdown.loopStep, WsThread.step, WsThread.lookConnected, hloop,
      hcount, hconn]
  exact .step rfl hstep (awaits_of_accept hmain rfl)

/-- From `receive`, which returns at once, or when the client hangs up. -/
theorem awaits_of_receiving (hmain : s.main = .joining) (hloop : s.thread.loop = .receiving)
    (hcount : s.thread.msgCount = 0) (hconn : s.thread.ws.connected = false)
    (hsock : s.thread.ws.clientSock = none) : Awaits s := by
  cases hrecv : s.inRecv with
  | false =>
    exact .step rfl (step_receives_of_closed hloop hrecv hsock)
      (awaits_of_empty hmain rfl hcount hconn)
  | true =>
    have hstep : shutdown.step s (.wakes none) =
        some { s with thread := { s.thread with loop := .empty }, inRecv := false } := by
      simp [shutdown, Shutdown.step, Shutdown.stuck, hloop, hrecv, hsock, lastMessage,
        WsThread.received]
    exact .step rfl hstep (awaits_of_empty hmain rfl hcount hconn)

/-- From inside `wait_for_connection`: the client that is there closes its connection, or cannot be
answered any more. -/
theorem awaits_of_accepting (hmain : s.main = .joining) (hloop : s.thread.loop = .accepting)
    (hclient : s.client ≠ .answered) : Awaits s := by
  cases hplace : s.client with
  | answered => exact absurd hplace hclient
  | accept => exact awaits_of_accept hmain (waitsAt_eq_true.mpr ⟨hloop, hplace⟩)
  | request =>
    have hstep : shutdown.step s .closes = some { s with client := .accept } := by
      simp [shutdown, Shutdown.step, Shutdown.waitsAt, hloop, hplace]
    exact .step rfl hstep (awaits_of_accept hmain (waitsAt_eq_true.mpr ⟨hloop, rfl⟩))
  | handshake =>
    have hstep : shutdown.step s .rejects = some { s.setSock none with client := .accept } := by
      simp [shutdown, Shutdown.step, Shutdown.waitsAt, hloop, hplace]
    exact .step rfl hstep (awaits_of_accept hmain (waitsAt_eq_true.mpr ⟨hloop, rfl⟩))

/-- **Why the condition is exact.**  At any other moment `main`'s disconnect can be followed by an
`accept`, without a new client. -/
theorem awaits_of_not_settled (hmain : s.main = .stopped) (hrun : s.thread.wsRunning = false)
    (hset : s.settled = false) :
    ∃ s', shutdown.step s .disconnects = some s' ∧ Awaits s' := by
  refine ⟨{ s with thread := { s.thread with ws := s.thread.ws.disconnect }, main := .joining },
    ?_, ?_⟩
  · simp [shutdown, Shutdown.step, Shutdown.loopStep, WsThread.step, hmain, hrun]
  cases hloop : s.thread.loop with
  | test | exited => simp [Shutdown.settled, hloop] at hset
  | empty => exact awaits_of_empty rfl hloop (by simpa [Shutdown.settled, hloop] using hset) rfl
  | receiving =>
    exact awaits_of_receiving rfl hloop (by simpa [Shutdown.settled, hloop] using hset) rfl rfl
  | accepting =>
    exact awaits_of_accepting rfl hloop (by simpa [Shutdown.settled, hloop] using hset)

end QjsDebug.Ws
