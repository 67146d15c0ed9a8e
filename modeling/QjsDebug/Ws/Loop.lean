/-
# The loop of the WS thread

The lambda that `main` runs on `ws_thread`: while `ws_running`, receive a message and hand it to
the CDP handler.  What became of the connection is inferred from an empty message, looked at
together with `connected_` and the number of messages so far: a client that leaves before its
first message was a probe and another is accepted, one that leaves later ends the session.

Three parties move.  The client sends frames and hangs up, `main` clears `ws_running` and then
disconnects, and the WS thread runs its loop; a call of `receive` is one step of it, taken when
the call returns.

An empty message on an open connection is none of the cases above: the loop ends by the `break`
behind the test of `is_connected`, and `on_disconnect` is not called
(`empty_message_abandons`).  `never_abandons_of_reach` says that nothing else does this.
-/
import QjsDebug.Lib.StepSystem
import QjsDebug.Ws.Receive

namespace QjsDebug.Ws

/-! ## 1. The loop -/

/-- Where the WS thread is. -/
inductive LoopAt
  /-- At the condition of the loop. -/
  | test
  | receiving
  /-- `msg.empty()`, about to look at `is_connected`. -/
  | empty
  /-- In `wait_for_connection`. -/
  | accepting
  | exited
  deriving DecidableEq, Repr

/-- The WS thread and what it shares. -/
structure WsThread where
  ws : Server
  wsRunning : Bool
  msgCount : Nat
  /-- `session.on_disconnect()` has been called. -/
  onDisconnect : Bool
  /-- The messages given to `cdp.handle_message`. -/
  handled : List Bytes
  loop : LoopAt
  deriving DecidableEq, Repr

/-- When the thread is started: the first connection has been accepted. -/
def WsThread.start : WsThread :=
  { ws := Server.accepted [] false, wsRunning := true, msgCount := 0, onDisconnect := false,
    handled := [], loop := .test }

inductive LoopAct
  /-- The client: a frame arrives, the connection ends. -/
  | arrives (f : Frame)
  | hangsUp
  /-- `main`: `ws_running.store(false)`, then `ws.disconnect()`. -/
  | stops
  | disconnects
  /-- The WS thread. -/
  | tests
  | receives
  | looks
  | accepts
  | acceptFails
  deriving DecidableEq, Repr

/-- A frame from the client, or the end of its connection. -/
def Server.deliver (ws : Server) : Option Frame → Option Server
  | some f =>
    match ws.clientSock with
    | some ⟨incoming, false⟩ => some { ws with clientSock := some ⟨incoming ++ [f], false⟩ }
    | _ => none
  | none =>
    match ws.clientSock with
    | some ⟨incoming, _⟩ => some { ws with clientSock := some ⟨incoming, true⟩ }
    | none => none

/-- The body of the loop behind the call of `receive`. -/
def WsThread.received (s : WsThread) (msg : Bytes) (ws : Server) : WsThread :=
  if msg = [] then { s with ws := ws, loop := .empty }
  else
    { s with ws := ws, msgCount := s.msgCount + 1, handled := s.handled ++ [msg], loop := .test }

/-- `msg.empty()`: a client that left before its first message is replaced, one that left later
ends the session, and in any other case the loop just ends. -/
def WsThread.lookConnected (s : WsThread) : WsThread :=
  if s.ws.connected then { s with loop := .exited }
  else if s.msgCount = 0 then { s with ws := s.ws.disconnect, loop := .accepting }
  else { s with onDisconnect := true, loop := .exited }

def WsThread.step (s : WsThread) : LoopAct → Option WsThread
  | .arrives f => (s.ws.deliver (some f)).map fun ws => { s with ws := ws }
  | .hangsUp => (s.ws.deliver none).map fun ws => { s with ws := ws }
  | .stops => some { s with wsRunning := false }
  | .disconnects => if s.wsRunning then none else some { s with ws := s.ws.disconnect }
  | .tests =>
    if s.loop = .test then
      some { s with loop := if s.wsRunning then .receiving else .exited }
    else none
  | .receives =>
    if s.loop = .receiving then
      match receive s.ws with
      | (.returned msg, ws) => some (s.received msg ws)
      | _ => none
    else none
  | .looks => if s.loop = .empty then some s.lookConnected else none
  | .accepts =>
    if s.loop = .accepting then
      some { s with ws := { s.ws with connected := true, clientSock := some ⟨[], false⟩ },
                    loop := .test }
    else none
  | .acceptFails =>
    if s.loop = .accepting then some { s with onDisconnect := true, loop := .exited } else none

/-- The loop, from the start of the thread. -/
def wsLoop : StepSystem WsThread LoopAct where
  init s := s = WsThread.start
  step := WsThread.step

/-! ## 2. When `receive` returns an empty string -/

/-- The payload of the first frame that is neither ping nor pong, if it is a message. -/
def nextPayload : List Frame → Option Bytes
  | [] => none
  | f :: fs =>
    if f.isMessage then some f.payload else if f.isClose then none else nextPayload fs

/-- The next message on the connection. -/
def Server.nextMessage (ws : Server) : Option Bytes :=
  ws.clientSock.bind fun sock => nextPayload sock.incoming

/-- A scope that returned has run its body, with the lock. -/
theorem lockGuard_eq_returned {ws ws' : Server} {body : Server → Outcome × Server} {m : Bytes}
    (h : lockGuard ws body = (.returned m, ws')) :
    ∃ ws₁, body { ws.note .lock with holding := true } = (.returned m, ws₁) ∧
      ws' = { ws₁ with holding := false } := by
  unfold lockGuard at h
  simp only at h
  split at h
  · cases h
  · rcases hbody : body { ws.note .lock with holding := true } with ⟨out, ws₁⟩
    rw [hbody] at h
    cases out with
    | returned msg =>
      cases h
      exact ⟨ws₁, rfl, rfl⟩
    | waiting | deadlocked => cases h

/-- **An empty string from a connection that is still open** is the payload of an empty
message. -/
theorem receiveOn_eq_nil {hungUp : Bool} {fs : List Frame} {ws ws' : Server}
    (h : receiveOn hungUp fs ws = (.returned [], ws')) (hconn : ws'.connected = true) :
    ws.connected = true ∧ nextPayload fs = some [] := by
  induction fs generalizing ws ws' with
  | nil =>
    simp only [receiveOn] at h
    split at h
    · rename_i hclosed
      cases h
      rw [hconn] at hclosed
      cases hclosed
    · split at h
      · cases h
        cases hconn
      · cases h
  | cons f fs ih =>
    simp only [receiveOn] at h
    split at h
    · rename_i hclosed
      cases h
      rw [hconn] at hclosed
      cases hclosed
    · rename_i hopen
      have hws : ws.connected = true := by simpa using hopen
      refine ⟨hws, ?_⟩
      split at h
      · obtain ⟨ws₁, hbody, rfl⟩ := lockGuard_eq_returned h
        cases hbody
        cases hconn
      · rename_i hclose
        have hskip : f.isMessage = false → nextPayload fs = some [] →
            nextPayload (f :: fs) = some [] := by
          intro hnot hnext
          simp only [nextPayload, hnot, hclose, Bool.false_eq_true, if_false, hnext]
        split at h
        · rename_i hping
          obtain ⟨ws₁, hbody, rfl⟩ := lockGuard_eq_returned h
          exact hskip (by simp [Frame.isMessage, hping]) (ih hbody hconn).2
        · rename_i hping
          split at h
          · rename_i hpong
            exact hskip (by simp [Frame.isMessage, hpong]) (ih h hconn).2
          · rename_i hpong
            simp only [Prod.mk.injEq, Outcome.returned.injEq] at h
            have hmsg : f.isMessage = true := by simp [Frame.isMessage, hping, hpong, hclose]
            simp only [nextPayload, hmsg, if_true, h.1]

theorem receive_eq_nil {ws ws' : Server} (hsock : ws.clientSock ≠ none)
    (h : receive ws = (.returned [], ws')) (hconn : ws'.connected = true) :
    ws.connected = true ∧ ws.nextMessage = some [] := by
  unfold receive at h
  unfold Server.nextMessage
  cases hs : ws.clientSock with
  | none => exact absurd hs hsock
  | some sock =>
    rw [hs] at h
    exact receiveOn_eq_nil h hconn

/-- What a call may do to the connection: give it up, but not close the socket. -/
structure Keeps (ws ws' : Server) : Prop where
  connected : ws'.connected = true → ws.connected = true
  clientSock : ws.clientSock ≠ none → ws'.clientSock ≠ none

theorem Keeps.refl (ws : Server) : Keeps ws ws := ⟨id, id⟩

theorem keeps_lockGuard {ws : Server} {body : Server → Outcome × Server}
    (hbody : ∀ ws₁ : Server, Keeps ws₁ (body ws₁).2) : Keeps ws (lockGuard ws body).2 := by
  have hcall := hbody { ws.note .lock with holding := true }
  unfold lockGuard
  simp only
  split
  · exact ⟨id, id⟩
  · rcases hrun : body { ws.note .lock with holding := true } with ⟨out, ws₁⟩
    rw [hrun] at hcall
    cases out <;> exact ⟨hcall.connected, hcall.clientSock⟩

theorem keeps_receiveOn (hungUp : Bool) (fs : List Frame) (ws : Server) :
    Keeps ws (receiveOn hungUp fs ws).2 := by
  induction fs generalizing ws with
  | nil =>
    unfold receiveOn
    split
    · exact Keeps.refl ws
    · split
      · exact ⟨fun h => absurd h (by simp), id⟩
      · exact ⟨id, id⟩
  | cons f fs ih =>
    have hseen : ∀ ws' : Server,
        Keeps { ws.note .recvExact with clientSock := some ⟨fs, hungUp⟩ } ws' → Keeps ws ws' :=
      fun ws' h => ⟨h.connected, fun _ => h.clientSock (by simp)⟩
    unfold receiveOn
    split
    · exact Keeps.refl ws
    · split
      · rename_i hopen _
        have hclosed := @keeps_lockGuard
          { ws.note .recvExact with connected := false, clientSock := some ⟨fs, hungUp⟩ }
          (fun ws => (.returned [], ws.note (.sendFrame 0x08 []))) (fun ws₁ => ⟨id, id⟩)
        exact ⟨fun _ => by simpa using hopen, fun _ => hclosed.clientSock (by simp)⟩
      · split
        · exact hseen _ (keeps_lockGuard fun ws₁ =>
            ⟨(ih (ws₁.note _)).connected, (ih (ws₁.note _)).clientSock⟩)
        · split
          · exact hseen _ (ih _)
          · exact hseen _ (Keeps.refl _)

theorem keeps_receive (ws : Server) : Keeps ws (receive ws).2 := by
  unfold receive
  split
  · exact Keeps.refl ws
  · exact keeps_receiveOn _ _ ws

/-! ## 3. What holds along every run -/

/-- When the loop ends, `main` has ended it, or the session has been told that the client is
gone, and it is gone. -/
def NeverAbandons (s : WsThread) : Prop :=
  s.loop = .exited → s.wsRunning = false ∨ (s.onDisconnect = true ∧ s.ws.connected = false)

/-- The side condition of a step: `receive` does not come upon an empty message on an open
connection, unless `main` has ended the loop already. -/
def speaks (s : WsThread) (a : LoopAct) : Bool :=
  match a with
  | .receives => !s.wsRunning || !s.ws.connected || s.ws.nextMessage != some []
  | _ => true

/-- The invariant of the runs that meet it. -/
structure LoopInv (s : WsThread) : Prop where
  sock : s.ws.connected = true → s.ws.clientSock ≠ none
  empty : s.loop = .empty → s.wsRunning = false ∨ s.ws.connected = false
  accepting : s.loop = .accepting → s.ws.connected = false
  exited : NeverAbandons s

variable {s s' : WsThread}

/-- A delivery reaches the socket only. -/
theorem deliver_eq_some {ws ws' : Server} {f : Option Frame} (h : ws.deliver f = some ws') :
    ws'.connected = ws.connected ∧ ws'.clientSock ≠ none := by
  unfold Server.deliver at h
  split at h
  · split at h
    · cases h
      exact ⟨rfl, by simp⟩
    · cases h
  · split at h
    · cases h
      exact ⟨rfl, by simp⟩
    · cases h

theorem LoopInv.deliver {ws' : Server} {f : Option Frame} (hi : LoopInv s)
    (h : s.ws.deliver f = some ws') : LoopInv { s with ws := ws' } := by
  obtain ⟨hconn, hsock⟩ := deliver_eq_some h
  constructor
  · exact fun _ => hsock
  · intro hloop
    rw [hconn]
    exact hi.empty hloop
  · intro hloop
    rw [hconn]
    exact hi.accepting hloop
  · intro hloop
    rw [hconn]
    exact hi.exited hloop

theorem LoopInv.disconnect (hi : LoopInv s) : LoopInv { s with ws := s.ws.disconnect } := by
  constructor
  · intro h
    cases h
  · exact fun _ => .inr rfl
  · exact fun _ => rfl
  · intro hloop
    rcases hi.exited hloop with h | ⟨h, -⟩
    · exact .inl h
    · exact .inr ⟨h, rfl⟩

/-- A call of `receive` that returned. -/
theorem LoopInv.received {msg : Bytes} {ws' : Server} (hi : LoopInv s)
    (hok : speaks s .receives = true) (h : receive s.ws = (.returned msg, ws')) :
    LoopInv (s.received msg ws') := by
  have hkeeps := keeps_receive s.ws
  rw [h] at hkeeps
  have hsock : ws'.connected = true → ws'.clientSock ≠ none := by
    intro hc
    exact hkeeps.clientSock (hi.sock (hkeeps.connected hc))
  unfold WsThread.received
  split
  · rename_i hmsg
    subst hmsg
    constructor
    · exact hsock
    · intro _
      by_contra hnot
      obtain ⟨hrun, hc⟩ : s.wsRunning = true ∧ ws'.connected = true := by simpa using hnot
      obtain ⟨hc', hnext⟩ := receive_eq_nil (hi.sock (hkeeps.connected hc)) h hc
      simp [speaks, hrun, hc', hnext] at hok
    · intro hloop
      cases hloop
    · intro hloop
      cases hloop
  · constructor
    · exact hsock
    · intro hloop
      cases hloop
    · intro hloop
      cases hloop
    · intro hloop
      cases hloop

theorem LoopInv.lookConnected (hi : LoopInv s) (hloop : s.loop = .empty) :
    LoopInv s.lookConnected := by
  unfold WsThread.lookConnected
  split
  · rename_i hconn
    constructor
    · exact hi.sock
    · intro h
      cases h
    · intro h
      cases h
    · intro _
      rcases hi.empty hloop with h | h
      · exact .inl h
      · rw [h] at hconn
        cases hconn
  · rename_i hconn
    split
    · constructor
      · intro h
        cases h
      · intro h
        cases h
      · exact fun _ => rfl
      · intro h
        cases h
    · constructor
      · exact hi.sock
      · intro h
        cases h
      · intro h
        cases h
      · exact fun _ => .inr ⟨rfl, by simpa using hconn⟩

theorem loopInv_start : LoopInv WsThread.start := by
  constructor
  · exact fun _ => by simp [WsThread.start, Server.accepted]
  all_goals
    intro h
    cases h

/-- One step. -/
theorem loopInv_step {a : LoopAct} (hi : LoopInv s) (hok : speaks s a = true)
    (h : wsLoop.step s a = some s') : LoopInv s' := by
  cases a with
  | arrives f | hangsUp =>
    obtain ⟨ws', hws, rfl⟩ := Option.map_eq_some_iff.mp h
    exact hi.deliver hws
  | stops =>
    cases h
    exact ⟨hi.sock, fun _ => .inl rfl, hi.accepting, fun _ => .inl rfl⟩
  | disconnects =>
    simp only [wsLoop, WsThread.step] at h
    split at h
    · cases h
    · cases h
      exact hi.disconnect
  | tests =>
    obtain ⟨-, hs⟩ := Option.ite_none_right_eq_some.mp h
    cases hs
    constructor
    · exact hi.sock
    · intro hloop
      cases hrun : s.wsRunning <;> simp [hrun] at hloop
    · intro hloop
      cases hrun : s.wsRunning <;> simp [hrun] at hloop
    · intro hloop
      cases hrun : s.wsRunning with
      | false => exact .inl rfl
      | true => simp [hrun] at hloop
  | receives =>
    obtain ⟨-, hs⟩ := Option.ite_none_right_eq_some.mp h
    split at hs
    · rename_i hcall
      cases hs
      exact hi.received hok hcall
    · cases hs
  | looks =>
    obtain ⟨hloop, hs⟩ := Option.ite_none_right_eq_some.mp h
    cases hs
    exact hi.lookConnected hloop
  | accepts =>
    obtain ⟨-, hs⟩ := Option.ite_none_right_eq_some.mp h
    cases hs
    constructor
    · exact fun _ => by simp
    all_goals
      intro hloop
      cases hloop
  | acceptFails =>
    obtain ⟨hloop, hs⟩ := Option.ite_none_right_eq_some.mp h
    cases hs
    have hconn := hi.accepting hloop
    constructor
    · exact hi.sock
    · exact fun _ => .inr hconn
    · exact fun _ => hconn
    · exact fun _ => .inr ⟨rfl, hconn⟩

/-- **The loop abandons no session** in any run in which `receive` comes upon no empty message on
an open connection: when it ends, `main` has cleared `ws_running`, or `on_disconnect` has been
called and the connection is gone. -/
theorem never_abandons_of_reach
    (h : StepSystem.Reach wsLoop (fun s a => speaks s a = true) s) : NeverAbandons s := by
  have hinv : LoopInv s := by
    refine h.invariant (I := LoopInv) ?_ ?_
    · intro t ht
      cases ht
      exact loopInv_start
    · intro t a t' hi hok ht
      exact loopInv_step hi hok ht
  exact hinv.exited

theorem never_abandons_of_reach_probe :
    ∃ s, StepSystem.Reach wsLoop (fun s a => speaks s a = true) s ∧ s.loop = .exited ∧
      s.onDisconnect = true ∧ NeverAbandons s := by
  obtain ⟨s, hs, hp⟩ := @StepSystem.exists_reach_of_run _ _ wsLoop WsThread.start
    [.tests, .hangsUp, .receives, .looks, .accepts, .tests, .arrives ⟨0x01, ascii "msg"⟩, .receives,
      .tests, .arrives ⟨0x08, []⟩, .receives, .looks]
    speaks (fun s => s.loop = .exited && s.onDisconnect) rfl (by decide)
  simp only [Bool.and_eq_true, decide_eq_true_eq] at hp
  exact ⟨s, hs, hp.1, hp.2, never_abandons_of_reach hs⟩

/-- In every run, what has been handed to the CDP handler is what `msg_count` counts, and no
message of it is empty. -/
theorem handled_of_reach (h : StepSystem.Reachable wsLoop s) :
    s.msgCount = s.handled.length ∧ ∀ m ∈ s.handled, m ≠ [] := by
  refine h.invariant (I := fun s => s.msgCount = s.handled.length ∧ ∀ m ∈ s.handled, m ≠ []) ?_ ?_
  · intro t ht
    cases ht
    exact ⟨rfl, by simp [WsThread.start]⟩
  · intro t a t' hi _ ht
    cases a with
    | receives =>
      simp only [wsLoop, WsThread.step] at ht
      split at ht
      · split at ht
        · rename_i msg ws' _
          cases ht
          unfold WsThread.received
          split
          · exact hi
          · rename_i hmsg
            refine ⟨by simp [hi.1], ?_⟩
            intro m hm
            rcases List.mem_append.mp hm with hm | hm
            · exact hi.2 m hm
            · rw [List.mem_singleton.mp hm]
              exact hmsg
        · cases ht
      · cases ht
    | arrives f | hangsUp =>
      obtain ⟨ws', -, rfl⟩ := Option.map_eq_some_iff.mp ht
      exact hi
    | stops =>
      cases ht
      exact hi
    | disconnects | tests | looks | accepts | acceptFails =>
      simp only [wsLoop, WsThread.step, WsThread.lookConnected] at ht
      grind

/-- **Why the condition is exact.**  Wherever the loop comes upon an empty message on an open
connection, it can end there, with the connection open and nobody told. -/
theorem empty_message_abandons {f : Frame} {fs : List Frame} {hungUp : Bool}
    (hloop : s.loop = .receiving) (hrun : s.wsRunning = true) (hsilent : s.onDisconnect = false)
    (hopen : Server.Open (f :: fs) hungUp s.ws) (hf : f.isMessage = true)
    (hempty : f.payload = []) :
    ∃ s', wsLoop.run s [.receives, .looks] = some s' ∧ s'.ws.connected = true ∧
      ¬ NeverAbandons s' := by
  obtain ⟨ws', hcall, hopen', -⟩ := receive_message hopen hf
  rw [hempty] at hcall
  refine ⟨{ s with ws := ws', loop := .exited }, ?_, hopen'.connected, ?_⟩
  · simp [StepSystem.run_cons, wsLoop, WsThread.step, hloop, hcall, WsThread.received,
      WsThread.lookConnected, hopen'.connected]
  · intro h
    rcases h rfl with h | ⟨h, -⟩
    · exact absurd (h.symm.trans hrun) (by simp)
    · exact absurd (h.symm.trans hsilent) (by simp)

/-- One empty text frame ends the loop of a live session. -/
theorem live_session_abandoned :
    ∃ s, StepSystem.Reachable wsLoop s ∧ s.ws.connected = true ∧ ¬ NeverAbandons s := by
  obtain ⟨s, hs, hp⟩ := @StepSystem.exists_reachable_of_run _ _ wsLoop WsThread.start
    [.tests, .arrives ⟨0x01, ascii "msg"⟩, .receives, .tests, .arrives ⟨0x01, []⟩, .receives,
      .looks]
    (fun s => s.ws.connected && s.loop = .exited && s.wsRunning && !s.onDisconnect) rfl (by decide)
  simp only [Bool.and_eq_true, decide_eq_true_eq, Bool.not_eq_true'] at hp
  obtain ⟨⟨⟨hconn, hexit⟩, hrun⟩, hsilent⟩ := hp
  refine ⟨s, hs, hconn, ?_⟩
  intro h
  rcases h hexit with h | ⟨h, -⟩
  · exact absurd (h.symm.trans hrun) (by simp)
  · exact absurd (h.symm.trans hsilent) (by simp)

end QjsDebug.Ws
