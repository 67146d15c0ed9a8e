/-
# `WebSocketServer::receive` and its lock

The socket is seen as `read_ws_frame` sees it: the frames that have arrived, and whether the
peer has gone.  `Socket.ofStream` and `read_ofStream` tie this view to the bytes.

`receive` is recursive through its control frames, and the recursive call after a ping is made
inside the scope of the `lock_guard`, so the model carries what that scope needs:

* the state says whether the receiving thread holds `send_mutex_`; locking it again blocks the
  thread on itself (`deadlocked`), and a call that blocks never leaves its scope;
* a ghost log records, with the lock's state at that moment, every wait for input, every
  attempt to lock and every frame sent.
-/
import QjsDebug.Ws.Frame

namespace QjsDebug.Ws

open ByteStream

/-! ## 1. Frames and sockets -/

/-- A ping or a pong. -/
def Frame.isPing (f : Frame) : Bool := f.opcode == 0x09
def Frame.isPong (f : Frame) : Bool := f.opcode == 0x0A
def Frame.isClose (f : Frame) : Bool := f.opcode == 0x08

/-- Neither ping nor pong nor close: a frame whose payload `receive` returns. -/
def Frame.isMessage (f : Frame) : Bool := !f.isPing && !f.isPong && !f.isClose

/-- The client's end: the frames that have arrived, and whether the connection is gone, so
that reading past them fails instead of waiting. -/
structure Socket where
  incoming : List Frame
  hungUp : Bool
  deriving DecidableEq, Repr

/-- What a call of `read_ws_frame` comes to. -/
inductive Read
  | frame (f : Frame) (rest : Socket)
  | failed
  | waiting
  deriving DecidableEq, Repr

/-- `read_ws_frame`. -/
def Socket.read (sock : Socket) : Read :=
  match sock.incoming with
  | [] => if sock.hungUp then .failed else .waiting
  | f :: rest => .frame f { sock with incoming := rest }

/-- A connection of which all the bytes have arrived. -/
def Socket.ofStream (s : List Bytes) : Socket := ⟨readFrames s, true⟩

/-- **The socket's view is the byte-level one**: reading a frame off the socket of a stream is
`read_ws_frame` on the stream. -/
theorem read_ofStream (s : List Bytes) :
    (Socket.ofStream s).read =
      match readWsFrame s with
      | none => .failed
      | some (f, s') => .frame f (Socket.ofStream s') := by
  cases h : readWsFrame s with
  | none => simp [Socket.read, Socket.ofStream, readFrames_of_none h]
  | some p => simp [Socket.read, Socket.ofStream, readFrames_of_some h]

/-! ## 2. The server's receiving side -/

/-- What the log records. -/
inductive Op
  | recvExact
  | lock
  | sendFrame (opcode : UInt8) (payload : Bytes)
  deriving DecidableEq, Repr

/-- An operation, and whether the thread held `send_mutex_` when it came to it. -/
structure Logged where
  op : Op
  holding : Bool
  deriving DecidableEq, Repr

/-- The fields of `WebSocketServer` that `receive` reads and writes. -/
structure Server where
  connected : Bool
  clientSock : Option Socket
  /-- The receiving thread holds `send_mutex_`. -/
  holding : Bool
  log : List Logged
  deriving DecidableEq, Repr

/-- Just after the handshake, the frames to come being `incoming`. -/
def Server.accepted (incoming : List Frame) (hungUp : Bool) : Server :=
  { connected := true, clientSock := some ⟨incoming, hungUp⟩, holding := false, log := [] }

def Server.note (ws : Server) (op : Op) : Server :=
  { ws with log := ws.log ++ [⟨op, ws.holding⟩] }

/-- `disconnect`. -/
def Server.disconnect (ws : Server) : Server :=
  { ws with connected := false, clientSock := none }

/-- How a call of `receive` ends, if it does. -/
inductive Outcome
  | returned (msg : Bytes)
  | waiting
  | deadlocked
  deriving DecidableEq, Repr

/-- `std::lock_guard lock(send_mutex_)` around `body`: the lock is released when the body
returns, not before. -/
def lockGuard (ws : Server) (body : Server → Outcome × Server) : Outcome × Server :=
  let ws := ws.note .lock
  if ws.holding then (.deadlocked, ws)
  else
    match body { ws with holding := true } with
    | (.returned msg, ws) => (.returned msg, { ws with holding := false })
    | stuck => stuck

/-- `receive` on an open socket, by the frames that have arrived. -/
def receiveOn (hungUp : Bool) : List Frame → Server → Outcome × Server
  | [], ws =>
    if !ws.connected then (.returned [], ws)
    else
      let ws := ws.note .recvExact
      if hungUp then (.returned [], { ws with connected := false }) else (.waiting, ws)
  | f :: rest, ws =>
    if !ws.connected then (.returned [], ws)
    else
      let ws := { ws.note .recvExact with clientSock := some ⟨rest, hungUp⟩ }
      if f.isClose then
        lockGuard { ws with connected := false } fun ws =>
          (.returned [], ws.note (.sendFrame 0x08 []))
      else if f.isPing then
        lockGuard ws fun ws => receiveOn hungUp rest (ws.note (.sendFrame 0x0A f.payload))
      else if f.isPong then receiveOn hungUp rest ws
      else (.returned f.payload, ws)

/-- `receive`. -/
def receive (ws : Server) : Outcome × Server :=
  match ws.clientSock with
  | none => (.returned [], ws)
  | some sock => receiveOn sock.hungUp sock.incoming ws

/-- **The source's shape.**  `receive` reads one frame and, for the control frames that do not
end the call, calls itself: after a pong as it is, after a ping inside the lock's scope. -/
theorem receive_eq {ws : Server} {sock : Socket} (hconn : ws.connected = true)
    (hsock : ws.clientSock = some sock) :
    receive ws =
      let ws := ws.note .recvExact
      match sock.read with
      | .failed => (.returned [], { ws with connected := false })
      | .waiting => (.waiting, ws)
      | .frame f rest =>
        let ws := { ws with clientSock := some rest }
        if f.isClose then
          lockGuard { ws with connected := false } fun ws =>
            (.returned [], ws.note (.sendFrame 0x08 []))
        else if f.isPing then
          lockGuard ws fun ws => receive (ws.note (.sendFrame 0x0A f.payload))
        else if f.isPong then receive ws
        else (.returned f.payload, ws) := by
  obtain ⟨incoming, hungUp⟩ := sock
  unfold receive
  rw [hsock]
  cases incoming with
  | nil => cases hungUp <;> simp [receiveOn, Socket.read, hconn]
  | cons f rest => simp [receiveOn, Socket.read, hconn, lockGuard, Server.note]

/-- A call on a closed connection returns at once and changes nothing. -/
theorem receive_closed {ws : Server} (h : ws.connected = false) :
    receive ws = (.returned [], ws) := by
  unfold receive
  cases hsock : ws.clientSock with
  | none => rfl
  | some sock =>
    obtain ⟨incoming, hungUp⟩ := sock
    cases incoming <;> simp [receiveOn, h]

/-! ## 3. The lock -/

/-- The thread never waits for the client, nor for itself, with `send_mutex_` held. -/
def NeverBlocksItself (log : List Logged) : Prop :=
  ∀ e ∈ log, e.holding = true → e.op ≠ .lock ∧ e.op ≠ .recvExact

instance (log : List Logged) : Decidable (NeverBlocksItself log) :=
  inferInstanceAs (Decidable (∀ e ∈ log, _))

/-- The first `n` calls of `receive`, one after the other as the loop of `main` makes them; a
call that does not return is the last. -/
def receives : Nat → Server → Server
  | 0, ws => ws
  | n + 1, ws =>
    match receive ws with
    | (.returned _, ws') => receives n ws'
    | (_, ws') => ws'

theorem receives_closed {ws : Server} (h : ws.connected = false) (n : Nat) :
    receives n ws = ws := by
  induction n with
  | zero => rfl
  | succ n ih => simp only [receives, receive_closed h, ih]

theorem neverBlocksItself_append {log log' : List Logged} :
    NeverBlocksItself (log ++ log') ↔ NeverBlocksItself log ∧ NeverBlocksItself log' := by
  simp only [NeverBlocksItself, List.forall_mem_append]

@[simp] theorem log_lockGuard (ws : Server) (body : Server → Outcome × Server) :
    (lockGuard ws body).2.log =
      if ws.holding then (ws.note .lock).log
      else (body { ws.note .lock with holding := true }).2.log := by
  unfold lockGuard
  by_cases h : ws.holding = true
  · simp [h, Server.note]
  · have hnote : (ws.note .lock).holding = ws.holding := rfl
    simp only [hnote, h, Bool.false_eq_true, if_false]
    rcases body { ws.note .lock with holding := true } with ⟨out, ws'⟩
    cases out <;> rfl

/-- A call on an open connection begins by waiting for input, and nothing is ever taken out of
the log. -/
theorem note_prefix_receiveOn (hungUp : Bool) (fs : List Frame) {ws : Server}
    (hconn : ws.connected = true) :
    (ws.note .recvExact).log <+: (receiveOn hungUp fs ws).2.log := by
  induction fs generalizing ws with
  | nil =>
    simp only [receiveOn, hconn, Bool.not_true, Bool.false_eq_true, if_false]
    split <;> exact List.prefix_rfl
  | cons f rest ih =>
    have hmore : ∀ ws' : Server, ws'.connected = true →
        (ws.note .recvExact).log <+: ws'.log →
        (ws.note .recvExact).log <+: (receiveOn hungUp rest ws').2.log := by
      intro ws' hconn' hpre
      exact (hpre.trans (List.prefix_append _ _)).trans (ih hconn')
    simp only [receiveOn, hconn, Bool.not_true, Bool.false_eq_true, if_false]
    split
    · simp only [log_lockGuard, Server.note]
      split <;> simp
    · split
      · rw [log_lockGuard]
        split
        · exact List.prefix_append _ _
        · apply hmore
          · exact hconn
          · exact (List.prefix_append _ _).trans (List.prefix_append _ _)
      · split
        · exact hmore _ hconn List.prefix_rfl
        · exact List.prefix_rfl

/-- The connection is open, the lock is free, and `fs` has arrived. -/
structure Server.Open (fs : List Frame) (hungUp : Bool) (ws : Server) : Prop where
  connected : ws.connected = true
  clientSock : ws.clientSock = some ⟨fs, hungUp⟩
  holding : ws.holding = false

theorem open_accepted (fs : List Frame) (hungUp : Bool) :
    Server.Open fs hungUp (Server.accepted fs hungUp) :=
  ⟨rfl, rfl, rfl⟩

variable {fs : List Frame} {f : Frame} {hungUp : Bool} {ws : Server}

/-- A message frame is returned; nothing is held while it is waited for. -/
theorem receive_message (h : Server.Open (f :: fs) hungUp ws) (hf : f.isMessage = true) :
    ∃ ws', receive ws = (.returned f.payload, ws') ∧ Server.Open fs hungUp ws' ∧
      ws'.log = ws.log ++ [⟨.recvExact, false⟩] := by
  simp only [Frame.isMessage, Bool.and_eq_true, Bool.not_eq_true'] at hf
  obtain ⟨⟨hping, hpong⟩, hclose⟩ := hf
  refine ⟨{ ws.note .recvExact with clientSock := some ⟨fs, hungUp⟩ }, ?_, ?_, ?_⟩
  · simp [receive_eq h.connected h.clientSock, Socket.read, hping, hpong, hclose]
  · exact ⟨h.connected, rfl, h.holding⟩
  · simp [Server.note, h.holding]

/-- A pong is skipped. -/
theorem receive_pong (h : Server.Open (f :: fs) hungUp ws) (hf : f.isPong = true) :
    ∃ ws', receive ws = receive ws' ∧ Server.Open fs hungUp ws' ∧
      ws'.log = ws.log ++ [⟨.recvExact, false⟩] := by
  have hop : f.opcode = 0x0A := by simpa [Frame.isPong] using hf
  refine ⟨{ ws.note .recvExact with clientSock := some ⟨fs, hungUp⟩ }, ?_, ?_, ?_⟩
  · simp [receive_eq h.connected h.clientSock, Socket.read, Frame.isClose, Frame.isPing,
      Frame.isPong, hop]
  · exact ⟨h.connected, rfl, h.holding⟩
  · simp [Server.note, h.holding]

/-- A close frame ends the connection; it is answered under the lock. -/
theorem receive_close (h : Server.Open (f :: fs) hungUp ws) (hf : f.isClose = true) :
    ∃ ws', receive ws = (.returned [], ws') ∧ ws'.connected = false ∧
      ws'.log = ws.log ++ [⟨.recvExact, false⟩, ⟨.lock, false⟩, ⟨.sendFrame 0x08 [], true⟩] := by
  rw [receive_eq h.connected h.clientSock]
  simp [Socket.read, hf, lockGuard, Server.note, h.holding]

/-- After a ping the next frame is waited for with the lock held. -/
theorem receive_ping (h : Server.Open (f :: fs) hungUp ws) (hf : f.isPing = true) :
    ⟨.recvExact, true⟩ ∈ (receive ws).2.log := by
  have hop : f.opcode = 0x09 := by simpa [Frame.isPing] using hf
  have hcall : (receive ws).2.log = (receiveOn hungUp fs (({ (ws.note .recvExact).note .lock with
      clientSock := some ⟨fs, hungUp⟩, holding := true } : Server).note
        (.sendFrame 0x0A f.payload))).2.log := by
    rw [receive_eq h.connected h.clientSock]
    simp [Socket.read, Frame.isClose, Frame.isPing, hop, Server.note, h.holding, receive]
  rw [hcall]
  apply (note_prefix_receiveOn hungUp fs _).subset
  · simp [Server.note]
  · exact h.connected

/-- After the last frame the call waits, or fails for good; nothing is held. -/
theorem receive_nil (h : Server.Open [] hungUp ws) :
    ∃ ws', receive ws = (if hungUp then .returned [] else .waiting, ws') ∧
      (hungUp = true → ws'.connected = false) ∧ ws'.log = ws.log ++ [⟨.recvExact, false⟩] := by
  rw [receive_eq h.connected h.clientSock]
  cases hungUp with
  | false => exact ⟨_, rfl, by simp, by simp [Server.note, h.holding]⟩
  | true => exact ⟨_, rfl, fun _ => rfl, by simp [Server.note, h.holding]⟩

/-- Nothing is held while a frame is waited for with the lock free. -/
theorem neverBlocksItself_wait {log : List Logged} (h : NeverBlocksItself log) :
    NeverBlocksItself (log ++ [⟨.recvExact, false⟩]) :=
  neverBlocksItself_append.mpr ⟨h, by simp [NeverBlocksItself]⟩

/-- A call that returns is a step of the loop. -/
theorem receives_iff_of_returned {ws ws' : Server} {m : Bytes} (hlog : NeverBlocksItself ws.log)
    (hcall : receive ws = (.returned m, ws')) :
    (∀ n, NeverBlocksItself (receives n ws).log) ↔ ∀ n, NeverBlocksItself (receives n ws').log := by
  have hnext : ∀ n, receives (n + 1) ws = receives n ws' := by
    intro n
    simp only [receives, hcall]
  constructor
  · intro h n
    exact hnext n ▸ h (n + 1)
  · intro h n
    cases n with
    | zero => exact hlog
    | succ n => exact hnext n ▸ h n

/-- A call that goes on as another one is no step of the loop. -/
theorem receives_iff_of_same {ws ws' : Server} (hlog : NeverBlocksItself ws.log)
    (hlog' : NeverBlocksItself ws'.log) (hcall : receive ws = receive ws') :
    (∀ n, NeverBlocksItself (receives n ws).log) ↔ ∀ n, NeverBlocksItself (receives n ws').log := by
  have hsame : ∀ n, receives (n + 1) ws = receives (n + 1) ws' := by
    intro n
    simp only [receives, hcall]
  constructor
  · intro h n
    cases n with
    | zero => exact hlog'
    | succ n => exact hsame n ▸ h (n + 1)
  · intro h n
    cases n with
    | zero => exact hlog
    | succ n => exact hsame n ▸ h (n + 1)

/-- A call that waits for input that never comes, or finds the connection ended, is the last one
to add anything to the log. -/
theorem receives_of_ended {ws ws' : Server} {out : Outcome} (hlog : NeverBlocksItself ws.log)
    (hlog' : NeverBlocksItself ws'.log) (hcall : receive ws = (out, ws'))
    (hend : out = .waiting ∨ ws'.connected = false) (n : Nat) :
    NeverBlocksItself (receives n ws).log := by
  cases n with
  | zero => exact hlog
  | succ n =>
    rcases hend with rfl | hclosed
    · simp only [receives, hcall]
      exact hlog'
    · cases out <;> simp only [receives, hcall, receives_closed hclosed] <;> exact hlog'

/-- **The loop on an open connection**, by induction on the frames that have arrived. -/
theorem receives_open_iff (hopen : Server.Open fs hungUp ws) (hlog : NeverBlocksItself ws.log) :
    (∀ n, NeverBlocksItself (receives n ws).log) ↔
      ∀ f ∈ fs.takeWhile (!·.isClose), f.isPing = false := by
  induction fs generalizing ws with
  | nil =>
    obtain ⟨ws', hcall, hclosed, hlog'⟩ := receive_nil hopen
    refine iff_of_true ?_ (by simp)
    refine receives_of_ended hlog (hlog' ▸ neverBlocksItself_wait hlog) hcall ?_
    cases hungUp with
    | false => exact .inl rfl
    | true => exact .inr (hclosed rfl)
  | cons f rest ih =>
    by_cases hclose : f.isClose = true
    · obtain ⟨ws', hcall, hclosed, hlog'⟩ := receive_close hopen hclose
      refine iff_of_true ?_ (by simp [hclose])
      refine receives_of_ended hlog ?_ hcall (.inr hclosed)
      exact hlog' ▸ neverBlocksItself_append.mpr ⟨hlog, by simp [NeverBlocksItself]⟩
    · have htake : (f :: rest).takeWhile (!·.isClose) = f :: rest.takeWhile (!·.isClose) := by
        simp [hclose]
      rw [htake, List.forall_mem_cons]
      by_cases hping : f.isPing = true
      · constructor
        · intro h
          have hcalled : (receives 1 ws).log = (receive ws).2.log := by
            simp only [receives]
            split <;> simp_all
          have hbad := h 1 _ (hcalled ▸ receive_ping hopen hping) rfl
          exact absurd rfl hbad.2
        · rintro ⟨hnot, -⟩
          rw [hping] at hnot
          cases hnot
      · rw [Bool.not_eq_true] at hping
        simp only [hping, true_and]
        by_cases hpong : f.isPong = true
        · obtain ⟨ws', hcall, hopen', hlog'⟩ := receive_pong hopen hpong
          have hclean : NeverBlocksItself ws'.log := hlog' ▸ neverBlocksItself_wait hlog
          rw [receives_iff_of_same hlog hclean hcall, ih hopen' hclean]
        · have hmsg : f.isMessage = true := by simp [Frame.isMessage, hping, hpong, hclose]
          obtain ⟨ws', hcall, hopen', hlog'⟩ := receive_message hopen hmsg
          have hclean : NeverBlocksItself ws'.log := hlog' ▸ neverBlocksItself_wait hlog
          rw [receives_iff_of_returned hlog hcall, ih hopen' hclean]

/-- **When `receive` never blocks its own thread.**  Over any sequence of frames, in however
many successive calls: exactly when no ping comes before the first close frame. -/
theorem receive_never_blocks_itself_iff (frames : List Frame) (hungUp : Bool) :
    (∀ n, NeverBlocksItself (receives n (Server.accepted frames hungUp)).log) ↔
      ∀ f ∈ frames.takeWhile (!·.isClose), f.isPing = false :=
  receives_open_iff (open_accepted frames hungUp) (by simp [NeverBlocksItself, Server.accepted])

/-- Two pings in a row: the pong to the second needs the lock that the first still holds. -/
theorem receive_deadlocks_on_two_pings :
    ¬ NeverBlocksItself
      (receives 1 (Server.accepted [⟨0x09, []⟩, ⟨0x09, []⟩, ⟨0x01, ascii "msg"⟩] false)).log ∧
    (receive (Server.accepted [⟨0x09, []⟩, ⟨0x09, []⟩, ⟨0x01, ascii "msg"⟩] false)).1 =
      .deadlocked := by
  decide

end QjsDebug.Ws
