/-
# The accept loop

`wait_for_connection` of `websocket_server.cpp`.  It accepts one connection after another, answers
the discovery requests, and comes back with the first one that it could upgrade.

* What comes in is a list: a connection, with what it sends and how much it takes of what it is
  sent, or `none` where `accept` fails.  At the end of the list the loop waits in `accept`.
* A socket is known by the number of the `accept` that gave it.  The numbers of the operating
  system are used again after `close_socket`, these are not.
* What the loop does with its sockets is a log (`Lib.Handles`): `acquire` is `accept`, `use` the
  bytes that go out (none when nothing is sent), `release` is `close_socket`.

`serve_cases` says what one connection comes to, `acceptLoop_held` that the log is always an
owner's log and `client_sock_` all that is left open.
-/
import QjsDebug.Lib.Handles
import QjsDebug.Ws.Handshake

namespace QjsDebug.Ws

open Handles

/-! ## 1. The loop -/

/-- A connection as `accept` gives it. -/
structure Incoming where
  stream : List Bytes
  accepts : Nat

/-- The fields of `WebSocketServer` that the accept loop reads or writes; `client_sock_` is `none`
for `INVALID_SOCK`. -/
structure Acceptor where
  clientSock : Option Nat
  connected : Bool
  targetName : Bytes
  targetUrl : Bytes
  port : Int

/-- What happens to the sockets of the server. -/
abbrev SocketEvent := HandleEvent Nat Bytes

/-- The body of `/json/version`. -/
def versionBody : Bytes :=
  ascii "\x7b\"Browser\":\"QuickJS-Debug/1.0\",\"Protocol-Version\":\"1.3\"\x7d"

/-- What is formatted for `/json` and `/json/list`: the format string, cut at its conversions. -/
def discoveryText (a : Acceptor) : Bytes :=
  ascii "[\x7b\"description\":\"QuickJS instance\"," ++
    ascii "\"devtoolsFrontendUrl\":\"devtools://devtools/bundled/js_app.html" ++
    ascii "?experiments=true&v8only=true&ws=127.0.0.1:" ++ decimal a.port ++
    ascii "/debug\",\"id\":\"main\",\"title\":\"" ++ cString a.targetName ++
    ascii "\",\"type\":\"node\",\"url\":\"" ++ cString a.targetUrl ++
    ascii "\",\"webSocketDebuggerUrl\":\"ws://127.0.0.1:" ++ decimal a.port ++
    ascii "/debug\"\x7d]"

/-- `body` for `/json` and `/json/list`. -/
def discoveryBody (a : Acceptor) : Bytes := snprintf 2048 (discoveryText a)

/-- The body of the loop behind `accept`: whether it returns `true`, the server, and what it does
with socket `k`. -/
def serve (a : Acceptor) (k : Nat) (c : Incoming) : Bool × Acceptor × List SocketEvent :=
  let request := (readHttpRequest c.stream).1
  if request = [] then (false, a, [.release k])
  else
    let path := getRequestPath request
    let upgrade := getHeader request (ascii "Upgrade")
    if toLower upgrade = ascii "websocket" then
      let a := { a with clientSock := some k }
      let (ok, wire) := doWebsocketHandshake c.accepts request
      if ok = false then (false, { a with clientSock := none }, [.use k wire, .release k])
      else (true, { a with connected := true }, [.use k wire])
    else if path = ascii "/json/version" then
      (false, a, [.use k (sendHttpResponse c.accepts 200 (ascii "OK") (ascii "application/json")
        versionBody), .release k])
    else if path = ascii "/json" ∨ path = ascii "/json/list" then
      (false, a, [.use k (sendHttpResponse c.accepts 200 (ascii "OK") (ascii "application/json")
        (discoveryBody a)), .release k])
    else
      (false, a, [.use k (sendHttpResponse c.accepts 404 (ascii "Not Found") (ascii "text/plain")
        (ascii "Not Found")), .release k])

/-- The loop from the `accept` that gives socket `k`: what it returns (`none` as long as it does
not), the server, and the log. -/
def acceptLoop (a : Acceptor) (k : Nat) :
    List (Option Incoming) → Option Bool × Acceptor × List SocketEvent
  | [] => (none, a, [])
  | none :: _ => (some false, a, [])
  | some c :: conns =>
    let (done, a', log) := serve a k c
    if done = true then (some true, a', .acquire k :: log)
    else
      let (result, a'', log') := acceptLoop a' (k + 1) conns
      (result, a'', .acquire k :: (log ++ log'))

/-- `wait_for_connection`. -/
def waitForConnection (a : Acceptor) (targetName targetUrl : Bytes)
    (conns : List (Option Incoming)) : Option Bool × Acceptor × List SocketEvent :=
  acceptLoop { a with targetName := targetName, targetUrl := targetUrl } 0 conns

/-! ## 2. One connection -/

/-- The whole answer to an upgrade request: the 101 response, with the accept value of the key that
this request carries. -/
def upgradeResponse (request : Bytes) : Bytes :=
  handshakeResponse (computeWsAccept (getHeader request (ascii "Sec-WebSocket-Key")))
    (getHeader request (ascii "Sec-WebSocket-Protocol"))

/-- The connection carried a request for an upgrade with a key, and was sent the whole answer. -/
def Upgraded (k : Nat) (c : Incoming) (log : List SocketEvent) : Prop :=
  getHeader (readHttpRequest c.stream).1 (ascii "Sec-WebSocket-Key") ≠ [] ∧
    log = [.use k (upgradeResponse (readHttpRequest c.stream).1)]

/-- **What a connection comes to**: it is closed behind whatever it was sent, and the server is as
before, or it is the client. -/
theorem serve_cases {a : Acceptor} (hsock : a.clientSock = none) (k : Nat) (c : Incoming) :
    (∃ sent : List Bytes, serve a k c = (false, a, sent.map (.use k) ++ [.release k])) ∨
      (∃ log, serve a k c = (true, { a with clientSock := some k, connected := true }, log) ∧
        Upgraded k c log) := by
  have hreset : { a with clientSock := none } = a := by
    rw [← hsock]
  unfold serve
  by_cases hread : (readHttpRequest c.stream).1 = []
  · exact .inl ⟨[], by simp only [hread, if_true, List.map_nil, List.nil_append]⟩
  simp only [hread, if_false]
  by_cases hupgrade :
      toLower (getHeader (readHttpRequest c.stream).1 (ascii "Upgrade")) = ascii "websocket"
  · simp only [hupgrade, if_true]
    by_cases hok : (doWebsocketHandshake c.accepts (readHttpRequest c.stream).1).1 = false
    · refine .inl ⟨[(doWebsocketHandshake c.accepts (readHttpRequest c.stream).1).2], ?_⟩
      simp only [hok, if_true, hreset, List.map_cons, List.map_nil, List.singleton_append]
    · obtain ⟨hkey, hwire⟩ := doWebsocketHandshake_eq_true (length_readHttpRequest c.stream)
        (Bool.eq_true_of_not_eq_false hok)
      refine .inr ⟨[.use k (upgradeResponse (readHttpRequest c.stream).1)], ?_, hkey, rfl⟩
      simp only [hok, Bool.true_eq_false, if_false, hwire, upgradeResponse]
  simp only [hupgrade, if_false]
  -- the three that are left differ in what they send
  by_cases hversion : getRequestPath (readHttpRequest c.stream).1 = ascii "/json/version"
  · exact .inl ⟨[_], by simp only [hversion, if_true]; rfl⟩
  by_cases hjson : getRequestPath (readHttpRequest c.stream).1 = ascii "/json" ∨
      getRequestPath (readHttpRequest c.stream).1 = ascii "/json/list"
  · exact .inl ⟨[_], by simp only [hversion, hjson, if_true, if_false]; rfl⟩
  · exact .inl ⟨[_], by simp only [hversion, hjson, if_false]; rfl⟩

theorem held_uses (k : Nat) (sent : List Bytes) (log : List SocketEvent) :
    held [k] (sent.map (.use k) ++ log) = held [k] log := by
  induction sent with
  | nil => rfl
  | cons s sent ih =>
    rw [List.map_cons, List.cons_append, held, if_pos (List.mem_singleton_self k), ih]

/-! ## 3. The loop's sockets -/

/-- What the loop leaves behind, from socket `k` on. -/
structure Settled (k : Nat) (conns : List (Option Incoming)) (result : Option Bool) (a : Acceptor)
    (log : List SocketEvent) : Prop where
  /-- The log is an owner's, and the client is what is open. -/
  owned : held [] log = some a.clientSock.toList
  /-- Every socket has a number of its own. -/
  fresh : ∀ j, log.count (.acquire j) ≤ if k ≤ j then 1 else 0
  /-- The loop returned `true` for the last connection it accepted. -/
  upgraded : result = some true → a.connected = true ∧ ∃ j c before, a.clientSock = some (k + j) ∧
    conns[j]? = some (some c) ∧
    getHeader (readHttpRequest c.stream).1 (ascii "Sec-WebSocket-Key") ≠ [] ∧
    log = before ++ [.use (k + j) (upgradeResponse (readHttpRequest c.stream).1)]
  /-- Otherwise it has no client. -/
  idle : result ≠ some true → a.clientSock = none ∧ a.connected = false

/-- The loop has not accepted anything. -/
theorem Settled.start {a : Acceptor} (hsock : a.clientSock = none) (hconn : a.connected = false)
    (k : Nat) (conns : List (Option Incoming)) {result : Option Bool}
    (hresult : result ≠ some true) : Settled k conns result a [] := by
  refine ⟨?_, fun j => Nat.zero_le _, fun h => absurd h hresult, fun _ => ⟨hsock, hconn⟩⟩
  rw [hsock]
  rfl

/-- A connection that was closed again goes before whatever the loop comes to. -/
theorem Settled.closed {a : Acceptor} {k : Nat} {conns : List (Option Incoming)}
    {result : Option Bool} {log : List SocketEvent} (c : Incoming) (sent : List Bytes)
    (h : Settled (k + 1) conns result a log) :
    Settled k (some c :: conns) result a
      (.acquire k :: ((sent.map (.use k) ++ [.release k]) ++ log)) := by
  refine ⟨?_, fun j => ?_, fun htrue => ?_, h.idle⟩
  · rw [held, if_neg (List.not_mem_nil), List.append_assoc, held_uses, List.singleton_append, held,
      if_pos (List.mem_singleton_self k), List.erase_cons_head]
    exact h.owned
  · have hsent : (sent.map (HandleEvent.use k) ++ [.release k] : List SocketEvent).count
        (.acquire j) = 0 := by
      rw [List.count_eq_zero]
      intro hmem
      rcases List.mem_append.mp hmem with hmem | hmem
      · obtain ⟨s, -, heq⟩ := List.mem_map.mp hmem
        cases heq
      · cases List.mem_singleton.mp hmem
    have hrest := h.fresh j
    rw [count_acquire_cons, List.count_append, hsent]
    grind
  · obtain ⟨hconn, j, c', before, hsock, hget, hkey, hlog⟩ := h.upgraded htrue
    have hnumber : k + 1 + j = k + (j + 1) := by omega
    rw [hnumber] at hsock hlog
    exact ⟨hconn, j + 1, c', .acquire k :: ((sent.map (.use k) ++ [.release k]) ++ before), hsock,
      hget, hkey, by simp only [hlog, List.cons_append, List.append_assoc]⟩

/-- **The loop owns its sockets**, whatever comes in. -/
theorem acceptLoop_settled (a : Acceptor) (hsock : a.clientSock = none)
    (hconn : a.connected = false) (k : Nat) (conns : List (Option Incoming)) :
    Settled k conns (acceptLoop a k conns).1 (acceptLoop a k conns).2.1
      (acceptLoop a k conns).2.2 := by
  induction conns generalizing k with
  | nil => exact Settled.start hsock hconn k [] (by simp [acceptLoop])
  | cons head conns ih =>
    cases head with
    | none => exact Settled.start hsock hconn k _ (by simp [acceptLoop])
    | some c =>
      rcases serve_cases hsock k c with ⟨sent, hserve⟩ | ⟨log, hserve, hkey, rfl⟩
      · simp only [acceptLoop, hserve, Bool.false_eq_true, if_false]
        exact (ih (k + 1)).closed c sent
      · simp only [acceptLoop, hserve, if_true]
        refine ⟨?_, fun j => ?_, fun _ => ⟨rfl, 0, c, [.acquire k], rfl, rfl, hkey, rfl⟩,
          fun h => absurd rfl h⟩
        · simp only [held, List.not_mem_nil, if_false, List.mem_singleton, if_true,
            Option.toList_some]
        · rw [count_acquire_cons, List.count_cons_of_ne (by simp), List.count_nil]
          grind

/-- The balance of one socket: it is closed as often as it was accepted, unless it is the client. -/
theorem Settled.balance {a : Acceptor} {k : Nat} {conns : List (Option Incoming)}
    {result : Option Bool} {log : List SocketEvent} (h : Settled k conns result a log) (j : Nat) :
    log.count (.acquire j) =
      log.count (.release j) + if a.clientSock = some j then 1 else 0 := by
  have hcount := held_count h.owned j
  have hclient : a.clientSock.toList.count j = if a.clientSock = some j then 1 else 0 := by
    cases a.clientSock with
    | none => rfl
    | some k =>
      simp only [Option.toList_some, List.count_singleton, beq_iff_eq, Option.some.injEq]
  rwa [List.count_nil, Nat.add_zero, hclient] at hcount

/-- A socket that is accepted is accepted once. -/
theorem Settled.once {a : Acceptor} {k : Nat} {conns : List (Option Incoming)}
    {result : Option Bool} {log : List SocketEvent} (h : Settled k conns result a log) {j : Nat}
    (hmem : HandleEvent.acquire j ∈ log) : log.count (.acquire j) = 1 := by
  have hpos : 0 < log.count (.acquire j) := List.count_pos_iff.mpr hmem
  have hfresh := h.fresh j
  split at hfresh <;> omega

/-! ## 4. What `wait_for_connection` leaves open -/

/-- **The accept loop owns its sockets exactly.**  Every socket it accepted is closed once, or is
the client of a server that has just connected; it never sends on or closes any other.  It
connects only behind the whole 101 response to that connection's own key, and without a
connection it leaves nothing open. -/
theorem accept_loop_owns_sockets (a : Acceptor) (targetName targetUrl : Bytes)
    (conns : List (Option Incoming)) (hsock : a.clientSock = none)
    (hconn : a.connected = false) :
    let result := (waitForConnection a targetName targetUrl conns).1
    let a' := (waitForConnection a targetName targetUrl conns).2.1
    let log := (waitForConnection a targetName targetUrl conns).2.2
    held [] log = some a'.clientSock.toList ∧
      (∀ j, HandleEvent.acquire j ∈ log → log.count (.acquire j) = 1 ∧
        (log.count (.release j) = 1 ∧ a'.clientSock ≠ some j ∨
          log.count (.release j) = 0 ∧ a'.clientSock = some j ∧ result = some true)) ∧
      (∀ j, HandleEvent.acquire j ∉ log → HandleEvent.release j ∉ log) ∧
      (result = some true → a'.connected = true ∧ ∃ k c before, a'.clientSock = some k ∧
        conns[k]? = some (some c) ∧
        getHeader (readHttpRequest c.stream).1 (ascii "Sec-WebSocket-Key") ≠ [] ∧
        log = before ++ [.use k (upgradeResponse (readHttpRequest c.stream).1)]) ∧
      (result ≠ some true → a'.clientSock = none ∧ a'.connected = false ∧
        ∀ j, HandleEvent.acquire j ∈ log → log.count (.release j) = 1) := by
  intro result a' log
  have hloop : Settled 0 conns result a' log :=
    acceptLoop_settled { a with targetName := targetName, targetUrl := targetUrl } hsock hconn 0
      conns
  refine ⟨hloop.owned, fun j hmem => ⟨hloop.once hmem, ?_⟩, fun j hnot hmem => ?_,
    fun htrue => ?_, fun hfalse => ?_⟩
  · have hj := hloop.balance j
    rw [hloop.once hmem] at hj
    by_cases hsame : a'.clientSock = some j
    · rw [if_pos hsame] at hj
      refine .inr ⟨by omega, hsame, ?_⟩
      by_contra hresult
      rw [(hloop.idle hresult).1] at hsame
      exact absurd hsame (by simp)
    · rw [if_neg hsame] at hj
      exact .inl ⟨by omega, hsame⟩
  · have hpos : 0 < log.count (.release j) := List.count_pos_iff.mpr hmem
    have hj := hloop.balance j
    rw [List.count_eq_zero.mpr hnot] at hj
    omega
  · obtain ⟨hup, j, c, before, hk, hget, hkey, hlog⟩ := hloop.upgraded htrue
    rw [Nat.zero_add] at hk hlog
    exact ⟨hup, j, c, before, hk, hget, hkey, hlog⟩
  · obtain ⟨hnone, hdown⟩ := hloop.idle hfalse
    refine ⟨hnone, hdown, fun j hmem => ?_⟩
    have hj := hloop.balance j
    rw [hloop.once hmem, hnone] at hj
    exact hj.symm

/-- A server that has not been asked for anything. -/
def idleAcceptor : Acceptor where
  clientSock := none
  connected := false
  targetName := []
  targetUrl := []
  port := 9229

/-- A client that asks for the version. -/
def versionRequest : Bytes := ascii "GET /json/version \r\n\r\n"

/-- A client that asks for an upgrade. -/
def upgradeRequest : Bytes := ascii "GET / \r\nUpgrade: websocket\r\nSec-WebSocket-Key: k\r\n\r\n"

theorem readHttpRequest_versionRequest :
    readHttpRequest [versionRequest] = (versionRequest, []) := by
  have hbytes : versionRequest = [71, 69, 84, 32, 47, 106, 115, 111, 110, 47, 118, 101, 114, 115,
    105, 111, 110, 32, 13, 10, 13, 10] := by decide
  rw [hbytes]
  simp [readHttpRequest, readHttpRequestFrom, ByteStream.read, crlf]

/-- It asks for no upgrade. -/
theorem upgrade_versionRequest :
    toLower (getHeader versionRequest (ascii "Upgrade")) ≠ ascii "websocket" := by
  decide +kernel

theorem getRequestPath_versionRequest :
    getRequestPath versionRequest = ascii "/json/version" := by
  decide +kernel

theorem serve_versionRequest (a : Acceptor) (k : Nat) :
    serve a k { stream := [versionRequest], accepts := 1000 } =
      (false, a, [.use k (sendHttpResponse 1000 200 (ascii "OK") (ascii "application/json")
        versionBody), .release k]) := by
  have hne : versionRequest ≠ [] := by decide
  simp [serve, readHttpRequest_versionRequest, hne, upgrade_versionRequest,
    getRequestPath_versionRequest]

theorem serve_upgradeRequest (a : Acceptor) (k : Nat) :
    ∃ wire, serve a k { stream := [upgradeRequest], accepts := 1000 } =
      (true, { a with clientSock := some k, connected := true }, [.use k wire]) := by
  have hread : readHttpRequest [upgradeRequest] = (upgradeRequest, []) := by
    have hbytes : upgradeRequest = [71, 69, 84, 32, 47, 32, 13, 10, 85, 112, 103, 114, 97, 100, 101,
      58, 32, 119, 101, 98, 115, 111, 99, 107, 101, 116, 13, 10, 83, 101, 99, 45, 87, 101, 98, 83,
      111, 99, 107, 101, 116, 45, 75, 101, 121, 58, 32, 107, 13, 10, 13, 10] := by decide
    rw [hbytes]
    simp [readHttpRequest, readHttpRequestFrom, ByteStream.read, crlf]
  have hne : upgradeRequest ≠ [] := by decide
  have hupgrade : toLower (getHeader upgradeRequest (ascii "Upgrade")) = ascii "websocket" := by
    decide +kernel
  have hkey : getHeader upgradeRequest (ascii "Sec-WebSocket-Key") ≠ [] := by decide +kernel
  have hprotocol : getHeader upgradeRequest (ascii "Sec-WebSocket-Protocol") = [] := by
    decide +kernel
  have hok : (doWebsocketHandshake 1000 upgradeRequest).1 = true := by
    have hlen := length_handshakeResponse (getHeader upgradeRequest (ascii "Sec-WebSocket-Key")) []
    rw [List.length_nil] at hlen
    rw [doWebsocketHandshake, if_neg hkey, hprotocol, sendOnce, sizeArg_of_lt (by omega),
      min_eq_right (by omega)]
    exact beq_self_eq_true _
  refine ⟨(doWebsocketHandshake 1000 upgradeRequest).2, ?_⟩
  simp [serve, hread, hne, hupgrade, hok]

/-- One connection asks for the version and is closed again; the next one becomes the client. -/
def versionThenUpgrade : List (Option Incoming) :=
  [some { stream := [versionRequest], accepts := 1000 },
    some { stream := [upgradeRequest], accepts := 1000 }]

/-- The rule at these two. -/
theorem accept_loop_owns_sockets_upgraded :
    let result := (waitForConnection idleAcceptor [] [] versionThenUpgrade).1
    let a' := (waitForConnection idleAcceptor [] [] versionThenUpgrade).2.1
    let log := (waitForConnection idleAcceptor [] [] versionThenUpgrade).2.2
    result = some true ∧ a'.connected = true ∧ a'.clientSock = some 1 ∧
      held [] log = some [1] ∧ log.count (.release 0) = 1 ∧
      getHeader (readHttpRequest [upgradeRequest]).1 (ascii "Sec-WebSocket-Key") ≠ [] ∧
      ∃ before,
        log = before ++ [.use 1 (upgradeResponse (readHttpRequest [upgradeRequest]).1)] := by
  intro result a' log
  have hrun : ∃ wire₀ wire₁, waitForConnection idleAcceptor [] [] versionThenUpgrade =
      (some true, { idleAcceptor with clientSock := some 1, connected := true },
        [.acquire 0, .use 0 wire₀, .release 0, .acquire 1, .use 1 wire₁]) := by
    have hversion := serve_versionRequest idleAcceptor 0
    obtain ⟨wire₁, hupgrade⟩ := serve_upgradeRequest idleAcceptor 1
    have hsame : { idleAcceptor with targetName := [], targetUrl := [] } = idleAcceptor := rfl
    refine ⟨sendHttpResponse 1000 200 (ascii "OK") (ascii "application/json") versionBody, wire₁,
      ?_⟩
    simp [waitForConnection, hsame, versionThenUpgrade, acceptLoop, hversion, hupgrade]
  obtain ⟨wire₀, wire₁, hrun⟩ := hrun
  have hresult : result = some true := by simp only [result, hrun]
  have hclient : a'.clientSock = some 1 := by simp only [a', hrun]
  have hmem : HandleEvent.acquire 0 ∈ log := by simp [log, hrun]
  obtain ⟨howned, honce, -, hconnected, -⟩ :=
    accept_loop_owns_sockets idleAcceptor [] [] versionThenUpgrade rfl rfl
  have howned : held [] log = some a'.clientSock.toList := howned
  rw [hclient] at howned
  obtain ⟨hup, k, c, before, hsock, hget, hkey, hlog⟩ := hconnected hresult
  obtain rfl : 1 = k := Option.some.inj (hclient.symm.trans hsock)
  obtain rfl : { stream := [upgradeRequest], accepts := 1000 } = c :=
    Option.some.inj (Option.some.inj hget)
  refine ⟨hresult, hup, hclient, howned, ?_, hkey, before, hlog⟩
  rcases (honce 0 hmem).2 with ⟨hreleased, -⟩ | ⟨-, hsame, -⟩
  · exact hreleased
  · exact absurd (hclient.symm.trans hsame) (by decide)

end QjsDebug.Ws
