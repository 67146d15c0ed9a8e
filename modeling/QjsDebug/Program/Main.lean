/-
# The program, from its start to its exit

`main` of `main.cpp` together with the life of its `WebSocketServer`, as far as something is
acquired that has to be given back: the runtime and the context of the engine, the values and
strings that the engine hands out, the sockets, and the WS thread.

* What happens to them is a log (`Lib.Handles`).  A value that is given to `JS_SetPropertyStr`
  belongs to the engine again, so that this is its release, and `JS_FreeContext` needs the runtime.
* `main` itself waits for the first connection, in `acceptLoop` (`Ws.Accept`).  From then on it and
  the WS thread are the two threads of `Ws.Shutdown`, where `wait_for_connection` is told apart.
* A call of the server is one step, except for `wait_for_connection`.

Left out are the arguments and the reading of the script, before which nothing is acquired.
-/
import QjsDebug.Session.Paths
import QjsDebug.Ws.Accept
import QjsDebug.Ws.Shutdown

namespace QjsDebug.Program

open Handles Ws

/-! ## 1. Resources -/

/-- What `main` holds of the engine. -/
inductive EngineValue
  | global
  | console
  | function
  | result
  | exc
  | excText
  | stack
  | stackText
  deriving DecidableEq, Repr

inductive Resource
  | runtime
  | context
  | value (v : EngineValue)
  | socket (k : Nat)
  | thread
  deriving DecidableEq, Repr

abbrev Event := HandleEvent Resource Unit

/-! ## 2. What is done with the engine -/

/-- The functions of `console`, which are all `js_console_log`. -/
def consoleNames : List Bytes := ["log", "info", "warn", "error", "debug"].map ascii

/-- `setup_console`. -/
def setupConsole : List Event :=
  [.acquire (.value .global), .acquire (.value .console)] ++
    consoleNames.flatMap (fun _ =>
      [.acquire (.value .function), .use (.value .console) (), .release (.value .function)]) ++
    [.use (.value .global) (), .release (.value .console), .release (.value .global)]

/-- How the script ends, as far as `main` looks at it. -/
inductive ScriptEnd
  | value
  /-- The text of the exception, if it has one, and its property `stack`, if it is an object: the
  text of that, `none` when there is none, or `undefined`. -/
  | exception (text : Option Bytes) (stack : Option (Option (Option Bytes)))
  deriving DecidableEq, Repr

/-- A string that is printed and freed, if there is one. -/
def printText (v : EngineValue) (text : Option Bytes) : List Event :=
  text.toList.flatMap fun _ => [.acquire (.value v), .use (.value v) (), .release (.value v)]

/-- The stack trace. -/
def printStack : Option (Option (Option Bytes)) → List Event
  | none => []
  | some none => [.acquire (.value .stack), .release (.value .stack)]
  | some (some text) =>
    .acquire (.value .stack) :: (printText .stackText text ++ [.release (.value .stack)])

/-- `JS_Eval` of the script, and what is printed of it. -/
def evalScript : ScriptEnd → List Event
  | .value => [.use .context (), .acquire (.value .result), .release (.value .result)]
  | .exception text stack =>
    [.use .context (), .acquire (.value .result), .acquire (.value .exc)] ++
      printText .excText text ++ printStack stack ++
      [.release (.value .exc), .release (.value .result)]

/-- `JS_FreeContext(ctx); JS_FreeRuntime(rt)`. -/
def freeEngine : List Event := [.use .runtime (), .release .context, .release .runtime]

/-! ## 3. The states -/

/-- Where `main` is. -/
inductive MainAt
  /-- The script has been read. -/
  | begin
  | newContext
  /-- The console is set up and the script added. -/
  | start
  /-- In the first `wait_for_connection`. -/
  | accept
  /-- The WS thread is running, and the script with it. -/
  | script
  | cleanup
  /-- About to free the engine and to return. -/
  | freeing (code : Int)
  /-- The destructors. -/
  | returning (code : Int)
  | exited (code : Int)
  deriving DecidableEq, Repr

/-- `main`, the fields of its server, and the WS thread. -/
structure State where
  place : MainAt
  listenSock : Option Nat
  clientSock : Option Nat
  /-- `sock`, in the `wait_for_connection` of the WS thread. -/
  sock : Option Nat
  /-- The number of the next socket. -/
  nextSock : Nat
  port : Int
  threads : Shutdown
  log : List Event

def State.note (s : State) (events : List Event) : State := { s with log := s.log ++ events }

/-- `close_socket`, unless it is `INVALID_SOCK`. -/
def State.close (s : State) (sock : Option Nat) : State :=
  s.note (sock.toList.map fun k => .release (.socket k))

/-- `disconnect`. -/
def State.disconnect (s : State) : State := { s.close s.clientSock with clientSock := none }

/-- `stop`, which is the destructor of the server. -/
def State.stop (s : State) : State :=
  { s.disconnect.close s.listenSock with listenSock := none }

/-- What `start` fails at. -/
inductive StartFailure
  | init
  | socket
  | bind
  | listen
  deriving DecidableEq, Repr

/-- `socket()`. -/
def State.newSocket (s : State) : State :=
  { s.note [.acquire (.socket s.nextSock)] with
    listenSock := some s.nextSock, nextSock := s.nextSock + 1 }

/-- `start`: what it returns, and the server. -/
def State.start (s : State) (port : Int) : Option StartFailure → Bool × State
  | some .init => (false, s)
  | some .socket => (false, { s with listenSock := none })
  | some .bind | some .listen =>
    (false, { s.newSocket.close s.newSocket.listenSock with listenSock := none })
  | none => (true, { s.newSocket with port := port })

/-- The fields of the server that `wait_for_connection` works on. -/
def State.acceptor (s : State) : Acceptor where
  clientSock := s.clientSock
  connected := false
  targetName := []
  targetUrl := []
  port := s.port

/-- The first `wait_for_connection`, `none` as long as it does not return. -/
def State.waitForConnection (s : State) (scriptFile : Bytes) (conns : List (Option Incoming)) :
    Option Bool × State :=
  let acceptor := { s.acceptor with targetName := scriptFile, targetUrl := toFileUrl scriptFile }
  let (result, a, log) := acceptLoop acceptor s.nextSock conns
  (result, { s.note (log.map (HandleEvent.map .socket fun _ => ())) with
    clientSock := a.clientSock, nextSock := s.nextSock + conns.length })

/-- The frames that a call of `receive` sent. -/
def replies (ws ws' : Server) : List Logged :=
  (ws'.log.drop ws.log.length).filter fun l => l.op matches .sendFrame _ _

/-- What a step of the two threads does with the sockets. -/
def State.after (s : State) (t : Shutdown) : ShutdownAct → State
  | .connects =>
    { s.note [.acquire (.socket s.nextSock)] with
      threads := t, sock := some s.nextSock, nextSock := s.nextSock + 1 }
  | .closes => { s.close s.sock with threads := t, sock := none }
  | .upgrades => { s with threads := t, clientSock := s.sock }
  | .answers =>
    { s.note (s.clientSock.toList.map fun k => .use (.socket k) ()) with threads := t }
  | .rejects => { s.close s.sock with threads := t, sock := none, clientSock := none }
  | .returns => { s with threads := t, sock := none }
  | .receives =>
    { s.note ((replies s.threads.thread.ws t.thread.ws).flatMap fun _ =>
        s.clientSock.toList.map fun k => .use (.socket k) ()) with threads := t }
  -- only a probe is disconnected
  | .looks => if t.thread.loop = .accepting then { s.disconnect with threads := t }
    else { s with threads := t }
  | .disconnects => { s.disconnect with threads := t }
  | .joins => { s.note [.release .thread] with threads := t, place := .freeing 0 }
  | .arrives _ | .hangsUp | .tests | .waits | .wakes _ | .acceptFails | .stores =>
    { s with threads := t }

/-! ## 4. The steps -/

inductive Act
  /-- `JS_NewRuntime` and `JS_NewContext`, with or without success. -/
  | newRuntime (ok : Bool)
  | newContext (ok : Bool)
  | starts (failure : Option StartFailure)
  /-- These connections come in while `main` waits for the first. -/
  | waits (conns : List (Option Incoming))
  /-- The script has been evaluated. -/
  | evaluates (e : ScriptEnd)
  /-- Either thread sends a message. -/
  | sends
  | threads (a : ShutdownAct)
  | frees
  | destroys

/-- `main` cleans up behind the script. -/
def inOrder (place : MainAt) (a : ShutdownAct) : Bool :=
  match a with
  | .stores => place = .cleanup
  | _ => place = .script || place = .cleanup

variable (port : Int) (scriptFile : Bytes)

def State.step (s : State) : Act → Option State
  | .newRuntime ok =>
    if s.place = .begin then
      some (if ok then { s.note [.acquire .runtime] with place := .newContext }
        else { s with place := .exited 1 })
    else none
  | .newContext ok =>
    if s.place = .newContext then
      some (if ok then
          { s.note ([.use .runtime (), .acquire .context] ++ setupConsole) with place := .start }
        else { s.note [.use .runtime (), .release .runtime] with place := .exited 1 })
    else none
  | .starts failure =>
    if s.place = .start then
      let (ok, s) := s.start port failure
      some { s with place := if ok then .accept else .freeing 1 }
    else none
  | .waits conns =>
    if s.place = .accept then
      match s.waitForConnection scriptFile conns with
      | (some true, s) =>
        some { s.note [.acquire .thread] with place := .script, threads := Shutdown.start }
      | (some false, s) => some { s with place := .freeing 1 }
      | (none, s) => some s
    else none
  | .evaluates e =>
    if s.place = .script then some { s.note (evalScript e) with place := .cleanup } else none
  | .sends =>
    if (s.place = .script ∨ s.place = .cleanup) ∧ s.threads.thread.ws.connected = true then
      some (s.note (s.clientSock.toList.map fun k => .use (.socket k) ()))
    else none
  | .threads a =>
    if inOrder s.place a then (s.threads.step a).map fun t => s.after t a else none
  | .frees =>
    match s.place with
    | .freeing code => some { s.note freeEngine with place := .returning code }
    | _ => none
  | .destroys =>
    match s.place with
    | .returning code => some { s.stop with place := .exited code }
    | _ => none

/-- Before anything is acquired. -/
def State.begin : State where
  place := .begin
  listenSock := none
  clientSock := none
  sock := none
  nextSock := 0
  port := 0
  threads := Shutdown.start
  log := []

/-- `main(argc, argv)`, for the port and the script of the command line. -/
def program : StepSystem State Act where
  init s := s = State.begin
  step := State.step port scriptFile

end QjsDebug.Program
