/-
# The CDP handler

`CDPHandler`: one text message from the client in, the messages it answers with out.
`handleMessage` parses the message, reads `id`, `method` and `params` off it, runs the method
and, when the id is positive, sends the response.  A method that is not known answers with an
empty object.

`Server` holds what the methods touch: the session, its scripts and the object store, the two
domain flags, and the messages handed to the socket.  The engine's answer to an expression
evaluated during a pause is taken from outside (`Env.answer`).  An `int` is an integer here;
arithmetic that leaves its range is undefined in the source and not modelled.
-/
import QjsDebug.Json.Exceptions
import QjsDebug.Json.RoundTrip
import QjsDebug.Session.Breakpoints

namespace QjsDebug

open Json (Value)

namespace Cdp

/-! ## 1. State -/

/-- `ScriptInfo`. -/
structure Script where
  id : Bytes
  url : Bytes
  source : Bytes
  sourceMapUrl : Bytes
  endLine : Int

/-- What the handler takes from the C and C++ libraries and from the engine. -/
structure Env where
  host : Host
  /-- `std::stod`. -/
  stod : Bytes → Except Exn Json.Double
  /-- `snprintf("%.17g", ·)`. -/
  fmt17g : Json.Double → Bytes
  /-- What the JS thread answers to `evaluate_on_call_frame` during a pause. -/
  answer : Bytes → Bytes → Value

/-- The handler with the session and the socket it works on. -/
structure Server where
  session : Session
  scripts : List Script
  /-- `object_store_`. -/
  objectStore : List (Bytes × Value)
  debuggerEnabled : Bool
  runtimeEnabled : Bool
  /-- The texts handed to `ws_.send`, oldest first. -/
  sent : List Bytes

section

variable (env : Env)

/-! ## 2. Sending -/

/-- `ws_.send(msg.serialize())`. -/
def Server.send (s : Server) (msg : Value) : Server :=
  { s with sent := s.sent ++ [Json.serialize env.fmt17g msg] }

/-- `send_response`. -/
def Server.sendResponse (s : Server) (id : Int) (result : Value) : Server :=
  s.send env (.ofFields [("id", .ofInt id), ("result", result)])

/-- `send_event`. -/
def Server.sendEvent (s : Server) (method : String) (params : Value) : Server :=
  s.send env (.ofFields [("method", .lit method), ("params", params)])

/-! ## 3. The session's side of the methods -/

/-- `params.has(key) ? params[key].get_string() : otherwise`. -/
def stringOr (params : Value) (key otherwise : String) : Bytes :=
  if params.has (ascii key) then (params.index (ascii key)).getString else ascii otherwise

/-- `params.has(key) ? params[key].get_int() : 0`. -/
def intOrZero (params : Value) (key : String) : Int :=
  if params.has (ascii key) then (params.index (ascii key)).getInt else 0

/-- The search of `set_breakpoint_by_url` for the script of the resolved location. -/
def resolveScript (url : Bytes) (isRegex : Bool) : List Script → Bytes
  | [] => []
  | s :: rest =>
    if isRegex && regexHit env.host url (toFileUrl s.url) s.url then s.id
    else if pathsMatch env.host s.url url || contains (toLower s.url) (toLower url) ||
        contains (toLower url) (toLower s.url) then s.id
    else if pathsMatch env.host (baseName s.url) (baseName url) && baseName s.url != [] then s.id
    else resolveScript url isRegex rest

/-- `set_breakpoint_by_url`. -/
def setBreakpointByUrl (s : Server) (url : Bytes) (line column : Int) (isRegex : Bool)
    (condition : Bytes) : Server × Value :=
  let bpUrl := if isRegex then url else normalizeUrl url
  let scriptId := resolveScript env bpUrl isRegex s.scripts
  let location := Value.ofFields
    [("scriptId", .string (if scriptId = [] then ascii "0" else scriptId)),
      ("lineNumber", .ofInt line), ("columnNumber", .ofInt column)]
  let bpIdStr := decimal s.session.nextBpId ++ ascii ":" ++ decimal line ++ ascii ":0"
  ({ s with session := s.session.setBreakpoint url line column isRegex condition },
    .ofFields [("breakpointId", .string bpIdStr), ("locations", .array [location])])

/-- `remove_breakpoint`; an id that `std::stoi` rejects removes nothing. -/
def removeBreakpoint (s : Session) (bpIdStr : Bytes) : Session :=
  match stoi bpIdStr with
  | .ok id => s.removeBreakpoint id
  | .error _ => s

/-- The remote object for `undefined`, as a result. -/
def undefinedResult : Value := .ofFields [("result", .ofFields [("type", .lit "undefined")])]

/-- `get_properties`. -/
def getProperties (s : Server) (objectId : Bytes) : Value :=
  .ofFields [("result", (SortedMap.find objectId s.objectStore).getD (.array []))]

/-- `evaluate_on_call_frame`. -/
def evaluateOnCallFrame (s : Server) (callFrameId expression : Bytes) : Value :=
  if s.session.paused then env.answer callFrameId expression else undefinedResult

/-! ## 4. The methods -/

/-- The parameters of `Debugger.scriptParsed`. -/
def scriptParsed (script : Script) : Value :=
  .ofFields [("scriptId", .string script.id), ("url", .string (toFileUrl script.url)),
    ("startLine", .ofInt 0), ("startColumn", .ofInt 0), ("endLine", .ofInt script.endLine),
    ("endColumn", .ofInt 0), ("executionContextId", .ofInt 1), ("hash", .lit ""),
    ("isLiveEdit", .bool false), ("sourceMapURL", .string script.sourceMapUrl),
    ("hasSourceURL", .bool false), ("isModule", .bool false),
    ("length", .ofInt script.source.length)]

def onDebuggerEnable (s : Server) : Server × Value :=
  let s := { s with debuggerEnabled := true, session := s.session.setEnabled true }
  (s.scripts.foldl
      (fun s script => s.sendEvent env "Debugger.scriptParsed" (scriptParsed script)) s,
    .ofFields [("debuggerId", .lit "quickjs-debugger-1")])

def onDebuggerDisable (s : Server) : Server × Value :=
  ({ s with debuggerEnabled := false, session := s.session.setEnabled false }, .object [])

/-- The `file://` prefix of a plain URL is taken off, a drive letter kept. -/
def stripFileScheme (url : Bytes) : Bytes :=
  if ascii "file:///" <+: url then url.drop 8
  else if ascii "file://" <+: url then url.drop 7
  else url

def onDebuggerSetBreakpointByUrl (s : Server) (params : Value) : Server × Value :=
  let line := intOrZero params "lineNumber"
  let col := intOrZero params "columnNumber"
  let isRegex := !params.has (ascii "url") && params.has (ascii "urlRegex")
  let url :=
    if params.has (ascii "url") then stripFileScheme (params.index (ascii "url")).getString
    else if params.has (ascii "urlRegex") then (params.index (ascii "urlRegex")).getString
    else []
  setBreakpointByUrl env s url line col isRegex (stringOr params "condition" "")

def onDebuggerRemoveBreakpoint (s : Server) (params : Value) : Server × Value :=
  ({ s with session := removeBreakpoint s.session (stringOr params "breakpointId" "") },
    .object [])

def onDebuggerGetScriptSource (s : Server) (params : Value) : Value :=
  match s.scripts.find? fun script => script.id == stringOr params "scriptId" "" with
  | some script => .ofFields [("scriptSource", .string script.source)]
  | none => .ofFields [("scriptSource", .lit "")]

def onDebuggerSetBreakpointsActive (s : Server) (params : Value) : Server × Value :=
  let active :=
    if params.has (ascii "active") then (params.index (ascii "active")).getBool else true
  ({ s with session := s.session.setBreakpointsActive active }, .object [])

/-- The loop over the requested lines. -/
def possibleLocations (sid : Bytes) (startLine endLine : Int) : List Value :=
  (List.range (endLine - startLine + 1).toNat).map fun i =>
    .ofFields [("scriptId", .string sid), ("lineNumber", .ofInt (startLine + i)),
      ("columnNumber", .ofInt 0)]

def onDebuggerGetPossibleBreakpoints (params : Value) : Value :=
  let locations :=
    if params.has (ascii "start") then
      let start := params.index (ascii "start")
      let startLine := intOrZero start "lineNumber"
      let endLine :=
        if params.has (ascii "end") then
          ((params.index (ascii "end")).index (ascii "lineNumber")).getInt
        else startLine + 1
      possibleLocations (stringOr start "scriptId" "") startLine endLine
    else []
  .ofFields [("locations", .array locations)]

def onDebuggerEvaluateOnCallFrame (s : Server) (params : Value) : Value :=
  evaluateOnCallFrame env s (stringOr params "callFrameId" "0") (stringOr params "expression" "")

def onRuntimeEnable (s : Server) : Server × Value :=
  let context := Value.ofFields
    [("id", .ofInt 1), ("origin", .lit ""), ("name", .lit "QuickJS"),
      ("auxData", .ofFields [("isDefault", .bool true)])]
  (Server.sendEvent env { s with runtimeEnabled := true } "Runtime.executionContextCreated"
    (.ofFields [("context", context)]), .object [])

/-- The chain of comparisons of `handle_message`. -/
def dispatch (s : Server) (method : Bytes) (params : Value) : Server × Value :=
  if method = ascii "Debugger.enable" then onDebuggerEnable env s
  else if method = ascii "Debugger.disable" then onDebuggerDisable s
  else if method = ascii "Debugger.setBreakpointByUrl" then
    onDebuggerSetBreakpointByUrl env s params
  else if method = ascii "Debugger.removeBreakpoint" then onDebuggerRemoveBreakpoint s params
  else if method = ascii "Debugger.resume" then ({ s with session := s.session.resume }, .object [])
  else if method = ascii "Debugger.stepOver" then
    ({ s with session := s.session.stepOver }, .object [])
  else if method = ascii "Debugger.stepInto" then
    ({ s with session := s.session.stepInto }, .object [])
  else if method = ascii "Debugger.stepOut" then
    ({ s with session := s.session.stepOut }, .object [])
  else if method = ascii "Debugger.pause" then
    ({ s with session := s.session.requestPause }, .object [])
  else if method = ascii "Debugger.getScriptSource" then (s, onDebuggerGetScriptSource s params)
  else if method = ascii "Debugger.setBreakpointsActive" then
    onDebuggerSetBreakpointsActive s params
  else if method = ascii "Debugger.getPossibleBreakpoints" then
    (s, onDebuggerGetPossibleBreakpoints params)
  else if method = ascii "Debugger.evaluateOnCallFrame" then
    (s, onDebuggerEvaluateOnCallFrame env s params)
  else if method = ascii "Debugger.setPauseOnExceptions" then (s, .object [])
  else if method = ascii "Runtime.enable" then onRuntimeEnable env s
  else if method = ascii "Runtime.disable" then ({ s with runtimeEnabled := false }, .object [])
  else if method = ascii "Runtime.getProperties" then
    (s, getProperties s (stringOr params "objectId" ""))
  else if method = ascii "Runtime.runIfWaitingForDebugger" then
    ({ s with session := s.session.runIfWaiting }, .object [])
  else if method = ascii "Runtime.evaluate" then (s, undefinedResult)
  else if method = ascii "Runtime.callFunctionOn" then (s, undefinedResult)
  else if method = ascii "Runtime.releaseObjectGroup" then (s, .object [])
  else if method = ascii "Runtime.getIsolateId" then
    (s, .ofFields [("id", .lit "quickjs-isolate-1")])
  else if method = ascii "Profiler.enable" then (s, .object [])
  else if method = ascii "Profiler.disable" then (s, .object [])
  else (s, .object [])

/-- `handle_message` behind the parser. -/
def handleParsed (s : Server) (msg : Value) : Server :=
  if msg.isObject then
    let id := intOrZero msg "id"
    let method := stringOr msg "method" ""
    let params := if msg.has (ascii "params") then msg.index (ascii "params") else .object []
    let r := dispatch env s method params
    if 0 < id then r.1.sendResponse env id r.2 else r.1
  else s

/-- `CDPHandler::handle_message`. -/
def handleMessage (s : Server) (message : Bytes) : Except Json.Fault Server := do
  let msg ← Json.parse env.stod message
  return handleParsed env s msg

end

/-! ## 5. Exceptions -/

/-- **No other place throws.**  For every message: the parser returns a value iff every number
token and every `\u` escape it comes to can be converted, and `handle_message` returns
normally in every state iff the parser does. -/
theorem client_message_returns_iff (env : Env) (message : Bytes) :
    ((∃ v, Json.parse env.stod message = .ok v) ↔ Json.Convertible env.stod message) ∧
      ∀ s : Server, (∃ s', handleMessage env s message = .ok s') ↔
        Json.Convertible env.stod message := by
  have hparse := Json.parse_returns_iff env.stod message
  refine ⟨hparse, fun s => ?_⟩
  rw [← hparse]
  unfold handleMessage
  cases Json.parse env.stod message with
  | ok v => exact ⟨fun _ => ⟨v, rfl⟩, fun _ => ⟨_, rfl⟩⟩
  | error f =>
    constructor
    · rintro ⟨s', hs'⟩
      exact absurd hs' (by simp)
    · rintro ⟨v, hv⟩
      exact absurd hv (by simp)

/-- A POSIX build with integer conversions only. -/
def integerEnv : Env where
  host := posixHost
  stod := Json.stodInteger
  fmt17g := fun _ => []
  answer := fun _ _ => undefinedResult

/-- A server as constructed. -/
def Server.new : Server where
  session := Session.new
  scripts := []
  objectStore := []
  debuggerEnabled := false
  runtimeEnabled := false
  sent := []

/-- **One letter is enough.**  The message `x` starts like no value, so `parse_number` hands an
empty token to `std::stod`, which throws, and nothing on the thread catches it.  A `\u` escape
without digits is the other way. -/
theorem letter_raises_exception :
    Json.parse integerEnv.stod (ascii "x") = .error (.exn .invalidArgument) ∧
      handleMessage integerEnv Server.new (ascii "x") = .error (.exn .invalidArgument) ∧
      handleMessage integerEnv Server.new (ascii "\"\\uzzzz\"") =
        .error (.exn .invalidArgument) :=
  ⟨rfl, rfl, rfl⟩

end Cdp

end QjsDebug
