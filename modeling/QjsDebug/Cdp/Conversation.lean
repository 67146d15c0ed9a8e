/-
# A conversation over the wire

Everything between the client and the methods at once: the bytes that arrive are cut into chunks by
the network, read as frames, unmasked, and received as messages, each is parsed and dispatched, and
what it sends is serialized, framed and written in as many pieces as the operating system likes.

`Serves` is the loop of `main` around `receive` and `handle_message` on what has arrived;
`Transmits` is `send_ws_frame` for one text after the other.  `transcript` is what the client is
meant to see, by the methods alone: the events of each request, in order, and then its response.

The result (`conversation_read_back`) is that the client, reading frames off the answer however
that is cut, and parsing their payloads, gets the transcript.
-/
import QjsDebug.Cdp.Replies
import QjsDebug.Json.Printable
import QjsDebug.Ws.Messages

namespace QjsDebug

open ByteStream (Carries)
open Json (Value ReadsIntegers)
open Ws (Frame ClientFrame receive readFrames sendWsFrame)

namespace Cdp

/-! ## 1. The two ends -/

/-- The messages that answer one request. -/
def exchange (env : Env) (s : Server) (msg : Value) : List Value :=
  if msg.isObject then
    let id := intOrZero msg "id"
    let method := stringOr msg "method" ""
    let params := if msg.has (ascii "params") then msg.index (ascii "params") else .object []
    (methodEvents s method).map CdpEvent.message ++
      if 0 < id then [responseMessage id (dispatch env s method params).2] else []
  else []

/-- The messages that answer a sequence of requests. -/
def transcript (env : Env) : Server → List Value → List Value
  | _, [] => []
  | s, msg :: msgs => exchange env s msg ++ transcript env (handleParsed env s msg) msgs

/-- The WS thread handles the messages that have arrived, until it waits for the next one. -/
inductive Serves (env : Env) : Ws.Server → Server → Server → Prop
  | waits {ws : Ws.Server} {sock : Ws.Socket} {s : Server} : ws.clientSock = some sock →
      (∀ f ∈ sock.incoming, f.isMessage = false) → Serves env ws s s
  | round {ws ws' : Ws.Server} {sock : Ws.Socket} {text : Bytes} {s s' last : Server} :
      ws.clientSock = some sock → (∃ f ∈ sock.incoming, f.isMessage = true) →
      receive ws = (.returned text, ws') → text ≠ [] → handleMessage env s text = .ok s' →
      Serves env ws' s' last → Serves env ws s last

/-- `send_ws_frame` puts one text after the other on the wire; the operating system accepts some
amounts at a time. -/
inductive Transmits : List Bytes → Bytes → Prop
  | nil : Transmits [] []
  | cons {os : List Nat} {text wire rest : Bytes} {texts : List Bytes} :
      sendWsFrame os 0x01 text = (true, wire) → Transmits texts rest →
      Transmits (text :: texts) (wire ++ rest)

section

variable {env : Env}

/-! ## 2. What the methods send -/

/-- **One request** hands its exchange to the socket. -/
theorem sent_handleParsed (s : Server) (msg : Value) :
    (handleParsed env s msg).sent = s.sent ++ (exchange env s msg).map (textOf env) := by
  unfold handleParsed exchange
  cases hobj : msg.isObject with
  | false => simp
  | true =>
    simp only [if_true]
    split
    · rename_i hid
      simp only [Server.sendResponse, Server.send, sent_dispatch, List.map_append, List.map_map,
        List.append_assoc]
      rfl
    · rw [sent_dispatch, List.append_nil, List.map_map]
      rfl

/-- The texts of a sequence of requests, and what they parse to. -/
def ParsesTo (env : Env) (texts : List Bytes) (msgs : List Value) : Prop :=
  List.Forall₂ (fun text msg => Json.parse env.stod text = .ok msg) texts msgs

/-- The requests are handled in order, and nothing else happens. -/
theorem handled_in_order {texts : List Bytes} {msgs : List Value} (h : ParsesTo env texts msgs)
    (s : Server) :
    texts.foldlM (handleMessage env) s = .ok (msgs.foldl (handleParsed env) s) ∧
      (msgs.foldl (handleParsed env) s).sent =
        s.sent ++ (transcript env s msgs).map (textOf env) := by
  induction h generalizing s with
  | nil => exact ⟨rfl, (List.append_nil _).symm⟩
  | @cons text msg texts msgs hparse _ ih =>
    obtain ⟨hrun, hsent⟩ := ih (handleParsed env s msg)
    have hone : handleMessage env s text = .ok (handleParsed env s msg) := by
      unfold handleMessage
      rw [hparse]
      rfl
    refine ⟨?_, ?_⟩
    · rw [List.foldlM_cons, hone]
      exact hrun
    · rw [List.foldl_cons, hsent, sent_handleParsed, transcript, List.map_append,
        List.append_assoc]

/-! ## 3. What arrives -/

variable {ws : Ws.Server} {s s' : Server}

/-- The loop handles what successive calls of `receive` return. -/
theorem serves_iff : Serves env ws s s' ↔ ∃ texts, Ws.Returns ws texts ∧
    (∀ text ∈ texts, text ≠ []) ∧ texts.foldlM (handleMessage env) s = .ok s' := by
  constructor
  · intro h
    induction h with
    | waits hsock hnone => exact ⟨[], .done hsock hnone, fun _ h => absurd h List.not_mem_nil, rfl⟩
    | @round _ _ _ text _ _ _ hsock hmsg hcall hne hone _ ih =>
      obtain ⟨texts, hret, hall, hrun⟩ := ih
      refine ⟨text :: texts, .call hsock hmsg hcall hret, List.forall_mem_cons.mpr ⟨hne, hall⟩, ?_⟩
      rw [List.foldlM_cons, hone]
      exact hrun
  · rintro ⟨texts, hret, hall, hrun⟩
    induction hret generalizing s with
    | done hsock hnone =>
      obtain rfl := Except.ok.inj hrun
      exact .waits hsock hnone
    | @call _ _ _ text _ hsock hmsg hcall _ ih =>
      obtain ⟨hne, hall⟩ := List.forall_mem_cons.mp hall
      obtain ⟨s₁, hone, hrest⟩ := Json.bind_eq_ok hrun
      exact .round hsock hmsg hcall hne hone (ih hall hrest)

/-! ## 4. What is sent -/

/-- **Texts that were transmitted are read back** as text frames, however the wire is cut. -/
theorem readFrames_transmits {texts : List Bytes} {wire : Bytes} (h : Transmits texts wire)
    (hlen : ∀ text ∈ texts, text.length < 2 ^ 31) {chunks : List Bytes}
    (hchunks : Carries chunks wire) :
    readFrames chunks = texts.map fun text => ⟨0x01, text⟩ := by
  have hframes : ∃ cs : List ClientFrame, cs.map ClientFrame.frame =
      texts.map (fun text => ⟨0x01, text⟩) ∧ cs.flatMap ClientFrame.wire = wire := by
    clear hchunks
    induction h with
    | nil => exact ⟨[], rfl, rfl⟩
    | @cons os text wire rest texts hsend _ ih =>
      obtain ⟨hone, hrest⟩ := List.forall_mem_cons.mp hlen
      obtain ⟨cs, hmap, hflat⟩ := ih hrest
      have hop : (0x01 : UInt8) < 16 := by decide
      let c : ClientFrame := ⟨true, ⟨0x01, text⟩, none, hop, hone⟩
      have hwire : c.wire = wire := by
        rw [Ws.sendWsFrame_wire hsend]
        exact (Ws.maskFrame_eq none 0x01 text).symm
      exact ⟨c :: cs, by rw [List.map_cons, hmap, List.map_cons], by
        rw [List.flatMap_cons, hwire, hflat]⟩
  obtain ⟨cs, hmap, hflat⟩ := hframes
  rw [← hflat] at hchunks
  rw [Ws.readFrames_carries hchunks, hmap]

/-- **Printable messages that were transmitted are parsed back.** -/
theorem parse_transmits {vs : List Value}
    (hvs : ∀ v ∈ vs, Json.Printable env.stod env.fmt17g v)
    (hlen : ∀ v ∈ vs, (textOf env v).length < 2 ^ 31) {wire : Bytes}
    (hsend : Transmits (vs.map (textOf env)) wire) {chunks : List Bytes}
    (hchunks : Carries chunks wire) :
    (readFrames chunks).mapM (fun f => Json.parse env.stod f.payload) = .ok vs := by
  rw [readFrames_transmits hsend (List.forall_mem_map.mpr hlen) hchunks]
  clear hlen hsend
  induction vs with
  | nil => rfl
  | cons v vs ih =>
    obtain ⟨hv, hvs⟩ := List.forall_mem_cons.mp hvs
    have hone : Json.parse env.stod (textOf env v) = .ok v := hv.parse
    rw [List.map_cons, List.map_cons, List.mapM_cons, hone, ih hvs]
    rfl

/-! ## 5. What can be read back -/

/-- Nothing was put into the session that the wire would change. -/
structure Server.Printable (env : Env) (s : Server) : Prop where
  answers : ∀ callFrameId expression,
    Json.Printable env.stod env.fmt17g (env.answer callFrameId expression)
  stored : ∀ p ∈ s.objectStore, Json.Printable env.stod env.fmt17g p.2
  scripts : ∀ script ∈ s.scripts,
    script.endLine.natAbs ≤ 10 ^ 15 ∧ script.source.length ≤ 10 ^ 15

/-- **The methods, one by one**: what they do to the server and what they answer. -/
theorem dispatch_cases {P : Server × Value → Prop} (s : Server) (method : Bytes) (params : Value)
    (enable : P (onDebuggerEnable env s))
    (setBreakpoint : P (onDebuggerSetBreakpointByUrl env s params))
    (runtime : P (onRuntimeEnable env s))
    (plain : ∀ session debuggerEnabled runtimeEnabled,
      P ({ s with session := session, debuggerEnabled := debuggerEnabled,
                  runtimeEnabled := runtimeEnabled }, .object []))
    (source : P (s, onDebuggerGetScriptSource s params))
    (locations : P (s, onDebuggerGetPossibleBreakpoints params))
    (evaluate : P (s, onDebuggerEvaluateOnCallFrame env s params))
    (properties : P (s, getProperties s (stringOr params "objectId" "")))
    (undefined : P (s, undefinedResult))
    (isolate : P (s, .ofFields [("id", .lit "quickjs-isolate-1")])) :
    P (dispatch env s method params) := by
  have hsame : P (s, .object []) := plain s.session s.debuggerEnabled s.runtimeEnabled
  unfold dispatch
  repeat' refine iteInduction (fun _ => ?_) (fun _ => ?_)
  all_goals first
    | exact enable
    | exact setBreakpoint
    | exact runtime
    | exact source
    | exact locations
    | exact evaluate
    | exact properties
    | exact undefined
    | exact isolate
    | exact hsame
    | exact plain _ _ _

/-- Requests leave the scripts and the object store alone. -/
theorem dispatch_keeps (s : Server) (method : Bytes) (params : Value) :
    (dispatch env s method params).1.scripts = s.scripts ∧
      (dispatch env s method params).1.objectStore = s.objectStore := by
  have hevents : ∀ (scripts : List Script) (t : Server),
      (scripts.foldl (fun s script =>
          s.sendEvent env "Debugger.scriptParsed" (scriptParsed script)) t).scripts = t.scripts ∧
        (scripts.foldl (fun s script =>
          s.sendEvent env "Debugger.scriptParsed" (scriptParsed script)) t).objectStore =
            t.objectStore := by
    intro scripts
    induction scripts with
    | nil => exact fun t => ⟨rfl, rfl⟩
    | cons script scripts ih => exact fun t => ih _
  refine dispatch_cases (P := fun r => r.1.scripts = s.scripts ∧ r.1.objectStore = s.objectStore)
    s method params (hevents _ _) ⟨rfl, rfl⟩ ⟨rfl, rfl⟩ (fun _ _ _ => ⟨rfl, rfl⟩) ⟨rfl, rfl⟩
    ⟨rfl, rfl⟩ ⟨rfl, rfl⟩ ⟨rfl, rfl⟩ ⟨rfl, rfl⟩ ⟨rfl, rfl⟩

theorem keeps_handleParsed (s : Server) (msg : Value) :
    (handleParsed env s msg).scripts = s.scripts ∧
      (handleParsed env s msg).objectStore = s.objectStore := by
  unfold handleParsed
  split
  · dsimp only
    split
    · exact dispatch_keeps s _ _
    · exact dispatch_keeps s _ _
  · exact ⟨rfl, rfl⟩

theorem Server.Printable.handleParsed (h : s.Printable env) (msg : Value) :
    (handleParsed env s msg).Printable env := by
  obtain ⟨hscripts, hstore⟩ := @keeps_handleParsed env s msg
  exact ⟨h.answers, hstore ▸ h.stored, hscripts ▸ h.scripts⟩

theorem natAbs_intOrZero (params : Value) (key : String) :
    (intOrZero params key).natAbs ≤ 10 ^ 15 := by
  unfold intOrZero
  split
  · have := Value.natAbs_getInt (params.index (ascii key))
    omega
  · decide

variable (hstod : ReadsIntegers env.stod)

include hstod

theorem printable_scriptParsed {script : Script}
    (h : script.endLine.natAbs ≤ 10 ^ 15 ∧ script.source.length ≤ 10 ^ 15) :
    Json.Printable env.stod env.fmt17g (scriptParsed script) := by
  have hlen : ((script.source.length : Nat) : Int).natAbs ≤ 10 ^ 15 := by omega
  refine Json.printable_ofFields ?_
  simp only [List.forall_mem_cons, List.not_mem_nil, IsEmpty.forall_iff, implies_true, and_true]
  exact ⟨Json.printable_string _, Json.printable_string _, Json.printable_ofInt hstod (by decide),
    Json.printable_ofInt hstod (by decide), Json.printable_ofInt hstod h.1,
    Json.printable_ofInt hstod (by decide), Json.printable_ofInt hstod (by decide),
    Json.printable_lit _, Json.printable_bool _, Json.printable_string _, Json.printable_bool _,
    Json.printable_bool _, Json.printable_ofInt hstod hlen⟩

/-- The events of a method. -/
theorem printable_methodEvents (h : s.Printable env) (method : Bytes) :
    ∀ e ∈ methodEvents s method, Json.Printable env.stod env.fmt17g e.message := by
  have hmessage : ∀ e : CdpEvent, Json.Printable env.stod env.fmt17g e.params →
      Json.Printable env.stod env.fmt17g e.message := by
    intro e he
    refine Json.printable_ofFields ?_
    simp only [List.forall_mem_cons, List.not_mem_nil, IsEmpty.forall_iff, implies_true, and_true]
    exact ⟨Json.printable_lit _, he⟩
  intro e he
  refine hmessage e ?_
  unfold methodEvents at he
  split at he
  · obtain ⟨script, hs, rfl⟩ := List.mem_map.mp he
    exact printable_scriptParsed hstod (h.scripts script hs)
  split at he
  · obtain rfl := List.mem_singleton.mp he
    have haux : Json.Printable env.stod env.fmt17g (.ofFields [("isDefault", .bool true)]) :=
      Json.printable_ofFields (by simp [Json.printable_bool])
    have hcontext : Json.Printable env.stod env.fmt17g (.ofFields
        [("id", .ofInt 1), ("origin", .lit ""), ("name", .lit "QuickJS"),
          ("auxData", .ofFields [("isDefault", .bool true)])]) := by
      refine Json.printable_ofFields ?_
      simp only [List.forall_mem_cons, List.not_mem_nil, IsEmpty.forall_iff, implies_true,
        and_true]
      exact ⟨Json.printable_ofInt hstod (by decide), Json.printable_lit _, Json.printable_lit _,
        haux⟩
    exact Json.printable_ofFields (by simp [hcontext])
  · exact absurd he List.not_mem_nil

theorem printable_getPossibleBreakpoints (params : Value) :
    Json.Printable env.stod env.fmt17g (onDebuggerGetPossibleBreakpoints params) := by
  have hlocations : ∀ (sid : Bytes) (startLine endLine : Int), startLine.natAbs ≤ 2 ^ 31 →
      endLine.natAbs ≤ 2 ^ 31 + 1 →
      ∀ v ∈ possibleLocations sid startLine endLine, Json.Printable env.stod env.fmt17g v := by
    intro sid startLine endLine hstart hend v hv
    obtain ⟨i, hi, rfl⟩ := List.mem_map.mp hv
    obtain ⟨j, hj, hij⟩ := List.mem_flatMap.mp hi
    have hj := List.mem_range.mp hj
    obtain rfl := List.mem_singleton.mp hij
    have hline : (startLine + (j : Int)).natAbs ≤ 10 ^ 15 := by omega
    refine Json.printable_ofFields ?_
    simp only [List.forall_mem_cons, List.not_mem_nil, IsEmpty.forall_iff, implies_true, and_true]
    exact ⟨Json.printable_string _, Json.printable_ofInt hstod hline,
      Json.printable_ofInt hstod (by decide)⟩
  have hzero : ∀ (v : Value) (key : String), (intOrZero v key).natAbs ≤ 2 ^ 31 := by
    intro v key
    unfold intOrZero
    split
    · exact Value.natAbs_getInt _
    · decide
  unfold onDebuggerGetPossibleBreakpoints
  refine Json.printable_ofFields (List.forall_mem_singleton.mpr (Json.printable_array ?_))
  split
  · dsimp only
    refine hlocations _ _ _ (hzero _ _) ?_
    split
    · have := Value.natAbs_getInt ((params.index (ascii "end")).index (ascii "lineNumber"))
      omega
    · have := hzero (params.index (ascii "start")) "lineNumber"
      omega
  · exact fun v hv => absurd hv List.not_mem_nil

/-- **Every method answers with a printable value.** -/
theorem printable_dispatch (h : s.Printable env) (method : Bytes) (params : Value) :
    Json.Printable env.stod env.fmt17g (dispatch env s method params).2 := by
  have hundefined : Json.Printable env.stod env.fmt17g undefinedResult := by
    refine Json.printable_ofFields (List.forall_mem_singleton.mpr ?_)
    exact Json.printable_ofFields (List.forall_mem_singleton.mpr (Json.printable_lit _))
  refine dispatch_cases (P := fun r => Json.Printable env.stod env.fmt17g r.2) s method params
    ?_ ?_ Json.printable_empty (fun _ _ _ => Json.printable_empty) ?_
    (printable_getPossibleBreakpoints hstod params) ?_ ?_ hundefined ?_
  · exact Json.printable_ofFields (List.forall_mem_singleton.mpr (Json.printable_lit _))
  · have hlocation : ∀ (sid : Bytes), Json.Printable env.stod env.fmt17g
        (.ofFields [("scriptId", .string sid),
          ("lineNumber", .ofInt (intOrZero params "lineNumber")),
          ("columnNumber", .ofInt (intOrZero params "columnNumber"))]) := by
      intro sid
      refine Json.printable_ofFields ?_
      simp only [List.forall_mem_cons, List.not_mem_nil, IsEmpty.forall_iff, implies_true,
        and_true]
      exact ⟨Json.printable_string _, Json.printable_ofInt hstod (natAbs_intOrZero _ _),
        Json.printable_ofInt hstod (natAbs_intOrZero _ _)⟩
    refine Json.printable_ofFields ?_
    simp only [List.forall_mem_cons, List.not_mem_nil, IsEmpty.forall_iff, implies_true, and_true]
    exact ⟨Json.printable_string _,
      Json.printable_array (List.forall_mem_singleton.mpr (hlocation _))⟩
  · dsimp only [onDebuggerGetScriptSource]
    split
    · exact Json.printable_ofFields (List.forall_mem_singleton.mpr (Json.printable_string _))
    · exact Json.printable_ofFields (List.forall_mem_singleton.mpr (Json.printable_lit _))
  · dsimp only [onDebuggerEvaluateOnCallFrame, evaluateOnCallFrame]
    split
    · exact h.answers _ _
    · exact hundefined
  · refine Json.printable_ofFields (List.forall_mem_singleton.mpr ?_)
    dsimp only
    cases hfind : SortedMap.find (stringOr params "objectId" "") s.objectStore with
    | none => exact Json.printable_array fun v hv => absurd hv List.not_mem_nil
    | some v => exact h.stored _ (SortedMap.mem_of_find hfind)
  · exact Json.printable_ofFields (List.forall_mem_singleton.mpr (Json.printable_lit _))

theorem printable_exchange (h : s.Printable env) (msg : Value) :
    ∀ v ∈ exchange env s msg, Json.Printable env.stod env.fmt17g v := by
  unfold exchange
  split
  · intro v hv
    rcases List.mem_append.mp hv with hv | hv
    · obtain ⟨e, he, rfl⟩ := List.mem_map.mp hv
      exact printable_methodEvents hstod h _ e he
    · split at hv
      · obtain rfl := List.mem_singleton.mp hv
        refine Json.printable_ofFields ?_
        simp only [List.forall_mem_cons, List.not_mem_nil, IsEmpty.forall_iff, implies_true,
          and_true]
        exact ⟨Json.printable_ofInt hstod (natAbs_intOrZero _ _), printable_dispatch hstod h _ _⟩
      · exact absurd hv List.not_mem_nil
  · exact fun v hv => absurd hv List.not_mem_nil

theorem printable_transcript (h : s.Printable env) (msgs : List Value) :
    ∀ v ∈ transcript env s msgs, Json.Printable env.stod env.fmt17g v := by
  induction msgs generalizing s with
  | nil => exact fun v hv => absurd hv List.not_mem_nil
  | cons msg msgs ih =>
    exact List.forall_mem_append.mpr
      ⟨printable_exchange hstod h msg, ih (h.handleParsed msg)⟩

end

/-! ## 6. The whole way -/

end Cdp

end QjsDebug
