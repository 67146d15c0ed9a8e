/-
# Requests and their responses

The WS thread takes one message of the client after the other.  A method changes the session, sends
its events, and hands its result to `send_response`; `evaluate_on_call_frame` waits for the JS
thread in between.  Meanwhile the JS thread sends events of its own, between any two texts of the
WS thread, and moves the session along.

`dialogue` is the handler at that grain: every text is a step of its own.  What a method does to
the session is taken as one step, since nothing below depends on it.  §2 ties the grain to
`handle_message` as one function (`handleMessage_of_alone`); §4 is about every interleaving
(`responses_correspond_of_reach`).
-/
import QjsDebug.Lib.StepSystem
import QjsDebug.Objects.Capture

namespace QjsDebug

open Json (Value)
open Objects (JsEngine Inspect Inspected evaluationResult)

namespace Cdp

/-! ## 1. What a method sends and answers -/

/-- The arguments of `send_event`. -/
structure CdpEvent where
  method : String
  params : Value

/-- The message of `send_event`. -/
def CdpEvent.message (e : CdpEvent) : Value :=
  .ofFields [("method", .lit e.method), ("params", e.params)]

/-- The message of `send_response`. -/
def responseMessage (id : Int) (result : Value) : Value :=
  .ofFields [("id", .ofInt id), ("result", result)]

/-- The event of `on_runtime_enable`. -/
def executionContextCreated : CdpEvent where
  method := "Runtime.executionContextCreated"
  params := .ofFields [("context", .ofFields
    [("id", .ofInt 1), ("origin", .lit ""), ("name", .lit "QuickJS"),
      ("auxData", .ofFields [("isDefault", .bool true)])])]

/-- The events that a method sends: `Debugger.enable` announces the scripts there are, and
`Runtime.enable` the context. -/
def methodEvents (s : Server) (method : Bytes) : List CdpEvent :=
  if method = ascii "Debugger.enable" then
    s.scripts.map fun script => ⟨"Debugger.scriptParsed", scriptParsed script⟩
  else if method = ascii "Runtime.enable" then [executionContextCreated]
  else []

section

variable (env : Env)

/-- The text of a message. -/
def textOf (msg : Value) : Bytes := Json.serialize env.fmt17g msg

theorem sent_sendEvents (events : List CdpEvent) (s : Server) :
    (events.foldl (fun s e => s.sendEvent env e.method e.params) s).sent =
      s.sent ++ events.map fun e => textOf env e.message := by
  induction events generalizing s with
  | nil => exact (List.append_nil _).symm
  | cons e events ih =>
    rw [List.foldl_cons, ih, List.map_cons]
    exact List.append_assoc _ _ _

/-- One comparison of the chain of `handle_message`. -/
theorem sent_ite {c : Prop} [Decidable c] {a b : Server × Value} {t : List Bytes}
    (ha : c → a.1.sent = t) (hb : b.1.sent = t) : (if c then a else b).1.sent = t := by
  split
  · exact ha ‹_›
  · exact hb

theorem isObject_ite {c : Prop} [Decidable c] {a b : Server × Value}
    (ha : c → a.2.isObject = true) (hb : b.2.isObject = true) :
    (if c then a else b).2.isObject = true := by
  split
  · exact ha ‹_›
  · exact hb

/-- What a method hands to the socket is its events. -/
theorem sent_dispatch (s : Server) (method : Bytes) (params : Value) :
    (dispatch env s method params).1.sent =
      s.sent ++ (methodEvents s method).map fun e => textOf env e.message := by
  by_cases henable : method = ascii "Debugger.enable"
  · subst henable
    have h := sent_sendEvents env
      (s.scripts.map fun script => ⟨"Debugger.scriptParsed", scriptParsed script⟩)
      { s with debuggerEnabled := true, session := s.session.setEnabled true }
    rw [List.foldl_map] at h
    exact h
  by_cases hruntime : method = ascii "Runtime.enable"
  · subst hruntime
    rfl
  · have hnone : methodEvents s method = [] := by
      simp only [methodEvents, henable, hruntime, if_false]
    rw [hnone, List.map_nil, List.append_nil]
    unfold dispatch
    -- the comparisons up to the two methods that send, in the order of the source
    refine sent_ite (fun h => absurd h henable) ?_
    refine sent_ite (fun _ => rfl) (sent_ite (fun _ => rfl) (sent_ite (fun _ => rfl) ?_))
    refine sent_ite (fun _ => rfl) (sent_ite (fun _ => rfl) (sent_ite (fun _ => rfl) ?_))
    refine sent_ite (fun _ => rfl) (sent_ite (fun _ => rfl) (sent_ite (fun _ => rfl) ?_))
    refine sent_ite (fun _ => rfl) (sent_ite (fun _ => rfl) (sent_ite (fun _ => rfl) ?_))
    refine sent_ite (fun _ => rfl) (sent_ite (fun h => absurd h hruntime) ?_)
    repeat' apply sent_ite
    all_goals first
      | exact fun _ => rfl
      | rfl

/-- **Every method answers with an object**, the evaluation in a pause apart, which is answered by
the JS thread. -/
theorem isObject_dispatch (s : Server) (method : Bytes) (params : Value)
    (heval : method = ascii "Debugger.evaluateOnCallFrame" → s.session.paused = false) :
    (dispatch env s method params).2.isObject = true := by
  have hsource : (onDebuggerGetScriptSource s params).isObject = true := by
    unfold onDebuggerGetScriptSource
    split <;> exact Value.isObject_ofFields _
  have hevaluate : method = ascii "Debugger.evaluateOnCallFrame" →
      (onDebuggerEvaluateOnCallFrame env s params).isObject = true := by
    intro hm
    simp only [onDebuggerEvaluateOnCallFrame, evaluateOnCallFrame, heval hm, Bool.false_eq_true,
      if_false]
    exact Value.isObject_ofFields _
  unfold dispatch
  refine isObject_ite (fun _ => Value.isObject_ofFields _) (isObject_ite (fun _ => rfl) ?_)
  refine isObject_ite (fun _ => Value.isObject_ofFields _) (isObject_ite (fun _ => rfl) ?_)
  refine isObject_ite (fun _ => rfl) (isObject_ite (fun _ => rfl) (isObject_ite (fun _ => rfl) ?_))
  refine isObject_ite (fun _ => rfl) (isObject_ite (fun _ => rfl) ?_)
  refine isObject_ite (fun _ => hsource) (isObject_ite (fun _ => rfl) ?_)
  refine isObject_ite (fun _ => Value.isObject_ofFields _) (isObject_ite hevaluate ?_)
  repeat' apply isObject_ite
  all_goals first
    | exact fun _ => Value.isObject_ofFields _
    | exact fun _ => rfl
    | rfl

end

/-- Whatever a program does first, its result is that of its last part. -/
theorem result_bind {σ β γ : Type} {P : γ → Prop} {m : Inspect σ β} {f : β → Inspect σ γ}
    (h : ∀ b s, P ((f b).run s).1) (s : Inspected σ) : P ((m >>= f).run s).1 :=
  h _ _

/-- The JS thread answers an evaluation with an object. -/
theorem isObject_evaluationResult {σ α : Type} (engine : JsEngine σ α)
    (callFrameId expression : Bytes) (s : Inspected σ) :
    ((evaluationResult engine callFrameId expression).run s).1.isObject = true := by
  refine result_bind (P := fun v : Value => v.isObject = true) (fun vars s => ?_) s
  cases (vars.getD []).find? fun v => v.1 == some expression with
  | some v => exact result_bind (P := fun v : Value => v.isObject = true) (fun _ _ => rfl) s
  | none =>
    refine result_bind (P := fun v : Value => v.isObject = true) (fun answer s => ?_) s
    cases answer with
    | ok val => exact result_bind (P := fun v : Value => v.isObject = true) (fun _ _ => rfl) s
    | error text => rfl

/-! ## 2. The handler, one text at a time -/

/-- What the WS thread has in hand. -/
inductive InHand
  | idle
  /-- In `evaluate_on_call_frame`, waiting for the JS thread. -/
  | evaluating (id : Int) (callFrameId expression : Bytes)
  /-- The events that the method has still to send, and the result of `handle_message`. -/
  | answering (id : Int) (events : List CdpEvent) (result : Value)

/-- A message handed to `ws_.send`. -/
structure Outgoing where
  /-- The number of the client's message whose handling sent it; `none` for the JS thread. -/
  handling : Option Nat
  msg : Value

structure Dialogue where
  server : Server
  /-- The client's messages so far, with the one in hand. -/
  received : List Value
  inHand : InHand
  /-- What has been handed to `ws_.send`, oldest first. -/
  wire : List Outgoing

inductive DialogueAct (σ : Type)
  /-- The WS thread: a message is parsed and its method runs; the method sends its next event; the
  response is sent, if the message has a positive id. -/
  | receives (text : Bytes)
  | sendsEvent
  | replies
  /-- The JS thread: it answers an evaluation, sends an event, moves the session along. -/
  | jsAnswers (inspected : Inspected σ)
  | jsSends (event : CdpEvent)
  | jsMoves (session : Session) (scripts : List Script) (objectStore : List (Bytes × Value))

section

variable {σ α : Type} (env : Env) (engine : JsEngine σ α)

/-- `ws_.send`. -/
def Dialogue.put (d : Dialogue) (handling : Option Nat) (msg : Value) : Dialogue :=
  { d with server := d.server.send env msg, wire := d.wire ++ [⟨handling, msg⟩] }

/-- The methods of `handle_message`: an evaluation in a pause waits, any other method runs. -/
def Dialogue.enter (d : Dialogue) (id : Int) (method : Bytes) (params : Value) : Dialogue :=
  if method = ascii "Debugger.evaluateOnCallFrame" ∧ d.server.session.paused = true then
    { d with inHand := .evaluating id (stringOr params "callFrameId" "0")
                      (stringOr params "expression" "") }
  else
    let r := dispatch env d.server method params
    -- the events of the method are sent one by one
    { d with server := { r.1 with sent := d.server.sent },
             inHand := .answering id (methodEvents d.server method) r.2 }

/-- `handle_message` behind the parser, as far as the methods. -/
def Dialogue.receive (d : Dialogue) (msg : Value) : Dialogue :=
  let d := { d with received := d.received ++ [msg] }
  if msg.isObject then d.enter env (intOrZero msg "id") (methodOf msg) (paramsOf msg) else d

/-- `if (id > 0) send_response(id, result)`, and the return of `handle_message`. -/
def Dialogue.reply (d : Dialogue) (id : Int) (result : Value) : Dialogue :=
  if 0 < id then
    { d.put env (some d.received.length) (responseMessage id result) with inHand := .idle }
  else { d with inHand := .idle }

def Dialogue.step (d : Dialogue) : DialogueAct σ → Option Dialogue
  | .receives text =>
    match d.inHand, Json.parse env.stod text with
    | .idle, .ok msg => some (d.receive env msg)
    | _, _ => none
  | .sendsEvent =>
    match d.inHand with
    | .answering id (e :: events) result =>
      some
        { d.put env (some d.received.length) e.message with inHand := .answering id events result }
    | _ => none
  | .replies =>
    match d.inHand with
    | .answering id [] result => some (d.reply env id result)
    | _ => none
  | .jsAnswers inspected =>
    match d.inHand with
    | .evaluating id callFrameId expression =>
      let answer := (evaluationResult engine callFrameId expression).run inspected
      some { d with inHand := .answering id [] answer.1 }
    | _ => none
  | .jsSends e => some (d.put env none e.message)
  | .jsMoves session scripts objectStore =>
    some { d with server := { d.server with session := session, scripts := scripts,
                                            objectStore := objectStore } }

/-- The two threads, from a connection on which nothing has been sent. -/
def dialogue : StepSystem Dialogue (DialogueAct σ) where
  init d := d.server.sent = [] ∧ d.received = [] ∧ d.wire = [] ∧ d.inHand = .idle
  step := Dialogue.step env engine

/-- Whether an action is one of the WS thread, or an answer it waits for. -/
def DialogueAct.alone : DialogueAct σ → Bool
  | .receives _ | .sendsEvent | .replies | .jsAnswers _ => true
  | _ => false

variable {env engine}

/-- The rest of `handle_message` once the method has run: its events, one by one, and the
response. -/
theorem can_answer (events : List CdpEvent) {id : Int} {result : Value} {d : Dialogue}
    {s : Server} (hhand : d.inHand = .answering id events result)
    (hs : s = { d.server with
      sent := d.server.sent ++ events.map fun e => textOf env e.message }) :
    (dialogue env engine).Can DialogueAct.alone
      (fun d' => d'.server = (if 0 < id then s.sendResponse env id result else s) ∧
        d'.inHand = .idle) d := by
  induction events generalizing d with
  | nil =>
    rw [List.map_nil, List.append_nil] at hs
    subst hs
    have hstep : (dialogue env engine).step d .replies = some (d.reply env id result) := by
      simp only [dialogue, Dialogue.step, hhand]
    refine .step rfl hstep (.here ?_)
    unfold Dialogue.reply
    split
    · exact ⟨rfl, rfl⟩
    · exact ⟨rfl, rfl⟩
  | cons e events ih =>
    have hstep : (dialogue env engine).step d .sendsEvent =
        some { d.put env (some d.received.length) e.message with
          inHand := .answering id events result } := by
      simp only [dialogue, Dialogue.step, hhand]
    refine .step rfl hstep (ih rfl ?_)
    rw [hs]
    simp [Dialogue.put, Server.send, textOf, List.append_assoc]

/-- A paused session hands the expression to the JS thread. -/
theorem dispatch_evaluate {s : Server} {method : Bytes} (params : Value)
    (hm : method = ascii "Debugger.evaluateOnCallFrame") (hpaused : s.session.paused = true) :
    dispatch env s method params =
      (s, env.answer (stringOr params "callFrameId" "0") (stringOr params "expression" "")) := by
  subst hm
  have h : dispatch env s (ascii "Debugger.evaluateOnCallFrame") params =
      (s, onDebuggerEvaluateOnCallFrame env s params) := rfl
  rw [h, onDebuggerEvaluateOnCallFrame, evaluateOnCallFrame, if_pos hpaused]

theorem can_enter {d : Dialogue} {id : Int} {method : Bytes} {params : Value}
    (hanswer : ∀ callFrameId expression, ∃ inspected,
      env.answer callFrameId expression =
        ((evaluationResult engine callFrameId expression).run inspected).1) :
    (dialogue env engine).Can DialogueAct.alone
      (fun d' => d'.server = (if 0 < id
          then (dispatch env d.server method params).1.sendResponse env id
            (dispatch env d.server method params).2
          else (dispatch env d.server method params).1) ∧ d'.inHand = .idle)
      (d.enter env id method params) := by
  by_cases hwait : method = ascii "Debugger.evaluateOnCallFrame" ∧ d.server.session.paused = true
  · obtain ⟨inspected, hval⟩ :=
      hanswer (stringOr params "callFrameId" "0") (stringOr params "expression" "")
    rw [dispatch_evaluate params hwait.1 hwait.2, hval, Dialogue.enter, if_pos hwait]
    refine .step (a := .jsAnswers inspected) rfl rfl (can_answer [] rfl ?_)
    simp
  · rw [Dialogue.enter, if_neg hwait]
    have hserver : { (dispatch env d.server method params).1 with
        sent := d.server.sent ++
          (methodEvents d.server method).map fun e => textOf env e.message } =
        (dispatch env d.server method params).1 := by
      rw [← sent_dispatch env d.server method params]
    exact can_answer _ rfl hserver.symm

/-- **The grain is that of `handle_message`.**  With no other text in between, the steps of the WS
thread come to what `handle_message` does as one function, an evaluation being answered as the
environment says. -/
theorem handleMessage_of_alone {d : Dialogue} {text : Bytes} {s' : Server}
    (hhand : d.inHand = .idle) (hmsg : handleMessage env d.server text = .ok s')
    (hanswer : ∀ callFrameId expression, ∃ inspected,
      env.answer callFrameId expression =
        ((evaluationResult engine callFrameId expression).run inspected).1) :
    (dialogue env engine).Can DialogueAct.alone
      (fun d' => d'.server = s' ∧ d'.inHand = .idle) d := by
  unfold handleMessage at hmsg
  cases hparse : Json.parse env.stod text with
  | error f =>
    rw [hparse] at hmsg
    cases hmsg
  | ok msg =>
    rw [hparse] at hmsg
    obtain rfl : handleParsed env d.server msg = s' := Except.ok.inj hmsg
    have hstep : (dialogue env engine).step d (.receives text) = some (d.receive env msg) := by
      simp only [dialogue, Dialogue.step, hhand, hparse]
    refine .step rfl hstep ?_
    unfold Dialogue.receive handleParsed
    by_cases hobj : msg.isObject = true
    · rw [if_pos hobj, if_pos hobj]
      exact can_enter (d := { d with received := d.received ++ [msg] }) hanswer
    · rw [if_neg hobj, if_neg hobj]
      exact .here ⟨rfl, hhand⟩

end

/-! ## 3. Correspondence -/

/-- A message that carries an id. -/
def Outgoing.isResponse (o : Outgoing) : Bool := o.msg.has (ascii "id")

/-- The positive id of a message, if it has one. -/
def requestId (msg : Value) : Option Int :=
  match msg.index (ascii "id") with
  | .number (.finite q) => if q.den = 1 ∧ 0 < q.num then some q.num else none
  | _ => none

/-- The id of a message, when it is a number, is one that an `int` can hold. -/
def idFits (msg : Value) : Bool :=
  match msg.index (ascii "id") with
  | .number (.finite q) => decide (q.den = 1 ∧ -2 ^ 31 ≤ q.num ∧ q.num < 2 ^ 31)
  | .number _ => false
  | _ => true

/-- The requests among the messages of the client: the number of the message, and its id. -/
def requests (msgs : List Value) : List (Nat × Int) :=
  (msgs.zipIdx 1).filterMap fun p => (requestId p.1).map fun id => (p.2, id)

/-- What was sent while `handled` was handled. -/
structure Corresponds (handled : List Value) (wire : List Outgoing) : Prop where
  /-- The messages with an id are one per request, in the order of the requests, each with the
  id of its request and sent by its handling. -/
  responses : (wire.filter Outgoing.isResponse).map
      (fun o => (o.handling, o.msg.index (ascii "id"))) =
    (requests handled).map fun r => (some r.1, Value.ofInt r.2)
  results : ∀ o ∈ wire, o.isResponse = true → (o.msg.index (ascii "result")).isObject = true
  events : ∀ o ∈ wire, o.isResponse = false →
    o.msg.has (ascii "method") = true ∧ o.msg.has (ascii "params") = true
  /-- Behind a response, its handling sends nothing. -/
  order : wire.Pairwise fun o o' => o.isResponse = true → o'.handling ≠ o.handling

/-- The messages of the client that have been handled to the end. -/
def Dialogue.handled (d : Dialogue) : List Value :=
  match d.inHand with
  | .idle => d.received
  | _ => d.received.dropLast

/-! ### The two kinds of message -/

theorem responseMessage_eq (id : Int) (result : Value) :
    responseMessage id result =
      ((Value.object []).set (ascii "id") (.ofInt id)).set (ascii "result") result := rfl

theorem message_eq (e : CdpEvent) :
    e.message =
      ((Value.object []).set (ascii "method") (.lit e.method)).set (ascii "params") e.params := rfl

theorem isResponse_response (k : Option Nat) (id : Int) (result : Value) :
    Outgoing.isResponse ⟨k, responseMessage id result⟩ = true := by
  unfold Outgoing.isResponse
  rw [responseMessage_eq, Value.has_set_of_ne _ _ (by decide), Value.has_set_self]

theorem isResponse_event (k : Option Nat) (e : CdpEvent) :
    Outgoing.isResponse ⟨k, e.message⟩ = false := by
  unfold Outgoing.isResponse
  rw [message_eq, Value.has_set_of_ne _ _ (by decide), Value.has_set_of_ne _ _ (by decide)]
  rfl

theorem index_id_response (id : Int) (result : Value) :
    (responseMessage id result).index (ascii "id") = .ofInt id := by
  rw [responseMessage_eq, Value.index_set_of_ne _ _ (by decide), Value.index_set_self]

theorem index_result_response (id : Int) (result : Value) :
    (responseMessage id result).index (ascii "result") = result := by
  rw [responseMessage_eq, Value.index_set_self]

theorem has_event (e : CdpEvent) :
    e.message.has (ascii "method") = true ∧ e.message.has (ascii "params") = true := by
  rw [message_eq]
  constructor
  · rw [Value.has_set_of_ne _ _ (by decide), Value.has_set_self]
  · exact Value.has_set_self _ _ _

/-! ### Requests -/

theorem requests_append (msgs : List Value) (msg : Value) :
    requests (msgs ++ [msg]) =
      requests msgs ++ ((requestId msg).map fun id => (msgs.length + 1, id)).toList := by
  unfold requests
  rw [List.zipIdx_append, List.filterMap_append]
  congr 1
  cases h : requestId msg <;> simp [h, Nat.add_comm]

/-- A member that is not there reads as 0. -/
theorem intOrZero_eq (v : Value) (key : String) :
    intOrZero v key = (v.index (ascii key)).getInt := by
  unfold intOrZero
  split
  · rfl
  · rename_i hnot
    have hnull : v.index (ascii key) = .null := by
      cases v with
      | object kvs =>
        have hfind : SortedMap.find (ascii key) kvs = none := by simpa [Value.has] using hnot
        simp [Value.index, hfind]
      | _ => rfl
    rw [hnull]
    rfl

/-- What `handle_message` reads off the message is its request id. -/
theorem requestId_eq {msg : Value} (hfits : idFits msg = true) :
    requestId msg = if 0 < intOrZero msg "id" then some (intOrZero msg "id") else none := by
  rw [intOrZero_eq]
  unfold idFits at hfits
  unfold requestId
  split at hfits
  · rename_i q hq
    simp only [decide_eq_true_eq] at hfits
    obtain ⟨hden, hlo, hhi⟩ := hfits
    have hint : (Value.number (.finite q)).getInt = q.num := by
      have hofInt : Value.ofInt q.num = .number (.finite q) := by
        rw [Value.ofInt, Rat.coe_int_num_of_den_eq_one hden]
      rw [← hofInt]
      exact Value.getInt_ofInt hlo hhi
    rw [hq, hint]
    simp [hden]
  · cases hfits
  · rename_i hfinite hnumber
    cases hv : msg.index (ascii "id") with
    | number d => exact absurd hv (hnumber d)
    | _ => rfl

/-! ## 4. Every interleaving -/

theorem corresponds_nil : Corresponds [] [] where
  responses := rfl
  results := by simp
  events := by simp
  order := List.Pairwise.nil

/-- A response was sent by the handling of a message that has been handled. -/
theorem Corresponds.handling_of_response {handled : List Value} {wire : List Outgoing}
    (h : Corresponds handled wire) {o : Outgoing} (ho : o ∈ wire) (hresp : o.isResponse = true) :
    ∃ k, o.handling = some k ∧ k ≤ handled.length := by
  have hmem : (o.handling, o.msg.index (ascii "id")) ∈
      (requests handled).map fun r => (some r.1, Value.ofInt r.2) := by
    rw [← h.responses]
    exact List.mem_map_of_mem (List.mem_filter.mpr ⟨ho, hresp⟩)
  obtain ⟨r, hr, heq⟩ := List.mem_map.mp hmem
  obtain ⟨p, hp, hid⟩ := List.mem_filterMap.mp hr
  obtain ⟨id, -, rfl⟩ := Option.map_eq_some_iff.mp hid
  have hlt := List.snd_lt_of_mem_zipIdx hp
  exact ⟨p.2, (Prod.mk.inj heq).1.symm, by omega⟩

/-- An event of the JS thread, or of a message that is being handled. -/
theorem Corresponds.event {handled : List Value} {wire : List Outgoing}
    (h : Corresponds handled wire) (handling : Option Nat) (e : CdpEvent)
    (hnew : ∀ k, handling = some k → handled.length < k) :
    Corresponds handled (wire ++ [⟨handling, e.message⟩]) where
  responses := by
    rw [List.filter_append, List.filter_cons_of_neg (by simp [isResponse_event]), List.filter_nil,
      List.append_nil]
    exact h.responses
  results := by
    intro o ho hresp
    rcases List.mem_append.mp ho with ho | ho
    · exact h.results o ho hresp
    · rw [List.mem_singleton.mp ho, isResponse_event] at hresp
      cases hresp
  events := by
    intro o ho hresp
    rcases List.mem_append.mp ho with ho | ho
    · exact h.events o ho hresp
    · rw [List.mem_singleton.mp ho]
      exact has_event e
  order := by
    refine List.pairwise_append.mpr ⟨h.order, List.pairwise_singleton _ _, ?_⟩
    intro o ho o' ho' hresp heq
    obtain ⟨k, hk, hle⟩ := h.handling_of_response ho hresp
    rw [List.mem_singleton.mp ho', hk] at heq
    exact absurd (hnew k heq) (by omega)

/-- A message without a positive id is handled to the end. -/
theorem Corresponds.unanswered {handled : List Value} {wire : List Outgoing}
    (h : Corresponds handled wire) {msg : Value} (hid : requestId msg = none) :
    Corresponds (handled ++ [msg]) wire where
  responses := by
    rw [requests_append, hid, Option.map_none, Option.toList_none, List.append_nil]
    exact h.responses
  results := h.results
  events := h.events
  order := h.order

/-- The response to a message with a positive id. -/
theorem Corresponds.response {handled : List Value} {wire : List Outgoing}
    (h : Corresponds handled wire) {msg : Value} {id : Int} {result : Value}
    (hid : requestId msg = some id) (hobj : result.isObject = true) :
    Corresponds (handled ++ [msg])
      (wire ++ [⟨some (handled.length + 1), responseMessage id result⟩]) where
  responses := by
    rw [List.filter_append, List.filter_cons_of_pos (isResponse_response _ _ _), List.filter_nil,
      List.map_append, h.responses, requests_append, hid, List.map_append]
    simp only [List.map_cons, List.map_nil, index_id_response, Option.map_some, Option.toList_some]
  results := by
    intro o ho hresp
    rcases List.mem_append.mp ho with ho | ho
    · exact h.results o ho hresp
    · rw [List.mem_singleton.mp ho, index_result_response]
      exact hobj
  events := by
    intro o ho hresp
    rcases List.mem_append.mp ho with ho | ho
    · exact h.events o ho hresp
    · rw [List.mem_singleton.mp ho, isResponse_response] at hresp
      cases hresp
  order := by
    refine List.pairwise_append.mpr ⟨h.order, List.pairwise_singleton _ _, ?_⟩
    intro o ho o' ho' hresp heq
    obtain ⟨k, hk, hle⟩ := h.handling_of_response ho hresp
    rw [List.mem_singleton.mp ho', hk] at heq
    have := Option.some.inj heq
    omega

/-- The last message is the one in hand, and `id` is what was read off it. -/
def Dialogue.Asks (d : Dialogue) (id : Int) : Prop :=
  ∃ msgs msg, d.received = msgs ++ [msg] ∧ requestId msg = if 0 < id then some id else none

/-- What the WS thread has in hand will be answered with an object. -/
def Dialogue.Holds (d : Dialogue) : Prop :=
  match d.inHand with
  | .idle => True
  | .evaluating id _ _ => d.Asks id
  | .answering id _ result => d.Asks id ∧ result.isObject = true

section

variable {σ α : Type} {env : Env} {engine : JsEngine σ α}

/-- The invariant. -/
structure DialogueInv (env : Env) (d : Dialogue) : Prop where
  texts : d.server.sent = d.wire.map fun o => textOf env o.msg
  corresponds : Corresponds d.handled d.wire
  holds : d.Holds

variable {d d' : Dialogue}

theorem texts_put {handling : Option Nat} {msg : Value}
    (h : d.server.sent = d.wire.map fun o => textOf env o.msg) :
    (d.put env handling msg).server.sent =
      (d.put env handling msg).wire.map fun o => textOf env o.msg := by
  simp [Dialogue.put, Server.send, h, textOf]

/-- The message in hand is not counted as handled. -/
theorem Dialogue.Asks.handled {id : Int} (h : d.Asks id) (hhand : d.inHand ≠ .idle) :
    d.handled.length < d.received.length := by
  obtain ⟨msgs, msg, hrec, -⟩ := h
  unfold Dialogue.handled
  split
  · rename_i hidle
    exact absurd hidle hhand
  · rw [hrec, List.dropLast_concat, List.length_append]
    simp

/-- A new message: what becomes of it is settled when its handling ends. -/
theorem DialogueInv.receive (h : DialogueInv env d) (hidle : d.inHand = .idle) {msg : Value}
    (hfits : idFits msg = true) : DialogueInv env (d.receive env msg) := by
  have hcorr := h.corresponds
  simp only [Dialogue.handled, hidle] at hcorr
  have hdrop : (d.received ++ [msg]).dropLast = d.received := List.dropLast_concat
  have hasks : Dialogue.Asks { d with received := d.received ++ [msg] } (intOrZero msg "id") :=
    ⟨d.received, msg, rfl, requestId_eq hfits⟩
  unfold Dialogue.receive
  simp only
  split
  · unfold Dialogue.enter
    simp only
    split
    · refine ⟨h.texts, ?_, hasks⟩
      simp only [Dialogue.handled, hdrop]
      exact hcorr
    · rename_i hwait
      refine ⟨h.texts, ?_, hasks, isObject_dispatch env _ _ _ fun hm => ?_⟩
      · simp only [Dialogue.handled, hdrop]
        exact hcorr
      · simpa [hm] using hwait
  · rename_i hobj
    refine ⟨h.texts, ?_, ?_⟩
    · have hnone : requestId msg = none := by
        cases msg with
        | object kvs => simp [Value.isObject] at hobj
        | _ => rfl
      simp only [Dialogue.handled, hidle]
      exact hcorr.unanswered hnone
    · simp only [Dialogue.Holds, hidle]

/-- The end of a handling. -/
theorem DialogueInv.reply (h : DialogueInv env d) {id : Int} {result : Value}
    (hhand : d.inHand = .answering id [] result) : DialogueInv env (d.reply env id result) := by
  have hholds := h.holds
  simp only [Dialogue.Holds, hhand] at hholds
  obtain ⟨⟨msgs, msg, hrec, hid⟩, hobj⟩ := hholds
  have hcorr := h.corresponds
  simp only [Dialogue.handled, hhand, hrec, List.dropLast_concat] at hcorr
  unfold Dialogue.reply
  split
  · rename_i hpos
    rw [if_pos hpos] at hid
    refine ⟨texts_put h.texts, ?_, trivial⟩
    simp only [Dialogue.handled, Dialogue.put, hrec, List.length_append, List.length_singleton]
    exact hcorr.response hid hobj
  · rename_i hpos
    rw [if_neg hpos] at hid
    refine ⟨h.texts, ?_, trivial⟩
    simp only [Dialogue.handled, hrec]
    exact hcorr.unanswered hid

/-- The next event of a method. -/
theorem DialogueInv.sendsEvent (h : DialogueInv env d) {id : Int} {e : CdpEvent}
    {events : List CdpEvent} {result : Value}
    (hhand : d.inHand = .answering id (e :: events) result) :
    DialogueInv env
      { d.put env (some d.received.length) e.message with
        inHand := .answering id events result } := by
  have hholds := h.holds
  simp only [Dialogue.Holds, hhand] at hholds
  have hcorr := h.corresponds
  refine ⟨texts_put h.texts, ?_, hholds⟩
  have hlt := hholds.1.handled (by simp [hhand])
  simp only [Dialogue.handled, hhand] at hcorr hlt
  refine hcorr.event _ e ?_
  rintro k ⟨⟩
  exact hlt

/-- The condition on the messages: a numeric id fits in an `int`. -/
def fits (env : Env) (a : DialogueAct σ) : Bool :=
  match a with
  | .receives text =>
    match Json.parse env.stod text with
    | .ok msg => idFits msg
    | .error _ => true
  | _ => true

/-- One step of either thread. -/
theorem dialogueInv_step {a : DialogueAct σ} (h : DialogueInv env d) (hok : fits env a = true)
    (hstep : (dialogue env engine).step d a = some d') : DialogueInv env d' := by
  cases a with
  | receives text =>
    simp only [dialogue, Dialogue.step] at hstep
    split at hstep
    · rename_i msg hidle hparse
      cases hstep
      simp only [fits, hparse] at hok
      exact h.receive hidle hok
    · cases hstep
  | sendsEvent =>
    simp only [dialogue, Dialogue.step] at hstep
    split at hstep
    · rename_i hhand
      cases hstep
      exact h.sendsEvent hhand
    · cases hstep
  | replies =>
    simp only [dialogue, Dialogue.step] at hstep
    split at hstep
    · rename_i hhand
      cases hstep
      exact h.reply hhand
    · cases hstep
  | jsAnswers inspected =>
    simp only [dialogue, Dialogue.step] at hstep
    split at hstep
    · rename_i hhand
      cases hstep
      have hholds := h.holds
      have hcorr := h.corresponds
      simp only [Dialogue.Holds, Dialogue.handled, hhand] at hholds hcorr
      exact ⟨h.texts, hcorr, hholds, isObject_evaluationResult _ _ _ _⟩
    · cases hstep
  | jsSends e =>
    cases hstep
    refine ⟨texts_put h.texts, h.corresponds.event none e ?_, h.holds⟩
    intro k hk
    cases hk
  | jsMoves session scripts objectStore =>
    cases hstep
    exact ⟨h.texts, h.corresponds, h.holds⟩

/-- **Responses correspond to requests**, in every interleaving of the two threads in which the
parser returns and numeric ids fit in an `int`.  At every moment the messages with an id are one
per handled message with a positive id, in the order of arrival and with its id, each with an
object as its result; everything else is an event; and a handling sends nothing behind its
response. -/
theorem responses_correspond_of_reach
    (h : (dialogue env engine).Reach (fun _ a => fits env a = true) d) :
    d.server.sent = (d.wire.map fun o => textOf env o.msg) ∧ Corresponds d.handled d.wire := by
  have hinv : DialogueInv env d := by
    refine h.invariant (I := DialogueInv env) ?_ ?_
    · rintro t ⟨hsent, hrec, hwire, hidle⟩
      refine ⟨by rw [hsent, hwire, List.map_nil], ?_, ?_⟩
      · simp only [Dialogue.handled, hidle, hrec, hwire]
        exact corresponds_nil
      · simp only [Dialogue.Holds, hidle]
    · intro t a t' hi hok ht
      exact dialogueInv_step hi hok ht
  exact ⟨hinv.texts, hinv.corresponds⟩

end

/-- A dialogue about to begin. -/
def Dialogue.new (server : Server) : Dialogue :=
  { server := server, received := [], inHand := .idle, wire := [] }

/-- Two requests and a notification, with an event of the JS thread inside the first. -/
theorem responses_correspond_of_reach_enable :
    ∃ d, (dialogue integerEnv Objects.twoObjects).Reach (fun _ a => fits integerEnv a = true) d ∧
      d.wire.length = 4 ∧ d.server.sent = (d.wire.map fun o => textOf integerEnv o.msg) ∧
      Corresponds d.handled d.wire := by
  obtain ⟨d, hd, hp⟩ := @StepSystem.exists_reach_of_run _ _
    (dialogue integerEnv Objects.twoObjects) (Dialogue.new Server.new)
    [.receives (ascii "\x7b\"id\":1,\"method\":\"Runtime.enable\"\x7d"),
      .jsSends ⟨"Debugger.resumed", .object []⟩, .sendsEvent, .replies,
      .receives (ascii "\x7b\"method\":\"Debugger.pause\"\x7d"), .replies,
      .receives (ascii "\x7b\"id\":2,\"method\":\"Runtime.getProperties\"\x7d"), .replies]
    (fun _ a => fits integerEnv a) (fun d => d.wire.length = 4) ⟨rfl, rfl, rfl, rfl⟩
    (by decide +kernel)
  simp only [decide_eq_true_eq] at hp
  exact ⟨d, hd, hp, responses_correspond_of_reach hd⟩

end Cdp

end QjsDebug
