/-
# A request is evaluated once

`evaluate_on_call_frame` posts a request under `eval_mutex_`, wakes the JS thread up, waits
until the request is `ready` and clears `pending_eval_`.  The JS thread serves under the same
mutex, whatever request it finds: it does not look at `ready`.  Between its unlock and the WS
thread's lock the request it has just served is still there, and if the JS thread comes first
it evaluates the expression again.

**When this does not happen.**  `unserved` asks of a run that the JS thread takes
`eval_mutex_` only while the request, if there is one, is not ready.  The invariant `Served`
says for each request what the log holds of it -- nothing, its beginning, or its one
evaluation -- by where the two threads are; the mutex (`Owner`) keeps them apart.
-/
import QjsDebug.Threads.Steps

namespace QjsDebug.Threads

open Json (Value)

/-! ## 1. What is claimed -/

/-- How often the evaluation of a request has begun. -/
def begins (id : Nat) : List Obs → Nat
  | [] => 0
  | .evalBegin id' :: log => begins id log + if id' = id then 1 else 0
  | _ :: log => begins id log

/-- The values the evaluations of a request have produced, newest first. -/
def results (id : Nat) : List Obs → List Value
  | [] => []
  | .evalEnd id' v :: log => if id' = id then v :: results id log else results id log
  | _ :: log => results id log

/-- The request has not been touched. -/
def Fresh (id : Nat) (log : List Obs) : Prop := begins id log = 0 ∧ results id log = []

/-- The one evaluation of the request has begun. -/
def Begun (id : Nat) (log : List Obs) : Prop := begins id log = 1 ∧ results id log = []

/-- The request has been evaluated once, to `v`. -/
def Once (id : Nat) (v : Value) (log : List Obs) : Prop :=
  begins id log = 1 ∧ results id log = [v]

/-- Every request is evaluated at most once, and exactly once when its call has returned,
with the value of that evaluation. -/
structure EvaluatedOnce (log : List Obs) : Prop where
  atMostOnce : ∀ id, begins id log ≤ 1
  returned : ∀ id v, Obs.evalReturn id v ∈ log → Once id v log

/-- The side condition of a step: where the JS thread takes `eval_mutex_`, the request is not
ready. -/
def unserved (s : State) : Act → Bool
  | .js .next =>
    match s.js with
    | .pause _ _ _ .lockEval :: _ => !s.session.pendingEval.any EvalRequest.ready
    | _ => true
  | _ => true

/-! ## 2. The mutex -/

/-- Between `lock` and `unlock` of `eval_mutex_`. -/
def PausePc.holdsEval : PausePc → Bool
  | .testPending | .evaluating | .setReady | .notifyDone | .unlockEval => true
  | _ => false

/-- The place of a call that holds `eval_mutex_`. -/
def Activation.evalPc : Activation → Option PausePc
  | .pause _ _ _ pc => if pc.holdsEval then some pc else none
  | _ => none

/-- The places of the calls that hold `eval_mutex_`. -/
def holders (js : List Activation) : List PausePc := js.filterMap Activation.evalPc

def Ws.holdsEval : Ws → Bool
  | .evaluate _ .post | .evaluate _ .unlock | .evaluate _ .await | .evaluate _ .clear
  | .evaluate _ (.unlockAfter _) => true
  | _ => false

/-- `eval_mutex_` is held by the one call, or by the WS thread, that is between its `lock` and
`unlock`. -/
structure Owner (s : State) : Prop where
  js : (holders s.js).length = if s.evalOwner = some .js then 1 else 0
  ws : s.evalOwner = some .ws ↔ s.ws.holdsEval = true

theorem holders_wakeJs (js : List Activation) : holders (wakeJs js) = holders js := by
  unfold wakeJs
  split <;> rfl

theorem holders_stack (e : Event) (callers : List Activation) (next : HandlerNext) :
    holders (next.stack e callers) = holders callers := by
  cases next <;> rfl

theorem holdsEval_wake (ws : Ws) : ws.wake.holdsEval = ws.holdsEval := by
  unfold Ws.wake
  split <;> rfl

theorem holdsEval_start (c : Command) (id : Nat) : (c.start id).holdsEval = false := by
  cases c <;> rfl

/-- While the WS thread holds the mutex, no call of the JS thread does. -/
theorem Owner.no_holders {s : State} (h : Owner s) (hws : s.ws.holdsEval = true) :
    holders s.js = [] := by
  have howner := h.ws.mpr hws
  have hlen := h.js
  rw [howner, if_neg (by simp)] at hlen
  exact List.length_eq_zero_iff.mp hlen

section

variable {host : Host} {s s' : State}

theorem PauseStep.owner {e : Event} {reason : PauseReason} {bpId : Int}
    {callers : List Activation} {pc : PausePc} (hjs : s.js = .pause e reason bpId pc :: callers)
    (hnext : PauseStep s e reason bpId callers pc s') (h : Owner s) : Owner s' := by
  obtain ⟨hlen, hws⟩ := h
  rw [hjs] at hlen
  cases hnext with
  | lockEval hfree =>
    rw [hfree] at hlen hws
    refine ⟨congrArg (· + 1) hlen, ?_⟩
    rw [← hws]
    simp
  | unlockEval =>
    -- the mutex is the call's own
    have howner : s.evalOwner = some .js := by
      by_contra hc
      rw [if_neg hc] at hlen
      exact absurd hlen (by simp [holders, Activation.evalPc, PausePc.holdsEval])
    rw [howner] at hlen hws
    refine ⟨Nat.succ.inj hlen, ?_⟩
    rw [← hws]
    simp
  | notifyDone => exact ⟨hlen, by rw [holdsEval_wake]; exact hws⟩
  | _ => exact ⟨hlen, hws⟩

/-- **The mutex keeps the threads apart.** -/
theorem owner_step {a : Act} (h : Owner s) (hstep : (machine host).step s a = some s') :
    Owner s' := by
  rcases step_cases hstep with ⟨c, rfl, hjstep⟩ | hwstep
  · cases hjstep with
    | pause hjs hnext => exact hnext.owner hjs h
    | handler hjs _ =>
      obtain ⟨hlen, hws⟩ := h
      rw [hjs] at hlen
      exact ⟨by rw [holders_stack]; exact hlen, hws⟩
    | evaluated hjs =>
      obtain ⟨hlen, hws⟩ := h
      rw [hjs] at hlen
      unfold finishEval
      split <;> exact ⟨hlen, hws⟩
    | statement hjs | fires hjs | falsy hjs => exact ⟨by rw [← h.js, hjs]; rfl, h.ws⟩
    | getterDone hjs | getter hjs | spurious hjs => exact ⟨by rw [← h.js, hjs]; rfl, h.ws⟩
  · obtain ⟨hlen, hws⟩ := h
    cases hwstep with
    | client hrun => rw [hrun] at hws; exact ⟨hlen, by rw [holdsEval_start]; exact hws⟩
    | notifyPause hrun | notify hrun =>
      rw [hrun] at hws
      exact ⟨by rw [holders_wakeJs]; exact hlen, hws⟩
    | lock _ hfree | relock _ hfree =>
      rw [hfree] at hlen
      exact ⟨hlen, by simp [Ws.holdsEval]⟩
    | unlock hrun | notReady hrun | unlockAfter hrun =>
      rw [hws.mpr (by rw [hrun]; rfl)] at hlen
      exact ⟨hlen, by simp [Ws.holdsEval]⟩
    | store hrun | notifyWait hrun | leave hrun => rw [hrun] at hws; exact ⟨hlen, hws⟩
    | testPaused hrun | notPaused hrun | post hrun => rw [hrun] at hws; exact ⟨hlen, hws⟩
    | reply hrun | spurious hrun => rw [hrun] at hws; exact ⟨hlen, hws⟩
    | ready hrun _ _ | clear hrun _ => rw [hrun] at hws; exact ⟨hlen, hws⟩

theorem owner_of_reach {ok : State → Act → Prop} (h : (machine host).Reach ok s) : Owner s := by
  refine h.invariant (I := Owner) ?_ ?_
  · intro s hi
    constructor
    · rw [hi.js, hi.evalOwner]
      rfl
    · rw [hi.evalOwner, hi.ws]
      simp [Ws.holdsEval]
  · intro s a s' hi _ hstep
    exact owner_step hi hstep

end

/-! ## 3. What the log holds of a request -/

/-- Nobody serves the request: it is ready and has been evaluated, or it is not. -/
def Settled (r : EvalRequest) (log : List Obs) : Prop :=
  (r.ready = true → Once r.id r.result log) ∧ (r.ready = false → Fresh r.id log)

/-- The posted request and the log, by the place of the call that serves it. -/
def Status (r : EvalRequest) (log : List Obs) : List PausePc → Prop
  | [.testPending] => r.ready = false ∧ Fresh r.id log
  | [.evaluating] => r.ready = false ∧ Begun r.id log
  | [.setReady] => r.ready = false ∧ Once r.id r.result log
  | _ => Settled r log

/-- The request of the WS thread and the log, before it is posted and after it is cleared. -/
def Ws.Status (log : List Obs) : Ws → Prop
  | .evaluate q .testPaused | .evaluate q .lock | .evaluate q .post => Fresh q.id log
  | .evaluate q (.unlockAfter v) | .evaluate q (.reply v) => Once q.id v log
  | _ => True

/-- The number of the WS thread's request. -/
def Ws.number : Ws → Option Nat
  | .evaluate q _ => some q.id
  | _ => none

/-- The WS thread has seen that the request is ready. -/
def Ws.clearing : Ws → Bool
  | .evaluate _ .clear => true
  | _ => false

structure Served (s : State) : Prop where
  once : EvaluatedOnce s.log
  future : ∀ id, s.nextRequest ≤ id → Fresh id s.log
  number : ∀ id, s.ws.number = some id → id < s.nextRequest
  current : s.ws.Status s.log
  pending : ∀ r, s.session.pendingEval = some r → Status r s.log (holders s.js)
  clear : s.ws.clearing = true → ∀ r, s.session.pendingEval = some r → r.ready = true

section

variable {log : List Obs} {id id' : Nat} {v v' : Value}

theorem Fresh.begin (h : Fresh id log) : Begun id (.evalBegin id :: log) :=
  ⟨by rw [begins, h.1, if_pos rfl], h.2⟩

theorem Begun.end (h : Begun id log) : Once id v (.evalEnd id v :: log) :=
  ⟨h.1, by rw [results, if_pos rfl, h.2]⟩

theorem Fresh.begin_ne (h : Fresh id log) (hne : id' ≠ id) : Fresh id (.evalBegin id' :: log) :=
  ⟨by rw [begins, if_neg hne]; exact h.1, h.2⟩

theorem Fresh.end_ne (h : Fresh id log) (hne : id' ≠ id) : Fresh id (.evalEnd id' v :: log) :=
  ⟨h.1, by rw [results, if_neg hne]; exact h.2⟩

theorem Once.begin_ne (h : Once id v log) (hne : id' ≠ id) :
    Once id v (.evalBegin id' :: log) :=
  ⟨by rw [begins, if_neg hne]; exact h.1, h.2⟩

theorem Once.end_ne (h : Once id v log) (hne : id' ≠ id) : Once id v (.evalEnd id' v' :: log) :=
  ⟨h.1, by rw [results, if_neg hne]; exact h.2⟩

theorem Once.ne_fresh (h : Once id v log) (h' : Fresh id' log) : id' ≠ id := by
  rintro rfl
  rw [Fresh, h.1] at h'
  exact absurd h'.1 (by simp)

theorem Once.ne_begun (h : Once id v log) (h' : Begun id' log) : id' ≠ id := by
  rintro rfl
  rw [Begun, h.2] at h'
  exact absurd h'.2 (by simp)

/-- A ready request has been evaluated. -/
theorem Status.once {r : EvalRequest} {held : List PausePc} (h : Status r log held)
    (hready : r.ready = true) : Once r.id r.result log := by
  unfold Status at h
  split at h
  · rw [hready] at h; exact absurd h.1 (by simp)
  · rw [hready] at h; exact absurd h.1 (by simp)
  · rw [hready] at h; exact absurd h.1 (by simp)
  · exact h.1 hready

end

section

variable {s s' : State}

/-- While a request is posted, the WS thread neither starts one nor returns from one. -/
theorem Ws.of_posted {ws : Ws} {id : Nat} (h : ws.posted = some id) :
    ws.number = some id ∧ ∀ log, ws.Status log := by
  unfold Ws.posted at h
  split at h
  · rename_i q pc
    obtain ⟨hpc, hid⟩ := Option.ite_none_right_eq_some.mp h
    refine ⟨hid, fun log => ?_⟩
    cases pc <;> trivial
  · exact absurd h (by simp)

theorem posted_of_pending (hposted : Posted s) {r : EvalRequest}
    (hr : s.session.pendingEval = some r) : s.ws.posted = some r.id := by
  rw [← hposted, hr]
  rfl

theorem wake_status (ws : Ws) (log : List Obs) :
    (ws.wake.Status log ↔ ws.Status log) ∧ ws.wake.number = ws.number ∧
      ws.wake.clearing = ws.clearing := by
  unfold Ws.wake
  split
  · exact ⟨Iff.rfl, rfl, rfl⟩
  · exact ⟨Iff.rfl, rfl, rfl⟩

/-- A step that touches neither the log nor the posted request. -/
theorem Served.move (h : Served s) (hlog : s'.log = s.log) (hnext : s'.nextRequest = s.nextRequest)
    (hpending : s'.session.pendingEval = s.session.pendingEval)
    (hstatus : ∀ r, s.session.pendingEval = some r → Status r s.log (holders s'.js))
    (hnumber : ∀ id, s'.ws.number = some id → s.ws.number = some id)
    (hcurrent : s'.ws.Status s.log)
    (hclear : s'.ws.clearing = true → ∀ r, s.session.pendingEval = some r → r.ready = true) :
    Served s' := by
  refine ⟨?_, ?_, ?_, ?_, ?_, ?_⟩
  · rw [hlog]; exact h.once
  · rw [hlog, hnext]; exact h.future
  · intro id hid; rw [hnext]; exact h.number id (hnumber id hid)
  · rw [hlog]; exact hcurrent
  · rw [hlog, hpending]; exact hstatus
  · rw [hpending]; exact hclear

/-- A step of the JS thread that touches neither the log nor the posted request. -/
theorem Served.frame (h : Served s) (hlog : s'.log = s.log) (hnext : s'.nextRequest = s.nextRequest)
    (hws : s'.ws = s.ws ∨ s'.ws = s.ws.wake)
    (hpending : s'.session.pendingEval = s.session.pendingEval)
    (hstatus : ∀ r, s.session.pendingEval = some r → Status r s.log (holders s'.js)) :
    Served s' := by
  rcases hws with hws | hws
  · refine h.move hlog hnext hpending hstatus ?_ ?_ ?_
    · rw [hws]; exact fun _ => id
    · rw [hws]; exact h.current
    · rw [hws]; exact h.clear
  · obtain ⟨hst, hnum, hcl⟩ := wake_status s.ws s.log
    refine h.move hlog hnext hpending hstatus ?_ ?_ ?_
    · rw [hws, hnum]; exact fun _ => id
    · rw [hws]; exact hst.mpr h.current
    · rw [hws, hcl]; exact h.clear

/-- `Debugger.paused` and `Debugger.resumed` say nothing about requests. -/
theorem Served.quiet (h : Served s) {o : Obs} (ho : o = .paused ∨ o = .resumed) :
    Served { s with log := o :: s.log } := by
  rcases ho with rfl | rfl
  · refine ⟨⟨h.once.atMostOnce, fun id v hret => ?_⟩, h.future, h.number, h.current, h.pending,
      h.clear⟩
    exact h.once.returned id v (by simpa using hret)
  · refine ⟨⟨h.once.atMostOnce, fun id v hret => ?_⟩, h.future, h.number, h.current, h.pending,
      h.clear⟩
    exact h.once.returned id v (by simpa using hret)

/-- The evaluation of the posted request begins. -/
theorem Served.begin (h : Served s) (hposted : Posted s) {r : EvalRequest}
    (hr : s.session.pendingEval = some r) (hready : r.ready = false) (hfresh : Fresh r.id s.log)
    {js : List Activation} (hjs : holders js = [.evaluating]) :
    Served { s with js := js, log := .evalBegin r.id :: s.log } := by
  obtain ⟨hnumber, hstatus⟩ := Ws.of_posted (posted_of_pending hposted hr)
  have hbegun : Begun r.id (.evalBegin r.id :: s.log) := hfresh.begin
  refine ⟨⟨fun id => ?_, fun id v hret => ?_⟩, fun id hid => ?_, h.number, hstatus _, ?_, ?_⟩
  · by_cases hid : r.id = id
    · subst hid; rw [hbegun.1]
    · rw [begins, if_neg hid]; exact h.once.atMostOnce id
  · have honce := h.once.returned id v (by simpa using hret)
    exact honce.begin_ne (honce.ne_fresh hfresh)
  · have hlt : r.id < s.nextRequest := h.number r.id hnumber
    exact (h.future id hid).begin_ne (Nat.ne_of_lt (Nat.lt_of_lt_of_le hlt hid))
  · intro r' hr'
    obtain rfl : r = r' := Option.some.inj (hr.symm.trans hr')
    rw [hjs]
    exact ⟨hready, hbegun⟩
  · exact h.clear

/-- The evaluation of the posted request ends. -/
theorem Served.end (h : Served s) (hposted : Posted s) {r : EvalRequest}
    (hr : s.session.pendingEval = some r) (hready : r.ready = false) (hbegun : Begun r.id s.log)
    {v : Value} {js : List Activation} (hjs : holders js = [.setReady]) :
    Served { s with
      session := { s.session with pendingEval := some { r with result := v } }
      js := js
      log := .evalEnd r.id v :: s.log } := by
  obtain ⟨hnumber, hstatus⟩ := Ws.of_posted (posted_of_pending hposted hr)
  refine ⟨⟨h.once.atMostOnce, fun id v' hret => ?_⟩, fun id hid => ?_, h.number, hstatus _, ?_, ?_⟩
  · have honce := h.once.returned id v' (by simpa using hret)
    exact honce.end_ne (honce.ne_begun hbegun)
  · have hlt : r.id < s.nextRequest := h.number r.id hnumber
    exact (h.future id hid).end_ne (Nat.ne_of_lt (Nat.lt_of_lt_of_le hlt hid))
  · intro r' hr'
    obtain rfl := Option.some.inj hr'
    rw [hjs]
    exact ⟨hready, hbegun.end⟩
  · intro hclear r' hr'
    obtain rfl := Option.some.inj hr'
    exact h.clear hclear r hr

/-- The request becomes ready. -/
theorem Served.ready (h : Served s)
    (honce : ∀ r, s.session.pendingEval = some r → Once r.id r.result s.log)
    {js : List Activation} (hjs : holders js = [.notifyDone]) :
    Served { s with
      session := { s.session with
        pendingEval := s.session.pendingEval.map fun r => { r with ready := true } }
      js := js } := by
  refine ⟨h.once, h.future, h.number, h.current, ?_, ?_⟩
  · intro r' hr'
    obtain ⟨r, hr, rfl⟩ := Option.map_eq_some_iff.mp hr'
    rw [hjs]
    exact ⟨fun _ => honce r hr, fun hc => absurd hc (by simp)⟩
  · intro _ r' hr'
    obtain ⟨r, hr, rfl⟩ := Option.map_eq_some_iff.mp hr'
    rfl

variable {host : Host}

/-- Below a call that holds the mutex, no other one does. -/
theorem Owner.none_below {pc : PausePc} {held : List PausePc} (h : Owner s)
    (hheld : holders s.js = pc :: held) : held = [] := by
  have hlen := h.js
  rw [hheld, List.length_cons] at hlen
  refine List.length_eq_zero_iff.mp ?_
  split at hlen <;> omega

theorem PauseStep.served {e : Event} {reason : PauseReason} {bpId : Int}
    {callers : List Activation} {pc : PausePc} (hjs : s.js = .pause e reason bpId pc :: callers)
    (hnext : PauseStep s e reason bpId callers pc s') (howner : Owner s) (hposted : Posted s)
    (hok : unserved s (.js .next) = true) (h : Served s) : Served s' := by
  have hstatus := h.pending
  rw [hjs] at hstatus
  cases hnext with
  | sendPaused => exact (h.quiet (Or.inl rfl)).frame rfl rfl (Or.inl rfl) rfl hstatus
  | sendResumed => exact (h.quiet (Or.inr rfl)).frame rfl rfl (Or.inl rfl) rfl hstatus
  | lockEval hfree =>
    have hnone : holders callers = [] := by
      have hlen := howner.js
      rw [hfree, hjs, if_neg (by simp)] at hlen
      exact List.length_eq_zero_iff.mp hlen
    refine h.frame rfl rfl (Or.inl rfl) rfl fun r hr => ?_
    have hready : r.ready = false := by simpa [unserved, hjs, hr] using hok
    have hsettled : Status r s.log (holders callers) := hstatus r hr
    have hheld : holders (.pause e reason bpId .testPending :: callers) = [.testPending] :=
      congrArg (PausePc.testPending :: ·) hnone
    rw [hnone] at hsettled
    rw [hheld]
    exact ⟨hready, hsettled.2 hready⟩
  | @evaluate r hr =>
    have hnone : holders callers = [] := howner.none_below (congrArg holders hjs)
    have hserving : Status r s.log (.testPending :: holders callers) := hstatus r hr
    rw [hnone] at hserving
    exact h.begin hposted hr hserving.1 hserving.2 (congrArg (PausePc.evaluating :: ·) hnone)
  | noPending hr =>
    refine h.frame rfl rfl (Or.inl rfl) rfl fun r hr' => ?_
    rw [hr] at hr'
    exact absurd hr' (by simp)
  | setReady =>
    have hnone : holders callers = [] := howner.none_below (congrArg holders hjs)
    refine h.ready (fun r hr => ?_) (congrArg (PausePc.notifyDone :: ·) hnone)
    have hserving : Status r s.log (.setReady :: holders callers) := hstatus r hr
    rw [hnone] at hserving
    exact hserving.2
  | notifyDone =>
    have hnone : holders callers = [] := howner.none_below (congrArg holders hjs)
    refine h.frame rfl rfl (Or.inr rfl) rfl fun r hr => ?_
    have hserved : Status r s.log (.notifyDone :: holders callers) := hstatus r hr
    have hheld : holders (.pause e reason bpId .unlockEval :: callers) = [.unlockEval] :=
      congrArg (PausePc.unlockEval :: ·) hnone
    rw [hnone] at hserved
    rw [hheld]
    exact hserved
  | unlockEval =>
    have hnone : holders callers = [] := howner.none_below (congrArg holders hjs)
    refine h.frame rfl rfl (Or.inl rfl) rfl fun r hr => ?_
    have hserved : Status r s.log (.unlockEval :: holders callers) := hstatus r hr
    have hheld : holders (.pause e reason bpId .loop :: callers) = [] := hnone
    rw [hnone] at hserved
    rw [hheld]
    exact hserved
  | _ => exact h.frame rfl rfl (Or.inl rfl) rfl hstatus

theorem JsStep.served {c : Choice} (hstep : JsStep host s c s') (howner : Owner s)
    (hposted : Posted s) (hok : unserved s (.js c) = true) (h : Served s) : Served s' := by
  have hstatus := h.pending
  cases hstep with
  | pause hjs hnext => exact hnext.served hjs howner hposted hok h
  | handler hjs hnext =>
    rw [hjs] at hstatus
    refine h.frame rfl rfl (Or.inl rfl) (handlerNext_frame hnext).2 ?_
    rw [holders_stack]
    exact hstatus
  | @evaluated e reason bpId callers result truthy hjs =>
    rw [hjs] at hstatus
    have hnone : holders callers = [] := howner.none_below (congrArg holders hjs)
    unfold finishEval
    split
    · rename_i r hr
      have hserving : Status r s.log (.evaluating :: holders callers) := hstatus r hr
      rw [hnone] at hserving
      exact h.end hposted hr hserving.1 hserving.2 (congrArg (PausePc.setReady :: ·) hnone)
    · rename_i hr
      refine h.frame rfl rfl (Or.inl rfl) rfl fun r hr' => ?_
      rw [hr] at hr'
      exact absurd hr' (by simp)
  | statement hjs | fires hjs | falsy hjs | getterDone hjs | getter hjs | spurious hjs =>
    rw [hjs] at hstatus
    exact h.frame rfl rfl (Or.inl rfl) rfl hstatus

theorem start_status {c : Command} {id : Nat} {log : List Obs} (h : Fresh id log) :
    (c.start id).Status log ∧ (∀ id', (c.start id).number = some id' → id' = id) ∧
      (c.start id).clearing = false := by
  cases c with
  | evaluateOnCallFrame _ _ => exact ⟨h, fun _ hid => (Option.some.inj hid).symm, rfl⟩
  | _ => exact ⟨trivial, fun _ hid => absurd hid (by simp [Command.start, Ws.number]), rfl⟩

/-- The WS thread posts its request. -/
theorem Served.post (h : Served s) {q : Query} (hws : s.ws = .evaluate q .post)
    (hnone : holders s.js = []) :
    Served { s with
      session := { s.session with
        pendingEval := some ⟨q.id, q.callFrameId, q.expression, .null, false⟩ }
      ws := .evaluate q .unlock } := by
  have hnumber := h.number
  have hfresh := h.current
  rw [hws] at hnumber hfresh
  refine ⟨h.once, h.future, hnumber, trivial, fun r hr => ?_,
    fun hc => absurd hc (by simp [Ws.clearing])⟩
  obtain rfl := Option.some.inj hr
  rw [hnone]
  exact ⟨fun hready => absurd hready (by simp), fun _ => hfresh⟩

/-- The WS thread takes the value of its request, which is ready. -/
theorem Served.clear_request (h : Served s) (hposted : Posted s) {q : Query} {r : EvalRequest}
    (hws : s.ws = .evaluate q .clear) (hr : s.session.pendingEval = some r) :
    Served { s with
      session := { s.session with pendingEval := none }
      ws := .evaluate q (.unlockAfter r.result) } := by
  have hready : r.ready = true := h.clear (by rw [hws]; rfl) r hr
  have hid : q.id = r.id := by
    have hq := posted_of_pending hposted hr
    rw [hws] at hq
    exact Option.some.inj hq
  have honce : Once q.id r.result s.log := by
    rw [hid]
    exact (h.pending r hr).once hready
  have hnumber := h.number
  rw [hws] at hnumber
  exact ⟨h.once, h.future, hnumber, honce, fun _ hc => absurd hc (by simp),
    fun hc => absurd hc (by simp [Ws.clearing])⟩

/-- The call returns. -/
theorem Served.reply (h : Served s) {q : Query} {v : Value}
    (hws : s.ws = .evaluate q (.reply v)) :
    Served { s with ws := .run [], log := .evalReturn q.id v :: s.log } := by
  have honce := h.current
  rw [hws] at honce
  refine ⟨⟨h.once.atMostOnce, fun id v' hret => ?_⟩, h.future, ?_, trivial, h.pending, ?_⟩
  · rcases List.mem_cons.mp hret with heq | hret
    · obtain ⟨rfl, rfl⟩ := Obs.evalReturn.inj heq
      exact honce
    · exact h.once.returned id v' hret
  · exact fun _ hc => absurd hc (by simp [Ws.number])
  · exact fun hc => absurd hc (by simp [Ws.clearing])

theorem WsStep.served {a : Act} (hstep : WsStep s a s') (howner : Owner s) (hposted : Posted s)
    (h : Served s) : Served s' := by
  have hnumber := h.number
  have hcurrent := h.current
  have hstatus := h.pending
  -- a step between two places that are not `clear`
  have hmove : ∀ t : State, t.log = s.log → t.nextRequest = s.nextRequest →
      t.session.pendingEval = s.session.pendingEval → holders t.js = holders s.js →
      (∀ id, t.ws.number = some id → s.ws.number = some id) → t.ws.Status s.log →
      t.ws.clearing = false → Served t := by
    intro t hlog hnext hpending hheld hnum hcur hcl
    refine h.move hlog hnext hpending (by rw [hheld]; exact hstatus) hnum hcur fun hc => ?_
    rw [hcl] at hc
    exact absurd hc (by simp)
  cases hstep with
  | client hws =>
    obtain ⟨hst, hnum, hcl⟩ := @start_status _ s.nextRequest _ (h.future _ (Nat.le_refl _))
    refine ⟨h.once, fun id hid => h.future id (Nat.le_of_succ_le hid), fun id hid => ?_, hst,
      hstatus, fun hc => ?_⟩
    · rw [hnum id hid]; exact Nat.lt_succ_self _
    · rw [hcl] at hc; exact absurd hc (by simp)
  | post hws => exact h.post hws (howner.no_holders (by rw [hws]; rfl))
  | clear hws hr => exact h.clear_request hposted hws hr
  | reply hws => exact h.reply hws
  | ready hws hr hready =>
    rw [hws] at hnumber
    refine h.move rfl rfl rfl hstatus (by rw [hws]; exact fun _ => id) trivial fun _ r' hr' => ?_
    rw [hr] at hr'
    rw [← Option.some.inj hr']
    exact hready
  | store _ =>
    exact hmove _ rfl rfl (Write.frame _ _).1 rfl (by simp [Ws.number]) trivial rfl
  | notifyPause _ =>
    exact hmove _ rfl rfl rfl (holders_wakeJs _) (by simp [Ws.number]) trivial rfl
  | notifyWait _ | leave _ | notPaused _ =>
    exact hmove _ rfl rfl rfl rfl (by simp [Ws.number]) trivial rfl
  | testPaused hws | lock hws _ | unlockAfter hws =>
    rw [hws] at hcurrent
    exact hmove _ rfl rfl rfl rfl (by rw [hws]; exact fun _ => id) hcurrent rfl
  | notify hws =>
    exact hmove _ rfl rfl rfl (holders_wakeJs _) (by rw [hws]; exact fun _ => id) trivial rfl
  | unlock hws | relock hws _ | notReady hws | spurious hws =>
    exact hmove _ rfl rfl rfl rfl (by rw [hws]; exact fun _ => id) trivial rfl

/-- **One step keeps the account.** -/
theorem served_step {a : Act} (howner : Owner s) (hposted : Posted s) (h : Served s)
    (hok : unserved s a = true) (hstep : (machine host).step s a = some s') : Served s' := by
  rcases step_cases hstep with ⟨c, rfl, hjstep⟩ | hwstep
  · exact hjstep.served howner hposted hok h
  · exact hwstep.served howner hposted h

theorem served_of_initial (hi : State.Initial s) : Served s where
  once := by
    rw [hi.log]
    exact ⟨fun id => Nat.zero_le _, fun id v h => absurd h (by simp)⟩
  future := by
    intro id _
    rw [hi.log]
    exact ⟨rfl, rfl⟩
  number := by
    intro id h
    rw [hi.ws] at h
    exact absurd h (by simp [Ws.number])
  current := by
    rw [hi.ws]
    trivial
  pending := by
    intro r h
    rw [hi.pendingEval] at h
    exact absurd h (by simp)
  clear := by
    intro h
    rw [hi.ws] at h
    exact absurd h (by simp [Ws.clearing])

theorem served_of_reach (h : (machine host).Reach (fun s a => unserved s a = true) s) :
    Served s := by
  refine h.invariant_of (I := Served) (J := fun s => Owner s ∧ Posted s) ?_ ?_ ?_
  · intro s hr
    exact ⟨owner_of_reach hr, posted_of_reach hr⟩
  · intro s hi
    exact served_of_initial hi
  · rintro s a s' ⟨howner, hposted⟩ hi hok hstep
    exact served_step howner hposted hi hok hstep

/-! ## 4. Exactly once -/

/-- **A request is evaluated exactly once.**  In every run in which the JS thread takes
`eval_mutex_` only while the posted request, if any, is not ready, no request is evaluated
twice, and a call that has returned has been evaluated once, to the value it returned. -/
theorem evaluated_once_of_reach
    (h : (machine host).Reach (fun s a => unserved s a = true) s) : EvaluatedOnce s.log :=
  (served_of_reach h).once

/-- **The condition is exact.**  A JS thread that takes the free mutex while the request is
ready evaluates it a second time. -/
theorem evaluated_twice_of_served {c : Choice} (h : Served s) (hfree : s.evalOwner = none)
    (hserved : unserved s (.js c) = false) :
    ∃ s', (machine host).run s [.js .next, .js .next] = some s' ∧ ¬ EvaluatedOnce s'.log := by
  unfold unserved at hserved
  split at hserved
  · split at hserved
    · rename_i e reason bpId callers hjs
      simp only [Bool.not_eq_false', Option.any_eq_true] at hserved
      obtain ⟨r, hr, hready⟩ := hserved
      have honce := (h.pending r hr).once hready
      refine ⟨{ s with
        evalOwner := some .js
        js := .code :: .pause e reason bpId .evaluating :: callers
        log := .evalBegin r.id :: s.log }, ?_, fun hno => ?_⟩
      · simp [StepSystem.run_cons, machine, step, jsStep, hjs, pauseNext, hfree, hr]
      · have htwice := hno.atMostOnce r.id
        rw [begins, honce.1, if_pos rfl] at htwice
        exact absurd htwice (by decide)
    · exact absurd hserved (by simp)
  · exact absurd hserved (by simp)

end

/-- The evaluation ends, and the JS thread lets go of the mutex. -/
def finishRequest (v : Value) : List Act := .js (.finish v true) :: jsSteps 3

/-- The rule at a run in which a call returns its value. -/
theorem evaluated_once_of_reach_returned :
    ∃ s, (machine posixHost).Reach (fun s a => unserved s a = true) s ∧
      s.log.length = 4 ∧ EvaluatedOnce s.log := by
  obtain ⟨s, hs, hlen⟩ := @StepSystem.exists_reach_of_run _ _ (machine posixHost)
    (.start enabledSession)
    (askForPause ++ pauseOnRequest lineThree ++ fallAsleep ++ postRequest (ascii "f()") ++
      serveRequest ++ finishRequest (.bool true) ++ wsSteps 5)
    unserved (fun s => s.log.length == 4) initial_start (by decide +kernel)
  exact ⟨s, hs, by simpa using hlen, evaluated_once_of_reach hs⟩

/-- **A request is evaluated twice.**  The JS thread has served the request; before the WS
thread has taken the mutex it comes round its loop, finds the request still posted, and
evaluates its expression again. -/
theorem request_evaluated_twice :
    ∃ s, (machine posixHost).Reachable s ∧ begins 1 s.log = 2 ∧ ¬ EvaluatedOnce s.log := by
  obtain ⟨s, hs, htwice⟩ := @StepSystem.exists_reachable_of_run _ _ (machine posixHost)
    (.start enabledSession)
    (askForPause ++ pauseOnRequest lineThree ++ fallAsleep ++ postRequest (ascii "f()") ++
      serveRequest ++ finishRequest (.bool true) ++ jsSteps 5)
    (fun s => begins 1 s.log == 2) initial_start (by decide +kernel)
  rw [beq_iff_eq] at htwice
  refine ⟨s, hs, htwice, fun hno => ?_⟩
  have honce := hno.atMostOnce 1
  rw [htwice] at honce
  exact absurd honce (by decide)

end QjsDebug.Threads
