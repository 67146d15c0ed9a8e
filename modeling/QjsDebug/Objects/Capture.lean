/-
# The objects of a pause

`capture_frames` clears the object store, starts the ids at 1 again, and describes every frame of
the stack: its locals, the global object, its location.  While the pause lasts, evaluated
expressions add to the store.

* §2  the store of a pause is closed: whatever the heap, every id that occurs anywhere is the key
      of exactly one list (`closed_duringPause`);
* §3  an id keeps its meaning until the next capture, and then means whatever that pause stores
      under the same number (`object_id_meaning`).

A script that runs for an evaluation may stop in its turn; that pause never comes back
(`nestedStatement`), so an evaluation that is answered has not captured anything.
-/
import QjsDebug.Objects.Remote
import QjsDebug.Session.Inspect

namespace QjsDebug

open Json (Value)
open Cdp (Script frameLocation)

namespace Objects

variable {σ α : Type}

/-! ## 1. Capturing and evaluating -/

section

variable (engine : JsEngine σ α) (host : Host) (scripts : List Script)

/-- What the client sees as the name of a frame. -/
def frameName (fi : FrameInfo) : Bytes :=
  if fi.funcname = [] then ascii "(anonymous)" else fi.funcname

/-- The local scope of a frame, when `JS_GetLocalVariablesAtLevel` finds variables. -/
def localScope (level : Nat) (fi : FrameInfo) : Inspect σ (List Value) := do
  let vars ← ask fun heap => engine.locals heap level
  match vars.getD [] with
  | [] => return []
  | v :: vs =>
    let props ← (v :: vs).mapM fun local_ => do
      let value ← jsValueToRemoteObject engine 0 local_.2
      return ownProperty (local_.1.getD []) value
    let scope ← referring [("type", .lit "object"), ("className", .lit "Object")] props
    return [.ofFields [("type", .lit "local"), ("object", scope),
      ("name", .string (frameName fi))]]

/-- The global scope: the first 50 properties of the global object. -/
def globalScope : Inspect σ (List Value) := do
  let global ← ask engine.global
  let props ← ownProperties engine (jsValueToRemoteObject engine 0) 50 global
  let scope ← referring [("type", .lit "object"), ("className", .lit "Object")] props
  return [.ofFields [("type", .lit "global"), ("object", scope)]]

/-- The description of one frame. -/
def callFrame (fi : FrameInfo) (level : Nat) : Inspect σ Value := do
  let locals ← localScope engine level fi
  let globals ← globalScope engine
  return .ofFields [("callFrameId", .string (decimal level)),
    ("functionName", .string (frameName fi)), ("location", frameLocation host scripts fi),
    ("url", .string (toFileUrl fi.filename)), ("scopeChain", .array (locals ++ globals)),
    ("this", .ofFields [("type", .lit "object"), ("className", .lit "global")])]

/-- A session as far as its pauses go. -/
structure Pausing (σ : Type) where
  inspected : Inspected σ
  frameStack : List FrameInfo
  /-- `captured_frames_`. -/
  capturedFrames : Value
  /-- What the evaluations since the last capture returned, as an observation. -/
  results : List Value

/-- The object store. -/
abbrev Pausing.store (s : Pausing σ) : ObjectStore := s.inspected.store

/-- Before the first pause. -/
def Pausing.new (heap : σ) : Pausing σ where
  inspected := { heap := heap, store := .empty }
  frameStack := []
  capturedFrames := .null
  results := []

/-- `capture_frames`, on the heap that the script has left behind. -/
def captureFrames (s : Pausing σ) (heap : σ) (e : Event) : Pausing σ :=
  let stack := trackFrames s.frameStack e
  let frames := (stack.zipIdx.mapM fun p => callFrame engine host scripts p.1 p.2).run
    { heap := heap, store := .empty }
  { inspected := frames.2, frameStack := stack, capturedFrames := .array frames.1, results := [] }

/-- The answer to an evaluation: a local of the frame is looked up first, and the global
evaluation is the fallback. -/
def evaluationResult (callFrameId expression : Bytes) : Inspect σ Value := do
  let vars ← ask fun heap => engine.locals heap (frameLevel callFrameId)
  match (vars.getD []).find? fun v => v.1 == some expression with
  | some v =>
    let value ← jsValueToRemoteObject engine 0 v.2
    return .ofFields [("result", value)]
  | none =>
    let answer ← call (engine.eval expression)
    match answer with
    | .ok val =>
      let value ← jsValueToRemoteObject engine 0 val
      return .ofFields [("result", value)]
    | .error text =>
      return .ofFields
        [("result", .ofFields [("type", .lit "object"), ("subtype", .lit "error"),
          ("className", .lit "Error"), ("description", .string (text.getD (ascii "Error")))]),
          ("exceptionDetails", .object [])]

/-- An evaluation served by `do_pause`. -/
def evaluate (s : Pausing σ) (callFrameId expression : Bytes) : Pausing σ :=
  let answer := (evaluationResult engine callFrameId expression).run s.inspected
  { s with inspected := answer.2, results := s.results ++ [answer.1] }

/-- A pause that has served some evaluations. -/
def duringPause (s : Pausing σ) (heap : σ) (e : Event) (requests : List (Bytes × Bytes)) :
    Pausing σ :=
  requests.foldl (fun t r => evaluate engine t r.1 r.2) (captureFrames engine host scripts s heap e)

/-- What happens to the object store. -/
inductive PauseOp (σ : Type)
  /-- The script ran on, and a pause begins. -/
  | capture (heap : σ) (e : Event)
  | evaluate (callFrameId expression : Bytes)

def PauseOp.isCapture : PauseOp σ → Bool
  | .capture .. => true
  | .evaluate .. => false

def stepOp (s : Pausing σ) : PauseOp σ → Pausing σ
  | .capture heap e => captureFrames engine host scripts s heap e
  | .evaluate callFrameId expression => evaluate engine s callFrameId expression

/-- Any number of pauses and evaluations. -/
def runOps (s : Pausing σ) (ops : List (PauseOp σ)) : Pausing σ :=
  ops.foldl (stepOp engine host scripts) s

end

/-! ## 2. The store of a pause -/

/-- The id occurs in the captured frames, in an answer, or in a stored list. -/
def HandedOut (s : Pausing σ) (oid : Bytes) : Prop :=
  ∃ v, (v = s.capturedFrames ∨ v ∈ s.results ∨
    ∃ key, SortedMap.find key s.store.objects = some v) ∧ Refers v oid

section

variable (engine : JsEngine σ α) (host : Host) (scripts : List Script)

theorem resolved_frameLocation {st : ObjectStore} (fi : FrameInfo) :
    st.Resolved (frameLocation host scripts fi) :=
  resolved_ofFields (by simp [fieldNames]) (by simp)

theorem triple_localScope (level : Nat) (fi : FrameInfo) :
    (inspecting σ).Triple (fun _ => True) (localScope engine level fi)
      (fun vs s => ∀ v ∈ vs, s.store.Resolved v) := by
  refine (triple_call (P := fun _ => True) _).bind fun vars => ?_
  cases vars.getD [] with
  | nil => exact Growth.Triple.pure fun s _ v hv => absurd hv List.not_mem_nil
  | cons v vs =>
    refine (Growth.Triple.mapM (fun _ _ _ h => h) (fun v => stable_resolved v) _
      fun local_ _ => ?_).bind fun props => ?_
    · refine (converts_jsValueToRemoteObject 0 _).bind fun value => ?_
      exact Growth.Triple.pure fun s hs => resolved_ownProperty _ hs
    · refine (triple_referring (by simp [fieldNames]) (by simp)).bind fun scope => ?_
      refine Growth.Triple.pure fun s hs w hw => ?_
      rw [List.mem_singleton.mp hw]
      exact resolved_ofFields (by simp [fieldNames]) (by simp [hs])

theorem triple_globalScope :
    (inspecting σ).Triple (fun _ => True) (globalScope engine)
      (fun vs s => ∀ v ∈ vs, s.store.Resolved v) := by
  refine (triple_call (P := fun _ => True) _).bind fun global => ?_
  refine (triple_ownProperties (converts_jsValueToRemoteObject 0) 50 global).bind fun props => ?_
  refine (triple_referring (by simp [fieldNames]) (by simp)).bind fun scope => ?_
  refine Growth.Triple.pure fun s hs w hw => ?_
  rw [List.mem_singleton.mp hw]
  exact resolved_ofFields (by simp [fieldNames]) (by simp [hs])

/-- One frame: the locals stay resolved while the global object is converted. -/
theorem triple_callFrame (fi : FrameInfo) (level : Nat) :
    (inspecting σ).Triple (fun _ => True) (callFrame engine host scripts fi level)
      (fun v s => s.store.Resolved v) := by
  refine (triple_localScope engine level fi).bind fun locals => ?_
  have hkeep : (inspecting σ).Stable fun s => ∀ v ∈ locals, s.store.Resolved v :=
    fun s t hle h v hv => stable_resolved v s t hle (h v hv)
  have hglobal := (triple_globalScope engine).frame hkeep
  refine (hglobal.weaken (fun s hs => ⟨trivial, hs⟩) fun _ _ h => h).bind fun globals => ?_
  refine Growth.Triple.pure fun s hs => resolved_ofFields (by simp [fieldNames]) ?_
  have hthis : s.store.Resolved
      (.ofFields [("type", .lit "object"), ("className", .lit "global")]) :=
    resolved_ofFields (by simp [fieldNames]) (by simp)
  have hscopes : s.store.Resolved (.array (locals ++ globals)) :=
    resolved_array.mpr fun v hv => (List.mem_append.mp hv).elim (hs.2 v) (hs.1 v)
  simp only [List.forall_mem_cons, resolved_string, resolved_frameLocation, hthis, hscopes,
    List.not_mem_nil, IsEmpty.forall_iff, implies_true, and_self]

theorem triple_evaluationResult (callFrameId expression : Bytes) :
    (inspecting σ).Triple (fun _ => True) (evaluationResult engine callFrameId expression)
      (fun v s => s.store.Resolved v) := by
  have hresult : ∀ val : α, (inspecting σ).Triple (fun _ => True)
      (do
        let value ← jsValueToRemoteObject engine 0 val
        return Value.ofFields [("result", value)])
      (fun v s => s.store.Resolved v) := by
    intro val
    refine (converts_jsValueToRemoteObject 0 val).bind fun value => ?_
    exact Growth.Triple.pure fun s hs => resolved_ofFields (by simp [fieldNames]) (by simp [hs])
  refine (triple_call (P := fun _ => True) _).bind fun vars => ?_
  cases (vars.getD []).find? fun v => v.1 == some expression with
  | some v => exact hresult v.2
  | none =>
    refine (triple_call (P := fun _ => True) _).bind fun answer => ?_
    cases answer with
    | ok val => exact hresult val
    | error text =>
      refine Growth.Triple.pure fun s _ => resolved_ofFields (by simp [fieldNames]) ?_
      have herror : s.store.Resolved (.ofFields [("type", .lit "object"), ("subtype", .lit "error"),
          ("className", .lit "Error"), ("description", .string (text.getD (ascii "Error")))]) :=
        resolved_ofFields (by simp [fieldNames]) (by simp)
      simp [herror]

/-- What holds of the store and of what was handed out, at any time. -/
structure Closed (s : Pausing σ) : Prop where
  filled : Filled s.store
  frames : s.store.Resolved s.capturedFrames
  results : ∀ v ∈ s.results, s.store.Resolved v

theorem Closed.known_of_handedOut {s : Pausing σ} (h : Closed s) {oid : Bytes}
    (ho : HandedOut s oid) : s.store.Known oid := by
  obtain ⟨v, hv, href⟩ := ho
  rcases hv with rfl | hv | ⟨key, hv⟩
  · exact h.frames oid href
  · exact h.results v hv oid href
  · exact h.filled.closed key v ((h.filled.find_iff key v).mp hv) oid href

theorem closed_new (heap : σ) : Closed (Pausing.new heap) where
  filled := filled_empty
  frames := resolved_null
  results := by
    intro v hv
    exact absurd hv List.not_mem_nil

/-- **A capture** makes a closed store, whatever was there before. -/
theorem closed_captureFrames (s : Pausing σ) (heap : σ) (e : Event) :
    Closed (captureFrames engine host scripts s heap e) := by
  have hloop := Growth.Triple.mapM (G := inspecting σ) (fun _ _ _ h => h)
    (fun v => stable_resolved v) (trackFrames s.frameStack e).zipIdx
    fun p _ => triple_callFrame engine host scripts p.1 p.2
  obtain ⟨hinv, -, hframes⟩ := hloop { heap := heap, store := .empty } filled_empty trivial
  refine ⟨hinv, ?_, fun v hv => absurd hv List.not_mem_nil⟩
  exact resolved_array.mpr hframes

/-- **An evaluation** adds to the store of the pause. -/
theorem closed_evaluate {s : Pausing σ} (h : Closed s) (callFrameId expression : Bytes) :
    Closed (evaluate engine s callFrameId expression) ∧
      s.store.stored <+: (evaluate engine s callFrameId expression).store.stored := by
  obtain ⟨hinv, hle, hresult⟩ := triple_evaluationResult engine callFrameId expression
    s.inspected h.filled trivial
  refine ⟨⟨hinv, stable_resolved _ _ _ hle h.frames, ?_⟩, hle⟩
  intro v hv
  rcases List.mem_append.mp hv with hv | hv
  · exact stable_resolved v _ _ hle (h.results v hv)
  · exact List.mem_singleton.mp hv ▸ hresult

theorem closed_stepOp {s : Pausing σ} (h : Closed s) (op : PauseOp σ) :
    Closed (stepOp engine host scripts s op) := by
  cases op with
  | capture heap e => exact closed_captureFrames engine host scripts s heap e
  | evaluate callFrameId expression => exact (closed_evaluate engine h callFrameId expression).1

theorem closed_runOps {s : Pausing σ} (h : Closed s) (ops : List (PauseOp σ)) :
    Closed (runOps engine host scripts s ops) := by
  induction ops generalizing s with
  | nil => exact h
  | cons op ops ih => exact ih (closed_stepOp engine host scripts h op)

/-- Until the next capture nothing leaves the store. -/
theorem stored_runOps {s : Pausing σ} (h : Closed s) {ops : List (PauseOp σ)}
    (hops : ∀ op ∈ ops, op.isCapture = false) :
    s.store.stored <+: (runOps engine host scripts s ops).store.stored := by
  induction ops generalizing s with
  | nil => exact List.prefix_rfl
  | cons op ops ih =>
    obtain ⟨hop, hrest⟩ := List.forall_mem_cons.mp hops
    cases op with
    | capture heap e => exact absurd hop (by simp [PauseOp.isCapture])
    | evaluate callFrameId expression =>
      obtain ⟨hclosed, hle⟩ := closed_evaluate engine h callFrameId expression
      exact hle.trans (ih hclosed hrest)

/-- **The store of a pause is closed**, however many evaluations it has served; and each of them
is answered. -/
theorem closed_duringPause (s : Pausing σ) (heap : σ) (e : Event)
    (requests : List (Bytes × Bytes)) :
    Closed (duringPause engine host scripts s heap e requests) ∧
      (duringPause engine host scripts s heap e requests).results.length = requests.length := by
  have hloop : ∀ (rs : List (Bytes × Bytes)) (t : Pausing σ), Closed t →
      Closed (rs.foldl (fun t r => evaluate engine t r.1 r.2) t) ∧
        (rs.foldl (fun t r => evaluate engine t r.1 r.2) t).results.length =
          t.results.length + rs.length := by
    intro rs
    induction rs with
    | nil => exact fun t ht => ⟨ht, rfl⟩
    | cons r rs ih =>
      intro t ht
      obtain ⟨hclosed, hlen⟩ := ih _ (closed_evaluate engine ht r.1 r.2).1
      refine ⟨hclosed, ?_⟩
      rw [List.foldl_cons, hlen, List.length_cons]
      simp only [evaluate, List.length_append, List.length_singleton]
      omega
  obtain ⟨hclosed, hlen⟩ := hloop requests _
    (closed_captureFrames engine host scripts s heap e)
  exact ⟨hclosed, by simpa [duringPause, captureFrames] using hlen⟩

/-- The CDP handler looks an id up in the store of the pause. -/
theorem getProperties_store (srv : Cdp.Server) (st : ObjectStore) (oid : Bytes) :
    Cdp.getProperties { srv with objectStore := st.objects } oid = st.getProperties oid := rfl

/-! ## 3. What an id means -/

/-- The ids of a filled store, one by one. -/
theorem Filled.fst_of_getElem? {st : ObjectStore} (h : Filled st) {k : Nat} {p : Bytes × Value}
    (hk : st.stored[k]? = some p) : p.1 = objectId (k + 1) := by
  have hlt := (List.getElem?_eq_some_iff.mp hk).1
  have hmap : (st.stored.map Prod.fst)[k]? = some p.1 := by rw [List.getElem?_map, hk]; rfl
  rw [h.ids_eq, List.getElem?_map, List.getElem?_range hlt] at hmap
  exact (Option.some.inj hmap).symm

/-- The `k`-th list, and the empty list when fewer were stored. -/
def ObjectStore.nthList (st : ObjectStore) (k : Nat) : Value :=
  ((st.stored[k]?).map Prod.snd).getD (.array [])

/-- The `k`-th id of a filled store returns the `k`-th list. -/
theorem Filled.getProperties_nth {st : ObjectStore} (h : Filled st) (k : Nat) :
    st.getProperties (objectId (k + 1)) = .ofFields [("result", st.nthList k)] := by
  unfold ObjectStore.nthList
  cases hk : st.stored[k]? with
  | some p =>
    refine h.getProperties_eq ?_
    rw [← h.fst_of_getElem? hk]
    exact List.mem_of_getElem? hk
  | none =>
    have hnone : SortedMap.find (objectId (k + 1)) st.objects = none := by
      by_contra hc
      obtain ⟨props, hfind⟩ := Option.ne_none_iff_exists'.mp hc
      obtain ⟨j, hj⟩ := List.mem_iff_getElem?.mp ((h.find_iff _ _).mp hfind)
      have hjk := objectId_injective (by omega) (by omega) (h.fst_of_getElem? hj)
      obtain rfl : k = j := by omega
      rw [hk] at hj
      exact absurd hj (by simp)
    rw [ObjectStore.getProperties, hnone]
    rfl

/-- What the client gets for an id stays the same, or becomes empty, over any number of pauses. -/
def IdsKeepMeaning (engine : JsEngine σ α) (host : Host) (scripts : List Script) (heap : σ) :
    Prop :=
  ∀ (ops₁ ops₂ : List (PauseOp σ)) (oid : Bytes),
    let s := runOps engine host scripts (.new heap) ops₁
    let t := runOps engine host scripts (.new heap) (ops₁ ++ ops₂)
    HandedOut s oid → t.store.getProperties oid = s.store.getProperties oid ∨
      t.store.getProperties oid = .ofFields [("result", .array [])]

/-- **An id means the same until the next capture.**  For every run of pauses and evaluations: an
id that was handed out in it names the `k`-th list stored since the last capture, for some `k`;
as long as no capture follows, it returns that list; and after any further operations it returns
the list that is then the `k`-th since the last capture, or the empty list when there are fewer. -/
theorem object_id_meaning (engine : JsEngine σ α) (host : Host) (scripts : List Script) (heap : σ)
    (ops₁ : List (PauseOp σ)) (oid : Bytes)
    (h : HandedOut (runOps engine host scripts (.new heap) ops₁) oid) :
    ∃ k props, (runOps engine host scripts (.new heap) ops₁).store.stored[k]? = some (oid, props) ∧
      ∀ ops₂ : List (PauseOp σ),
        let t := runOps engine host scripts (.new heap) (ops₁ ++ ops₂)
        ((∀ op ∈ ops₂, op.isCapture = false) →
          t.store.getProperties oid = .ofFields [("result", props)]) ∧
        t.store.getProperties oid = .ofFields [("result", t.store.nthList k)] := by
  have hs : Closed (runOps engine host scripts (.new heap) ops₁) :=
    closed_runOps engine host scripts (closed_new heap) _
  obtain ⟨props, hmem⟩ := hs.known_of_handedOut h
  obtain ⟨k, hk⟩ := List.mem_iff_getElem?.mp hmem
  refine ⟨k, props, hk, fun ops₂ => ⟨fun hops => ?_, ?_⟩⟩
  · have ht := closed_runOps engine host scripts
      (closed_new heap) (ops₁ ++ ops₂)
    rw [runOps, List.foldl_append] at ht ⊢
    exact ht.filled.getProperties_eq ((stored_runOps engine host scripts hs hops).subset hmem)
  · have ht := closed_runOps engine host scripts
      (closed_new heap) (ops₁ ++ ops₂)
    have hid := hs.filled.fst_of_getElem? hk
    simp only at hid
    rw [hid]
    exact ht.filled.getProperties_nth k

end

/-- An engine with two objects, 0 with a property `x` and 1 with a property `y`, neither of which
ever changes; the heap says which of them the local `v` holds. -/
def twoObjects : JsEngine Nat Nat where
  kind := fun _ val => if val < 2 then .object else .undefined
  length := fun _ heap => (0, heap)
  element := fun _ _ heap => (2, heap)
  ownPropertyNames := fun val heap => (if val < 2 then some [val] else none, heap)
  property := fun _ _ heap => (2, heap)
  atomToCString := fun _ atom => some (if atom = 0 then ascii "x" else ascii "y")
  global := fun _ => 2
  locals := fun heap _ => some [(some (ascii "v"), heap)]
  eval := fun _ heap => (.ok 2, heap)
  fmt17g := fun _ => []

/-- The name of the first property in an answer to `get_properties`. -/
def firstName (answer : Value) : Bytes :=
  match answer.index (ascii "result") with
  | .array (p :: _) => (p.index (ascii "name")).getString
  | _ => []

/-- A pause at `lineThree` while `v` holds the given object. -/
def pauseWith (object : Nat) : PauseOp Nat := .capture object lineThree

/-- The object that `v` holds is the first one that is stored, and the scope refers to it. -/
theorem first_object_handedOut :
    HandedOut (runOps twoObjects posixHost [] (.new 0) [pauseWith 0]) (objectId 1) := by
  refine ⟨.array [ownProperty (ascii "v") ((Value.ofFields [("type", .lit "object"),
    ("className", .lit "Object"), ("description", .lit "Object")]).set (ascii "objectId")
      (.string (objectId 1)))], Or.inr (Or.inr ⟨objectId 2, rfl⟩), ?_⟩
  exact .element (List.mem_singleton.mpr rfl) (refers_ownProperty _ (refers_setObjectId _ _))

/-- The rule at that object: it is the first of its pause. -/
theorem object_id_meaning_first :
    HandedOut (runOps twoObjects posixHost [] (.new 0) [pauseWith 0]) (objectId 1) ∧
      ∃ k props, (runOps twoObjects posixHost [] (.new 0) [pauseWith 0]).store.stored[k]? =
          some (objectId 1, props) ∧
        ∀ ops₂ : List (PauseOp Nat),
          let t := runOps twoObjects posixHost [] (.new 0) ([pauseWith 0] ++ ops₂)
          ((∀ op ∈ ops₂, op.isCapture = false) →
            t.store.getProperties (objectId 1) = .ofFields [("result", props)]) ∧
          t.store.getProperties (objectId 1) = .ofFields [("result", t.store.nthList k)] :=
  ⟨first_object_handedOut,
    object_id_meaning twoObjects posixHost [] 0 [pauseWith 0] (objectId 1) first_object_handedOut⟩

/-- **An id of an earlier pause names another object.**  In the first pause `v` holds the object
with the property `x`, in the second one the object with the property `y`.  Both are the first
object of their pause, so the id that the client has kept from the first pause is answered with
the properties of the second object. -/
theorem object_id_reused : ¬ IdsKeepMeaning twoObjects posixHost [] 0 := by
  intro h
  have hfirst : firstName ((runOps twoObjects posixHost [] (.new 0)
      [pauseWith 0]).store.getProperties (objectId 1)) = ascii "x" := by decide
  have hsecond : firstName ((runOps twoObjects posixHost [] (.new 0)
      ([pauseWith 0] ++ [pauseWith 1])).store.getProperties (objectId 1)) = ascii "y" := by decide
  rcases h [pauseWith 0] [pauseWith 1] (objectId 1) first_object_handedOut with heq | heq
  · rw [heq, hfirst] at hsecond
    exact absurd hsecond (by decide)
  · rw [heq] at hsecond
    exact absurd hsecond (by decide)

end Objects

end QjsDebug
