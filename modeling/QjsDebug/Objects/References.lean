/-
# The references of the debugger

Every value that the engine hands out is a reference that the debugger owns and has to give back:
`JS_FreeValue`, `JS_FreeAtom`, `JS_FreeCString`, `js_free`, `JS_FreeLocalVariables`.  The model of
`js_value_to_remote_object`, `capture_frames` and the evaluation in `do_pause` says what they build
and not what they own, so §2 has each of them again with every call that obtains, reads or frees a
reference written down (`Counted`).

* §4  over any run of pauses and evaluations, on any heap, the counted code builds what the model
      builds, never frees or reads what it does not own, and frees what it obtained -- EXCEPT the
      arrays of locals that came back with no variable in them: both places free the array under
      `if (vars && var_count > 0)` (`pauses_own_references`);
* §5  `evaluate_condition` frees the array whenever there is one, and everything else on each of
      its paths (`condition_owns_references`).

The references inside a value are the engine's affair.
-/
import QjsDebug.Lib.Ownership
import QjsDebug.Objects.Capture

namespace QjsDebug

open Json (Value)
open Cdp (Script frameLocation)
open Ownership

namespace Objects

/-! ## 1. References -/

/-- What the engine hands out. -/
inductive Ref (α : Type)
  | value (v : α)
  /-- The value of the property `length`. -/
  | length (of : α)
  /-- `JS_EXCEPTION`, and the exception that `JS_GetException` takes out of the context. -/
  | failed
  | exception (text : Option Bytes)
  | atom (a : Nat)
  /-- The table of `JS_GetOwnPropertyNames`. -/
  | names (of : α)
  /-- The characters of `JS_ToCString` and `JS_AtomToCString`. -/
  | chars (s : Bytes)
  /-- The array of `JS_GetLocalVariablesAtLevel`. -/
  | locals (vars : List (Option Bytes × α))
  deriving DecidableEq

/-- An array of locals without a variable. -/
def Ref.isEmptyArray {α : Type} : Ref α → Bool
  | .locals [] => true
  | _ => false

/-- A piece of the code with its references. -/
abbrev Owner (σ α : Type) := Counting (Ref α) (Inspected σ)

/-! ## 2. The code with its references -/

namespace Counted

section

variable {σ α : Type} (engine : JsEngine σ α)

/-- `JS_GetLocalVariablesAtLevel`: the array owns its values. -/
def getLocalVariablesAtLevel (level : Int) : Owner σ α (Option (List (Option Bytes × α))) := do
  let vars ← plain (ask fun heap => engine.locals heap level)
  match vars with
  | some vars =>
    take (.locals vars)
    (vars.map fun v => Ref.value v.2).forM take
    return some vars
  | none => return none

/-- `JS_FreeLocalVariables`. -/
def freeLocalVariables (vars : List (Option Bytes × α)) : Owner σ α PUnit := do
  (vars.map fun v => Ref.value v.2).forM give
  give (.locals vars)

/-- The loop over the own properties of an object, as far as `limit`. -/
def ownProperties (convert : α → Owner σ α Value) (limit : Nat) (val : α) :
    Owner σ α (List Value) := do
  use (.value val)
  let names ← plain (call (engine.ownPropertyNames val))
  match names with
  | some atoms =>
    take (.names val)
    (atoms.map Ref.atom).forM take
    let props ← (atoms.take limit).mapM' fun atom => do
      use (.names val)
      use (.atom atom)
      use (.value val)
      let pval ← plain (call (engine.property val atom))
      take (.value pval)
      let pname ← plain (ask fun heap => engine.atomToCString heap atom)
      match pname with
      | some pname =>
        take (.chars pname)
        let value ← convert pval
        use (.chars pname)
        give (.chars pname)
        give (.value pval)
        return some (ownProperty pname value)
      | none =>
        give (.value pval)
        return none
    (atoms.map Ref.atom).forM give
    give (.names val)
    return props.reduceOption
  | none => return []

/-- The loop over the elements of an array. -/
def elements (convert : α → Owner σ α Value) (len : Int) (val : α) : Owner σ α (List Value) :=
  (List.range (min len.toNat 100)).mapM' fun i => do
    use (.value val)
    let elem ← plain (call (engine.element val i))
    take (.value elem)
    let value ← convert elem
    give (.value elem)
    return ownProperty (decimal i) value

/-- The depth gate. -/
def gated (child : Option (α → Owner σ α Value))
    (loop : (α → Owner σ α Value) → Owner σ α (List Value)) : Owner σ α (List Value) :=
  match child with
  | some convert => loop convert
  | none => pure []

/-- `js_value_to_remote_object`, given how children are converted. -/
def remoteObject (child : Option (α → Owner σ α Value)) (val : α) : Owner σ α Value := do
  use (.value val)
  let kind ← plain (ask fun heap => engine.kind heap val)
  match kind with
  | .string (some s) =>
    take (.chars s)
    use (.chars s)
    give (.chars s)
    return plainObject engine (.string (some s))
  | .function =>
    plain (referring [("type", .lit "function"), ("className", .lit "Function"),
      ("description", .lit "function()")] [])
  | .array =>
    let len ← plain (call (engine.length val))
    take (.length val)
    use (.length val)
    give (.length val)
    let props ← gated child fun convert => elements engine convert len val
    plain (referring [("type", .lit "object"), ("subtype", .lit "array"),
      ("className", .lit "Array"),
      ("description", .string (ascii "Array(" ++ decimal len ++ ascii ")"))]
      (props ++ [lengthProperty len]))
  | .object =>
    let props ← gated child fun convert => ownProperties engine convert 100 val
    plain (referring [("type", .lit "object"), ("className", .lit "Object"),
      ("description", .lit "Object")] props)
  | kind => return plainObject engine kind

/-- The conversion with so many levels left below it. -/
def convertLevels : Nat → α → Owner σ α Value
  | 0 => remoteObject engine none
  | levels + 1 => remoteObject engine (some (convertLevels levels))

/-- `js_value_to_remote_object(val, group, depth)`. -/
def jsValueToRemoteObject (depth : Nat) (val : α) : Owner σ α Value :=
  convertLevels engine (kMaxRemoteObjectDepth - depth) val

/-- The local scope of a frame; an array without variables is not freed. -/
def localScope (level : Nat) (fi : FrameInfo) : Owner σ α (List Value) := do
  let vars ← getLocalVariablesAtLevel engine level
  match vars.getD [] with
  | [] => return []
  | v :: vs =>
    let props ← (v :: vs).mapM' fun local_ => do
      use (.locals (v :: vs))
      let value ← jsValueToRemoteObject engine 0 local_.2
      return ownProperty (local_.1.getD []) value
    freeLocalVariables (v :: vs)
    let scope ← plain (referring [("type", .lit "object"), ("className", .lit "Object")] props)
    return [.ofFields [("type", .lit "local"), ("object", scope),
      ("name", .string (frameName fi))]]

/-- The global scope. -/
def globalScope : Owner σ α (List Value) := do
  let global ← plain (ask engine.global)
  take (.value global)
  let props ← ownProperties engine (jsValueToRemoteObject engine 0) 50 global
  give (.value global)
  let scope ← plain (referring [("type", .lit "object"), ("className", .lit "Object")] props)
  return [.ofFields [("type", .lit "global"), ("object", scope)]]

/-- The characters of the exception, if `JS_ToCString` finds any, and its description. -/
def describeException (text : Option Bytes) : Owner σ α Value := do
  use (.exception text)
  match text with
  | some s =>
    take (.chars s)
    use (.chars s)
    give (.chars s)
    return .ofFields [("type", .lit "object"), ("subtype", .lit "error"),
      ("className", .lit "Error"), ("description", .string s)]
  | none =>
    return .ofFields [("type", .lit "object"), ("subtype", .lit "error"),
      ("className", .lit "Error"), ("description", .lit "Error")]

/-- The fallback of an evaluation: the expression as a script. -/
def globalEval (expression : Bytes) : Owner σ α Value := do
  let global ← plain (ask engine.global)
  take (.value global)
  let answer ← plain (call (engine.eval expression))
  match answer with
  | .ok val =>
    take (.value val)
    let value ← jsValueToRemoteObject engine 0 val
    give (.value val)
    give (.value global)
    return .ofFields [("result", value)]
  | .error text =>
    take .failed
    take (.exception text)
    let error ← describeException text
    give (.exception text)
    give .failed
    give (.value global)
    return .ofFields [("result", error), ("exceptionDetails", .object [])]

/-- The answer to an evaluation: the array of the frame is freed whether or not a local in it is
the answer, unless it is empty. -/
def evaluationResult (callFrameId expression : Bytes) : Owner σ α Value := do
  let vars ← getLocalVariablesAtLevel engine (frameLevel callFrameId)
  match vars.getD [] with
  | [] => globalEval engine expression
  | v :: vs =>
    use (.locals (v :: vs))
    match (v :: vs).find? fun v => v.1 == some expression with
    | some v' =>
      let value ← jsValueToRemoteObject engine 0 v'.2
      freeLocalVariables (v :: vs)
      return .ofFields [("result", value)]
    | none =>
      freeLocalVariables (v :: vs)
      globalEval engine expression

variable (host : Host) (scripts : List Script)

/-- The description of one frame. -/
def callFrame (fi : FrameInfo) (level : Nat) : Owner σ α Value := do
  let locals ← localScope engine level fi
  let globals ← globalScope engine
  return .ofFields [("callFrameId", .string (decimal level)),
    ("functionName", .string (frameName fi)), ("location", frameLocation host scripts fi),
    ("url", .string (toFileUrl fi.filename)), ("scopeChain", .array (locals ++ globals)),
    ("this", .ofFields [("type", .lit "object"), ("className", .lit "global")])]

/-- `capture_frames`. -/
def captureFrames (heap : σ) (e : Event) : Counting (Ref α) (Pausing σ) PUnit :=
  within (fun _ => { heap := heap, store := .empty })
    (fun s => (trackFrames s.frameStack e).zipIdx.mapM' fun p =>
      callFrame engine host scripts p.1 p.2)
    fun s frames => (⟨⟩,
      { inspected := frames.2
        frameStack := trackFrames s.frameStack e
        capturedFrames := .array frames.1
        results := [] })

/-- An evaluation served by `do_pause`. -/
def evaluate (callFrameId expression : Bytes) : Counting (Ref α) (Pausing σ) PUnit :=
  within Pausing.inspected (fun _ => evaluationResult engine callFrameId expression)
    fun s answer => (⟨⟩, { s with inspected := answer.2, results := s.results ++ [answer.1] })

def stepOp : PauseOp σ → Counting (Ref α) (Pausing σ) PUnit
  | .capture heap e => captureFrames engine host scripts heap e
  | .evaluate callFrameId expression => evaluate engine callFrameId expression

/-- Any number of pauses and evaluations. -/
def runOps (ops : List (PauseOp σ)) : Counting (Ref α) (Pausing σ) PUnit :=
  ops.forM (stepOp engine host scripts)

end

end Counted

/-! ## 3. The steps own what they should -/

section

variable {σ α : Type} {engine : JsEngine σ α}

/-- What is owned after `JS_GetLocalVariablesAtLevel`. -/
def withArray (K : Ref α → Bool) (pre : Multiset (Ref α)) :
    Option (List (Option Bytes × α)) → Multiset (Ref α)
  | some vars =>
    ↑(vars.map fun v => Ref.value v.2) + if K (.locals vars) then pre else .locals vars ::ₘ pre
  | none => pre

theorem withArray_isEmptyArray (pre : Multiset (Ref α)) (vars : Option (List (Option Bytes × α))) :
    withArray Ref.isEmptyArray pre vars =
      match vars.getD [] with
      | [] => pre
      | v :: vs => ↑((v :: vs).map fun v => Ref.value v.2) + .locals (v :: vs) ::ₘ pre := by
  cases vars with
  | none => rfl
  | some vars =>
    cases vars with
    | nil => exact zero_add pre
    | cons v vs => rfl

/-- A value in an array of locals. -/
theorem value_mem_array {v : Option Bytes × α} {vars : List (Option Bytes × α)} (h : v ∈ vars)
    (pre : Multiset (Ref α)) :
    .value v.2 ∈ ((vars.map fun v => Ref.value v.2 : List (Ref α)) : Multiset (Ref α)) +
      .locals vars ::ₘ pre :=
  Multiset.mem_add.mpr (.inl (Multiset.mem_coe.mpr (List.mem_map_of_mem h)))

variable [DecidableEq α]

/-- The code does what the model does, and leaves what is owned as it was, but for empty arrays. -/
def Balanced {β γ : Type} (pre : Multiset (Ref α)) (m : Counting (Ref α) β γ) (m' : StateM β γ) :
    Prop :=
  Owns Ref.isEmptyArray pre m m' fun _ => pre

/-- The conversion of a value that somebody owns. -/
def Borrows (convert : α → Owner σ α Value) (convert' : α → Inspect σ Value) : Prop :=
  ∀ val pre, Ref.value val ∈ pre → Balanced pre (convert val) (convert' val)

theorem owns_getLocalVariablesAtLevel {K : Ref α → Bool} (hK : ∀ v, K (.value v) = false)
    (level : Int) (pre : Multiset (Ref α)) :
    Owns K pre (Counted.getLocalVariablesAtLevel engine level)
      (ask fun heap => engine.locals heap level) (withArray K pre) := by
  have hvalues : ∀ vars : List (Option Bytes × α), ∀ r ∈ vars.map fun v => Ref.value v.2,
      K r = false := by
    intro vars r hr
    obtain ⟨v, -, rfl⟩ := List.mem_map.mp hr
    exact hK v.2
  have hplain : (ask fun heap => engine.locals heap level : Inspect σ _) =
      (ask fun heap => engine.locals heap level) >>= Pure.pure := (bind_pure _).symm
  rw [hplain]
  refine Owns.plain fun vars => ?_
  cases vars with
  | none => exact Owns.pure rfl
  | some vars =>
    cases hempty : K (.locals vars) with
    | true =>
      refine Owns.lose hempty (Owns.takes (hvalues vars) (Owns.pure ?_))
      simp [withArray, hempty]
    | false =>
      refine Owns.take hempty (Owns.takes (hvalues vars) (Owns.pure ?_))
      simp [withArray, hempty]

theorem owns_freeLocalVariables {K : Ref α → Bool} {vars : List (Option Bytes × α)}
    {pre post : Multiset (Ref α)} {β : Type} {m : Owner σ α β} {m' : Inspect σ β}
    (hm : Owns K pre m m' fun _ => post) :
    Owns K (↑(vars.map fun v => Ref.value v.2) + .locals vars ::ₘ pre)
      (Counted.freeLocalVariables vars >>= fun _ => m) m' fun _ => post := by
  have hgive : Owns K (.locals vars ::ₘ pre) (give (.locals vars) : Owner σ α PUnit)
      (Pure.pure ⟨⟩) fun _ => pre := Owns.give (Owns.pure (b := PUnit.unit) rfl)
  have hfree : Owns K (↑(vars.map fun v => Ref.value v.2) + .locals vars ::ₘ pre)
      (Counted.freeLocalVariables vars : Owner σ α PUnit) (Pure.pure ⟨⟩) fun _ => pre :=
    Owns.gives hgive
  exact hfree.bind fun _ => hm

/-- **The loop over the properties** frees each value and its name in the round, and the atoms and
the table behind the loop. -/
theorem balanced_ownProperties {convert : α → Owner σ α Value} {convert' : α → Inspect σ Value}
    (h : Borrows convert convert') (limit : Nat) {val : α} {pre : Multiset (Ref α)}
    (hval : Ref.value val ∈ pre) :
    Balanced pre (Counted.ownProperties engine convert limit val)
      (ownProperties engine convert' limit val) := by
  refine Owns.use hval (Owns.plain fun names => ?_)
  cases names with
  | none =>
    rw [Option.getD_none, List.take_nil, List.mapM_nil]
    exact Owns.pure rfl
  | some atoms =>
    have hatoms : ∀ r ∈ atoms.map (Ref.atom (α := α)), r.isEmptyArray = false := by
      intro r hr
      obtain ⟨a, -, rfl⟩ := List.mem_map.mp hr
      rfl
    refine Owns.take rfl (Owns.takes hatoms ?_)
    have hnames : .names val ∈ ((atoms.map Ref.atom : List (Ref α)) : Multiset (Ref α)) +
        .names val ::ₘ pre := by simp
    have hloop : .value val ∈ ((atoms.map Ref.atom : List (Ref α)) : Multiset (Ref α)) +
        .names val ::ₘ pre := by simp [hval]
    refine Owns.bind (Owns.mapM _ fun atom ha => ?_) fun props => ?_
    · have hatom : .atom atom ∈ ((atoms.map Ref.atom : List (Ref α)) : Multiset (Ref α)) +
          .names val ::ₘ pre := by
        simp [List.mem_of_mem_take ha]
      refine Owns.use hnames (Owns.use hatom (Owns.use hloop (Owns.plain fun pval => ?_)))
      refine Owns.take rfl (Owns.plain fun pname => ?_)
      cases pname with
      | none => exact Owns.give (Owns.pure rfl)
      | some pname =>
        refine Owns.take rfl (Owns.bind (h pval _ (by simp)) fun value => ?_)
        exact Owns.use (by simp) (Owns.give (Owns.give (Owns.pure rfl)))
    · exact Owns.gives (Owns.give (Owns.pure rfl))

/-- **The loop over the elements** frees each one in its round. -/
theorem balanced_elements {convert : α → Owner σ α Value} {convert' : α → Inspect σ Value}
    (h : Borrows convert convert') (len : Int) {val : α} {pre : Multiset (Ref α)}
    (hval : Ref.value val ∈ pre) :
    Balanced pre (Counted.elements engine convert len val) (elements engine convert' len val) := by
  refine Owns.mapM _ fun i _ => ?_
  refine Owns.use hval (Owns.plain fun elem => Owns.take rfl ?_)
  refine Owns.bind (h elem _ (by simp)) fun value => ?_
  exact Owns.give (Owns.pure rfl)

/-- What is converted below a value: nothing, or values that are balanced. -/
def BorrowsChild (child : Option (α → Owner σ α Value)) (child' : Option (α → Inspect σ Value)) :
    Prop :=
  Option.Rel Borrows child child'

theorem balanced_gated {child : Option (α → Owner σ α Value)}
    {child' : Option (α → Inspect σ Value)} (h : BorrowsChild child child')
    {loop : (α → Owner σ α Value) → Owner σ α (List Value)}
    {loop' : (α → Inspect σ Value) → Inspect σ (List Value)} {pre : Multiset (Ref α)}
    (hloop : ∀ convert convert', Borrows convert convert' →
      Balanced pre (loop convert) (loop' convert')) :
    Balanced pre (Counted.gated child loop) (gated child' loop') := by
  cases h with
  | none => exact Owns.pure rfl
  | some h => exact hloop _ _ h

/-- One level of the conversion. -/
theorem borrows_remoteObject {child : Option (α → Owner σ α Value)}
    {child' : Option (α → Inspect σ Value)} (h : BorrowsChild child child') :
    Borrows (Counted.remoteObject engine child) (remoteObject engine child') := by
  intro val pre hval
  refine Owns.use hval (Owns.plain fun kind => ?_)
  cases kind with
  | function => exact Owns.last
  | array =>
    refine Owns.plain fun len => ?_
    refine Owns.take rfl (Owns.use (by simp) (Owns.give ?_))
    refine Owns.bind (balanced_gated h fun _ _ hc => balanced_elements hc len hval) fun props => ?_
    exact Owns.last
  | object =>
    refine Owns.bind (balanced_gated h fun _ _ hc => balanced_ownProperties hc 100 hval)
      fun props => ?_
    exact Owns.last
  | string s =>
    cases s with
    | none => exact Owns.pure rfl
    | some s => exact Owns.take rfl (Owns.use (by simp) (Owns.give (Owns.pure rfl)))
  | _ => exact Owns.pure rfl

theorem borrows_convertLevels (levels : Nat) :
    Borrows (Counted.convertLevels engine levels) (convertLevels engine levels) := by
  induction levels with
  | zero => exact borrows_remoteObject .none
  | succ levels ih => exact borrows_remoteObject (.some ih)

/-- **The conversion**, at any depth. -/
theorem borrows_jsValueToRemoteObject (depth : Nat) :
    Borrows (Counted.jsValueToRemoteObject engine depth) (jsValueToRemoteObject engine depth) :=
  borrows_convertLevels _

/-! ## 4. Pauses -/

theorem balanced_localScope (level : Nat) (fi : FrameInfo) (pre : Multiset (Ref α)) :
    Balanced pre (Counted.localScope engine level fi) (localScope engine level fi) := by
  refine Owns.bind (owns_getLocalVariablesAtLevel (fun _ => rfl) level pre) fun vars => ?_
  rw [withArray_isEmptyArray]
  cases vars.getD [] with
  | nil => exact Owns.pure rfl
  | cons v vs =>
    refine Owns.bind (Owns.mapM _ fun local_ hl => ?_) fun props => ?_
    · refine Owns.use (by simp) ?_
      refine Owns.bind
        (borrows_jsValueToRemoteObject 0 _ _ (value_mem_array hl pre)) fun value => ?_
      exact Owns.pure rfl
    · refine owns_freeLocalVariables ?_
      exact Owns.plain fun scope => Owns.pure rfl

theorem balanced_globalScope (pre : Multiset (Ref α)) :
    Balanced pre (Counted.globalScope engine) (globalScope engine) := by
  refine Owns.plain fun global => Owns.take rfl ?_
  refine Owns.bind (balanced_ownProperties (borrows_jsValueToRemoteObject 0) 50 (by simp))
    fun props => ?_
  exact Owns.give (Owns.plain fun scope => Owns.pure rfl)

theorem balanced_callFrame (host : Host) (scripts : List Script) (fi : FrameInfo) (level : Nat)
    (pre : Multiset (Ref α)) :
    Balanced pre (Counted.callFrame engine host scripts fi level)
      (callFrame engine host scripts fi level) := by
  refine Owns.bind (balanced_localScope level fi pre) fun locals => ?_
  refine Owns.bind (balanced_globalScope pre) fun globals => ?_
  exact Owns.pure rfl

/-- A question whose answer only the references need. -/
theorem owns_ask {K : Ref α → Bool} {pre : Multiset (Ref α)} {β γ : Type} {g : σ → γ}
    {f : γ → Owner σ α β} {m' : Inspect σ β} {post : β → Multiset (Ref α)}
    (hf : ∀ b, Owns K pre (f b) m' post) : Owns K pre (plain (ask g) >>= f) m' post :=
  @Owns.plain _ _ _ _ _ K pre (ask g) f (fun _ => m') post hf

theorem balanced_describeException {text : Option Bytes} {pre : Multiset (Ref α)}
    (h : Ref.exception text ∈ pre) :
    Balanced pre (Counted.describeException text : Owner σ α Value)
      (Pure.pure (.ofFields [("type", .lit "object"), ("subtype", .lit "error"),
        ("className", .lit "Error"), ("description", .string (text.getD (ascii "Error")))])) := by
  refine Owns.use h ?_
  cases text with
  | none => exact Owns.pure rfl
  | some s => exact Owns.take rfl (Owns.use (by simp) (Owns.give (Owns.pure rfl)))

/-- **The fallback** frees the global object, and the value or the exception, on either path. -/
theorem balanced_globalEval (expression : Bytes) (pre : Multiset (Ref α)) :
    Balanced pre (Counted.globalEval engine expression)
      (do
        let answer ← call (engine.eval expression)
        match answer with
        | .ok val => do
          let value ← jsValueToRemoteObject engine 0 val
          return .ofFields [("result", value)]
        | .error text =>
          return .ofFields
            [("result", .ofFields [("type", .lit "object"), ("subtype", .lit "error"),
              ("className", .lit "Error"), ("description", .string (text.getD (ascii "Error")))]),
              ("exceptionDetails", .object [])]) := by
  refine owns_ask fun global => Owns.take rfl (Owns.plain fun answer => ?_)
  cases answer with
  | ok val =>
    refine Owns.take rfl (Owns.bind (borrows_jsValueToRemoteObject 0 _ _ (by simp)) fun value => ?_)
    exact Owns.give (Owns.give (Owns.pure rfl))
  | error text =>
    refine Owns.take rfl (Owns.take rfl ?_)
    have hrest : ∀ error : Value,
        Owns Ref.isEmptyArray (.exception text ::ₘ .failed ::ₘ .value global ::ₘ pre)
          (do
            give (.exception text)
            give .failed
            give (.value global)
            return .ofFields [("result", error), ("exceptionDetails", .object [])] :
            Owner σ α Value)
          (Pure.pure (Value.ofFields [("result", error), ("exceptionDetails", .object [])]))
          fun _ => pre :=
      fun error => Owns.give (Owns.give (Owns.give (Owns.pure rfl)))
    exact Owns.bind (balanced_describeException (by simp)) hrest

/-- **An evaluation** gives back the array before it runs the script, if no local answers it, and
the result of the script after it is converted. -/
theorem balanced_evaluationResult (callFrameId expression : Bytes) (pre : Multiset (Ref α)) :
    Balanced pre (Counted.evaluationResult engine callFrameId expression)
      (evaluationResult engine callFrameId expression) := by
  refine Owns.bind (owns_getLocalVariablesAtLevel (fun _ => rfl) _ pre) fun vars => ?_
  rw [withArray_isEmptyArray]
  cases vars.getD [] with
  | nil => exact balanced_globalEval expression pre
  | cons v vs =>
    refine Owns.use (by simp) ?_
    cases hfind : (v :: vs).find? fun v => v.1 == some expression with
    | none => exact owns_freeLocalVariables (balanced_globalEval expression pre)
    | some v' =>
      have hmem := value_mem_array (List.mem_of_find?_eq_some hfind) pre
      refine Owns.bind (borrows_jsValueToRemoteObject 0 _ _ hmem) fun value => ?_
      exact owns_freeLocalVariables (Owns.pure rfl)

theorem balanced_captureFrames (host : Host) (scripts : List Script) (heap : σ) (e : Event) :
    Balanced 0 (Counted.captureFrames engine host scripts heap e)
      (fun s => (⟨⟩, captureFrames engine host scripts s heap e)) :=
  Owns.within fun _ => Owns.mapM _ fun p _ => balanced_callFrame host scripts p.1 p.2 0

theorem balanced_evaluate (callFrameId expression : Bytes) :
    Balanced 0 (Counted.evaluate engine callFrameId expression)
      (fun s => (⟨⟩, evaluate engine s callFrameId expression)) :=
  Owns.within fun _ => balanced_evaluationResult callFrameId expression 0

/-- One pause, or one evaluation. -/
theorem balanced_stepOp (host : Host) (scripts : List Script) (op : PauseOp σ) :
    Balanced 0 (Counted.stepOp engine host scripts op)
      (fun s => (⟨⟩, stepOp engine host scripts s op)) := by
  cases op with
  | capture heap e => exact balanced_captureFrames host scripts heap e
  | evaluate callFrameId expression => exact balanced_evaluate callFrameId expression

/-- Any number of them. -/
theorem balanced_runOps (host : Host) (scripts : List Script) (ops : List (PauseOp σ)) :
    Balanced 0 (Counted.runOps engine host scripts ops)
      (fun s => (⟨⟩, runOps engine host scripts s ops)) := by
  induction ops with
  | nil => exact Owns.pure rfl
  | cons op ops ih => exact Owns.bind (balanced_stepOp host scripts op) fun _ => ih

end

/-- **The references of a debugging session.**  Over any run of pauses and evaluations the code
builds what the model builds; it never reads or frees a reference that it does not own; and of
what it obtained it keeps the empty arrays of locals, each of them, and nothing else. -/
theorem pauses_own_references {σ α : Type} [DecidableEq α] (engine : JsEngine σ α) (host : Host)
    (scripts : List Script) (heap : σ) (ops : List (PauseOp σ)) :
    outcome (Counted.runOps engine host scripts ops) (Pausing.new heap) =
        (⟨⟩, runOps engine host scripts (Pausing.new heap) ops) ∧
      settle 0 (log (Counted.runOps engine host scripts ops) (Pausing.new heap)) =
        some (lost Ref.isEmptyArray
          (log (Counted.runOps engine host scripts ops) (Pausing.new heap))) := by
  have h : Balanced 0 (Counted.runOps engine host scripts ops) _ :=
    balanced_runOps host scripts ops
  refine ⟨h.outcome _, ?_⟩
  have hsettle := h.settles (Pausing.new heap) 0
  rw [add_zero, add_zero, zero_add] at hsettle
  exact hsettle

/-! ## 5. Conditions -/

/-- What `evaluate_condition` asks of the engine besides. -/
structure ConditionEngine (σ α : Type) extends JsEngine σ α where
  newAtom : Bytes → σ → Nat × σ
  newObject : σ → α × σ
  /-- `JS_SetPropertyStr`, `JS_SetProperty` and `JS_DeleteProperty`. -/
  setPropertyStr : α → Bytes → α → σ → σ
  setProperty : α → Nat → α → σ → σ
  deleteProperty : α → Nat → σ → σ
  /-- `JS_ToBool`; negative when it fails. -/
  toBool : σ → α → Int

/-- A call that answers nothing. -/
def act {σ : Type} (f : σ → σ) : StateM σ PUnit := fun heap => (⟨⟩, f heap)

section

variable {σ α : Type} (engine : ConditionEngine σ α)

/-- The script that the condition is wrapped in. -/
def wrappedCondition (expr : Bytes) : Bytes :=
  ascii "with(this.__bp_locals__)\x7b(" ++ expr ++ ascii ")\x7d"

/-- What the script answers; throwing counts as false. -/
def verdict (evalVal : Except (Option Bytes) α) : StateM σ Bool :=
  match evalVal with
  | .ok val => fun heap => (decide (0 < engine.toBool heap val), heap)
  | .error _ => pure false

/-- The object becomes a property of the global object while the script runs. -/
def judge (global : α) (localsAtom : Nat) (localsObj : α) (expr : Bytes) : StateM σ Bool := do
  act (engine.setProperty global localsAtom localsObj)
  let evalVal ← engine.eval (wrappedCondition expr)
  let truthy ← verdict engine evalVal
  act (engine.deleteProperty global localsAtom)
  return truthy

/-- `DebugSession::evaluate_condition`: the verdict, on the heap of the statement. -/
def evaluateConditionIn (expr : Bytes) : StateM σ Bool :=
  if expr = [] then return true
  else do
    let global ← fun heap => (engine.global heap, heap)
    let localsAtom ← engine.newAtom (ascii "__bp_locals__")
    let localsObj ← engine.newObject
    let vars ← fun heap => (engine.locals heap 0, heap)
    (vars.getD []).forM fun v =>
      match v.1 with
      | none => pure ()
      | some name => act (engine.setPropertyStr localsObj name v.2)
    judge engine global localsAtom localsObj expr

namespace Counted

/-- The loop that copies the locals; each value is duplicated for the object that takes it. -/
def bindLocals (localsObj : α) (vars : List (Option Bytes × α)) :
    Counting (Ref α) σ PUnit :=
  vars.forM fun v => do
    use (.locals vars)
    match v.1 with
    | none => pure ()
    | some name =>
      use (.value v.2)
      take (.value v.2)
      use (.value localsObj)
      plain (act (engine.setPropertyStr localsObj name v.2))
      give (.value v.2)

/-- What the script answers, or that it throws. -/
def verdict (evalVal : Except (Option Bytes) α) : Counting (Ref α) σ Bool :=
  match evalVal with
  | .ok val => do
    take (.value val)
    use (.value val)
    let truthy ← plain fun heap => (decide (0 < engine.toBool heap val), heap)
    give (.value val)
    return truthy
  | .error text => do
    take .failed
    take (.exception text)
    give (.exception text)
    give .failed
    return false

/-- The property takes the object over; it is never freed here. -/
def judge (global : α) (localsAtom : Nat) (localsObj : α) (expr : Bytes) :
    Counting (Ref α) σ Bool := do
  use (.value global)
  use (.atom localsAtom)
  plain (act (engine.setProperty global localsAtom localsObj))
  give (.value localsObj)
  let evalVal ← plain (engine.eval (wrappedCondition expr))
  let truthy ← verdict engine evalVal
  use (.value global)
  use (.atom localsAtom)
  plain (act (engine.deleteProperty global localsAtom))
  give (.atom localsAtom)
  give (.value global)
  return truthy

/-- `evaluate_condition` with its references. -/
def evaluateConditionIn (expr : Bytes) : Counting (Ref α) σ Bool :=
  if expr = [] then return true
  else do
    let global ← plain fun heap => (engine.global heap, heap)
    take (.value global)
    let localsAtom ← plain (engine.newAtom (ascii "__bp_locals__"))
    take (.atom localsAtom)
    let localsObj ← plain engine.newObject
    take (.value localsObj)
    let vars ← plain fun heap => (engine.locals heap 0, heap)
    match vars with
    | some vars =>
      take (.locals vars)
      (vars.map fun v => Ref.value v.2).forM take
      bindLocals engine localsObj vars
      (vars.map fun v => Ref.value v.2).forM give
      give (.locals vars)
    | none => pure ()
    judge engine global localsAtom localsObj expr

end Counted

variable {engine}

section

variable [DecidableEq α]

/-- What the debugger has in hand until it frees the array. -/
theorem owns_bindLocals (localsObj : α) (vars : List (Option Bytes × α))
    {pre : Multiset (Ref α)} (hobj : Ref.value localsObj ∈ pre) :
    Owns (fun _ => false)
      (((vars.map fun v => Ref.value v.2 : List (Ref α)) : Multiset (Ref α)) + .locals vars ::ₘ pre)
      (Counted.bindLocals engine localsObj vars)
      (vars.forM fun v =>
        match v.1 with
        | none => pure ()
        | some name => act (engine.setPropertyStr localsObj name v.2))
      fun _ => ((vars.map fun v => Ref.value v.2 : List (Ref α)) : Multiset (Ref α)) +
        .locals vars ::ₘ pre := by
  refine Owns.forM _ fun v hv => Owns.use (by simp) ?_
  cases v.1 with
  | none => exact Owns.pure rfl
  | some name =>
    refine Owns.use (value_mem_array hv pre) (Owns.take rfl (Owns.use (by simp [hobj]) ?_))
    exact Owns.plain fun _ => Owns.give (m := Pure.pure PUnit.unit) (Owns.pure rfl)

theorem owns_verdict (evalVal : Except (Option Bytes) α) (pre : Multiset (Ref α)) :
    Owns (fun _ => false) pre (Counted.verdict engine evalVal) (verdict engine evalVal)
      fun _ => pre := by
  cases evalVal with
  | error text => exact Owns.take rfl (Owns.take rfl (Owns.give (Owns.give (Owns.pure rfl))))
  | ok val =>
    refine Owns.take rfl (Owns.use (by simp) ?_)
    exact Owns.plain fun _ => Owns.give (Owns.pure rfl)

/-- The object goes to the property, and the atom and the global object are freed at the end. -/
theorem owns_judge (global : α) (localsAtom : Nat) (localsObj : α) (expr : Bytes)
    (pre : Multiset (Ref α)) :
    Owns (fun _ => false)
      (.value localsObj ::ₘ .atom localsAtom ::ₘ .value global ::ₘ pre)
      (Counted.judge engine global localsAtom localsObj expr)
      (judge engine global localsAtom localsObj expr) fun _ => pre := by
  refine Owns.use (by simp) (Owns.use (by simp) (Owns.plain fun _ => Owns.give ?_))
  refine Owns.plain fun evalVal => Owns.bind (owns_verdict evalVal _) fun truthy => ?_
  refine Owns.use (by simp) (Owns.use (by simp) (Owns.plain fun _ => ?_))
  exact Owns.give (Owns.give (Owns.pure rfl))

/-- **The condition** frees what it asked for on each path. -/
theorem owns_evaluateConditionIn (expr : Bytes) (pre : Multiset (Ref α)) :
    Owns (fun _ => false) pre (Counted.evaluateConditionIn engine expr)
      (evaluateConditionIn engine expr) fun _ => pre := by
  unfold Counted.evaluateConditionIn evaluateConditionIn
  split
  · exact Owns.pure rfl
  · refine Owns.plain fun global => Owns.take rfl ?_
    refine Owns.plain fun localsAtom => Owns.take rfl ?_
    refine Owns.plain fun localsObj => Owns.take rfl ?_
    refine Owns.plain fun vars => ?_
    cases vars with
    | none => exact owns_judge global localsAtom localsObj expr pre
    | some vars =>
      refine Owns.take rfl (Owns.takes (fun _ _ => rfl) ?_)
      refine Owns.bind (owns_bindLocals localsObj vars (by simp)) fun _ => ?_
      exact Owns.gives (Owns.give (owns_judge global localsAtom localsObj expr pre))

end

end

/-- **The references of a condition.**  Whatever the condition is and however it ends, the debugger
reads and frees only what it owns, and owns nothing in the end that it did not own before. -/
theorem condition_owns_references {σ α : Type} [DecidableEq α] (engine : ConditionEngine σ α)
    (expr : Bytes) (heap : σ) (owned : Multiset (Ref α)) :
    outcome (Counted.evaluateConditionIn engine expr) heap =
        (evaluateConditionIn engine expr).run heap ∧
      settle owned (log (Counted.evaluateConditionIn engine expr) heap) = some owned := by
  have h : Owns _ 0 (Counted.evaluateConditionIn engine expr) _ _ :=
    owns_evaluateConditionIn expr 0
  refine ⟨h.outcome heap, ?_⟩
  have hsettle := h.settles heap owned
  have hlost : lost (fun _ => false) (log (Counted.evaluateConditionIn engine expr) heap) = 0 :=
    lost_eq_zero fun _ _ => rfl
  rw [hlost, add_zero, zero_add] at hsettle
  exact hsettle

end Objects

end QjsDebug
